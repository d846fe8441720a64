/-
  The admission by exact fences: how far a publication or a subscription has
  come, and what one operation does to it.
-/
import Piik.Sfu.Ledger

namespace Piik.Sfu

/-! ## Exact fences -/

/-- The state of the subscription of exactly this fence. -/
def PublicationEntry.subscriptionState (p : PublicationEntry) (f : SubscriptionFence) :
    Option ResourceState :=
  match p.subscriptions.get (subscriptionKey f) with
  | none => none
  | some e => if e.fence = f then some e.state else none

namespace Admission

/-- The state of the publication that a fence names. -/
def publicationState (a : Admission) (fence : ResourceFence) : Option ResourceState :=
  (a.publication fence).map (·.state)

/-- The state of the subscription that a fence names. -/
def subscriptionState (a : Admission) (f : SubscriptionFence) : Option ResourceState :=
  (a.publication f.toResourceFence).bind (·.subscriptionState f)

/-- What an accepted or refused operation does to the exact fences. -/
structure Tracks (a : Admission) (op : Op) (answer : Answer) (a' : Admission) : Prop where
  publicationStays : ∀ F, a.publicationState F = some .draining → op ≠ .completeDrain F →
    a'.publicationState F = some .draining
  subscriptionStays : ∀ f, a.subscriptionState f = some .draining → op ≠ .completeSubscriptionDrain f →
    op ≠ .completeDrain f.toResourceFence → a'.subscriptionState f = some .draining
  publicationDrains : ∀ F, a'.publicationState F = some .draining →
    a.publicationState F = some .draining ∨ op = .beginDrain F ∧ answer.accepted ∨ F ∈ answer.draining
  subscriptionDrains : ∀ f, a'.subscriptionState f = some .draining →
    a.subscriptionState f = some .draining ∨ a'.publicationState f.toResourceFence = some .draining ∨
      op = .beginSubscriptionDrain f ∧ answer.accepted
  drained : ∀ F, op = .beginDrain F ∧ answer.accepted ∨ F ∈ answer.draining →
    a'.publicationState F = some .draining
  subscriptionDrained : ∀ f, op = .beginSubscriptionDrain f → answer.accepted →
    a'.subscriptionState f = some .draining
  publicationCharged : ∀ F, (a.publicationState F).isSome → op ≠ .completeDrain F →
    (a'.publicationState F).isSome
  subscriptionCharged : ∀ f, (a.subscriptionState f).isSome → op ≠ .completeSubscriptionDrain f →
    op ≠ .completeDrain f.toResourceFence → (a'.subscriptionState f).isSome
  completed : ∀ F, op = .completeDrain F → a.publicationState F = some .draining →
    answer.accepted ∧ a'.publicationState F = none ∧
      ∀ f : SubscriptionFence, f.toResourceFence = F → a'.subscriptionState f = none
  subscriptionCompleted : ∀ f, op = .completeSubscriptionDrain f →
    a.subscriptionState f = some .draining → a'.subscriptionState f = none
  refused : ∀ F, op = .completeDrain F → answer.accepted = false → a' = a
  reserved : ∀ F, (a'.publicationState F).isSome → (a.publicationState F).isSome ∨
    op = .reservePublication F

variable {a a' : Admission} {op : Op} {answer : Answer}

/-- An operation that changes nothing and completes nothing. -/
theorem tracks_same (hdrain : ∀ F, op = .beginDrain F → answer.accepted = false)
    (hsub : ∀ f, op = .beginSubscriptionDrain f → answer.accepted = false)
    (hnone : answer.draining = [])
    (hcomplete : ∀ F, op = .completeDrain F → a.publicationState F ≠ some .draining)
    (hcompleteSub : ∀ f, op = .completeSubscriptionDrain f → a.subscriptionState f ≠ some .draining) :
    Tracks a op answer a where
  publicationStays _ h _ := h
  subscriptionStays _ h _ _ := h
  publicationDrains _ h := Or.inl h
  subscriptionDrains _ h := Or.inl h
  drained F h := by
    rcases h with ⟨hop, hacc⟩ | hF
    · simp [hdrain F hop] at hacc
    · simp [hnone] at hF
  subscriptionDrained f hop hacc := by simp [hsub f hop] at hacc
  publicationCharged _ h _ := h
  subscriptionCharged _ h _ _ := h
  completed F hop h := absurd h (hcomplete F hop)
  subscriptionCompleted f hop h := absurd h (hcompleteSub f hop)
  refused _ _ _ := rfl
  reserved _ h := Or.inl h

/-- How an operation that keeps every publication may write to one. -/
structure Writes (op : Op) (answer : Answer) (F : ResourceFence) (p p' : PublicationEntry) : Prop where
  stays : p.state = .draining → p'.state = .draining
  drains : p'.state = .draining →
    p.state = .draining ∨ op = .beginDrain F ∧ answer.accepted ∨ F ∈ answer.draining
  drained : op = .beginDrain F ∧ answer.accepted ∨ F ∈ answer.draining → p'.state = .draining
  subStays : ∀ f : SubscriptionFence, f.toResourceFence = F → p.subscriptionState f = some .draining →
    op ≠ .completeSubscriptionDrain f → p'.subscriptionState f = some .draining
  subDrains : ∀ f : SubscriptionFence, f.toResourceFence = F → p'.subscriptionState f = some .draining →
    p.subscriptionState f = some .draining ∨ p'.state = .draining ∨
      op = .beginSubscriptionDrain f ∧ answer.accepted
  subDrained : ∀ f : SubscriptionFence, f.toResourceFence = F → op = .beginSubscriptionDrain f →
    answer.accepted → p'.subscriptionState f = some .draining
  subCharged : ∀ f : SubscriptionFence, f.toResourceFence = F → (p.subscriptionState f).isSome →
    op ≠ .completeSubscriptionDrain f → (p'.subscriptionState f).isSome
  subCompleted : ∀ f : SubscriptionFence, f.toResourceFence = F → op = .completeSubscriptionDrain f →
    p'.subscriptionState f = none

theorem tracks_of_writes {g : ResourceFence → PublicationEntry → PublicationEntry}
    (hg : ∀ F, a'.publication F = (a.publication F).map (g F))
    (hw : ∀ F p, a.publication F = some p → Writes op answer F p (g F p))
    (hdrained : ∀ F, op = .beginDrain F ∧ answer.accepted ∨ F ∈ answer.draining →
      (a.publication F).isSome)
    (hsubDrained : ∀ f, op = .beginSubscriptionDrain f → answer.accepted →
      (a.publication f.toResourceFence).isSome)
    (hcomplete : ∀ F, op ≠ .completeDrain F) : Tracks a op answer a' := by
  have hpub : ∀ F, a'.publicationState F = (a.publication F).map fun p => (g F p).state := by
    intro F
    rw [publicationState, hg, Option.map_map]
    rfl
  have hsub : ∀ f : SubscriptionFence, a'.subscriptionState f =
      (a.publication f.toResourceFence).bind fun p => (g f.toResourceFence p).subscriptionState f := by
    intro f
    rw [subscriptionState, hg, Option.bind_map]
    rfl
  refine ⟨fun F h _ => ?_, fun f h hop _ => ?_, fun F h => ?_, fun f h => ?_, fun F h => ?_,
    fun f hop hacc => ?_, fun F h _ => ?_, fun f h hop _ => ?_, fun F hop => absurd hop (hcomplete F),
    fun f hop h => ?_, fun F hop => absurd hop (hcomplete F), fun F h => ?_⟩
  · obtain ⟨p, hp, hs⟩ := Option.map_eq_some_iff.1 h
    rw [hpub, hp]
    exact congrArg some ((hw F p hp).stays hs)
  · obtain ⟨p, hp, hs⟩ := Option.bind_eq_some_iff.1 h
    rw [hsub, hp]
    exact (hw _ p hp).subStays f rfl hs hop
  · rw [hpub] at h
    obtain ⟨p, hp, hs⟩ := Option.map_eq_some_iff.1 h
    refine ((hw F p hp).drains hs).imp_left fun hs => ?_
    simp [publicationState, hp, hs]
  · rw [hsub] at h
    obtain ⟨p, hp, hs⟩ := Option.bind_eq_some_iff.1 h
    rw [hpub, hp]
    rcases (hw _ p hp).subDrains f rfl hs with hs | hs | hs
    · left
      simp [subscriptionState, hp, hs]
    · exact Or.inr (Or.inl (congrArg some hs))
    · exact Or.inr (Or.inr hs)
  · obtain ⟨p, hp⟩ := Option.isSome_iff_exists.1 (hdrained F h)
    rw [hpub, hp]
    exact congrArg some ((hw F p hp).drained h)
  · obtain ⟨p, hp⟩ := Option.isSome_iff_exists.1 (hsubDrained f hop hacc)
    rw [hsub, hp]
    exact (hw _ p hp).subDrained f rfl hop hacc
  · rw [hpub]
    simpa [publicationState] using h
  · obtain ⟨state, hs⟩ := Option.isSome_iff_exists.1 h
    obtain ⟨p, hp, hs⟩ := Option.bind_eq_some_iff.1 hs
    rw [hsub, hp]
    exact (hw _ p hp).subCharged f rfl (by simp [hs]) hop
  · obtain ⟨p, hp, -⟩ := Option.bind_eq_some_iff.1 h
    rw [hsub, hp]
    exact (hw _ p hp).subCompleted f rfl hop
  · rw [hpub] at h
    exact Or.inl (by simpa [publicationState] using h)

/-! ## Writing -/

theorem publication_eq (F : ResourceFence) : a.publication F =
    (a.entryAt F.roomID (publicationKey F)).bind fun p => if p.fence = F then some p else none := by
  rw [publication]
  cases a.entryAt F.roomID (publicationKey F) <;> rfl

/-- One publication is written in place. -/
theorem publication_modify {F₀ : ResourceFence} {p : PublicationEntry} (hp : a.publication F₀ = some p)
    {g : PublicationEntry → PublicationEntry} (hg : ∀ p, (g p).fence = p.fence) (egress : Int)
    (F : ResourceFence) :
    ({ a.modifyPublication F₀ g with egressInUse := egress } : Admission).publication F =
      (a.publication F).map fun q => if F = F₀ then g q else q := by
  obtain ⟨room, hr, hget, hfence⟩ := entryAt_of_publication hp
  have hentry : a.entryAt F₀.roomID (publicationKey F₀) = some p := by simp [entryAt, hr, hget]
  rw [publication_eq, entryAt_modifyPublication hp g egress]
  by_cases hF : F = F₀
  · subst hF
    simp [hp, hg, hfence]
  · rw [publication_eq]
    simp only [hF, if_false, Option.map_id']
    by_cases hslot : F.roomID = F₀.roomID ∧ publicationKey F = publicationKey F₀
    · rw [if_pos hslot, hslot.1, hslot.2, hentry]
      simp [hg, hfence, Ne.symm hF]
    · rw [if_neg hslot]

/-- The publications of a room are written in place. -/
theorem publication_rewrite {roomID : String} {room : RoomPublications}
    (hr : a.rooms.get roomID = some room) {g : String → PublicationEntry → PublicationEntry}
    (hg : ∀ key p, (g key p).fence = p.fence) (F : ResourceFence) :
    ({ a with rooms := a.rooms.set roomID (room.mapValues g) } : Admission).publication F =
      (a.publication F).map fun q => if F.roomID = roomID then g (publicationKey F) q else q := by
  have hentry := entryAt_set (a := a) roomID (room.mapValues g) a.ingressInUse a.egressInUse F.roomID
    (publicationKey F)
  rw [publication_eq, publication_eq, hentry]
  by_cases hF : F.roomID = roomID
  · simp only [hF, if_true, OMap.get_mapValues, entryAt, hr]
    cases room.get (publicationKey F) with
    | none => rfl
    | some p =>
      simp only [Option.map_some, Option.bind_some, hg]
      split <;> simp
  · simp [hF]

variable {p : PublicationEntry} {f f₀ : SubscriptionFence}

@[simp] theorem markDraining_subscriptionState :
    (markDraining p).subscriptionState f = (p.subscriptionState f).map fun _ => .draining := by
  simp only [PublicationEntry.subscriptionState, markDraining, OMap.get_mapValues]
  cases p.subscriptions.get (subscriptionKey f) with
  | none => rfl
  | some e =>
    simp only [Option.map_some]
    split <;> rfl

/-- A registered subscription is written in place. -/
theorem subscriptionState_modify {e : SubscriptionEntry} (f : SubscriptionFence) (state : ResourceState)
    (he : p.subscriptions.get (subscriptionKey f₀) = some e) (hf : e.fence = f₀) :
    ({ p with subscriptions := p.subscriptions.modify (subscriptionKey f₀) fun e => { e with state } } :
      PublicationEntry).subscriptionState f = if f = f₀ then some state else p.subscriptionState f := by
  simp only [PublicationEntry.subscriptionState, OMap.get_modify]
  by_cases hk : subscriptionKey f = subscriptionKey f₀
  · simp only [hk, if_true, he, Option.map_some, hf]
    by_cases hff : f = f₀
    · simp [hff]
    · simp [hff, Ne.symm hff]
  · have hff : f ≠ f₀ := fun h => hk (by rw [h])
    simp [hk, hff]

theorem subscriptionState_set {state : ResourceState}
    (he : p.subscriptions.get (subscriptionKey f₀) = none) :
    ({ p with subscriptions := p.subscriptions.set (subscriptionKey f₀) { fence := f₀, state } } :
      PublicationEntry).subscriptionState f = if f = f₀ then some state else p.subscriptionState f := by
  simp only [PublicationEntry.subscriptionState, OMap.get_set]
  by_cases hk : subscriptionKey f = subscriptionKey f₀
  · simp only [hk, if_true, he]
    by_cases hff : f = f₀
    · simp [hff]
    · simp [hff, Ne.symm hff]
  · have hff : f ≠ f₀ := fun h => hk (by rw [h])
    simp [hk, hff]

theorem subscriptionState_delete {e : SubscriptionEntry}
    (he : p.subscriptions.get (subscriptionKey f₀) = some e) (hf : e.fence = f₀) :
    ({ p with subscriptions := p.subscriptions.delete (subscriptionKey f₀) } :
      PublicationEntry).subscriptionState f = if f = f₀ then none else p.subscriptionState f := by
  simp only [PublicationEntry.subscriptionState, OMap.get_delete]
  by_cases hk : subscriptionKey f = subscriptionKey f₀
  · simp only [hk, if_true, he, hf]
    by_cases hff : f = f₀
    · simp [hff]
    · simp [hff, Ne.symm hff]
  · have hff : f ≠ f₀ := fun h => hk (by rw [h])
    simp [hk, hff]

theorem subscription_state {e : SubscriptionEntry} (h : a.subscription f = some e) :
    ∃ p, a.publication f.toResourceFence = some p ∧ p.subscriptions.get (subscriptionKey f) = some e ∧
      e.fence = f ∧ p.subscriptionState f = some e.state := by
  obtain ⟨p, hp, he, hf⟩ := subscription_of_publication h
  exact ⟨p, hp, he, hf, by simp [PublicationEntry.subscriptionState, he, hf]⟩

theorem subscriptionState_eq : a.subscriptionState f = (a.subscription f).map (·.state) := by
  rw [subscriptionState, subscription]
  cases a.publication f.toResourceFence with
  | none => rfl
  | some p =>
    simp only [Option.bind_some, PublicationEntry.subscriptionState]
    cases p.subscriptions.get (subscriptionKey f) with
    | none => rfl
    | some e =>
      simp only
      split <;> rfl

/-! ## Writes -/

/-- A publication that the operation does not touch. -/
theorem writes_same {F : ResourceFence} (hdrain : ¬(op = .beginDrain F ∧ answer.accepted))
    (hdraining : F ∉ answer.draining)
    (hsub : ∀ f : SubscriptionFence, f.toResourceFence = F →
      op ≠ .beginSubscriptionDrain f ∧ op ≠ .completeSubscriptionDrain f) : Writes op answer F p p where
  stays h := h
  drains h := Or.inl h
  drained h := absurd h (not_or.2 ⟨hdrain, hdraining⟩)
  subStays _ _ h _ := h
  subDrains _ _ h := Or.inl h
  subDrained f hf hop := absurd hop (hsub f hf).1
  subCharged _ _ h _ := h
  subCompleted f hf hop := absurd hop (hsub f hf).2

theorem writes_drain {F : ResourceFence} (h : op = .beginDrain F ∧ answer.accepted ∨ F ∈ answer.draining)
    (hsub : ∀ f, op ≠ .beginSubscriptionDrain f ∧ op ≠ .completeSubscriptionDrain f) :
    Writes op answer F p (markDraining p) where
  stays _ := rfl
  drains _ := Or.inr h
  drained _ := rfl
  subStays f _ hs _ := by simp [hs]
  subDrains _ _ _ := Or.inr (Or.inl rfl)
  subDrained f _ hop := absurd hop (hsub f).1
  subCharged f _ hs _ := by simpa using hs
  subCompleted f _ hop := absurd hop (hsub f).2

/-! ## Operations -/

/-- An operation that writes to one publication. -/
theorem tracks_modify {F₀ : ResourceFence} (hp : a.publication F₀ = some p)
    {g : PublicationEntry → PublicationEntry} (hg : ∀ p, (g p).fence = p.fence) (egress : Int)
    (hw : Writes op answer F₀ p (g p)) (hdrain : ∀ F, op = .beginDrain F → F = F₀)
    (hnone : answer.draining = []) (hcomplete : ∀ F, op ≠ .completeDrain F)
    (hsub : ∀ f, op = .beginSubscriptionDrain f ∨ op = .completeSubscriptionDrain f →
      f.toResourceFence = F₀) :
    Tracks a op answer { a.modifyPublication F₀ g with egressInUse := egress } := by
  refine tracks_of_writes (g := fun F q => if F = F₀ then g q else q)
    (publication_modify hp hg egress) (fun F q hq => ?_) (fun F h => ?_) (fun f hop _ => ?_) hcomplete
  · by_cases hF : F = F₀
    · subst hF
      obtain rfl := Option.some.inj (hp.symm.trans hq)
      simpa using hw
    · rw [if_neg hF]
      refine writes_same (fun h => hF (hdrain F h.1)) (by simp [hnone]) fun f hf => ?_
      exact ⟨fun h => hF (hf ▸ hsub f (Or.inl h)), fun h => hF (hf ▸ hsub f (Or.inr h))⟩
  · rcases h with ⟨hop, -⟩ | hF
    · rw [hdrain F hop, hp]
      rfl
    · simp [hnone] at hF
  · rw [hsub f (Or.inl hop), hp]
    rfl

/-- One more publication, filed where there was none. -/
theorem publication_reserved {F₀ : ResourceFence} {p : PublicationEntry}
    (hnone : a.entryAt F₀.roomID (publicationKey F₀) = none) (hf : p.fence = F₀) (ingress : Int)
    (F : ResourceFence) :
    ({ a with
        rooms := a.rooms.set F₀.roomID (((a.rooms.get F₀.roomID).getD .empty).set (publicationKey F₀) p)
        ingressInUse := ingress } : Admission).publication F =
      if F = F₀ then some p else a.publication F := by
  rw [publication_eq, entryAt_set]
  by_cases hF : F = F₀
  · simp [hF, hf]
  · rw [if_neg hF, publication_eq]
    by_cases hroom : F.roomID = F₀.roomID
    · rw [if_pos hroom, OMap.get_set, hroom]
      by_cases hk : publicationKey F = publicationKey F₀
      · rw [if_pos hk, hk, hnone]
        simp [hf, Ne.symm hF]
      · rw [if_neg hk, entryAt]
        cases a.rooms.get F₀.roomID <;> simp
    · rw [if_neg hroom]

theorem tracks_reserved {F₀ : ResourceFence} (hold : a.publication F₀ = none)
    (hnew : ∀ F, a'.publication F = if F = F₀ then some ⟨F₀, .reserved, .empty⟩ else a.publication F) :
    Tracks a (.reservePublication F₀) { accepted := true } a' := by
  have hpub : ∀ F, a'.publicationState F = if F = F₀ then some .reserved else a.publicationState F :=
    fun F => by
      rw [publicationState, hnew]
      split <;> rfl
  have hsub : ∀ f, a'.subscriptionState f = if f.toResourceFence = F₀ then none else
      a.subscriptionState f := fun f => by
    rw [subscriptionState, hnew]
    split
    · simp [PublicationEntry.subscriptionState]
    · rfl
  have hno : ∀ f : SubscriptionFence, f.toResourceFence = F₀ → a.subscriptionState f = none := by
    rintro f rfl
    rw [subscriptionState, hold]
    rfl
  have hnoP : a.publicationState F₀ = none := by rw [publicationState, hold]; rfl
  refine ⟨fun F hF _ => ?_, fun f hf _ _ => ?_, fun F hF => ?_, fun f hf => ?_, by simp, by simp,
    fun F hF _ => ?_, fun f hf _ _ => ?_, by simp, by simp, by simp, fun F hF => ?_⟩
  · rw [hpub, if_neg (by rintro rfl; simp [hnoP] at hF), hF]
  · rw [hsub, if_neg (fun h => by simp [hno f h] at hf), hf]
  · rw [hpub] at hF
    split at hF
    · cases hF
    · exact Or.inl hF
  · rw [hsub] at hf
    split at hf
    · cases hf
    · exact Or.inl hf
  · rw [hpub]
    split
    · rfl
    · exact hF
  · rw [hsub, if_neg fun h => by simp [hno f h] at hf]
    exact hf
  · rw [hpub] at hF
    split at hF
    · next heq => exact Or.inr (by rw [heq])
    · exact Or.inl hF

theorem reservePublication_tracks {F₀ : ResourceFence} {accepted : Bool}
    (h : a.reservePublication F₀ = .ok (accepted, a')) :
    Tracks a (.reservePublication F₀) { accepted } a' := by
  have hsame : Tracks a (.reservePublication F₀) { accepted } a :=
    tracks_same (by simp) (by simp) rfl (by simp) (by simp)
  rw [reservePublication] at h
  cases hv : assertFence F₀ with
  | error e => simp [hv, bind, Except.bind] at h
  | ok _ =>
    simp only [hv, bind, Except.bind] at h
    cases hentry : a.entryAt F₀.roomID (publicationKey F₀) with
    | some existing =>
      simp only [hentry, Except.ok.injEq, Prod.mk.injEq] at h
      exact h.2 ▸ hsame
    | none =>
      simp only [hentry] at h
      split_ifs at h
      · exact (Prod.mk.inj (Except.ok.inj h)).2 ▸ hsame
      · exact (Prod.mk.inj (Except.ok.inj h)).2 ▸ hsame
      · obtain ⟨rfl, rfl⟩ := Prod.mk.inj (Except.ok.inj h)
        have hold : a.publication F₀ = none := by
          rw [publication_eq, hentry]
          rfl
        have hnew := publication_reserved (p := ⟨F₀, .reserved, .empty⟩) hentry rfl (a.ingressInUse + 1)
        exact tracks_reserved hold hnew

theorem writes_reserve {accepted : Bool} (hget : p.subscriptions.get (subscriptionKey f₀) = none) :
    Writes (.reserveSubscription f₀) { accepted } f₀.toResourceFence p { p with
      subscriptions := p.subscriptions.set (subscriptionKey f₀) { fence := f₀, state := .reserved } } := by
  have hnone : p.subscriptionState f₀ = none := by simp [PublicationEntry.subscriptionState, hget]
  refine ⟨id, Or.inl, by simp, fun f _ hs _ => ?_, fun f _ hs => ?_, by simp, fun f _ hs _ => ?_, by simp⟩
  · rw [subscriptionState_set hget, if_neg (by rintro rfl; simp [hnone] at hs), hs]
  · rw [subscriptionState_set hget] at hs
    split at hs
    · cases hs
    · exact Or.inl hs
  · rw [subscriptionState_set hget]
    split
    · rfl
    · exact hs

theorem reserveSubscription_tracks {f₀ : SubscriptionFence} {accepted : Bool}
    (h : a.reserveSubscription f₀ = .ok (accepted, a')) :
    Tracks a (.reserveSubscription f₀) { accepted } a' := by
  have hsame : Tracks a (.reserveSubscription f₀) { accepted } a :=
    tracks_same (by simp) (by simp) rfl (by simp) (by simp)
  rw [reserveSubscription] at h
  cases hv : assertSubscriptionFence f₀ with
  | error e => simp [hv, bind, Except.bind] at h
  | ok _ =>
    simp only [hv, bind, Except.bind] at h
    cases hp : a.publication f₀.toResourceFence with
    | none =>
      simp only [hp] at h
      exact (Prod.mk.inj (Except.ok.inj h)).2 ▸ hsame
    | some p =>
      simp only [hp] at h
      split at h
      · exact (Prod.mk.inj (Except.ok.inj h)).2 ▸ hsame
      · split at h
        · exact (Prod.mk.inj (Except.ok.inj h)).2 ▸ hsame
        · next hget =>
          split at h
          · exact (Prod.mk.inj (Except.ok.inj h)).2 ▸ hsame
          · obtain ⟨rfl, rfl⟩ := Prod.mk.inj (Except.ok.inj h)
            exact tracks_modify hp (fun _ => by rfl) (a.egressInUse + 1) (writes_reserve hget) (by simp) rfl
              (by simp) (by simp)

/-- A registered subscription is moved to another state. -/
theorem setSubscriptionState_tracks {e : SubscriptionEntry} {state : ResourceState} {accepted : Bool}
    (he : a.subscription f₀ = some e) (hkeep : e.state = .draining → state = .draining)
    (hdrains : state = .draining → op = .beginSubscriptionDrain f₀ ∧ accepted)
    (hdrained : op = .beginSubscriptionDrain f₀ → state = .draining)
    (hdrain : ∀ F, op ≠ .beginDrain F) (hcomplete : ∀ F, op ≠ .completeDrain F)
    (hcompleteSub : ∀ f, op ≠ .completeSubscriptionDrain f)
    (hsub : ∀ f, op = .beginSubscriptionDrain f → f = f₀) :
    Tracks a op { accepted } (a.setSubscriptionState f₀ state) := by
  obtain ⟨p, hp, hget, hfence, hstate⟩ := subscription_state he
  have hmod := fun f => subscriptionState_modify f state hget hfence
  have hw : Writes op { accepted } f₀.toResourceFence p { p with
      subscriptions := p.subscriptions.modify (subscriptionKey f₀) fun e => { e with state } } := by
    refine ⟨id, Or.inl, by simp [hdrain], fun f _ hs _ => ?_, fun f _ hs => ?_, fun f _ hop _ => ?_,
      fun f _ hs _ => ?_, fun f _ hop => absurd hop (hcompleteSub f)⟩
    · rw [hmod]
      by_cases hf : f = f₀
      · rw [if_pos hf]
        rw [hf, hstate] at hs
        exact congrArg some (hkeep (Option.some.inj hs))
      · rw [if_neg hf, hs]
    · rw [hmod] at hs
      by_cases hf : f = f₀
      · rw [if_pos hf] at hs
        exact Or.inr (Or.inr (hf ▸ hdrains (Option.some.inj hs)))
      · rw [if_neg hf] at hs
        exact Or.inl hs
    · rw [hmod, if_pos (hsub f hop)]
      exact congrArg some (hdrained (hsub f hop ▸ hop))
    · rw [hmod]
      split
      · rfl
      · exact hs
  exact tracks_modify hp (fun _ => by rfl) a.egressInUse hw (fun F h => absurd h (hdrain F)) rfl hcomplete
    fun f hf => by
      rcases hf with hf | hf
      · rw [hsub f hf]
      · exact absurd hf (hcompleteSub f)

theorem commitSubscription_tracks {accepted : Bool} (h : a.commitSubscription f₀ = .ok (accepted, a')) :
    Tracks a (.commitSubscription f₀) { accepted } a' := by
  have hsame : ∀ b, Tracks a (.commitSubscription f₀) { accepted := b } a := fun b =>
    tracks_same (by simp) (by simp) rfl (by simp) (by simp)
  rw [commitSubscription] at h
  cases hv : assertSubscriptionFence f₀ with
  | error e => simp [hv, bind, Except.bind] at h
  | ok _ =>
    simp only [hv, bind, Except.bind] at h
    split at h
    · next p e _ he =>
      split_ifs at h with _ _ hreserved
      · exact (Prod.mk.inj (Except.ok.inj h)).2 ▸ hsame _
      · exact (Prod.mk.inj (Except.ok.inj h)).2 ▸ hsame _
      · exact (Prod.mk.inj (Except.ok.inj h)).2 ▸ hsame _
      · obtain ⟨rfl, rfl⟩ := Prod.mk.inj (Except.ok.inj h)
        refine setSubscriptionState_tracks he (fun hd => ?_) (by simp) (by simp) (by simp) (by simp)
          (by simp) (by simp)
        simp [hd] at hreserved
    · exact (Prod.mk.inj (Except.ok.inj h)).2 ▸ hsame _

theorem beginSubscriptionDrain_tracks {accepted : Bool}
    (h : a.beginSubscriptionDrain f₀ = .ok (accepted, a')) :
    Tracks a (.beginSubscriptionDrain f₀) { accepted } a' := by
  rw [beginSubscriptionDrain] at h
  cases hv : assertSubscriptionFence f₀ with
  | error e => simp [hv, bind, Except.bind] at h
  | ok _ =>
    simp only [hv, bind, Except.bind] at h
    split at h
    · obtain ⟨rfl, rfl⟩ := Prod.mk.inj (Except.ok.inj h)
      exact tracks_same (by simp) (by simp) rfl (by simp) (by simp)
    · next e he =>
      obtain ⟨rfl, rfl⟩ := Prod.mk.inj (Except.ok.inj h)
      refine setSubscriptionState_tracks he (fun _ => rfl) (by simp) (by simp) (by simp) (by simp)
        (by simp) (fun f hf => ?_)
      cases hf
      rfl

theorem beginDrain_tracks {F₀ : ResourceFence} {accepted : Bool}
    (h : a.beginDrain F₀ = .ok (accepted, a')) : Tracks a (.beginDrain F₀) { accepted } a' := by
  rw [beginDrain] at h
  cases hv : assertFence F₀ with
  | error e => simp [hv, bind, Except.bind] at h
  | ok _ =>
    simp only [hv, bind, Except.bind] at h
    split at h
    · obtain ⟨rfl, rfl⟩ := Prod.mk.inj (Except.ok.inj h)
      exact tracks_same (by simp) (by simp) rfl (by simp) (by simp)
    · next p hp =>
      obtain ⟨rfl, rfl⟩ := Prod.mk.inj (Except.ok.inj h)
      refine tracks_modify hp (fun _ => by rfl) a.egressInUse (writes_drain (by simp) (by simp))
        (fun F hF => ?_) rfl (by simp) (by simp)
      cases hF
      rfl

/-! ### Completing -/

theorem writes_complete {e : SubscriptionEntry} {answer : Answer} (hnone : answer.draining = [])
    (he : p.subscriptions.get (subscriptionKey f₀) = some e) (hf : e.fence = f₀) :
    Writes (.completeSubscriptionDrain f₀) answer f₀.toResourceFence p { p with
      subscriptions := p.subscriptions.delete (subscriptionKey f₀) } := by
  have hdel := fun f => subscriptionState_delete (f := f) he hf
  refine ⟨id, Or.inl, by simp [hnone], fun f _ hs hop => ?_, fun f _ hs => ?_, by simp,
    fun f _ hs hop => ?_, fun f _ hop => ?_⟩
  · rw [hdel, if_neg (fun h => hop (by rw [h])), hs]
  · rw [hdel] at hs
    split at hs
    · cases hs
    · exact Or.inl hs
  · rw [hdel, if_neg (fun h => hop (by rw [h]))]
    exact hs
  · cases hop
    rw [hdel, if_pos rfl]

theorem subtractEgress_eq {count : Int} (h : a.subtractEgress count = .ok a') :
    a' = { a with egressInUse := a.egressInUse - count } := by
  unfold subtractEgress at h
  cases hu : Admission.assertNoUnderflow { a with egressInUse := a.egressInUse - count } with
  | error e => simp [hu, bind, Except.bind] at h
  | ok _ =>
    simp only [hu, bind, Except.bind] at h
    exact (Except.ok.inj h).symm

theorem completeSubscriptionDrain_tracks {accepted : Bool}
    (h : a.completeSubscriptionDrain f₀ = .ok (accepted, a')) :
    Tracks a (.completeSubscriptionDrain f₀) { accepted } a' := by
  have hsame : a.subscriptionState f₀ ≠ some .draining → ∀ b,
      Tracks a (.completeSubscriptionDrain f₀) { accepted := b } a := fun hs b => by
    refine tracks_same (by simp) (by simp) rfl (by simp) fun f hf => ?_
    cases hf
    exact hs
  rw [completeSubscriptionDrain] at h
  cases he : a.subscription f₀ with
  | none =>
    simp only [he] at h
    exact (Prod.mk.inj (Except.ok.inj h)).2 ▸ hsame (by simp [subscriptionState_eq, he]) _
  | some e =>
    simp only [he] at h
    split at h
    · next hs =>
      exact (Prod.mk.inj (Except.ok.inj h)).2 ▸ hsame (by simpa [subscriptionState_eq, he] using hs) _
    · obtain ⟨p, hp, hget, hfence, -⟩ := subscription_state he
      set g : PublicationEntry → PublicationEntry := fun p =>
        { p with subscriptions := p.subscriptions.delete (subscriptionKey f₀) } with hg
      cases hsub : (a.modifyPublication f₀.toResourceFence g).subtractEgress 1 with
      | error e => simp [hsub, bind, Except.bind] at h
      | ok a₁ =>
        simp only [hsub, bind, Except.bind] at h
        obtain ⟨rfl, rfl⟩ := Prod.mk.inj (Except.ok.inj h)
        rw [subtractEgress_eq hsub]
        refine tracks_modify hp (fun _ => by rfl) (a.egressInUse - 1) (writes_complete rfl hget hfence)
          (by simp) rfl (by simp) fun f hf => ?_
        rcases hf with hf | hf
        · cases hf
        · cases hf
          rfl

theorem publication_congr (h : ∀ r key, a'.entryAt r key = a.entryAt r key) (F : ResourceFence) :
    a'.publication F = a.publication F := by
  rw [publication_eq, publication_eq, h]

/-- A room without one of its publications. -/
theorem publication_dropped {F₀ : ResourceFence} {room : RoomPublications}
    (hr : a.rooms.get F₀.roomID = some room) (hp : a.publication F₀ = some p) (ingress egress : Int)
    (F : ResourceFence) :
    ({ a with
        rooms := a.rooms.set F₀.roomID (room.delete (publicationKey F₀))
        ingressInUse := ingress, egressInUse := egress } : Admission).publication F =
      if F = F₀ then none else a.publication F := by
  obtain ⟨room', hr', hget, hfence⟩ := entryAt_of_publication hp
  obtain rfl := Option.some.inj (hr.symm.trans hr')
  rw [publication_eq, entryAt_set]
  by_cases hF : F = F₀
  · simp [hF]
  · rw [if_neg hF, publication_eq]
    by_cases hroom : F.roomID = F₀.roomID
    · rw [if_pos hroom, OMap.get_delete, entryAt, hroom, hr]
      by_cases hk : publicationKey F = publicationKey F₀
      · simp [hk, hget, hfence, Ne.symm hF]
      · simp [hk]
    · rw [if_neg hroom]

/-- The publication is gone, and nothing else. -/
theorem tracks_completed {F₀ : ResourceFence} {answer : Answer} (hacc : answer.accepted)
    (hnone : answer.draining = [])
    (hnew : ∀ F, a'.publication F = if F = F₀ then none else a.publication F) :
    Tracks a (.completeDrain F₀) answer a' := by
  have hpub : ∀ F, a'.publicationState F = if F = F₀ then none else a.publicationState F := fun F => by
    rw [publicationState, hnew]
    split <;> rfl
  have hsub : ∀ f, a'.subscriptionState f = if f.toResourceFence = F₀ then none else
      a.subscriptionState f := fun f => by
    rw [subscriptionState, hnew]
    split <;> rfl
  refine ⟨fun F hF hop => ?_, fun f hf _ hop => ?_, fun F hF => ?_, fun f hf => ?_, by simp [hnone],
    by simp, fun F hF hop => ?_, fun f hf _ hop => ?_, fun F hop hF => ?_, by simp, fun F _ hr => ?_,
    fun F hF => ?_⟩
  · rw [hpub, if_neg (fun h => hop (by rw [h])), hF]
  · rw [hsub, if_neg (fun h => hop (by rw [h])), hf]
  · rw [hpub] at hF
    split at hF
    · cases hF
    · exact Or.inl hF
  · rw [hsub] at hf
    split at hf
    · cases hf
    · exact Or.inl hf
  · rw [hpub, if_neg (fun h => hop (by rw [h]))]
    exact hF
  · rw [hsub, if_neg (fun h => hop (by rw [h]))]
    exact hf
  · cases hop
    refine ⟨hacc, by rw [hpub, if_pos rfl], fun f hf => ?_⟩
    rw [hsub, if_pos hf]
  · simp [hacc] at hr
  · rw [hpub] at hF
    split at hF
    · cases hF
    · exact Or.inl hF

theorem completeDrain_tracks (hl : a.Ledger) {F₀ : ResourceFence} {accepted : Bool}
    (h : a.completeDrain F₀ = .ok (accepted, a')) :
    Tracks a (.completeDrain F₀) { accepted } a' := by
  have hsame : a.publicationState F₀ ≠ some .draining → ∀ b,
      Tracks a (.completeDrain F₀) { accepted := b } a := fun hs b => by
    refine tracks_same (by simp) (by simp) rfl (fun F hF => ?_) (by simp)
    cases hF
    exact hs
  rw [completeDrain] at h
  cases hv : assertFence F₀ with
  | error e => simp [hv, bind, Except.bind] at h
  | ok _ =>
    simp only [hv, bind, Except.bind] at h
    split at h
    · next room p hr hp =>
      split at h
      · next hs =>
        refine (Prod.mk.inj (Except.ok.inj h)).2 ▸ hsame ?_ _
        simpa [publicationState, hp] using hs
      · next hs =>
        have hledger := (completeDrain_accounts hl hr hp (not_not.1 hs)).ledger
        rw [show Admission.subtractEgress { a with
          rooms := a.rooms.set F₀.roomID (room.delete (publicationKey F₀))
          ingressInUse := a.ingressInUse - 1 } p.subscriptions.len = .ok _ from subtractEgress_ok hledger] at h
        dsimp only at h
        rw [hledger.assertNoUnderflow] at h
        dsimp only at h
        obtain ⟨rfl, rfl⟩ := Prod.mk.inj (Except.ok.inj h)
        refine tracks_completed rfl rfl fun F => ?_
        split
        · next hlen =>
          have hset : (a.rooms.set F₀.roomID (room.delete (publicationKey F₀))).get F₀.roomID =
              some (room.delete (publicationKey F₀)) := by simp
          have hentry := (hledger.deleteRoom hset hlen).2
          exact (publication_congr hentry F).trans (publication_dropped hr hp _ _ F)
        · exact publication_dropped hr hp _ _ F
    · next hno =>
      refine (Prod.mk.inj (Except.ok.inj h)).2 ▸ hsame (fun hd => ?_) _
      obtain ⟨p, hp, -⟩ := Option.map_eq_some_iff.1 hd
      obtain ⟨room, hr, -⟩ := entryAt_of_publication hp
      exact hno room p hr hp

/-! ### Draining rooms -/

/-- These publications drain, with all their subscriptions. -/
structure Drained (a : Admission) (fences : List ResourceFence) (a' : Admission) : Prop where
  publication : ∀ F, a'.publicationState F = if F ∈ fences then some .draining else a.publicationState F
  registered : ∀ F ∈ fences, (a.publicationState F).isSome
  subscription : ∀ f, a'.subscriptionState f = if f.toResourceFence ∈ fences then
    (a.subscriptionState f).map fun _ => .draining else a.subscriptionState f

theorem Drained.nil (a : Admission) : Drained a [] a := ⟨by simp, by simp, by simp⟩

theorem Drained.append {a'' : Admission} {l l' : List ResourceFence} (h : Drained a l a')
    (h' : Drained a' l' a'') : Drained a (l ++ l') a'' := by
  refine ⟨fun F => ?_, fun F hF => ?_, fun f => ?_⟩
  · rw [h'.publication, h.publication]
    by_cases hF : F ∈ l' <;> by_cases hF' : F ∈ l <;> simp [hF, hF']
  · rcases List.mem_append.1 hF with hF | hF
    · exact h.registered F hF
    · have hreg := h'.registered F hF
      rw [h.publication] at hreg
      split at hreg
      · next hF' => exact h.registered F hF'
      · exact hreg
  · rw [h'.subscription, h.subscription]
    by_cases hF : f.toResourceFence ∈ l' <;> by_cases hF' : f.toResourceFence ∈ l <;>
      simp [hF, hF', Option.map_map, Function.comp_def]

/-- An operation that drains what it answers. -/
theorem Drained.tracks (h : Drained a answer.draining a') (hdrain : ∀ F, op ≠ .beginDrain F)
    (hsub : ∀ f, op ≠ .beginSubscriptionDrain f) (hcomplete : ∀ F, op ≠ .completeDrain F)
    (hcompleteSub : ∀ f, op ≠ .completeSubscriptionDrain f) : Tracks a op answer a' where
  publicationStays F hF _ := by
    rw [h.publication]
    split
    · rfl
    · exact hF
  subscriptionStays f hf _ _ := by
    rw [h.subscription, hf]
    split <;> rfl
  publicationDrains F hF := by
    rw [h.publication] at hF
    split at hF
    · next hm => exact Or.inr (Or.inr hm)
    · exact Or.inl hF
  subscriptionDrains f hf := by
    rw [h.subscription] at hf
    split at hf
    · next hm => exact Or.inr (Or.inl (by rw [h.publication, if_pos hm]))
    · exact Or.inl hf
  drained F hF := by
    rcases hF with ⟨hop, -⟩ | hF
    · exact absurd hop (hdrain F)
    · rw [h.publication, if_pos hF]
  subscriptionDrained f hop := absurd hop (hsub f)
  publicationCharged F hF _ := by
    rw [h.publication]
    split
    · rfl
    · exact hF
  subscriptionCharged f hf _ _ := by
    rw [h.subscription]
    split
    · simpa using hf
    · exact hf
  completed F hop := absurd hop (hcomplete F)
  subscriptionCompleted f hop := absurd hop (hcompleteSub f)
  refused F hop := absurd hop (hcomplete F)
  reserved F hF := by
    rw [h.publication] at hF
    split at hF
    · next hm => exact Or.inl (h.registered F hm)
    · exact Or.inl hF

/-- The publications of a room, by their own fences. -/
theorem mem_room_fences (hl : a.Ledger) {roomID : String} {room : RoomPublications}
    (hr : a.rooms.get roomID = some room) {F : ResourceFence} :
    (∃ p ∈ room.values, p.fence = F) ↔ F.roomID = roomID ∧ (a.publication F).isSome := by
  constructor
  · rintro ⟨p, hp, rfl⟩
    obtain ⟨key, hget⟩ := OMap.mem_values.1 hp
    have hfiled := (hl.rooms _ _ hr).2.filed key p hget
    refine ⟨hfiled.room, ?_⟩
    rw [publication_eq, entryAt, hfiled.room, hr]
    simp [hfiled.key, hget]
  · rintro ⟨rfl, hp⟩
    obtain ⟨p, hp⟩ := Option.isSome_iff_exists.1 hp
    obtain ⟨room', hr', hget, hfence⟩ := entryAt_of_publication hp
    obtain rfl := Option.some.inj (hr.symm.trans hr')
    exact ⟨p, OMap.mem_values.2 ⟨_, hget⟩, hfence⟩

theorem drained_room (hl : a.Ledger) {roomID : String} {room : RoomPublications}
    (hr : a.rooms.get roomID = some room) : Drained a
      ((room.mapValues fun _ => markDraining).values.map fun p => p.fence)
      { a with rooms := a.rooms.set roomID (room.mapValues fun _ => markDraining) } := by
  have hmem : ∀ F, F ∈ (room.mapValues fun _ => markDraining).values.map (fun p => p.fence) ↔
      F.roomID = roomID ∧ (a.publication F).isSome := fun F => by
    rw [← mem_room_fences hl hr]
    simp only [OMap.values, OMap.mapValues, List.mem_map]
    constructor
    · rintro ⟨-, ⟨-, ⟨e, he, rfl⟩, rfl⟩, hf⟩
      exact ⟨e.2, ⟨e, he, rfl⟩, hf⟩
    · rintro ⟨p, ⟨e, he, rfl⟩, hf⟩
      exact ⟨_, ⟨_, ⟨e, he, rfl⟩, rfl⟩, hf⟩
  have hpub := publication_rewrite hr (g := fun _ => markDraining) (fun _ _ => rfl)
  refine ⟨fun F => ?_, fun F hF => ?_, fun f => ?_⟩
  · rw [publicationState, hpub, publicationState]
    simp only [hmem]
    cases a.publication F with
    | none => simp
    | some p => by_cases hF : F.roomID = roomID <;> simp [hF, markDraining]
  · simpa [publicationState] using ((hmem F).1 hF).2
  · rw [subscriptionState, hpub, subscriptionState]
    simp only [hmem]
    cases a.publication f.toResourceFence with
    | none => simp
    | some p => by_cases hF : f.roomID = roomID <;> simp [hF]

theorem beginDrainRoom_drained (hl : a.Ledger) {roomID : String} {fences : List ResourceFence}
    (h : a.beginDrainRoom roomID = .ok (fences, a')) : Drained a fences a' ∧ a'.Ledger := by
  rw [beginDrainRoom] at h
  split at h
  · cases h
  · split at h
    · obtain ⟨rfl, rfl⟩ := Prod.mk.inj (Except.ok.inj h)
      exact ⟨.nil a, hl⟩
    · next room hr =>
      obtain ⟨rfl, rfl⟩ := Prod.mk.inj (Except.ok.inj h)
      have hq : Op.Quiet (.beginDrainRoom roomID) := ⟨rfl, fun _ => rfl⟩
      exact ⟨drained_room hl hr, (beginDrainRoom_accounts hl hr hq : Accounts a _ {} _).ledger⟩

theorem drainRooms_drained : ∀ (roomIDs : List String) {a a' : Admission} {fences : List ResourceFence},
    a.Ledger → a.drainRooms roomIDs = .ok (fences, a') → Drained a fences a'
  | [], a, a', fences, _, h => by
    obtain ⟨rfl, rfl⟩ := Prod.mk.inj (Except.ok.inj h)
    exact .nil a
  | roomID :: roomIDs, a, a', fences, hl, h => by
    unfold drainRooms at h
    cases h₁ : a.beginDrainRoom roomID with
    | error e => simp [h₁, bind, Except.bind] at h
    | ok r₁ =>
      obtain ⟨fences₁, a₁⟩ := r₁
      simp only [h₁, bind, Except.bind] at h
      obtain ⟨hd₁, hl₁⟩ := beginDrainRoom_drained hl h₁
      cases h₂ : a₁.drainRooms roomIDs with
      | error e => simp [h₂] at h
      | ok r₂ =>
        obtain ⟨fences₂, a₂⟩ := r₂
        simp only [h₂] at h
        obtain ⟨rfl, rfl⟩ := Prod.mk.inj (Except.ok.inj h)
        exact hd₁.append (drainRooms_drained roomIDs hl₁ h₂)

/-! ### Committing a publication -/

theorem promote_subscriptionState : (promote p).subscriptionState f =
    (p.subscriptionState f).map fun state => if state = .reserved then .committed else state := by
  simp only [PublicationEntry.subscriptionState, promote, OMap.get_mapValues]
  cases p.subscriptions.get (subscriptionKey f) with
  | none => rfl
  | some e =>
    simp only [Option.map_some]
    by_cases he : e.state = .reserved
    · by_cases hf : e.fence = f <;> simp [he, hf]
    · by_cases hf : e.fence = f <;> simp [he, hf]

theorem writes_promote {F : ResourceFence} (hreserved : p.state = .reserved)
    (hop : ∀ F, op ≠ .beginDrain F) (hsub : ∀ f, op ≠ .beginSubscriptionDrain f)
    (hcompleteSub : ∀ f, op ≠ .completeSubscriptionDrain f) (hF : F ∉ answer.draining) :
    Writes op answer F p (promote p) where
  stays h := by simp [hreserved] at h
  drains h := by simp [promote] at h
  drained h := by
    rcases h with ⟨h, -⟩ | h
    · exact absurd h (hop F)
    · exact absurd h hF
  subStays f _ hs _ := by
    rw [promote_subscriptionState, hs]
    rfl
  subDrains f _ hs := by
    rw [promote_subscriptionState] at hs
    obtain ⟨state, hstate, hs⟩ := Option.map_eq_some_iff.1 hs
    split at hs
    · cases hs
    · exact Or.inl (hs ▸ hstate)
  subDrained f _ h := absurd h (hsub f)
  subCharged f _ hs _ := by
    rw [promote_subscriptionState]
    simpa using hs
  subCompleted f _ h := absurd h (hcompleteSub f)

theorem commitPublication_tracks (hl : a.Ledger) {F₀ : ResourceFence} {fences : List ResourceFence}
    {accepted : Bool} (h : a.commitPublication F₀ = .ok ((fences, accepted), a')) :
    Tracks a (.commitPublication F₀) { accepted, draining := fences } a' := by
  have hsame : ∀ b, Tracks a (.commitPublication F₀) { accepted := b, draining := [] } a := fun b =>
    tracks_same (by simp) (by simp) rfl (by simp) (by simp)
  rw [commitPublication] at h
  cases hv : assertFence F₀ with
  | error e => simp [hv, bind, Except.bind] at h
  | ok _ =>
    simp only [hv, bind, Except.bind] at h
    split at h
    · next room p hr hp =>
      split_ifs at h with _ hreserved
      · cases h
        exact hsame _
      · cases h
        exact hsame _
      · cases h
        exact hsame _
      · cases h
        have hreserved : p.state = .reserved := not_not.1 hreserved
        obtain ⟨room', hr', hget, hfence⟩ := entryAt_of_publication hp
        obtain rfl := Option.some.inj (hr.symm.trans hr')
        set older := (room.entries.filter fun e =>
          e.1 ≠ publicationKey F₀ && e.2.state == .committed).map fun e => e.2.fence with holder
        -- a fence drains when its publication is another committed one of the room
        have hmem : ∀ F, F ∈ older ↔ ∃ q, a.publication F = some q ∧ F.roomID = F₀.roomID ∧
            publicationKey F ≠ publicationKey F₀ ∧ q.state = .committed := by
          intro F
          simp only [holder, List.mem_map, List.mem_filter, Bool.and_eq_true, decide_eq_true_eq,
            beq_iff_eq]
          constructor
          · rintro ⟨⟨key, q⟩, ⟨hm, hne, hq⟩, rfl⟩
            have hgq : room.get key = some q := OMap.get_eq_some.2 hm
            have hfiled := (hl.rooms _ _ hr).2.filed key q hgq
            refine ⟨q, ?_, hfiled.room, by rwa [hfiled.key], hq⟩
            rw [publication_eq, entryAt, hfiled.room, hr]
            simp [hfiled.key, hgq]
          · rintro ⟨q, hq, hroom, hne, hs⟩
            obtain ⟨room', hr', hgq, hfq⟩ := entryAt_of_publication hq
            rw [hroom] at hr'
            obtain rfl := Option.some.inj (hr.symm.trans hr')
            exact ⟨⟨publicationKey F, q⟩, ⟨OMap.get_eq_some.1 hgq, hne, hs⟩, hfq⟩
        refine tracks_of_writes (publication_rewrite hr fun key q => ?_) (fun F q hq => ?_)
          (fun F hF => ?_) (by simp) (by simp)
        · split
          · rfl
          · split <;> rfl
        · by_cases hroom : F.roomID = F₀.roomID
          · rw [if_pos hroom]
            by_cases hk : publicationKey F = publicationKey F₀
            · rw [if_pos hk]
              obtain ⟨room', hr', hgq, hfq⟩ := entryAt_of_publication hq
              rw [hroom] at hr'
              obtain rfl := Option.some.inj (hr.symm.trans hr')
              rw [hk, hget] at hgq
              obtain rfl := Option.some.inj hgq
              refine writes_promote hreserved (by simp) (by simp) (by simp) fun hm => ?_
              obtain ⟨_, -, -, hne, -⟩ := (hmem F).1 hm
              exact hne hk
            · rw [if_neg hk]
              split
              · next hs =>
                exact writes_drain (Or.inr ((hmem F).2 ⟨q, hq, hroom, hk, hs⟩)) (by simp)
              · next hs =>
                refine writes_same (by simp) (fun hm => ?_) (by simp)
                obtain ⟨q', hq', -, -, hs'⟩ := (hmem F).1 hm
                obtain rfl := Option.some.inj (hq.symm.trans hq')
                exact hs hs'
          · rw [if_neg hroom]
            refine writes_same (by simp) (fun hm => ?_) (by simp)
            obtain ⟨_, -, hroom', -⟩ := (hmem F).1 hm
            exact hroom hroom'
        · rcases hF with ⟨hop, -⟩ | hF
          · cases hop
          · obtain ⟨q, hq, -⟩ := (hmem F).1 hF
            simp [hq]
    · cases h
      exact hsame _

/-! ## Every operation -/

/-- **What one operation does to the exact fences.** -/
theorem step_tracks (hl : a.Ledger) (h : a.step op = .ok (answer, a')) : Tracks a op answer a' := by
  have hok : ∀ {α : Type} {x : Except Fault α} {f : α → Answer × Admission},
      f <$> x = .ok (answer, a') → ∃ r, x = .ok r ∧ f r = (answer, a') := by
    intro α x f hx
    cases x with
    | error e => cases hx
    | ok r => exact ⟨r, rfl, Except.ok.inj hx⟩
  cases op with
  | reservePublication F =>
    obtain ⟨⟨b, a₁⟩, hr, hf⟩ := hok h
    cases hf
    exact reservePublication_tracks hr
  | reserveSubscription f =>
    obtain ⟨⟨b, a₁⟩, hr, hf⟩ := hok h
    cases hf
    exact reserveSubscription_tracks hr
  | commitPublication F =>
    obtain ⟨⟨⟨l, b⟩, a₁⟩, hr, hf⟩ := hok h
    cases hf
    exact commitPublication_tracks hl hr
  | commitSubscription f =>
    obtain ⟨⟨b, a₁⟩, hr, hf⟩ := hok h
    cases hf
    exact commitSubscription_tracks hr
  | beginSubscriptionDrain f =>
    obtain ⟨⟨b, a₁⟩, hr, hf⟩ := hok h
    cases hf
    exact beginSubscriptionDrain_tracks hr
  | beginDrain F =>
    obtain ⟨⟨b, a₁⟩, hr, hf⟩ := hok h
    cases hf
    exact beginDrain_tracks hr
  | completeSubscriptionDrain f =>
    obtain ⟨⟨b, a₁⟩, hr, hf⟩ := hok h
    cases hf
    exact completeSubscriptionDrain_tracks hr
  | completeDrain F =>
    obtain ⟨⟨b, a₁⟩, hr, hf⟩ := hok h
    cases hf
    exact completeDrain_tracks hl hr
  | beginDrainRoom roomID =>
    obtain ⟨⟨l, a₁⟩, hr, hf⟩ := hok h
    cases hf
    exact (beginDrainRoom_drained hl hr).1.tracks (by simp) (by simp) (by simp) (by simp)
  | beginDrainAll =>
    obtain ⟨⟨l, a₁⟩, hr, hf⟩ := hok h
    cases hf
    exact (drainRooms_drained _ hl hr).tracks (by simp) (by simp) (by simp) (by simp)

/-! ## What does not panic -/

theorem valid_of_assertFence {F : ResourceFence} (h : assertFence F = .ok ()) : F.Valid := by
  unfold assertFence at h
  split at h
  · cases h
  · next hne =>
    simp only [Bool.or_eq_true, decide_eq_true_eq, not_or] at hne
    exact ⟨hne.1.1, hne.1.2, hne.2⟩

theorem valid_of_assertSubscriptionFence {f : SubscriptionFence}
    (h : assertSubscriptionFence f = .ok ()) : f.Valid := by
  unfold assertSubscriptionFence at h
  cases hF : assertFence f.toResourceFence with
  | error e =>
    rw [hF] at h
    cases h
  | ok _ =>
    rw [hF] at h
    refine ⟨valid_of_assertFence hF, fun hv => ?_⟩
    simp [bind, Except.bind, hv] at h

/-- What comes first in an operation that does not panic does not panic. -/
theorem first_ok {α : Type} {x : Except Fault Unit} {k : Unit → Except Fault α}
    {g : α → Answer × Admission} (h : g <$> (x >>= k) = .ok (answer, a')) : x = .ok () := by
  cases x with
  | error e => cases h
  | ok _ => rfl

/-- An operation that does not panic was called on a valid fence. -/
theorem valid_of_step (h : a.step op = .ok (answer, a')) : op.Valid := by
  cases op with
  | reservePublication F => exact valid_of_assertFence (first_ok h)
  | reserveSubscription f => exact valid_of_assertSubscriptionFence (first_ok h)
  | commitPublication F => exact valid_of_assertFence (first_ok h)
  | commitSubscription f => exact valid_of_assertSubscriptionFence (first_ok h)
  | beginSubscriptionDrain f => exact valid_of_assertSubscriptionFence (first_ok h)
  | beginDrain F => exact valid_of_assertFence (first_ok h)
  | completeSubscriptionDrain f => trivial
  | completeDrain F => exact valid_of_assertFence (first_ok h)
  | beginDrainRoom roomID =>
    intro hroom
    simp [step, beginDrainRoom, hroom] at h
  | beginDrainAll => trivial

/-- What is charged has a valid fence. -/
theorem step_valid (hl : a.Ledger) (h : a.step op = .ok (answer, a'))
    (hv : ∀ F, (a.publicationState F).isSome → F.Valid) (F : ResourceFence)
    (hF : (a'.publicationState F).isSome) : F.Valid := by
  rcases (step_tracks hl h).reserved F hF with hF | rfl
  · exact hv F hF
  · exact valid_of_step h

theorem step_ledger (hl : a.Ledger) (h : a.step op = .ok (answer, a')) : a'.Ledger := by
  obtain ⟨answer', a'', h', hacc⟩ := (valid_of_step h).proceeds hl
  cases h.symm.trans h'
  exact hacc.ledger

/-! ## What is accepted -/

theorem ofAccepted_ok {x : Except Fault (Bool × Admission)} (h : ofAccepted <$> x = .ok (answer, a')) :
    x = .ok (answer.accepted, a') ∧ answer.draining = [] := by
  cases x with
  | error e => cases h
  | ok r =>
    cases h
    exact ⟨rfl, rfl⟩

/-- An accepted publication is charged. -/
theorem reservePublication_charged {F : ResourceFence} (h : a.reservePublication F = .ok (true, a')) :
    (a'.publicationState F).isSome := by
  rw [reservePublication] at h
  cases hv : assertFence F with
  | error e => simp [hv, bind, Except.bind] at h
  | ok _ =>
    simp only [hv, bind, Except.bind] at h
    cases hentry : a.entryAt F.roomID (publicationKey F) with
    | some existing =>
      simp only [hentry, Except.ok.injEq, Prod.mk.injEq, Bool.and_eq_true, decide_eq_true_eq] at h
      obtain ⟨⟨-, hf⟩, rfl⟩ := h
      simp [publicationState, publication_eq, hentry, hf]
    | none =>
      simp only [hentry] at h
      split_ifs at h
      · cases h
      · cases h
      · obtain rfl := (Prod.mk.inj (Except.ok.inj h)).2
        rw [publicationState, publication_reserved (p := ⟨F, .reserved, .empty⟩) hentry rfl, if_pos rfl]
        rfl

/-- A charged publication can begin to drain. -/
theorem beginDrain_accepted {F : ResourceFence} {accepted : Bool}
    (h : a.beginDrain F = .ok (accepted, a')) (hc : (a.publicationState F).isSome) : accepted = true := by
  rw [beginDrain] at h
  cases hv : assertFence F with
  | error e => simp [hv, bind, Except.bind] at h
  | ok _ =>
    simp only [hv, bind, Except.bind] at h
    split at h
    · next hp => simp [publicationState, hp] at hc
    · exact (Prod.mk.inj (Except.ok.inj h)).1.symm

end Admission

end Piik.Sfu
