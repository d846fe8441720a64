/-
  Runs of the SFU's drains: what is charged is freed by a close of it that
  succeeded, and by nothing else; and a publication's drain ends after every
  close of its pictures, unless one was retired while it was in flight.
-/
import Piik.Signal.Charges

namespace Piik.Signal.Drains

open Sfu Function

variable {s s' : State} {key : SubscriptionFence} {F : ResourceFence} {t o : ℕ}

/-! ## Settling -/

/-- A settled drain is a failed one, one whose task is no longer registered, or
    one that frees what its key stands for. -/
def Settled (s : State) (o : ℕ) (ok : Bool) (s' : State) : Prop :=
  ok = false ∧ s' = s.finish o false ∨
  ok = true ∧ s.sfuDrainTasks.get (s.operations o).key ≠ some (s.operations o).task ∧
    s' = s.finish o true ∨
  ok = true ∧ s.sfuDrainTasks.get (s.operations o).key = some (s.operations o).task ∧
    ∃ a', Frees s.admission (s.operations o).key a' ∧
      s' = { s.finish o true with
        admission := a', sfuDrainTasks := s.sfuDrainTasks.delete (s.operations o).key }

/-- The admission does not panic, and it accepts what the drains complete. -/
theorem settleSfuDrain_frees (h : Sound [] s) (hk : s.sfuDrainTasks.get key = some t) :
    ∃ a', Frees s.admission key a' ∧ s.settleSfuDrain key t true =
      .ok (true, { s with admission := a', sfuDrainTasks := s.sfuDrainTasks.delete key }) := by
  have hkind := h.kind_registered hk
  have hf := (h.registered key t hk).2
  unfold State.settleSfuDrain
  rw [if_neg (by simp), if_neg (not_not.2 hk)]
  cases hkey : kindOf key with
  | publication =>
    rw [hkey] at hkind
    have heq := eq_publicationFence hkey
    have hd : s.admission.publicationState key.toResourceFence = some .draining := by
      rw [heq] at hk
      exact h.draining _ t hk
    have hv : key.toResourceFence.Valid := h.valid _ (by simp [hd])
    obtain ⟨answer, a', hs, -⟩ : s.admission.Proceeds (.completeDrain key.toResourceFence) :=
      Admission.Op.Valid.proceeds h.ledger hv
    obtain ⟨hacc, hfrees⟩ := frees_publication h.ledger hs hd
    rw [← heq] at hfrees
    refine ⟨a', hfrees, ?_⟩
    simp only [hkind, hf, hs, bind, Except.bind, hacc, if_true]
  | subscription =>
    rw [hkey] at hkind
    obtain ⟨hd, -⟩ := h.subscriptionDraining key t hkey hk
    obtain ⟨answer, a', hs, -⟩ : s.admission.Proceeds (.completeSubscriptionDrain key) :=
      Admission.Op.Valid.proceeds h.ledger trivial
    refine ⟨a', frees_subscription h.ledger hkey hs hd, ?_⟩
    simp only [hkind, hf, hs, bind, Except.bind]
  | videoPublication =>
    rw [hkey] at hkind
    refine ⟨_, frees_same h.ledger (by simp [hkey]) (by simp [hkey]), ?_⟩
    simp only [hkind]
  | voice =>
    rw [hkey] at hkind
    refine ⟨_, frees_same h.ledger (by simp [hkey]) (by simp [hkey]), ?_⟩
    simp only [hkind]

/-- A close that has returned, its joined closes done, is settled. -/
theorem settle_outcome (h : Sound [] s) (ho : s.Pending o) {closed joined : Bool}
    (hc : (s.operations o).closed = some closed) (hj : s.joined (s.operations o) = some joined) :
    ∃ s', s.settle o = some s' ∧ Settled s o (closed && joined) s' := by
  have hsettle : ∀ done s₁, s.settleSfuDrain (s.operations o).key (s.operations o).task
      (closed && joined) = .ok (done, s₁) → s.settle o = some (s₁.finish o done) := by
    intro done s₁ hs₁
    refine Eq.trans (if_pos ⟨ho.1, ho.2⟩) ?_
    simp only [hc, hj, hs₁]
  cases hok : closed && joined with
  | false =>
    refine ⟨s.finish o false, hsettle false s ?_, Or.inl ⟨rfl, rfl⟩⟩
    rw [hok]
    simp [State.settleSfuDrain]
  | true =>
    by_cases hk : s.sfuDrainTasks.get (s.operations o).key = some (s.operations o).task
    · obtain ⟨a', hfrees, hs⟩ := settleSfuDrain_frees h hk
      have hsettled := hsettle _ _ ((congrArg (s.settleSfuDrain _ _) hok).trans hs)
      exact ⟨_, hsettled, Or.inr (Or.inr ⟨rfl, hk, a', hfrees, rfl⟩)⟩
    · refine ⟨s.finish o true, hsettle true s ?_, Or.inr (Or.inl ⟨rfl, hk, rfl⟩)⟩
      rw [hok]
      simp [State.settleSfuDrain, hk]

theorem settle_cases (h : Sound [] s) (hs : s.settle o = some s') :
    s.Pending o ∧ ∃ closed joined, (s.operations o).closed = some closed ∧
      s.joined (s.operations o) = some joined ∧ Settled s o (closed && joined) s' := by
  have hstuck : s.Pending o ∧ ∃ closed joined, (s.operations o).closed = some closed ∧
      s.joined (s.operations o) = some joined := by
    unfold State.settle at hs
    dsimp only at hs
    split at hs
    · next ho =>
      refine ⟨ho, ?_⟩
      split at hs
      · next closed joined hc hj => exact ⟨closed, joined, hc, hj⟩
      · cases hs
    · cases hs
  obtain ⟨ho, closed, joined, hc, hj⟩ := hstuck
  obtain ⟨s₁, hs₁, hsettled⟩ := settle_outcome h ho hc hj
  obtain rfl := Option.some.inj (hs₁.symm.trans hs)
  exact ⟨ho, closed, joined, hc, hj, hsettled⟩

theorem Sound.settled (h : Sound [] s) (ho : s.Pending o) {ok : Bool} (hs : Settled s o ok s') :
    Sound [] s' := by
  rcases hs with ⟨-, rfl⟩ | ⟨-, hk, rfl⟩ | ⟨-, hk, a', hfrees, rfl⟩
  · exact h.finish ho (by simp)
  · exact h.finish ho fun _ hk' => absurd hk' hk
  · have hfinish : Sound [(s.operations o).key] (s.finish o true) :=
      h.finish ho fun _ _ => List.mem_singleton_self _
    refine hfinish.complete ⟨_, hk⟩ (fun o' ho' hkind hkey => ?_) hfrees
    obtain ⟨hp, hne⟩ := finish_pending.1 ho'
    rw [(finish_operation o').2.1] at hkey
    have hk' := h.kept o' hp (by rw [hkey]; exact hkind)
    rw [hkey, hk] at hk'
    exact hne (h.one_pending hp ho (Option.some.inj hk').symm)

/-! ## The events -/

/-- A video close is retired, a close returns, a drain settles, or nothing that is
    registered or charged changes. -/
theorem step_cases (h : Sound [] s) {e : Event} (hs : s.step e = some s') :
    Sound [] s' ∧ Quiet s s' ∨
    (∃ F connectionID, e = .retireVideo F connectionID ∧ s.publications.get F = some connectionID ∧
      s' = s.retireSfuVideoPublication F connectionID) ∨
    (∃ o ok, e = .closed o ok ∧ s.close o ok = some s') ∨ ∃ o, e = .settle o ∧ s.settle o = some s' := by
  cases e with
  | prepareNewPublication fence => exact Or.inl (prepareNewPublication_sound h hs)
  | reserveSubscription fence =>
    obtain ⟨⟨answer, s₁⟩, hadmit, rfl⟩ := Option.map_eq_some_iff.1 hs
    obtain ⟨a', hstep, -⟩ := admit_ok hadmit
    exact Or.inl (admit_sound h hadmit (by simp) (by simp) (by simp) (by simp)
      (Admission.ofAccepted_ok hstep).2)
  | commitSubscription fence =>
    obtain ⟨⟨answer, s₁⟩, hadmit, rfl⟩ := Option.map_eq_some_iff.1 hs
    obtain ⟨a', hstep, -⟩ := admit_ok hadmit
    exact Or.inl (admit_sound h hadmit (by simp) (by simp) (by simp) (by simp)
      (Admission.ofAccepted_ok hstep).2)
  | commitPublication fence =>
    exact Or.inl (drainAnswered_sound h hs (by simp) (by simp) (by simp) (by simp))
  | releasePublication fence => exact Or.inl (releasePublication_sound h hs)
  | releaseSubscription fence => exact Or.inl (releaseSubscription_sound h hs)
  | clearRoom roomID => exact Or.inl (drainAnswered_sound h hs (by simp) (by simp) (by simp) (by simp))
  | shutdown => exact Or.inl (drainAnswered_sound h hs (by simp) (by simp) (by simp) (by simp))
  | retry key =>
    obtain ⟨t, hk, rfl⟩ := Option.map_eq_some_iff.1 hs
    exact Or.inl (retry_sound h hk)
  | preparePublication fence connectionID => exact Or.inl (preparePublication_sound h hs)
  | retireVideo F connectionID =>
    obtain rfl := Option.some.inj hs
    by_cases hp : s.publications.get F = some connectionID
    · exact Or.inr (Or.inl ⟨F, connectionID, rfl, hp, rfl⟩)
    · left
      unfold State.retireSfuVideoPublication
      rw [if_neg hp]
      exact ⟨h, Quiet.refl s⟩
  | closeVoice roomID edgeID =>
    simp only [State.step] at hs
    split at hs
    · cases hs
    · next he =>
      obtain rfl := Option.some.inj hs
      exact Or.inl (closeVoiceEdge_sound h he)
  | closed o ok => exact Or.inr (Or.inr (Or.inl ⟨o, ok, rfl, hs⟩))
  | settle o => exact Or.inr (Or.inr (Or.inr ⟨o, rfl, hs⟩))

/-- **Every event keeps the invariant.** -/
theorem Sound.step (h : Sound [] s) {e : Event} (hs : s.step e = some s') : Sound [] s' := by
  rcases step_cases h hs with ⟨hsound, -⟩ | ⟨F, connectionID, -, hp, rfl⟩ | ⟨o, ok, -, hs⟩ | ⟨o, -, hs⟩
  · exact hsound
  · exact (retire_sound h hp).1
  · exact h.close hs
  · obtain ⟨ho, closed, joined, -, -, hsettled⟩ := settle_cases h hs
    exact h.settled ho hsettled

theorem Sound.init {options : AdmissionOptions} {a₀ : Admission} (hnew : Admission.new options = .ok a₀) :
    Sound [] { admission := a₀ } := by
  obtain ⟨hl, -, -, hnone⟩ := Admission.new_ledger hnew
  have hpub : ∀ F, a₀.publicationState F = none := fun F => by
    have := hnone (Admission.publicationSlot F)
    rw [Admission.stateAt_publicationSlot, Option.map_eq_none_iff] at this
    rw [Admission.publicationState, Admission.publication_eq, this]
    rfl
  refine ⟨hl, fun F hF => ?_, by simp, by simp, by simp, by simp, fun o ho => absurd ho.1 (by simp),
    by simp, by simp, by simp, fun F hF => ?_, fun f hf => ?_, by simp⟩
  · simp [hpub F] at hF
  · simp [hpub F] at hF
  · obtain ⟨p, hp, -⟩ := Option.bind_eq_some_iff.1 hf
    have := hpub f.toResourceFence
    rw [Admission.publicationState, hp] at this
    cases this

/-! ## What is kept -/

/-- Every video close of a publication is awaited by the publication's drain in flight. -/
def Awaits (s : State) : Prop :=
  ∀ o, s.Pending o → kindOf (s.operations o).key = .publication → s.Awaited (s.operations o)

theorem Awaits.extends {s₁ : State} (hw : Awaits s) (hx : Extends s s₁)
    (hcount : s₁.operationCount = s.operationCount)
    (hvideos : ∀ o, s.Pending o → kindOf (s.operations o).key = .publication → ∀ key t,
      kindOf key = .videoPublication → key.toResourceFence = (s.operations o).key.toResourceFence →
      s₁.sfuDrainTasks.get key = some t → s.sfuDrainTasks.get key = some t) : Awaits s₁ := by
  intro o ho hkind
  have hlt : o < s.operationCount := by
    have := ho.1
    omega
  have hp : s.Pending o := by
    have := ho.2
    rw [hx.old o hlt] at this
    exact ⟨hlt, this⟩
  rw [hx.old o hlt] at hkind ⊢
  exact hx.awaited_old (hvideos o hp hkind) (hw o hp hkind)

theorem Awaits.quiet (hw : Awaits s) (hq : Quiet s s') : Awaits s' := by
  intro o ho hkind
  by_cases hlt : o < s.operationCount
  · have hsame := hq.old o hlt
    have hp : s.Pending o := ⟨hlt, by rw [← hsame]; exact ho.2⟩
    rw [hsame] at hkind ⊢
    exact hq.awaited_old (fun key t hv _ => hq.videos key t hv) (hw o hp hkind)
  · exact hq.awaited o (by omega) ho hkind

theorem Awaits.close (hw : Awaits s) {ok : Bool} (hs : s.close o ok = some s') : Awaits s' := by
  have hop := close_operation hs
  obtain ⟨-, -, -, hreg, -, -, hcount, -, -⟩ := close_eq hs
  intro o' ho hkind key t hk hv hF
  rw [(hop o').2.1] at hkind hF
  rw [hreg] at hk
  have hp : s.Pending o' := ⟨hcount ▸ ho.1, (hop o').2.2.2 ▸ ho.2⟩
  obtain ⟨d, hd, hlt, hdt, hds⟩ := hw o' hp hkind key t hk hv hF
  refine ⟨d, by rw [(hop o').2.2.1]; exact hd, by rw [hcount]; exact hlt, ?_, ?_⟩
  · rw [(hop d).1, hdt]
  · rw [(hop d).2.2.2]
    exact hds

theorem Awaits.finish (hw : Awaits s) {done : Bool} (a' : Admission) {registry : OMap SubscriptionFence ℕ}
    (hold : ∀ k t, registry.get k = some t → s.sfuDrainTasks.get k = some t)
    (hdone : done = true → ∀ k t, registry.get k = some t → (s.operations o).task ≠ t) :
    Awaits { s.finish o done with admission := a', sfuDrainTasks := registry } := by
  intro o' ho hkind key t hk hv hF
  have ho' : (s.finish o done).Pending o' := ho
  obtain ⟨hp, -⟩ := finish_pending.1 ho'
  dsimp only at hkind hk hF ⊢
  rw [(finish_operation o').2.1] at hkind hF
  obtain ⟨d, hd, hlt, hdt, hds⟩ := hw o' hp hkind key t (hold key t hk) hv hF
  refine ⟨d, by rw [(finish_operation o').2.2]; exact hd, hlt, (finish_operation d).1.trans hdt, ?_⟩
  by_cases hne : d = o
  · subst hne
    rw [finish_self]
    rintro heq
    exact hdone (Option.some.inj heq) key t hk hdt
  · rw [finish_other hne]
    exact hds

theorem Awaits.settled (h : Sound [] s) (hw : Awaits s) (ho : s.Pending o) {ok : Bool}
    (hs : Settled s o ok s') : Awaits s' := by
  have hkey : ∀ k t, s.sfuDrainTasks.get k = some t → (s.operations o).task = t →
      k = (s.operations o).key := by
    rintro k t hk rfl
    rw [← (h.registered k _ hk).2]
    exact (h.owner o ho.1).2.1
  rcases hs with ⟨-, rfl⟩ | ⟨-, hk, rfl⟩ | ⟨-, hk, a', -, rfl⟩
  · exact hw.finish s.admission (fun _ _ hk => hk) (by simp)
  · refine hw.finish s.admission (fun _ _ hk => hk) fun _ k t hk' ht => hk ?_
    rw [← hkey k t hk' ht, ht]
    exact hk'
  · refine hw.finish a' (fun k t hk' => ?_) fun _ k t hk' ht => ?_
    · rw [OMap.get_delete] at hk'
      split at hk'
      · cases hk'
      · exact hk'
    · rw [OMap.get_delete] at hk'
      split at hk'
      · cases hk'
      · next hne => exact hne (hkey k t hk' ht)

/-! ## What every run keeps -/

namespace State

variable (s)

/-- The physical close, and those that it joined, returned without an error. -/
def Succeeded (o : ℕ) : Prop :=
  (s.operations o).closed = some true ∧ s.joined (s.operations o) = some true

/-- One close in flight for a drain; a drain that will free what is charged; and no
    drain that was neither started nor failed. -/
structure Kept : Prop where
  one : ∀ o o', s.Pending o → s.Pending o' → (s.operations o).task = (s.operations o').task → o = o'
  publication : ∀ F, s.admission.publicationState F = some .draining →
    ∃ t, s.sfuDrainTasks.get (publicationFence F) = some t
  subscription : ∀ f, s.admission.subscriptionState f = some .draining →
    (∃ t, s.sfuDrainTasks.get f = some t) ∨
      ∃ t, s.sfuDrainTasks.get (publicationFence f.toResourceFence) = some t
  charged : ∀ key t, s.sfuDrainTasks.get key = some t →
    ((s.tasks t).kind = .publication →
      s.admission.publicationState key.toResourceFence = some .draining) ∧
    ((s.tasks t).kind = .subscription → s.admission.subscriptionState key = some .draining)
  tried : ∀ key t, s.sfuDrainTasks.get key = some t →
    (∃ o, s.Pending o ∧ (s.operations o).task = t) ∨
      ∃ o < s.operationCount, (s.operations o).task = t ∧ (s.operations o).settled = some false
  frees : ∀ key t o, s.sfuDrainTasks.get key = some t → s.Pending o → (s.operations o).task = t →
    s.Succeeded o → ∃ s', s.step (.settle o) = some s' ∧ s'.sfuDrainTasks.get key = none ∧
      ((s.tasks t).kind = .publication →
        s'.admission.publicationState key.toResourceFence = none ∧
        ∀ f : SubscriptionFence, f.toResourceFence = key.toResourceFence →
          s'.admission.subscriptionState f = none) ∧
      ((s.tasks t).kind = .subscription → s'.admission.subscriptionState key = none)

end State

/-- What one event does: a charge goes by a close that covers it and succeeded; a
    drain goes by its own success, or for the publication's that covers it; a
    voice connection's may be replaced. -/
structure Moves (s : State) (e : Event) (s' : State) : Prop where
  charge : ∀ F, (s.admission.publicationState F).isSome → s'.admission.publicationState F = none →
    ∃ o, e = .settle o ∧ s.Pending o ∧ s.Succeeded o ∧ (s.operations o).key = publicationFence F ∧
      s.sfuDrainTasks.get (s.operations o).key = some (s.operations o).task
  subscriptionCharge : ∀ f, (s.admission.subscriptionState f).isSome →
    s'.admission.subscriptionState f = none →
    ∃ o, e = .settle o ∧ s.Pending o ∧ s.Succeeded o ∧
      ((s.operations o).key = f ∨ (s.operations o).key = publicationFence f.toResourceFence) ∧
      s.sfuDrainTasks.get (s.operations o).key = some (s.operations o).task
  failed : ∀ o, e = .settle o → ¬s.Succeeded o → s'.admission = s.admission ∧
    s'.sfuDrainTasks = s.sfuDrainTasks ∧ (s'.operations o).settled = some false
  stays : ∀ key t, s.sfuDrainTasks.get key = some t → s'.sfuDrainTasks.get key = some t ∨
    (∃ o, e = .settle o ∧ (s.operations o).task = t ∧ s.Succeeded o) ∨
    (s.tasks t).kind = .subscription ∧
      (∃ t', s'.sfuDrainTasks.get (publicationFence key.toResourceFence) = some t') ∨
    (s.tasks t).kind = .voice ∧ ∃ t', s'.sfuDrainTasks.get key = some t'

/-- What the drain of a publication has joined when it settles. -/
structure State.JoinsVideos (s : State) (o : ℕ) : Prop where
  joined : ∀ key t, s.sfuDrainTasks.get key = some t → (s.tasks t).kind = .videoPublication →
    key.toResourceFence = (s.operations o).key.toResourceFence →
    ∃ d ∈ (s.operations o).videoDrains, (s.operations d).task = t ∧ (s.operations d).settled.isSome
  closed : s.Succeeded o → ∀ d < s.operationCount,
    (s.tasks (s.operations d).task).kind = .videoPublication →
    (s.operations d).key.toResourceFence = (s.operations o).key.toResourceFence →
    (s.operations d).settled.isSome

theorem joined_settled {op : DrainOperation} {b : Bool} (h : s.joined op = some b) :
    (∀ d ∈ op.videoDrains, (s.operations d).settled.isSome) ∧
      (b = true → ∀ d ∈ op.videoDrains, (s.operations d).settled = some true) := by
  unfold State.joined at h
  split at h
  · next hall =>
    refine ⟨List.all_eq_true.1 hall, ?_⟩
    rintro rfl d hd
    simpa using List.all_eq_true.1 (Option.some.inj h) d hd
  · cases h

theorem settled_charge {ok : Bool} (hs : Settled s o ok s') (hF : (s.admission.publicationState F).isSome)
    (hnone : s'.admission.publicationState F = none) : ok = true ∧
      (s.operations o).key = publicationFence F ∧
      s.sfuDrainTasks.get (s.operations o).key = some (s.operations o).task := by
  rcases hs with ⟨-, rfl⟩ | ⟨-, -, rfl⟩ | ⟨hok, hk, a', hfrees, rfl⟩
  · change s.admission.publicationState F = none at hnone
    simp [hnone] at hF
  · change s.admission.publicationState F = none at hnone
    simp [hnone] at hF
  · refine ⟨hok, ?_, hk⟩
    by_contra hne
    have := hfrees.charged F (Ne.symm hne) hF
    dsimp only at hnone
    rw [hnone] at this
    cases this

theorem settled_subscriptionCharge {ok : Bool} (hs : Settled s o ok s')
    (hf : (s.admission.subscriptionState key).isSome)
    (hnone : s'.admission.subscriptionState key = none) : ok = true ∧
      ((s.operations o).key = key ∨ (s.operations o).key = publicationFence key.toResourceFence) ∧
      s.sfuDrainTasks.get (s.operations o).key = some (s.operations o).task := by
  rcases hs with ⟨-, rfl⟩ | ⟨-, -, rfl⟩ | ⟨hok, hk, a', hfrees, rfl⟩
  · change s.admission.subscriptionState key = none at hnone
    simp [hnone] at hf
  · change s.admission.subscriptionState key = none at hnone
    simp [hnone] at hf
  · refine ⟨hok, ?_, hk⟩
    by_contra hne
    rw [not_or] at hne
    have := hfrees.subscriptionCharged key (Ne.symm hne.1) (Ne.symm hne.2) hf
    dsimp only at hnone
    rw [hnone] at this
    cases this

theorem succeeded_iff {closed joined : Bool} (hc : (s.operations o).closed = some closed)
    (hj : s.joined (s.operations o) = some joined) : s.Succeeded o ↔ (closed && joined) = true := by
  simp [State.Succeeded, hc, hj]

theorem Sound.kept_run (h : Sound [] s) : s.Kept where
  one o o' ho ho' ht := h.one_pending ho ho' ht
  publication F hF := (h.drains F hF).resolve_right List.not_mem_nil
  subscription f hf := by
    rcases h.subscriptionDrains f hf with ⟨-, ht⟩ | hP | ⟨-, hmem⟩
    · exact Or.inl ht
    · exact Or.inr ((h.drains _ hP).resolve_right List.not_mem_nil)
    · cases hmem
  charged key t hk := by
    rw [h.kind_registered hk]
    refine ⟨fun hkind => ?_, fun hkind => (h.subscriptionDraining key t hkind hk).1⟩
    rw [eq_publicationFence hkind] at hk
    exact h.draining _ t hk
  tried key t hk := by
    rcases h.tried key t hk with hmem | ⟨o, ho⟩ | hfailed
    · cases hmem
    · exact Or.inl ⟨o, h.running t o ho⟩
    · exact Or.inr hfailed
  frees key t o hk ho ht hok := by
    have hkey : (s.operations o).key = key := by
      rw [← (h.registered key t hk).2, ← ht]
      exact (h.owner o ho.1).2.1.symm
    obtain ⟨s', hs', hsettled⟩ := settle_outcome h ho hok.1 hok.2
    rw [h.kind_registered hk]
    refine ⟨s', hs', ?_⟩
    rcases hsettled with ⟨hbad, -⟩ | ⟨-, hno, -⟩ | ⟨-, -, a', hfrees, rfl⟩
    · cases hbad
    · exact absurd (by rw [hkey, ht, hk]) hno
    · rw [hkey] at hfrees ⊢
      refine ⟨by simp, fun hkind => ?_, hfrees.freesSubscription⟩
      exact hfrees.frees _ (eq_publicationFence hkind)

theorem Sound.moves (h : Sound [] s) {e : Event} (hs : s.step e = some s') : Moves s e s' := by
  have hextends : ∀ {s₁}, Extends s s₁ → (∀ o, e = .settle o → ¬s.Succeeded o →
      s₁.admission = s.admission ∧ s₁.sfuDrainTasks = s.sfuDrainTasks ∧
        (s₁.operations o).settled = some false) → Moves s e s₁ := by
    intro s₁ hx hfailed
    refine ⟨fun F hF hnone => ?_, fun f hf hnone => ?_, hfailed, fun key t hk => ?_⟩
    · have := hx.charged F hF
      rw [hnone] at this
      cases this
    · have := hx.subscriptionCharged f hf
      rw [hnone] at this
      cases this
    · rw [h.kind_registered hk]
      rcases hx.keeps key t hk with hk | ⟨hv, hk⟩ | hsub
      · exact Or.inl hk
      · exact Or.inr (Or.inr (Or.inr ⟨hv, hk⟩))
      · exact Or.inr (Or.inr (Or.inl hsub))
  have hfailed : ∀ o, e = .settle o → ¬s.Succeeded o → s'.admission = s.admission ∧
      s'.sfuDrainTasks = s.sfuDrainTasks ∧ (s'.operations o).settled = some false := by
    rintro o rfl hno
    obtain ⟨ho, closed, joined, hc, hj, hsettled⟩ := settle_cases h hs
    rw [succeeded_iff hc hj] at hno
    rcases hsettled with ⟨-, rfl⟩ | ⟨hok, -⟩ | ⟨hok, -⟩
    · exact ⟨rfl, rfl, by simp⟩
    · exact absurd hok hno
    · exact absurd hok hno
  rcases step_cases h hs with ⟨-, hq⟩ | ⟨F, connectionID, rfl, hp, rfl⟩ | ⟨o, ok, rfl, hclose⟩ | ⟨o, rfl, hs⟩
  · exact hextends hq.toExtends hfailed
  · obtain ⟨-, s₁, hq, hx, -⟩ := retire_sound h hp
    exact hextends (hx.trans hq.toExtends) hfailed
  · obtain ⟨-, -, hadm, hreg, -⟩ := close_eq hclose
    refine ⟨fun F hF hnone => ?_, fun f hf hnone => ?_, hfailed, fun key t hk => Or.inl (hreg ▸ hk)⟩
    · rw [hadm] at hnone
      simp [hnone] at hF
    · rw [hadm] at hnone
      simp [hnone] at hf
  · obtain ⟨ho, closed, joined, hc, hj, hsettled⟩ := settle_cases h hs
    refine ⟨fun F hF hnone => ?_, fun f hf hnone => ?_, hfailed, fun key t hk => ?_⟩
    · obtain ⟨hok, hkey, hk⟩ := settled_charge hsettled hF hnone
      exact ⟨o, rfl, ho, (succeeded_iff hc hj).2 hok, hkey, hk⟩
    · obtain ⟨hok, hkey, hk⟩ := settled_subscriptionCharge hsettled hf hnone
      exact ⟨o, rfl, ho, (succeeded_iff hc hj).2 hok, hkey, hk⟩
    · rcases hsettled with ⟨-, rfl⟩ | ⟨-, -, rfl⟩ | ⟨hok, hk', a', -, rfl⟩
      · exact Or.inl hk
      · exact Or.inl hk
      · by_cases hkey : key = (s.operations o).key
        · rw [← hkey, hk] at hk'
          exact Or.inr (Or.inl ⟨o, rfl, (Option.some.inj hk').symm, (succeeded_iff hc hj).2 hok⟩)
        · exact Or.inl (by simp [hkey, hk])

theorem Sound.joinsVideos (h : Sound [] s) (hw : Awaits s) (hs : s.settle o = some s')
    (hkind : (s.tasks (s.operations o).task).kind = .publication) : s.JoinsVideos o := by
  obtain ⟨ho, closed, joined, -, hj, -⟩ := settle_cases h hs
  rw [h.kind_operation ho.1] at hkind
  have hjoined := joined_settled hj
  constructor
  · intro key t hk hv hF
    rw [h.kind_registered hk] at hv
    obtain ⟨d, hd, -, hdt, -⟩ := hw o ho hkind key t hk hv hF
    exact ⟨d, hd, hdt, hjoined.1 d hd⟩
  · intro hok d hd hv hF
    rw [h.kind_operation hd] at hv
    by_contra hsettled
    -- a video close in flight is registered, so the drain joined one that has not succeeded
    have hp : s.Pending d := ⟨hd, by simpa using hsettled⟩
    obtain ⟨d', hd', -, -, hne⟩ := hw o ho hkind _ _ (h.kept d hp (Or.inr hv)) hv hF
    exact hne ((joined_settled hok.2).2 rfl d' hd')

/-! ## Runs -/

/-- No picture is retired while a drain of its publication is in flight. -/
def State.Calm (s : State) : Event → Prop
  | .retireVideo F connectionID => s.publications.get F = some connectionID →
    ∀ o < s.operationCount, (s.operations o).settled = none →
      (s.operations o).key ≠ publicationFence F
  | _ => True

instance (s : State) : DecidablePred s.Calm
  | .retireVideo _ _ => inferInstanceAs (Decidable (_ → _))
  | .prepareNewPublication _ | .reserveSubscription _ | .commitSubscription _ | .commitPublication _
  | .releasePublication _ | .releaseSubscription _ | .clearRoom _ | .shutdown | .retry _
  | .preparePublication _ _ | .closeVoice _ _ | .closed _ _ | .settle _ => .isTrue trivial

/-- The events of a calm run. -/
def State.calmStep (s : State) (e : Event) : Option State := if s.Calm e then s.step e else none

theorem calmStep_some {e : Event} (h : s.calmStep e = some s') : s.Calm e ∧ s.step e = some s' := by
  unfold State.calmStep at h
  split at h
  · next hc => exact ⟨hc, h⟩
  · cases h

theorem Awaits.step (h : Sound [] s) (hw : Awaits s) {e : Event} (hs : s.calmStep e = some s') :
    Awaits s' := by
  obtain ⟨hcalm, hs⟩ := calmStep_some hs
  rcases step_cases h hs with ⟨-, hq⟩ | ⟨F, connectionID, rfl, hp, rfl⟩ | ⟨o, ok, -, hs⟩ | ⟨o, -, hs⟩
  · exact hw.quiet hq
  · obtain ⟨-, s₁, hq, hx, hcount, hvideos⟩ := retire_sound h hp
    refine (hw.extends hx hcount fun o ho hkind key t hv hF hk => ?_).quiet hq
    refine (hvideos key t hv hk).resolve_right fun hkey => hcalm hp o ho.1 ho.2 ?_
    rw [eq_publicationFence hkind, ← hF, hkey]
  · exact hw.close hs
  · obtain ⟨ho, closed, joined, -, -, hsettled⟩ := settle_cases h hs
    exact hw.settled h ho hsettled

/-- **The drains of the SFU.**  In every run one close is in flight for a drain; a
    charge is removed only when a close that covers it succeeded; what failed stays
    registered and charged; and what drains has a drain that frees it.  A
    publication's drain settles after every close of its pictures, in every run
    where no picture is retired while it is in flight. -/
theorem drains_complete_once {options : AdmissionOptions} {a₀ : Admission} {es : List Event}
    (hnew : Admission.new options = .ok a₀) (hr : Steps.Reaches State.step { admission := a₀ } es s) :
    s.Kept ∧ (∀ e s', s.step e = some s' → Moves s e s') ∧
      (Steps.Reaches State.calmStep { admission := a₀ } es s → ∀ o s', s.step (.settle o) = some s' →
        (s.tasks (s.operations o).task).kind = .publication → s.JoinsVideos o) := by
  have hsound : Sound [] s := hr.invariant (Sound.init hnew) fun h hs => h.step hs
  refine ⟨hsound.kept_run, fun e s' hs => hsound.moves hs, fun hcalm o s' hs hkind => ?_⟩
  have hinv : Sound [] s ∧ Awaits s :=
    hcalm.invariant (P := fun s => Sound [] s ∧ Awaits s)
      ⟨Sound.init hnew, fun o ho => absurd ho.1 (by simp)⟩
      fun h hs => ⟨h.1.step (calmStep_some hs).2, h.2.step h.1 hs⟩
  exact hinv.1.joinsVideos hinv.2 hs hkind

/-- A publication. -/
def sharedRoom : ResourceFence :=
  { roomID := "1234", shareGeneration := "share", publicationGeneration := "media" }

/-- A subscription of it. -/
def sharedViewer : SubscriptionFence :=
  { sharedRoom with viewerPeerID := "viewer", connectionID := "c1" }

/-- A picture is retired, the room drains, and both closes return. -/
def retiredThenDrained : List Event :=
  [.prepareNewPublication sharedViewer, .preparePublication sharedRoom "picture",
    .retireVideo sharedRoom "picture", .releasePublication sharedRoom, .closed 0 true, .settle 0,
    .closed 1 true]

theorem drains_complete_once_retiredThenDrained : ∃ s,
    Steps.Reaches State.calmStep { admission := { ingressCapacity := 1, egressCapacity := 1 } }
      retiredThenDrained s ∧ s.Kept ∧ s.JoinsVideos 1 := by
  have hrun : ((Steps.run State.calmStep { admission := { ingressCapacity := 1, egressCapacity := 1 } }
      retiredThenDrained).map fun s => ((s.step (.settle 1)).isSome,
        (s.tasks (s.operations 1).task).kind)) = some (true, .publication) := by
    decide +kernel
  obtain ⟨s, hs, hends⟩ := Option.map_eq_some_iff.1 hrun
  obtain ⟨hsettle, hkind⟩ := Prod.mk.inj hends
  obtain ⟨s', hs'⟩ := Option.isSome_iff_exists.1 hsettle
  have hcalm := Steps.reaches_of_run hs
  obtain ⟨hkept, -, hjoins⟩ := @drains_complete_once s ⟨1, 1⟩ _ _ rfl
    (hcalm.mono fun h => (calmStep_some h).2)
  exact ⟨s, hcalm, hkept, hjoins hcalm 1 s' hs' hkind⟩

/-- The room drains while the picture's Host is still answered; the picture is
    retired when that answer is back, and the room's close returns first. -/
def retiredWhileDrained : List Event :=
  [.prepareNewPublication sharedViewer, .preparePublication sharedRoom "picture",
    .releasePublication sharedRoom, .retireVideo sharedRoom "picture", .closed 0 true]

/-- The room's drain frees its charge while the picture is still being closed. -/
theorem drain_frees_before_picture : ∃ s s',
    Steps.Reaches State.step { admission := { ingressCapacity := 1, egressCapacity := 1 } }
      retiredWhileDrained s ∧ s.step (.settle 0) = some s' ∧
      (s.tasks (s.operations 0).task).kind = .publication ∧
      (s.admission.publicationState sharedRoom).isSome ∧
      s'.admission.publicationState sharedRoom = none ∧ s'.Pending 1 ∧
      (s'.operations 1).closed = none ∧ (s'.operations 1).key = videoFence sharedRoom "picture" ∧
      ¬s.JoinsVideos 0 := by
  have hrun : ((Steps.run State.step { admission := { ingressCapacity := 1, egressCapacity := 1 } }
      retiredWhileDrained).bind fun s => (s.step (.settle 0)).map fun s' =>
        decide (((s.tasks (s.operations 0).task).kind = .publication ∧
          (s.admission.publicationState sharedRoom).isSome ∧
          s'.admission.publicationState sharedRoom = none ∧ s'.Pending 1 ∧
          (s'.operations 1).closed = none ∧ (s'.operations 1).key = videoFence sharedRoom "picture") ∧
        (s.operations 0).closed = some true ∧ s.joined (s.operations 0) = some true ∧
          (s.operations 0).key = publicationFence sharedRoom ∧ 1 < s.operationCount ∧
          (s.operations 1).settled = none ∧ (s.operations 1).key = videoFence sharedRoom "picture" ∧
          (s.tasks (s.operations 1).task).kind = .videoPublication)) = some true := by
    decide +kernel
  obtain ⟨s, hs, hends⟩ := Option.bind_eq_some_iff.1 hrun
  obtain ⟨s', hs', hends⟩ := Option.map_eq_some_iff.1 hends
  obtain ⟨⟨hkind, hcharged, hfree, hpending, hopen, hkey⟩, hclosed, hjoined, hkeyP, hlt, hsettled, hkeyV,
    hvideo⟩ := of_decide_eq_true hends
  refine ⟨s, s', Steps.reaches_of_run hs, hs', hkind, hcharged, hfree, hpending, hopen, hkey, fun h => ?_⟩
  have := h.closed ⟨hclosed, hjoined⟩ 1 hlt hvideo (by rw [hkeyV, hkeyP]; rfl)
  simp [hsettled] at this

end Piik.Signal.Drains
