/-
  The admission ledger: what is in use is what is registered, within the
  capacities, and every charge is released once, by the retirement that the
  entry was drained for.
-/
import Piik.Sfu.Admission

namespace Piik.Sfu

/-! ## The invariant -/

/-- Filed under its fence, with its subscriptions. -/
structure PublicationEntry.Filed (p : PublicationEntry) (roomID key : String) : Prop where
  room : p.fence.roomID = roomID
  key : publicationKey p.fence = key
  under : ∀ s e, p.subscriptions.get s = some e →
    e.fence.toResourceFence = p.fence ∧ subscriptionKey e.fence = s
  committed : ∀ s e, p.subscriptions.get s = some e → e.state = .committed → p.state = .committed
  draining : p.state = .draining → ∀ s e, p.subscriptions.get s = some e → e.state = .draining

/-- At most one publication of the room is in the given state. -/
def OneIn (room : RoomPublications) (state : ResourceState) : Prop :=
  ∀ key key' p p', room.get key = some p → room.get key' = some p' → p.state = state →
    p'.state = state → key = key'

/-- What holds of a room's publications. -/
structure RoomHolds (roomID : String) (room : RoomPublications) : Prop where
  filed : ∀ key p, room.get key = some p → p.Filed roomID key
  reserved : OneIn room .reserved
  committed : OneIn room .committed

/-- Another entry for a key that had none in these states, or was in them before. -/
theorem OneIn.set {room : RoomPublications} {key : String} {p : PublicationEntry}
    {state : ResourceState} (h : OneIn room state)
    (hp : p.state = state → ∀ k q, room.get k = some q → q.state = state → k = key) :
    OneIn (room.set key p) state := by
  intro k k' q q' hq hq' hs hs'
  rw [OMap.get_set] at hq hq'
  split at hq <;> split at hq'
  · next hk hk' => rw [hk, hk']
  · next hk _ =>
    cases hq
    rw [hk, hp hs k' q' hq' hs']
  · next _ hk' =>
    cases hq'
    rw [hk', hp hs' k q hq hs]
  · exact h k k' q q' hq hq' hs hs'

theorem RoomHolds.set {roomID key : String} {room : RoomPublications} {p : PublicationEntry}
    (h : RoomHolds roomID room) (hf : p.Filed roomID key)
    (hr : p.state = .reserved → ∀ k q, room.get k = some q → q.state = .reserved → k = key)
    (hc : p.state = .committed → ∀ k q, room.get k = some q → q.state = .committed → k = key) :
    RoomHolds roomID (room.set key p) := by
  refine ⟨fun k q hq => ?_, h.reserved.set hr, h.committed.set hc⟩
  rw [OMap.get_set] at hq
  split at hq
  · next hk =>
    cases hq
    exact hk ▸ hf
  · exact h.filed k q hq

/-- The subscriptions of a room. -/
def subscribed (room : RoomPublications) : ℕ := room.total fun p => p.subscriptions.len

namespace Admission

variable (a : Admission)

/-- The registered publications. -/
def publications : ℕ := a.rooms.total OMap.len

/-- The registered subscriptions. -/
def subscriptions : ℕ := a.rooms.total subscribed

/-- The counts are those of what is admitted, and within the capacities. -/
structure Ledger : Prop where
  ingress : a.ingressInUse = a.publications
  egress : a.egressInUse = a.subscriptions
  ingressFits : a.ingressInUse ≤ a.ingressCapacity
  egressFits : a.egressInUse ≤ a.egressCapacity
  rooms : ∀ roomID room, a.rooms.get roomID = some room → roomID ≠ "" ∧ RoomHolds roomID room

/-! ## Slots -/

/-- Where an entry is registered: a publication, or a subscription of it. -/
structure Slot where
  roomID : String
  publication : String
  subscription : Option String
  deriving DecidableEq

end Admission

/-- The state of the entry itself, or of one of its subscriptions. -/
def PublicationEntry.stateOf (p : PublicationEntry) : Option String → Option ResourceState
  | none => some p.state
  | some key => (p.subscriptions.get key).map SubscriptionEntry.state

namespace Admission

variable (a : Admission)

/-- What is in a slot. -/
def stateAt (s : Slot) : Option ResourceState :=
  (a.entryAt s.roomID s.publication).bind fun p => p.stateOf s.subscription

/-- The slot of a publication. -/
def publicationSlot (fence : ResourceFence) : Slot :=
  { roomID := fence.roomID, publication := publicationKey fence, subscription := none }

/-- The slot of a subscription. -/
def subscriptionSlot (fence : SubscriptionFence) : Slot :=
  { roomID := fence.roomID, publication := publicationKey fence.toResourceFence
    subscription := some (subscriptionKey fence) }

/-- The slot that the operation reserves. -/
def Op.reserves : Op → Option Slot
  | .reservePublication fence => some (publicationSlot fence)
  | .reserveSubscription fence => some (subscriptionSlot fence)
  | _ => none

/-- The slots whose retirement the operation confirms. -/
def Op.completes : Op → Slot → Bool
  | .completeSubscriptionDrain fence, s => s = subscriptionSlot fence
  | .completeDrain fence, s => s.roomID = fence.roomID && s.publication = publicationKey fence
  | _, _ => false

/-- The operation charged the slot. -/
def Event.charges (e : Event) (s : Slot) : Bool :=
  e.answer.accepted && e.op.reserves = some s && (e.before.stateAt s).isNone

/-- The operation released the slot. -/
def Event.releases (e : Event) (s : Slot) : Bool :=
  e.answer.accepted && e.op.completes s && (e.before.stateAt s).isSome

/-- How a registered entry moves: it is committed once, and what drains never
    becomes live again. -/
inductive Moves : Option ResourceState → Option ResourceState → Prop
  | stays (x) : Moves x x
  | commits : Moves (some .reserved) (some .committed)
  | drains (x) : Moves (some x) (some .draining)

/-- What an operation may do to one slot. -/
def Accounted (e : Event) (s : Slot) (before after : Option ResourceState) : Prop :=
  if e.charges s then before = none ∧ after = some .reserved
  else if e.releases s then before = some .draining ∧ after = none
  else Moves before after

/-- The capacities are fixed. -/
def SameCapacity (a a' : Admission) : Prop :=
  a'.ingressCapacity = a.ingressCapacity ∧ a'.egressCapacity = a.egressCapacity

/-- The ledger after an operation, and what the operation did to every slot. -/
structure Accounts (a : Admission) (op : Op) (answer : Answer) (a' : Admission) : Prop where
  ledger : a'.Ledger
  capacity : a.SameCapacity a'
  slots : ∀ s, Accounted ⟨a, op, answer⟩ s (a.stateAt s) (a'.stateAt s)

variable {a}

/-! ## Writing to a room -/

theorem entryAt_set (roomID : String) (room : RoomPublications) (ingress egress : Int) (r key : String) :
    ({ a with rooms := a.rooms.set roomID room, ingressInUse := ingress, egressInUse := egress } :
      Admission).entryAt r key = if r = roomID then room.get key else a.entryAt r key := by
  unfold entryAt
  rw [OMap.get_set]
  by_cases h : r = roomID <;> simp [h]

theorem total_written (f : RoomPublications → ℕ) (hf : f .empty = 0) (roomID : String)
    (room : RoomPublications) : (a.rooms.set roomID room).total f +
      f ((a.rooms.get roomID).getD .empty) = a.rooms.total f + f room := by
  have h := OMap.total_set a.rooms roomID room f
  cases hr : a.rooms.get roomID with
  | none => simpa [hr, hf] using h
  | some old => simpa [hr] using h

/-- The ledger after a room was written, with what it counts more or less. -/
theorem Ledger.set (h : a.Ledger) {roomID : String} {room : RoomPublications} {ingress egress : Int}
    (hid : roomID ≠ "") (hr : RoomHolds roomID room)
    (hi : ingress + ((a.rooms.get roomID).getD .empty).len = a.ingressInUse + room.len)
    (he : egress + subscribed ((a.rooms.get roomID).getD .empty) = a.egressInUse + subscribed room)
    (hifits : ingress ≤ a.ingressCapacity) (hefits : egress ≤ a.egressCapacity) :
    ({ a with rooms := a.rooms.set roomID room, ingressInUse := ingress, egressInUse := egress } :
      Admission).Ledger := by
  have hp : (a.rooms.set roomID room).total OMap.len + _ = _ + _ := total_written OMap.len rfl roomID room
  have hs : (a.rooms.set roomID room).total subscribed + _ = _ + _ :=
    total_written subscribed rfl roomID room
  have h₁ := h.ingress
  have h₂ := h.egress
  unfold publications at h₁
  unfold subscriptions at h₂
  refine ⟨?_, ?_, hifits, hefits, fun r room' hroom => ?_⟩
  · show ingress = ((a.rooms.set roomID room).total OMap.len : ℕ)
    omega
  · show egress = ((a.rooms.set roomID room).total subscribed : ℕ)
    omega
  · rw [OMap.get_set] at hroom
    split at hroom
    · next hr' =>
      cases hroom
      exact hr' ▸ ⟨hid, hr⟩
    · exact h.rooms r room' hroom

theorem Ledger.filed (h : a.Ledger) {roomID key : String} {p : PublicationEntry}
    (hp : a.entryAt roomID key = some p) : p.Filed roomID key := by
  unfold entryAt at hp
  split at hp
  · cases hp
  · next room hr => exact (h.rooms roomID room hr).2.filed key p hp

/-! ## One publication -/

theorem entryAt_of_publication {fence : ResourceFence} {p : PublicationEntry}
    (h : a.publication fence = some p) :
    ∃ room, a.rooms.get fence.roomID = some room ∧ room.get (publicationKey fence) = some p ∧
      p.fence = fence := by
  unfold publication entryAt at h
  cases hr : a.rooms.get fence.roomID with
  | none => simp [hr] at h
  | some room =>
    simp only [hr] at h
    cases hp : room.get (publicationKey fence) with
    | none => simp [hp] at h
    | some q =>
      simp only [hp] at h
      split at h
      · next hf =>
        cases h
        exact ⟨room, rfl, hp, hf⟩
      · cases h

theorem entryAt_modifyPublication {fence : ResourceFence} {p : PublicationEntry}
    (h : a.publication fence = some p) (f : PublicationEntry → PublicationEntry) (egress : Int)
    (r key : String) :
    ({ a.modifyPublication fence f with egressInUse := egress } : Admission).entryAt r key =
      if r = fence.roomID ∧ key = publicationKey fence then some (f p) else a.entryAt r key := by
  obtain ⟨room, hr, hp, -⟩ := entryAt_of_publication h
  unfold modifyPublication
  rw [OMap.modify_eq_set hr, OMap.modify_eq_set hp]
  refine (entryAt_set _ _ _ _ r key).trans ?_
  by_cases h₁ : r = fence.roomID
  · by_cases h₂ : key = publicationKey fence
    · simp [h₁, h₂]
    · simp [h₁, h₂, entryAt, hr]
  · simp [h₁]

/-- The ledger after one publication was written, its state kept or drained. -/
theorem Ledger.modify (h : a.Ledger) {fence : ResourceFence} {p : PublicationEntry}
    (hp : a.publication fence = some p) {f : PublicationEntry → PublicationEntry} {egress : Int}
    (hf : (f p).Filed fence.roomID (publicationKey fence))
    (hstate : (f p).state = p.state ∨ (f p).state = .draining)
    (he : egress + p.subscriptions.len = a.egressInUse + (f p).subscriptions.len)
    (hfits : egress ≤ a.egressCapacity) :
    ({ a.modifyPublication fence f with egressInUse := egress } : Admission).Ledger := by
  obtain ⟨room, hr, hget, -⟩ := entryAt_of_publication hp
  obtain ⟨hid, hroom⟩ := h.rooms _ _ hr
  have hkeep : ∀ state, state ≠ .draining → (f p).state = state → p.state = state := by
    intro state hne hs
    rcases hstate with hstate | hstate
    · exact hstate.symm.trans hs
    · exact absurd (hs.symm.trans hstate) hne
  have hlen := OMap.total_set room (publicationKey fence) (f p) fun _ => 1
  have hsub := OMap.total_set room (publicationKey fence) (f p) fun p => p.subscriptions.len
  rw [hget] at hlen hsub
  simp only [Option.map_some, Option.getD_some, OMap.total_one] at hlen hsub
  unfold modifyPublication
  rw [OMap.modify_eq_set hr, OMap.modify_eq_set hget]
  refine h.set hid (hroom.set hf (fun hs k q hq hqs => ?_) (fun hs k q hq hqs => ?_)) ?_ ?_
    h.ingressFits hfits
  · exact hroom.reserved k _ q p hq hget hqs (hkeep _ (by decide) hs)
  · exact hroom.committed k _ q p hq hget hqs (hkeep _ (by decide) hs)
  · rw [hr]
    simp only [Option.getD_some]
    omega
  · rw [hr]
    simp only [Option.getD_some, subscribed]
    omega

/-! ## Nothing charged, nothing released -/

/-- Neither charged nor released, the slot moves. -/
theorem accounted_of_moves {e : Event} {s : Slot} {x y : Option ResourceState}
    (hc : e.charges s = false) (hr : e.releases s = false) (h : Moves x y) : Accounted e s x y := by
  unfold Accounted
  rw [if_neg (by simp [hc]), if_neg (by simp [hr])]
  exact h

theorem releases_eq_false {e : Event} (h : ∀ s, e.answer.accepted → e.op.completes s = false) (s : Slot) :
    e.releases s = false := by
  unfold Event.releases
  cases ha : e.answer.accepted with
  | false => rfl
  | true => simp [h s ha]

theorem charges_eq_false {e : Event}
    (h : ∀ s, e.answer.accepted → e.op.reserves = some s → (e.before.stateAt s).isSome) (s : Slot) :
    e.charges s = false := by
  unfold Event.charges
  cases ha : e.answer.accepted with
  | false => rfl
  | true =>
    by_cases hs : e.op.reserves = some s
    · obtain ⟨x, hx⟩ := Option.isSome_iff_exists.1 (h s ha hs)
      simp [hx]
    · simp [hs]

/-- The operation neither reserves nor completes. -/
def Op.Quiet (op : Op) : Prop := op.reserves = none ∧ ∀ s, op.completes s = false

theorem Op.Quiet.event {op : Op} {answer : Answer} (h : op.Quiet) (s : Slot) :
    (⟨a, op, answer⟩ : Event).charges s = false ∧ (⟨a, op, answer⟩ : Event).releases s = false := by
  simp [Event.charges, Event.releases, h.1, h.2]

theorem accounted_quiet {op : Op} {answer : Answer} {s : Slot} {x y : Option ResourceState}
    (h : op.Quiet) : Accounted ⟨a, op, answer⟩ s x y ↔ Moves x y := by
  unfold Accounted
  rw [if_neg (by simp [Event.charges, h.1]), if_neg (by simp [Event.releases, h.2])]

/-- The operation leaves everything alone. -/
theorem Ledger.unchanged (h : a.Ledger) {op : Op} {answer : Answer}
    (hc : ∀ s, answer.accepted → op.reserves = some s → (a.stateAt s).isSome)
    (hr : ∀ s, answer.accepted → op.completes s = false) : Accounts a op answer a :=
  ⟨h, ⟨rfl, rfl⟩, fun s =>
    accounted_of_moves (charges_eq_false hc s) (releases_eq_false hr s) (.stays _)⟩

/-- A refused operation leaves everything alone. -/
theorem Ledger.refused (h : a.Ledger) (op : Op) (draining : List ResourceFence) :
    Accounts a op { accepted := false, draining } a :=
  h.unchanged (fun _ h => by cases h) fun _ h => by cases h

/-- One publication is written, and its slots move. -/
theorem Ledger.modified (h : a.Ledger) {op : Op} {answer : Answer} {fence : ResourceFence}
    {p : PublicationEntry} (hp : a.publication fence = some p) {f : PublicationEntry → PublicationEntry}
    {egress : Int} (hf : (f p).Filed fence.roomID (publicationKey fence))
    (hstate : (f p).state = p.state ∨ (f p).state = .draining)
    (he : egress + p.subscriptions.len = a.egressInUse + (f p).subscriptions.len)
    (hfits : egress ≤ a.egressCapacity)
    (hslot : ∀ sub, Accounted ⟨a, op, answer⟩
      ⟨fence.roomID, publicationKey fence, sub⟩ (p.stateOf sub) ((f p).stateOf sub))
    (hother : ∀ s : Slot, ¬(s.roomID = fence.roomID ∧ s.publication = publicationKey fence) →
      (⟨a, op, answer⟩ : Event).charges s = false ∧ (⟨a, op, answer⟩ : Event).releases s = false) :
    Accounts a op answer { a.modifyPublication fence f with egressInUse := egress } := by
  refine ⟨h.modify hp hf hstate he hfits, ⟨rfl, rfl⟩, fun s => ?_⟩
  have hentry := entryAt_modifyPublication hp f egress s.roomID s.publication
  unfold stateAt
  rw [hentry]
  by_cases hs : s.roomID = fence.roomID ∧ s.publication = publicationKey fence
  · obtain ⟨room, hr, hget, -⟩ := entryAt_of_publication hp
    have hbefore : a.entryAt s.roomID s.publication = some p := by
      rw [hs.1, hs.2]
      simp [entryAt, hr, hget]
    rw [if_pos hs, hbefore]
    obtain ⟨r, k, sub⟩ := s
    obtain ⟨rfl, rfl⟩ := hs
    exact hslot sub
  · rw [if_neg hs]
    exact accounted_of_moves (hother s hs).1 (hother s hs).2 (.stays _)

/-! ## Operations on valid fences -/

end Admission

/-- The fences that `assertFence` accepts. -/
def ResourceFence.Valid (fence : ResourceFence) : Prop :=
  fence.roomID ≠ "" ∧ fence.shareGeneration ≠ "" ∧ fence.publicationGeneration ≠ ""

/-- The fences that `assertSubscriptionFence` accepts. -/
def SubscriptionFence.Valid (fence : SubscriptionFence) : Prop :=
  fence.toResourceFence.Valid ∧ fence.viewerPeerID ≠ ""

theorem assertFence_ok {fence : ResourceFence} (h : fence.Valid) : assertFence fence = .ok () := by
  simp [assertFence, h.1, h.2.1, h.2.2]

theorem assertSubscriptionFence_ok {fence : SubscriptionFence} (h : fence.Valid) :
    assertSubscriptionFence fence = .ok () := by
  unfold assertSubscriptionFence
  rw [assertFence_ok h.1]
  simp [bind, Except.bind, h.2]

namespace Admission

variable {a : Admission}

/-- What the operation asserts of its fence. -/
def Op.Valid : Op → Prop
  | .reservePublication fence | .commitPublication fence | .beginDrain fence
  | .completeDrain fence => fence.Valid
  | .reserveSubscription fence | .commitSubscription fence | .beginSubscriptionDrain fence =>
    fence.Valid
  | .completeSubscriptionDrain _ | .beginDrainAll => True
  | .beginDrainRoom roomID => roomID ≠ ""

/-- The operation panics on nothing, and it is accounted for. -/
def Proceeds (a : Admission) (op : Op) : Prop :=
  ∃ answer a', a.step op = .ok (answer, a') ∧ Accounts a op answer a'

theorem proceeds_of_accepted {op : Op} {x : Except Fault (Bool × Admission)}
    (hx : a.step op = ofAccepted <$> x)
    (h : ∃ accepted a', x = .ok (accepted, a') ∧ Accounts a op { accepted } a') : a.Proceeds op := by
  obtain ⟨accepted, a', rfl, h⟩ := h
  exact ⟨_, _, hx, h⟩

theorem stateAt_publicationSlot {fence : ResourceFence} :
    a.stateAt (publicationSlot fence) =
      (a.entryAt fence.roomID (publicationKey fence)).map PublicationEntry.state := by
  unfold stateAt publicationSlot
  cases a.entryAt fence.roomID (publicationKey fence) <;> rfl

theorem reservePublication_proceeds (h : a.Ledger) {fence : ResourceFence} (hv : fence.Valid) :
    a.Proceeds (.reservePublication fence) := by
  refine proceeds_of_accepted rfl ?_
  unfold reservePublication
  rw [assertFence_ok hv]
  simp only [bind, Except.bind]
  cases hentry : a.entryAt fence.roomID (publicationKey fence) with
  | some existing =>
    refine ⟨_, _, rfl, h.unchanged (fun s _ hs => ?_) fun _ _ => rfl⟩
    cases hs
    rw [stateAt_publicationSlot, hentry]
    rfl
  | none =>
    dsimp only
    split
    · exact ⟨_, _, rfl, h.refused _ _⟩
    · next hcap =>
      split
      · exact ⟨_, _, rfl, h.refused _ _⟩
      · next hres =>
        -- the new entry is the only reserved one of its room
        set resources := (a.rooms.get fence.roomID).getD .empty with hresources
        have hget : resources.get (publicationKey fence) = none := by
          unfold entryAt at hentry
          rw [hresources]
          split at hentry
          · next hr => simp [hr]
          · next room hr => simpa [hr] using hentry
        have hnone : ∀ k q, resources.get k = some q → q.state ≠ .reserved := by
          intro k q hq hs
          refine hres (List.any_eq_true.2 ⟨q, OMap.mem_values.2 ⟨k, hq⟩, ?_⟩)
          simp [hs]
        have hroom : RoomHolds fence.roomID resources := by
          rw [hresources]
          cases hr : a.rooms.get fence.roomID with
          | some room => exact (h.rooms _ _ hr).2
          | none =>
            exact ⟨fun k p hp => by simp at hp, fun k _ p _ hp => by simp at hp,
              fun k _ p _ hp => by simp at hp⟩
        set entry : PublicationEntry := { fence, state := .reserved, subscriptions := .empty } with he
        have hfiled : entry.Filed fence.roomID (publicationKey fence) := by
          refine ⟨rfl, rfl, ?_, ?_, ?_⟩
          · intro s e hs
            simp [he] at hs
          · intro s e hs
            simp [he] at hs
          · intro hd
            cases hd
        have hlen := OMap.total_set resources (publicationKey fence) entry fun _ => 1
        have hsub := OMap.total_set resources (publicationKey fence) entry fun p => p.subscriptions.len
        rw [hget] at hlen hsub
        simp only [Option.map_none, Option.getD_none, OMap.total_one] at hlen hsub
        have hzero : entry.subscriptions.len = 0 := rfl
        refine ⟨_, _, rfl, ⟨?_, ⟨rfl, rfl⟩, fun s => ?_⟩⟩
        · refine h.set hv.1 (hroom.set hfiled (fun _ k q hq hs => absurd hs (hnone k q hq))
            (fun hs => by cases hs)) ?_ ?_ (by omega) h.egressFits
          · rw [← hresources]
            omega
          · rw [← hresources]
            unfold subscribed
            omega
        · have hafter := entryAt_set (a := a) fence.roomID (resources.set (publicationKey fence) entry)
            (a.ingressInUse + 1) a.egressInUse s.roomID s.publication
          have hbefore : s.roomID = fence.roomID → a.entryAt s.roomID s.publication =
              resources.get s.publication := by
            intro hs
            unfold entryAt
            rw [hs, hresources]
            cases a.rooms.get fence.roomID <;> rfl
          unfold stateAt
          rw [hafter]
          by_cases hs : s.roomID = fence.roomID ∧ s.publication = publicationKey fence
          · rw [if_pos hs.1, hs.2, OMap.get_set, if_pos rfl, hs.1, hentry]
            cases hsub : s.subscription with
            | none =>
              unfold Accounted
              rw [if_pos]
              · exact ⟨rfl, rfl⟩
              · have hslot : publicationSlot fence = s := by
                  obtain ⟨r, k, sub⟩ := s
                  obtain ⟨rfl, rfl⟩ := hs
                  cases hsub
                  rfl
                simp [Event.charges, Op.reserves, ← hslot, stateAt_publicationSlot, hentry]
            | some key =>
              refine accounted_of_moves ?_ (releases_eq_false (fun _ _ => rfl) s) (.stays none)
              have hslot : publicationSlot fence ≠ s := by
                intro hslot
                rw [← hslot] at hsub
                cases hsub
              simp [Event.charges, Op.reserves, hslot]
          · have hsame : (if s.roomID = fence.roomID then
                (resources.set (publicationKey fence) entry).get s.publication
                else a.entryAt s.roomID s.publication) = a.entryAt s.roomID s.publication := by
              split
              · next hr =>
                rw [OMap.get_set, if_neg fun hk => hs ⟨hr, hk⟩, hbefore hr]
              · rfl
            rw [hsame]
            refine accounted_of_moves ?_ (releases_eq_false (fun _ _ => rfl) s) (.stays _)
            have hslot : publicationSlot fence ≠ s := by
              rintro rfl
              exact hs ⟨rfl, rfl⟩
            simp [Event.charges, Op.reserves, hslot]

theorem stateAt_of_publication {fence : ResourceFence} {p : PublicationEntry}
    (h : a.publication fence = some p) (sub : Option String) :
    a.stateAt ⟨fence.roomID, publicationKey fence, sub⟩ = p.stateOf sub := by
  obtain ⟨room, hr, hget, -⟩ := entryAt_of_publication h
  simp [stateAt, entryAt, hr, hget]

theorem Ledger.publication_filed (h : a.Ledger) {fence : ResourceFence} {p : PublicationEntry}
    (hp : a.publication fence = some p) : p.Filed fence.roomID (publicationKey fence) := by
  obtain ⟨room, hr, hget, -⟩ := entryAt_of_publication hp
  exact (h.rooms _ _ hr).2.filed _ p hget

theorem reserveSubscription_proceeds (h : a.Ledger) {fence : SubscriptionFence} (hv : fence.Valid) :
    a.Proceeds (.reserveSubscription fence) := by
  refine proceeds_of_accepted rfl ?_
  unfold reserveSubscription
  rw [assertSubscriptionFence_ok hv]
  simp only [bind, Except.bind]
  cases hp : a.publication fence.toResourceFence with
  | none => exact ⟨_, _, rfl, h.refused _ _⟩
  | some p =>
    dsimp only
    split
    · exact ⟨_, _, rfl, h.refused _ _⟩
    · next hdraining =>
      have hstate := stateAt_of_publication hp (some (subscriptionKey fence))
      cases hget : p.subscriptions.get (subscriptionKey fence) with
      | some existing =>
        refine ⟨_, _, rfl, h.unchanged (fun s _ hs => ?_) fun _ _ => rfl⟩
        cases hs
        rw [subscriptionSlot, hstate]
        simp [PublicationEntry.stateOf, hget]
      | none =>
        dsimp only
        split
        · exact ⟨_, _, rfl, h.refused _ _⟩
        · next hcap =>
          have hfiled := h.publication_filed hp
          have hlen := OMap.total_set p.subscriptions (subscriptionKey fence) { fence, state := .reserved }
            fun _ => 1
          rw [hget] at hlen
          simp only [Option.map_none, Option.getD_none, OMap.total_one] at hlen
          refine ⟨_, _, rfl, h.modified hp ?_ (Or.inl rfl) ?_ ?_ (fun sub => ?_) fun s hs => ⟨?_, ?_⟩⟩
          · refine ⟨hfiled.room, hfiled.key, fun s e he => ?_, fun s e he hc => ?_, fun hd => ?_⟩
            · rw [OMap.get_set] at he
              split at he
              · next hs =>
                cases he
                obtain ⟨room, -, -, hpf⟩ := entryAt_of_publication hp
                exact ⟨hpf.symm, hs.symm⟩
              · exact hfiled.under s e he
            · rw [OMap.get_set] at he
              split at he
              · cases he
                cases hc
              · exact hfiled.committed s e he hc
            · exact absurd hd hdraining
          · show a.egressInUse + 1 + (p.subscriptions.len : Int) = a.egressInUse +
              ((p.subscriptions.set (subscriptionKey fence) { fence, state := .reserved }).len : Int)
            omega
          · show a.egressInUse + 1 ≤ a.egressCapacity
            omega
          · cases sub with
            | none =>
              refine accounted_of_moves ?_ (releases_eq_false (fun _ _ => rfl) _) (.stays _)
              simp [Event.charges, Op.reserves, subscriptionSlot]
            | some key =>
              by_cases hk : key = subscriptionKey fence
              · subst hk
                unfold Accounted
                rw [if_pos]
                · simp [PublicationEntry.stateOf, hget]
                · simp [Event.charges, Op.reserves, subscriptionSlot, hstate, PublicationEntry.stateOf, hget]
              · have hsame : (p.subscriptions.set (subscriptionKey fence)
                    { fence, state := .reserved }).get key = p.subscriptions.get key := by
                  rw [OMap.get_set, if_neg hk]
                simp only [PublicationEntry.stateOf, hsame]
                refine accounted_of_moves ?_ (releases_eq_false (fun _ _ => rfl) _) (.stays _)
                simp [Event.charges, Op.reserves, subscriptionSlot, Ne.symm hk]
          · have hslot : subscriptionSlot fence ≠ s := by
              rintro rfl
              exact hs ⟨rfl, rfl⟩
            simp [Event.charges, Op.reserves, hslot]
          · exact releases_eq_false (fun _ _ => rfl) s

/-! ### Writing one subscription -/

theorem subscription_of_publication {fence : SubscriptionFence} {e : SubscriptionEntry}
    (h : a.subscription fence = some e) : ∃ p, a.publication fence.toResourceFence = some p ∧
      p.subscriptions.get (subscriptionKey fence) = some e ∧ e.fence = fence := by
  unfold subscription at h
  split at h
  · cases h
  · next p hp =>
    split at h
    · cases h
    · next e' he =>
      split at h
      · next hf =>
        cases h
        exact ⟨p, hp, he, hf⟩
      · cases h

/-- A registered subscription is committed under a committed publication, or drained. -/
theorem setSubscriptionState_accounts (h : a.Ledger) {op : Op} {answer : Answer}
    {fence : SubscriptionFence} {p : PublicationEntry} {e : SubscriptionEntry} {state : ResourceState}
    (hp : a.publication fence.toResourceFence = some p)
    (he : p.subscriptions.get (subscriptionKey fence) = some e)
    (hs : state = .draining ∨ state = .committed ∧ p.state = .committed ∧ e.state = .reserved)
    (hq : op.Quiet) :
    Accounts a op answer (a.setSubscriptionState fence state) := by
  have hfiled := h.publication_filed hp
  have hlen : (p.subscriptions.modify (subscriptionKey fence) fun e => { e with state }).len =
      p.subscriptions.len := by
    simp [OMap.len, OMap.modify]
  refine h.modified hp ?_ (Or.inl rfl) ?_ h.egressFits (fun sub => ?_) fun s _ => hq.event s
  · refine ⟨hfiled.room, hfiled.key, fun s e' he' => ?_, fun s e' he' hc' => ?_, fun hd s e' he' => ?_⟩
    all_goals
      rw [OMap.get_modify] at he'
      split at he'
    · next hk =>
      rw [hk, he] at he'
      cases he'
      obtain ⟨h₁, h₂⟩ := hfiled.under _ e he
      exact ⟨h₁, h₂.trans hk.symm⟩
    · exact hfiled.under s e' he'
    · next hk =>
      rw [hk, he] at he'
      cases he'
      rcases hs with rfl | ⟨-, hp', -⟩
      · cases hc'
      · exact hp'
    · exact hfiled.committed s e' he' hc'
    · next hk =>
      rw [hk, he] at he'
      cases he'
      rcases hs with rfl | ⟨-, hp', -⟩
      · rfl
      · have := hp'.symm.trans hd
        cases this
    · exact hfiled.draining hd s e' he'
  · rw [hlen]
  · refine (accounted_quiet hq).2 ?_
    cases sub with
    | none => exact .stays _
    | some key =>
      unfold PublicationEntry.stateOf
      dsimp only
      rw [OMap.get_modify]
      split
      · next hk =>
        rw [hk, he]
        rcases hs with rfl | ⟨rfl, -, he'⟩
        · exact .drains _
        · simp only [Option.map_some, he']
          exact .commits
      · exact .stays _

theorem commitSubscription_proceeds (h : a.Ledger) {fence : SubscriptionFence} (hv : fence.Valid) :
    a.Proceeds (.commitSubscription fence) := by
  refine proceeds_of_accepted rfl ?_
  unfold commitSubscription
  rw [assertSubscriptionFence_ok hv]
  simp only [bind, Except.bind]
  split
  · next p e hp he =>
    obtain ⟨p', hp', hget, -⟩ := subscription_of_publication he
    cases hp.symm.trans hp'
    split
    · exact ⟨_, _, rfl, h.refused _ _⟩
    · next hcommitted =>
      split
      · exact ⟨_, _, rfl, h.unchanged (fun _ _ hs => by cases hs) fun _ _ => rfl⟩
      · split
        · exact ⟨_, _, rfl, h.refused _ _⟩
        · next hreserved =>
          exact ⟨_, _, rfl, setSubscriptionState_accounts h hp hget
            (Or.inr ⟨rfl, not_not.1 hcommitted, not_not.1 hreserved⟩) ⟨rfl, fun _ => rfl⟩⟩
  · exact ⟨_, _, rfl, h.refused _ _⟩

theorem beginSubscriptionDrain_proceeds (h : a.Ledger) {fence : SubscriptionFence} (hv : fence.Valid) :
    a.Proceeds (.beginSubscriptionDrain fence) := by
  refine proceeds_of_accepted rfl ?_
  unfold beginSubscriptionDrain
  rw [assertSubscriptionFence_ok hv]
  simp only [bind, Except.bind]
  split
  · exact ⟨_, _, rfl, h.refused _ _⟩
  · next e he =>
    obtain ⟨p, hp, hget, -⟩ := subscription_of_publication he
    exact ⟨_, _, rfl, setSubscriptionState_accounts h hp hget (Or.inl rfl) ⟨rfl, fun _ => rfl⟩⟩

/-! ### Draining publications -/

theorem markDraining_filed {p : PublicationEntry} {roomID key : String} (h : p.Filed roomID key) :
    (markDraining p).Filed roomID key := by
  refine ⟨h.room, h.key, fun s e he => ?_, fun s e he hc => ?_, fun _ s e he => ?_⟩
  all_goals
    simp only [markDraining, OMap.get_mapValues, Option.map_eq_some_iff] at he
    obtain ⟨e', he', rfl⟩ := he
  · exact h.under s e' he'
  · cases hc
  · rfl

theorem markDraining_moves (p : PublicationEntry) (sub : Option String) :
    Moves (p.stateOf sub) ((markDraining p).stateOf sub) := by
  cases sub with
  | none => exact .drains _
  | some key =>
    simp only [PublicationEntry.stateOf, markDraining, OMap.get_mapValues]
    cases p.subscriptions.get key with
    | none => exact .stays _
    | some e => exact .drains _

@[simp] theorem markDraining_len (p : PublicationEntry) :
    (markDraining p).subscriptions.len = p.subscriptions.len := by
  simp [markDraining, OMap.len, OMap.mapValues]

theorem beginDrain_proceeds (h : a.Ledger) {fence : ResourceFence} (hv : fence.Valid) :
    a.Proceeds (.beginDrain fence) := by
  refine proceeds_of_accepted rfl ?_
  unfold beginDrain
  rw [assertFence_ok hv]
  simp only [bind, Except.bind]
  split
  · exact ⟨_, _, rfl, h.refused _ _⟩
  · next p hp =>
    have hq : Op.Quiet (.beginDrain fence) := ⟨rfl, fun _ => rfl⟩
    refine ⟨_, _, rfl, ?_⟩
    exact h.modified hp (markDraining_filed (h.publication_filed hp)) (Or.inr rfl)
      (by rw [markDraining_len]) h.egressFits
      (fun sub => (accounted_quiet hq).2 (markDraining_moves p sub)) fun s _ => hq.event s

/-! ### Confirming retirements -/

theorem Ledger.assertNoUnderflow (h : a.Ledger) : a.assertNoUnderflow = .ok () := by
  unfold Admission.assertNoUnderflow
  rw [if_neg]
  have h₁ := h.ingress
  have h₂ := h.egress
  omega

theorem subtractEgress_ok {count : Int}
    (h : ({ a with egressInUse := a.egressInUse - count } : Admission).Ledger) :
    a.subtractEgress count = .ok { a with egressInUse := a.egressInUse - count } := by
  simp [subtractEgress, h.assertNoUnderflow, bind, Except.bind]

theorem completeSubscriptionDrain_proceeds (h : a.Ledger) (fence : SubscriptionFence) :
    a.Proceeds (.completeSubscriptionDrain fence) := by
  refine proceeds_of_accepted rfl ?_
  unfold completeSubscriptionDrain
  split
  · exact ⟨_, _, rfl, h.refused _ _⟩
  · next e he =>
    obtain ⟨p, hp, hget, -⟩ := subscription_of_publication he
    split
    · exact ⟨_, _, rfl, h.refused _ _⟩
    · next hstate =>
      have hfiled := h.publication_filed hp
      have hlen := OMap.total_delete (fun _ => 1) hget
      simp only [OMap.total_one] at hlen
      set f : PublicationEntry → PublicationEntry := fun publication =>
        { publication with subscriptions := publication.subscriptions.delete (subscriptionKey fence) }
        with hf
      have hold : ∀ s e', (f p).subscriptions.get s = some e' → p.subscriptions.get s = some e' := by
        intro s e' he'
        simp only [hf, OMap.get_delete] at he'
        split at he'
        · cases he'
        · exact he'
      have hacc : Accounts a (.completeSubscriptionDrain fence) { accepted := true }
          { a.modifyPublication fence.toResourceFence f with egressInUse := a.egressInUse - 1 } := by
        refine h.modified hp ?_ (Or.inl rfl) ?_ ?_ (fun sub => ?_) fun s hs => ⟨?_, ?_⟩
        · exact ⟨hfiled.room, hfiled.key, fun s e' he' => hfiled.under s e' (hold s e' he'),
            fun s e' he' => hfiled.committed s e' (hold s e' he'),
            fun hd s e' he' => hfiled.draining hd s e' (hold s e' he')⟩
        · show a.egressInUse - 1 + (p.subscriptions.len : Int) = a.egressInUse +
            ((p.subscriptions.delete (subscriptionKey fence)).len : Int)
          omega
        · have := h.egressFits
          omega
        · have hc : ∀ s, (⟨a, .completeSubscriptionDrain fence, { accepted := true }⟩ : Event).charges s =
              false := charges_eq_false fun _ _ hs => by cases hs
          have hat := stateAt_of_publication hp sub
          by_cases hs : sub = some (subscriptionKey fence)
          · subst hs
            unfold Accounted
            rw [if_neg (by simp [hc]), if_pos]
            · simp [PublicationEntry.stateOf, hget, hf, not_not.1 hstate]
            · simp [Event.releases, Op.completes, subscriptionSlot, hat, PublicationEntry.stateOf, hget]
          · have hsame : (f p).stateOf sub = p.stateOf sub := by
              cases sub with
              | none => rfl
              | some key =>
                have hk : key ≠ subscriptionKey fence := fun hk => hs (by rw [hk])
                simp [PublicationEntry.stateOf, hf, hk]
            rw [hsame]
            refine accounted_of_moves (hc _) ?_ (.stays _)
            simp [Event.releases, Op.completes, subscriptionSlot, hs]
        · exact charges_eq_false (fun _ _ hs => by cases hs) s
        · have hslot : s ≠ subscriptionSlot fence := by
            rintro rfl
            exact hs ⟨rfl, rfl⟩
          simp [Event.releases, Op.completes, hslot]
      refine ⟨true, _, ?_, hacc⟩
      have hsub : (a.modifyPublication fence.toResourceFence f).subtractEgress 1 = .ok _ :=
        subtractEgress_ok hacc.ledger
      simp only [bind, Except.bind]
      rw [hsub]
      rfl

/-- A room without publications is forgotten. -/
theorem Ledger.deleteRoom (h : a.Ledger) {roomID : String} {room : RoomPublications}
    (hr : a.rooms.get roomID = some room) (hlen : room.len = 0) :
    ({ a with rooms := a.rooms.delete roomID } : Admission).Ledger ∧
      ∀ r key, ({ a with rooms := a.rooms.delete roomID } : Admission).entryAt r key = a.entryAt r key := by
  have hempty : room.entries = [] := List.length_eq_zero_iff.1 hlen
  have h₁ := OMap.total_delete OMap.len hr
  have h₂ := OMap.total_delete subscribed hr
  have hzero : subscribed room = 0 := by simp [subscribed, OMap.total, OMap.values, hempty]
  have hi := h.ingress
  have he := h.egress
  unfold publications at hi
  unfold subscriptions at he
  refine ⟨⟨?_, ?_, h.ingressFits, h.egressFits, fun r room' hroom => ?_⟩, fun r key => ?_⟩
  · show a.ingressInUse = ((a.rooms.delete roomID).total OMap.len : ℕ)
    omega
  · show a.egressInUse = ((a.rooms.delete roomID).total subscribed : ℕ)
    omega
  · rw [OMap.get_delete] at hroom
    split at hroom
    · cases hroom
    · exact h.rooms r room' hroom
  · unfold entryAt
    rw [OMap.get_delete]
    by_cases hk : r = roomID
    · subst hk
      rw [hr, if_pos rfl]
      simp [OMap.get, OMap.lookup, hempty]
    · rw [if_neg hk]

/-- The room without the publication, and the charges that go with it. -/
theorem completeDrain_accounts (h : a.Ledger) {fence : ResourceFence} {room : RoomPublications}
    {p : PublicationEntry} (hr : a.rooms.get fence.roomID = some room)
    (hp : a.publication fence = some p) (hstate : p.state = .draining) :
    Accounts a (.completeDrain fence) { accepted := true }
      { a with
        rooms := a.rooms.set fence.roomID (room.delete (publicationKey fence))
        ingressInUse := a.ingressInUse - 1
        egressInUse := a.egressInUse - p.subscriptions.len } := by
  obtain ⟨room', hr', hget, -⟩ := entryAt_of_publication hp
  cases hr.symm.trans hr'
  obtain ⟨hid, hroom⟩ := h.rooms _ _ hr
  have hold : ∀ k q, (room.delete (publicationKey fence)).get k = some q → room.get k = some q := by
    intro k q hq
    rw [OMap.get_delete] at hq
    split at hq
    · cases hq
    · exact hq
  have hlen := OMap.total_delete (fun _ => 1) hget
  have hsub := OMap.total_delete (fun p : PublicationEntry => p.subscriptions.len) hget
  simp only [OMap.total_one] at hlen
  have hi := h.ingressFits
  have he := h.egressFits
  refine ⟨?_, ⟨rfl, rfl⟩, fun s => ?_⟩
  · refine h.set hid ⟨fun k q hq => hroom.filed k q (hold k q hq),
      fun k k' q q' hq hq' => hroom.reserved k k' q q' (hold k q hq) (hold k' q' hq'),
      fun k k' q q' hq hq' => hroom.committed k k' q q' (hold k q hq) (hold k' q' hq')⟩ ?_ ?_
      (by omega) (by omega)
    · rw [hr]
      simp only [Option.getD_some]
      omega
    · rw [hr]
      simp only [Option.getD_some, subscribed]
      omega
  · have hc : (⟨a, .completeDrain fence, { accepted := true }⟩ : Event).charges s = false :=
      charges_eq_false (fun _ _ hs => by cases hs) s
    have hafter := entryAt_set (a := a) fence.roomID (room.delete (publicationKey fence))
      (a.ingressInUse - 1) (a.egressInUse - p.subscriptions.len) s.roomID s.publication
    by_cases hs : s.roomID = fence.roomID ∧ s.publication = publicationKey fence
    · have hbefore : a.stateAt s = p.stateOf s.subscription := by
        obtain ⟨r, k, sub⟩ := s
        obtain ⟨rfl, rfl⟩ := hs
        exact stateAt_of_publication hp sub
      have hnone : ({ a with
          rooms := a.rooms.set fence.roomID (room.delete (publicationKey fence))
          ingressInUse := a.ingressInUse - 1
          egressInUse := a.egressInUse - p.subscriptions.len } : Admission).stateAt s = none := by
        unfold stateAt
        rw [hafter, if_pos hs.1, hs.2, OMap.get_delete, if_pos rfl]
        rfl
      rw [hnone]
      cases hx : a.stateAt s with
      | none =>
        refine accounted_of_moves hc ?_ (.stays _)
        simp [Event.releases, hx]
      | some x =>
        unfold Accounted
        rw [if_neg (by simp [hc]), if_pos (by simp [Event.releases, Op.completes, hs, hx])]
        refine ⟨?_, rfl⟩
        rw [hbefore] at hx
        rw [← hx]
        unfold PublicationEntry.stateOf at hx ⊢
        cases hsub : s.subscription with
        | none => simp [hstate]
        | some key =>
          simp only [hsub] at hx ⊢
          obtain ⟨e, he, -⟩ := Option.map_eq_some_iff.1 hx
          simp [he, (hroom.filed _ p hget).draining hstate key e he]
    · have hsame : ({ a with
          rooms := a.rooms.set fence.roomID (room.delete (publicationKey fence))
          ingressInUse := a.ingressInUse - 1
          egressInUse := a.egressInUse - p.subscriptions.len } : Admission).stateAt s = a.stateAt s := by
        unfold stateAt
        rw [hafter]
        split
        · next hk =>
          rw [OMap.get_delete, if_neg fun hk' => hs ⟨hk, hk'⟩, hk]
          simp [entryAt, hr]
        · rfl
      rw [hsame]
      refine accounted_of_moves hc ?_ (.stays _)
      simp only [Event.releases, Op.completes]
      rw [← Bool.decide_and, decide_eq_false hs]
      simp

theorem completeDrain_proceeds (h : a.Ledger) {fence : ResourceFence} (hv : fence.Valid) :
    a.Proceeds (.completeDrain fence) := by
  refine proceeds_of_accepted rfl ?_
  unfold completeDrain
  rw [assertFence_ok hv]
  simp only [bind, Except.bind]
  split
  · next room p hr hp =>
    split
    · exact ⟨_, _, rfl, h.refused _ _⟩
    · next hstate =>
      have hacc := completeDrain_accounts h hr hp (not_not.1 hstate)
      have hsub : Admission.subtractEgress { a with
          rooms := a.rooms.set fence.roomID (room.delete (publicationKey fence))
          ingressInUse := a.ingressInUse - 1 } p.subscriptions.len = .ok _ := subtractEgress_ok hacc.ledger
      rw [hsub]
      dsimp only
      rw [hacc.ledger.assertNoUnderflow]
      refine ⟨true, _, rfl, ?_⟩
      split
      · next hlen =>
        have hget : (a.rooms.set fence.roomID (room.delete (publicationKey fence))).get fence.roomID =
            some (room.delete (publicationKey fence)) := by simp
        obtain ⟨hl, hentry⟩ := hacc.ledger.deleteRoom hget hlen
        refine ⟨hl, ⟨rfl, rfl⟩, fun s => ?_⟩
        have := hacc.slots s
        unfold stateAt at this ⊢
        rw [hentry]
        exact this
      · exact hacc
  · exact ⟨_, _, rfl, h.refused _ _⟩

/-! ### Writing a whole room -/

/-- Every publication of a room is written in place, with all its subscriptions. -/
theorem Ledger.rewritten (h : a.Ledger) {op : Op} {answer : Answer} {roomID : String}
    {room : RoomPublications} (hr : a.rooms.get roomID = some room)
    {g : String → PublicationEntry → PublicationEntry} (hroom : RoomHolds roomID (room.mapValues g))
    (hlen : ∀ k p, (g k p).subscriptions.len = p.subscriptions.len)
    (hmoves : ∀ k p sub, room.get k = some p → Moves (p.stateOf sub) ((g k p).stateOf sub))
    (hq : op.Quiet) :
    Accounts a op answer { a with rooms := a.rooms.set roomID (room.mapValues g) } := by
  have hsame : (room.mapValues g).len = room.len := by simp [OMap.len, OMap.mapValues]
  have hsub : subscribed (room.mapValues g) = subscribed room :=
    OMap.total_mapValues room _ _ g hlen
  refine ⟨h.set (h.rooms _ _ hr).1 hroom ?_ ?_ h.ingressFits h.egressFits, ⟨rfl, rfl⟩, fun s => ?_⟩
  · rw [hr, hsame]
    rfl
  · rw [hr, hsub]
    rfl
  · refine (accounted_quiet hq).2 ?_
    have hafter := entryAt_set (a := a) roomID (room.mapValues g) a.ingressInUse a.egressInUse s.roomID
      s.publication
    unfold stateAt
    rw [hafter]
    split
    · next hs =>
      rw [OMap.get_mapValues]
      have hbefore : a.entryAt s.roomID s.publication = room.get s.publication := by
        rw [hs]
        simp [entryAt, hr]
      rw [hbefore]
      cases hp : room.get s.publication with
      | none => exact .stays _
      | some p => exact hmoves s.publication p s.subscription hp
    · exact .stays _

theorem beginDrainRoom_accounts (h : a.Ledger) {op : Op} {answer : Answer} {roomID : String}
    {room : RoomPublications} (hr : a.rooms.get roomID = some room)
    (hq : op.Quiet) :
    Accounts a op answer { a with rooms := a.rooms.set roomID (room.mapValues fun _ => markDraining) } := by
  have hnone : ∀ state, state ≠ .draining → OneIn (room.mapValues fun _ => markDraining) state := by
    intro state hne k _ p _ hp _ hs
    rw [OMap.get_mapValues] at hp
    obtain ⟨q, -, rfl⟩ := Option.map_eq_some_iff.1 hp
    exact absurd hs.symm hne
  refine h.rewritten hr ⟨fun k p hp => ?_, hnone _ (by decide), hnone _ (by decide)⟩
    (fun _ p => markDraining_len p) (fun _ p sub _ => markDraining_moves p sub) hq
  rw [OMap.get_mapValues] at hp
  obtain ⟨q, hq, rfl⟩ := Option.map_eq_some_iff.1 hp
  exact markDraining_filed ((h.rooms _ _ hr).2.filed k q hq)

theorem beginDrainRoom_proceeds (h : a.Ledger) {roomID : String} (hv : roomID ≠ "") :
    a.Proceeds (.beginDrainRoom roomID) := by
  unfold Proceeds
  simp only [step, beginDrainRoom, if_neg hv]
  split
  · exact ⟨_, _, rfl, h.unchanged (fun _ _ hs => by cases hs) fun _ _ => rfl⟩
  · next room hr =>
    exact ⟨_, _, rfl, beginDrainRoom_accounts h hr ⟨rfl, fun _ => rfl⟩⟩

theorem Moves.isSome {x y : Option ResourceState} (h : Moves x y) : y.isSome = x.isSome := by
  cases h <;> rfl

theorem Moves.trans {x y z : Option ResourceState} (h : Moves x y) (h' : Moves y z) : Moves x z := by
  cases h with
  | stays => exact h'
  | commits =>
    cases h' with
    | stays => exact .commits
    | drains => exact .drains _
  | drains x =>
    cases h' with
    | stays => exact .drains _
    | drains => exact .drains _

theorem drainRooms_accounts : ∀ (roomIDs : List String) {a : Admission}, a.Ledger →
    (∀ r ∈ roomIDs, r ≠ "") → ∃ fences a', a.drainRooms roomIDs = .ok (fences, a') ∧ a'.Ledger ∧
      a.SameCapacity a' ∧ ∀ s, Moves (a.stateAt s) (a'.stateAt s)
  | [], a, h, _ => ⟨[], a, rfl, h, ⟨rfl, rfl⟩, fun _ => .stays _⟩
  | roomID :: roomIDs, a, h, hv => by
    have hq : Op.Quiet (.beginDrainRoom roomID) := ⟨rfl, fun _ => rfl⟩
    obtain ⟨fences₁, a₁, h₁, hl, hcap₁, hm₁⟩ : ∃ fences a₁,
        a.beginDrainRoom roomID = .ok (fences, a₁) ∧ a₁.Ledger ∧ a.SameCapacity a₁ ∧
        ∀ s, Moves (a.stateAt s) (a₁.stateAt s) := by
      simp only [beginDrainRoom, if_neg (hv roomID List.mem_cons_self)]
      split
      · exact ⟨_, a, rfl, h, ⟨rfl, rfl⟩, fun _ => .stays _⟩
      · next room hr =>
        have hacc : Accounts a _ {} _ := beginDrainRoom_accounts h hr hq
        exact ⟨_, _, rfl, hacc.ledger, hacc.capacity, fun s => (accounted_quiet hq).1 (hacc.slots s)⟩
    obtain ⟨fences₂, a₂, h₂, hl₂, hcap₂, hm₂⟩ := drainRooms_accounts roomIDs hl fun r hr =>
      hv r (List.mem_cons_of_mem _ hr)
    refine ⟨fences₁ ++ fences₂, a₂, ?_, hl₂, ⟨hcap₂.1.trans hcap₁.1, hcap₂.2.trans hcap₁.2⟩,
      fun s => (hm₁ s).trans (hm₂ s)⟩
    unfold drainRooms
    rw [h₁]
    simp only [bind, Except.bind]
    rw [h₂]

theorem beginDrainAll_proceeds (h : a.Ledger) : a.Proceeds .beginDrainAll := by
  obtain ⟨fences, a', hd, hl, hcap, hm⟩ := drainRooms_accounts a.rooms.keys h fun r hr => by
    obtain ⟨room, hroom⟩ := OMap.mem_keys.1 hr
    exact (h.rooms r room hroom).1
  refine ⟨{ draining := fences }, a', ?_, hl, hcap, fun s =>
    (accounted_quiet ⟨rfl, fun _ => rfl⟩).2 (hm s)⟩
  unfold step beginDrainAll
  dsimp only
  rw [hd]
  rfl

/-! ### Committing a publication -/

@[simp] theorem promote_len (p : PublicationEntry) :
    (promote p).subscriptions.len = p.subscriptions.len := by
  simp [promote, OMap.len, OMap.mapValues]

theorem promote_filed {p : PublicationEntry} {roomID key : String} (h : p.Filed roomID key) :
    (promote p).Filed roomID key := by
  refine ⟨h.room, h.key, fun s e he => ?_, fun _ _ _ _ => rfl, fun hd => by cases hd⟩
  simp only [promote, OMap.get_mapValues, Option.map_eq_some_iff] at he
  obtain ⟨e', he', rfl⟩ := he
  have := h.under s e' he'
  split <;> exact this

theorem promote_moves {p : PublicationEntry} (hp : p.state = .reserved) (sub : Option String) :
    Moves (p.stateOf sub) ((promote p).stateOf sub) := by
  cases sub with
  | none =>
    simp only [PublicationEntry.stateOf, hp]
    exact .commits
  | some key =>
    simp only [PublicationEntry.stateOf, promote, OMap.get_mapValues]
    cases p.subscriptions.get key with
    | none => exact .stays _
    | some e =>
      simp only [Option.map_some]
      split
      · next he =>
        rw [he]
        exact .commits
      · exact .stays _

theorem commitPublication_proceeds (h : a.Ledger) {fence : ResourceFence} (hv : fence.Valid) :
    a.Proceeds (.commitPublication fence) := by
  have hq : Op.Quiet (.commitPublication fence) := ⟨rfl, fun _ => rfl⟩
  have hstay : ∀ answer, Accounts a (.commitPublication fence) answer a := fun answer =>
    ⟨h, ⟨rfl, rfl⟩, fun s => (accounted_quiet hq).2 (.stays _)⟩
  unfold Proceeds
  simp only [step, commitPublication]
  rw [assertFence_ok hv]
  simp only [bind, Except.bind]
  split
  · next room p hr hp =>
    split
    · exact ⟨_, _, rfl, hstay _⟩
    · split
      · exact ⟨_, _, rfl, hstay _⟩
      · next hreserved =>
        split
        · exact ⟨_, _, rfl, hstay _⟩
        · obtain ⟨room', hr', hget, -⟩ := entryAt_of_publication hp
          cases hr.symm.trans hr'
          have hroom := (h.rooms _ _ hr).2
          have hp' : p.state = .reserved := not_not.1 hreserved
          refine ⟨_, _, rfl, h.rewritten hr ⟨fun k q hk => ?_, ?_, ?_⟩ (fun k q => ?_)
            (fun k q sub hk => ?_) hq⟩
          · rw [OMap.get_mapValues] at hk
            obtain ⟨q₀, hq₀, rfl⟩ := Option.map_eq_some_iff.1 hk
            have hfiled := hroom.filed k q₀ hq₀
            split
            · exact promote_filed hfiled
            · split
              · exact markDraining_filed hfiled
              · exact hfiled
          · -- the promoted publication was the reserved one
            intro k k' q q' hk _ hs _
            exfalso
            rw [OMap.get_mapValues] at hk
            obtain ⟨q₀, hq₀, rfl⟩ := Option.map_eq_some_iff.1 hk
            split at hs
            · cases hs
            · next hne =>
              split at hs
              · cases hs
              · exact hne (hroom.reserved k _ q₀ p hq₀ hget hs hp')
          · -- the other committed ones drain
            have honly : ∀ k q, (room.mapValues fun k other =>
                if k = publicationKey fence then promote other
                else if other.state = .committed then markDraining other else other).get k = some q →
                q.state = .committed → k = publicationKey fence := by
              intro k q hk hs
              rw [OMap.get_mapValues] at hk
              obtain ⟨q₀, hq₀, rfl⟩ := Option.map_eq_some_iff.1 hk
              by_contra hne
              rw [if_neg hne] at hs
              split at hs
              · cases hs
              · next hn => exact hn hs
            intro k k' q q' hk hk' hs hs'
            exact (honly k q hk hs).trans (honly k' q' hk' hs').symm
          · split
            · exact promote_len q
            · split
              · exact markDraining_len q
              · rfl
          · split
            · next hkey =>
              rw [hkey, hget] at hk
              cases hk
              exact promote_moves hp' sub
            · split
              · exact markDraining_moves q sub
              · exact .stays _
  · exact ⟨_, _, rfl, hstay _⟩

/-! ## Runs -/

theorem Op.Valid.proceeds {op : Op} (h : a.Ledger) (hv : op.Valid) : a.Proceeds op := by
  cases op with
  | reservePublication fence => exact reservePublication_proceeds h hv
  | reserveSubscription fence => exact reserveSubscription_proceeds h hv
  | commitPublication fence => exact commitPublication_proceeds h hv
  | commitSubscription fence => exact commitSubscription_proceeds h hv
  | beginSubscriptionDrain fence => exact beginSubscriptionDrain_proceeds h hv
  | beginDrain fence => exact beginDrain_proceeds h hv
  | completeSubscriptionDrain fence => exact completeSubscriptionDrain_proceeds h fence
  | completeDrain fence => exact completeDrain_proceeds h hv
  | beginDrainRoom roomID => exact beginDrainRoom_proceeds h hv
  | beginDrainAll => exact beginDrainAll_proceeds h

/-- Whether the slot is charged. -/
def registered (a : Admission) (s : Slot) : ℕ := if (a.stateAt s).isSome then 1 else 0

/-- One operation charges or releases a slot at most once. -/
theorem Accounts.balance {op : Op} {answer : Answer} {a' : Admission} (h : Accounts a op answer a')
    (s : Slot) : a.registered s + (if (⟨a, op, answer⟩ : Event).charges s then 1 else 0) =
      a'.registered s + if (⟨a, op, answer⟩ : Event).releases s then 1 else 0 := by
  have hs := h.slots s
  unfold Accounted at hs
  unfold registered
  by_cases hc : (⟨a, op, answer⟩ : Event).charges s
  · have hr : (⟨a, op, answer⟩ : Event).releases s = false := by
      simp only [Event.charges, Bool.and_eq_true, Option.isNone_iff_eq_none] at hc
      simp [Event.releases, hc.2]
    rw [if_pos hc] at hs
    simp [hc, hr, hs.1, hs.2]
  · rw [if_neg hc] at hs
    by_cases hr : (⟨a, op, answer⟩ : Event).releases s
    · rw [if_pos hr] at hs
      simp [hc, hr, hs.1, hs.2]
    · rw [if_neg hr] at hs
      simp [hc, hr, hs.isSome]

/-- **A run on valid fences panics on nothing and keeps the ledger.**  What was
    charged is released or still registered. -/
theorem run_accounts {ops : List Op} (h : a.Ledger) (hv : ∀ op ∈ ops, op.Valid) :
    ∃ events a', a.run ops = .ok (events, a') ∧ a'.Ledger ∧ a.SameCapacity a' ∧
      ∀ s, a.registered s + events.countP (fun e => e.charges s) =
        a'.registered s + events.countP fun e => e.releases s := by
  induction ops generalizing a with
  | nil => exact ⟨[], a, rfl, h, ⟨rfl, rfl⟩, fun _ => rfl⟩
  | cons op ops ih =>
    obtain ⟨answer, a₁, h₁, hacc⟩ := Op.Valid.proceeds h (hv op List.mem_cons_self)
    obtain ⟨events, a₂, h₂, hl, hcap, hbal⟩ := ih hacc.ledger fun op' h' =>
      hv op' (List.mem_cons_of_mem _ h')
    refine ⟨⟨a, op, answer⟩ :: events, a₂, ?_, hl,
      ⟨hcap.1.trans hacc.capacity.1, hcap.2.trans hacc.capacity.2⟩, fun s => ?_⟩
    · unfold run
      rw [h₁]
      simp only [bind, Except.bind]
      rw [h₂]
    · have hstep := hacc.balance s
      have := hbal s
      rw [List.countP_cons, List.countP_cons]
      omega

theorem new_ledger {o : AdmissionOptions} (h : new o = .ok a) :
    a.Ledger ∧ a.ingressCapacity = o.ingressCapacity ∧ a.egressCapacity = o.egressCapacity ∧
      ∀ s, a.stateAt s = none := by
  unfold new assertPositiveSafeInteger at h
  simp only [bind, Except.bind] at h
  split at h
  · cases h
  · next h₁ =>
    split at h
    · cases h
    · next h₂ =>
      cases h
      have hi : ¬(o.ingressCapacity ≤ 0 ∨ o.ingressCapacity > maxSafeInteger) := by
        intro hi
        simp [hi] at h₁
      have he : ¬(o.egressCapacity ≤ 0 ∨ o.egressCapacity > maxSafeInteger) := by
        intro he
        simp [he] at h₂
      refine ⟨⟨rfl, rfl, ?_, ?_, fun r room hr => ?_⟩, rfl, rfl, fun s => rfl⟩
      · show (0 : Int) ≤ o.ingressCapacity
        omega
      · show (0 : Int) ≤ o.egressCapacity
        omega
      · cases hr

/-- **The admission ledger.**  Any operations on valid fences panic on nothing.
    In the state they reach, what is in use is what is registered, within the
    capacities; a room has at most one reserved and one committed publication, a
    committed subscription lies under a committed publication, and what lies
    under a draining one drains.  The charges of a slot are its releases, and one
    more while it is registered; and the next operation charges a free slot,
    releases a draining one it confirms, or moves the entry without reviving it. -/
theorem admission_ledger {o : AdmissionOptions} {a₀ : Admission} (hnew : new o = .ok a₀)
    {ops : List Op} (hv : ∀ op ∈ ops, op.Valid) :
    ∃ events a, a₀.run ops = .ok (events, a) ∧
      a.ingressInUse = a.publications ∧ a.egressInUse = a.subscriptions ∧
      a.ingressInUse ≤ o.ingressCapacity ∧ a.egressInUse ≤ o.egressCapacity ∧
      (∀ roomID room, a.rooms.get roomID = some room → OneIn room .reserved ∧ OneIn room .committed ∧
        ∀ key p sub e, room.get key = some p → p.subscriptions.get sub = some e →
          (e.state = .committed → p.state = .committed) ∧
          (p.state = .draining → e.state = .draining)) ∧
      (∀ s, events.countP (fun e => e.charges s) =
        a.registered s + events.countP fun e => e.releases s) ∧
      ∀ op, op.Valid → ∃ answer a', a.step op = .ok (answer, a') ∧
        ∀ s, Accounted ⟨a, op, answer⟩ s (a.stateAt s) (a'.stateAt s) := by
  obtain ⟨hl₀, hi, he, hnone⟩ := new_ledger hnew
  obtain ⟨events, a, hrun, hl, hcap, hbal⟩ := run_accounts hl₀ hv
  refine ⟨events, a, hrun, hl.ingress, hl.egress, ?_, ?_, fun roomID room hr => ?_, fun s => ?_,
    fun op hop => ?_⟩
  · rw [← hi, ← hcap.1]
    exact hl.ingressFits
  · rw [← he, ← hcap.2]
    exact hl.egressFits
  · have hroom := (hl.rooms roomID room hr).2
    exact ⟨hroom.reserved, hroom.committed, fun key p sub e hp hsub =>
      ⟨(hroom.filed key p hp).committed sub e hsub,
        fun hd => (hroom.filed key p hp).draining hd sub e hsub⟩⟩
  · have := hbal s
    simpa [registered, hnone s] using this
  · obtain ⟨answer, a', hstep, hacc⟩ := hop.proceeds hl
    exact ⟨answer, a', hstep, hacc.slots⟩

/-- A publication. -/
def firstPublication : ResourceFence :=
  { roomID := "1234", shareGeneration := "share", publicationGeneration := "first" }

/-- A subscription of it. -/
def firstViewer : SubscriptionFence :=
  { firstPublication with viewerPeerID := "viewer", connectionID := "c1" }

/-- A publication is reserved, committed with its subscription, and drained. -/
def publicationLife : List Op :=
  [.reservePublication firstPublication, .reserveSubscription firstViewer,
    .commitPublication firstPublication, .beginDrain firstPublication,
    .completeSubscriptionDrain firstViewer, .completeDrain firstPublication]

theorem admission_ledger_publicationLife : ∃ a₀ events a, new ⟨1, 1⟩ = .ok a₀ ∧
    a₀.run publicationLife = .ok (events, a) ∧ a.ingressInUse = 0 ∧ a.egressInUse = 0 ∧
    events.countP (fun e => e.charges (subscriptionSlot firstViewer)) =
      a.registered (subscriptionSlot firstViewer) +
        events.countP fun e => e.releases (subscriptionSlot firstViewer) := by
  obtain ⟨events, a, hrun, hi, he, -, -, -, hbal, -⟩ := @admission_ledger ⟨1, 1⟩ _ rfl publicationLife
    (by simp [publicationLife, Op.Valid, ResourceFence.Valid, SubscriptionFence.Valid, firstPublication,
      firstViewer])
  have hends : ∃ events a, Admission.run { ingressCapacity := 1, egressCapacity := 1 } publicationLife =
      .ok (events, a) ∧ a.ingressInUse = 0 ∧ a.egressInUse = 0 := ⟨_, _, rfl, rfl, rfl⟩
  obtain ⟨events', a', hrun', hi', he'⟩ := hends
  cases hrun.symm.trans hrun'
  exact ⟨_, events, a, rfl, hrun, hi', he', hbal _⟩

end Admission

end Piik.Sfu
