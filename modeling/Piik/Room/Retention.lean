/-
  Retirement of empty rooms (`room/retention.go`).  A watcher notes, for each
  code, the step after which its room was empty and before which it was not;
  the date every empty room carries is the one the watcher noted last.
-/
import Piik.Room.Recheck

set_option mvcgen.warning false

namespace Piik.Room

open Std.Do

namespace Store

variable {s s' s'' s₀ s₁ s₂ s₃ : Store} {t : ℤ}

/-! ## History -/

/-- An operation, what the clock says throughout it and what the random source answers. -/
structure Stamped where
  op : Op
  nowMs : ℤ
  random : Stream' Bytes

/-- The store with the answers an operation finds. -/
def answering (s : Store) (call : Stamped) : Store :=
  { s with now := .const call.nowMs, random := call.random }

/-- A session that an operation names is a connection: none is empty, which means offline. -/
def Op.Connected : Op → Prop
  | .connectParticipant input => input.sessionID ≠ ""
  | .connectViewerWithPassword input _ _ _ _ => input.sessionID ≠ ""
  | .disconnectParticipant _ _ sessionID => sessionID ≠ ""
  | _ => True

/-- The identity of the room of a code, if there is one without a connected Host or Viewer. -/
def emptyRoom (s : Store) (roomID : String) : Option ℕ :=
  ((s.rooms.get roomID).filter fun room => !room.roomOccupied).map Room.ref

/-- The room of a code is empty now, and was not before. -/
def BecameEmpty (s s' : Store) (roomID : String) : Prop :=
  s'.emptyRoom roomID ≠ none ∧ s'.emptyRoom roomID ≠ s.emptyRoom roomID

instance (s s' : Store) (roomID : String) : Decidable (BecameEmpty s s' roomID) :=
  inferInstanceAs (Decidable (_ ∧ _))

/-- A store, and when the room of each code last became empty. -/
structure Watch where
  store : Store
  emptiedMs : String → ℤ

/-- One call: a room that it empties is noted with the time. -/
def Watch.step (w : Watch) (call : Stamped) : Watch :=
  let store := ((w.store.answering call).step call.op).2
  { store, emptiedMs := fun roomID =>
      if BecameEmpty w.store store roomID then call.nowMs else w.emptiedMs roomID }

/-- The calls one after the other. -/
def Watch.run (w : Watch) (calls : List Stamped) : Watch := calls.foldl Watch.step w

/-! ## Who is connected -/

section
variable {room : Room}

theorem roomOccupied_iff : room.roomOccupied = true ↔
    (∃ host, room.host = some host ∧ host.sessionID ≠ "") ∨
      ∃ clientID viewer, room.viewers.get clientID = some viewer ∧ viewer.sessionID ≠ "" := by
  simp only [Room.roomOccupied, Bool.or_eq_true, Option.any_eq_true, List.any_eq_true,
    decide_eq_true_eq, OMap.mem_values]
  refine or_congr Iff.rfl ⟨?_, ?_⟩
  · rintro ⟨viewer, ⟨clientID, hget⟩, hne⟩
    exact ⟨clientID, viewer, hget, hne⟩
  · rintro ⟨clientID, viewer, hget, hne⟩
    exact ⟨viewer, ⟨clientID, hget⟩, hne⟩

theorem occupied_host {host : Participant} (hhost : room.host = some host)
    (hsession : host.sessionID ≠ "") : room.roomOccupied = true :=
  roomOccupied_iff.2 (.inl ⟨host, hhost, hsession⟩)

theorem occupied_viewer {clientID : String} {viewer : Participant}
    (hget : room.viewers.get clientID = some viewer) (hsession : viewer.sessionID ≠ "") :
    room.roomOccupied = true :=
  roomOccupied_iff.2 (.inr ⟨clientID, viewer, hget, hsession⟩)

/-- A viewer who is offline does not count. -/
theorem roomOccupied_delete {clientID : String} {viewer : Participant}
    (hget : room.viewers.get clientID = some viewer) (hoffline : viewer.sessionID = "") :
    ({ room with viewers := room.viewers.delete clientID } : Room).roomOccupied =
      room.roomOccupied := by
  refine Bool.eq_iff_iff.2 ?_
  rw [roomOccupied_iff, roomOccupied_iff]
  refine or_congr Iff.rfl ⟨?_, ?_⟩
  · rintro ⟨other, present, hother, hne⟩
    rw [OMap.get_delete] at hother
    split at hother
    · cases hother
    · exact ⟨other, present, hother, hne⟩
  · rintro ⟨other, present, hother, hne⟩
    refine ⟨other, present, ?_, hne⟩
    rw [OMap.get_delete, if_neg]
    · exact hother
    · rintro rfl
      rw [hget] at hother
      exact hne (Option.some.inj hother ▸ hoffline)

end

/-! ## What a step does to the dates -/

/-- An empty room was so before and kept its date, or was not and has the time of the step. -/
def Dates (t : ℤ) (s s' : Store) : Prop := ∀ roomID room',
  s'.rooms.get roomID = some room' → room'.roomOccupied = false →
    (∃ room, s.rooms.get roomID = some room ∧ room.ref = room'.ref ∧ room.roomOccupied = false ∧
      room'.emptySinceMs = room.emptySinceMs) ∨
    (room'.emptySinceMs = t ∧
      ∀ room, s.rooms.get roomID = some room → room.ref = room'.ref → room.roomOccupied = true)

theorem Dates.of_rooms (hrooms : s'.rooms = s.rooms) : Dates t s s' := by
  intro roomID room' hget hempty
  rw [hrooms] at hget
  exact .inl ⟨room', hget, rfl, hempty, rfl⟩

/-- Rooms that went leave the others as they were. -/
theorem Dates.of_found (h : ∀ roomID room, s'.rooms.get roomID = some room →
    s.rooms.get roomID = some room) : Dates t s s' := by
  intro roomID room' hget hempty
  exact .inl ⟨room', h roomID room' hget, rfl, hempty, rfl⟩

/-- A new room is empty from the start. -/
theorem Dates.set (h : Dates t s s') (hg : Given s) {room : Room} (hfresh : s.nextRef ≤ room.ref)
    (hdate : room.emptySinceMs = t) {roomID : String} :
    Dates t s { s' with rooms := s'.rooms.set roomID room } := by
  intro roomID' room' hget hempty
  rw [OMap.get_set] at hget
  split at hget
  · cases hget
    refine .inr ⟨hdate, fun old hold href => ?_⟩
    have := hg roomID' old hold
    omega
  · exact h roomID' room' hget hempty

theorem Dates.delete (h : Dates t s s') {roomID : String} :
    Dates t s { s' with rooms := s'.rooms.delete roomID } := by
  intro roomID' room' hget hempty
  rw [OMap.get_delete] at hget
  split at hget
  · cases hget
  · exact h roomID' room' hget hempty

/-- A room put back: its date moves exactly when its last participant went. -/
theorem Dates.put (hrooms : s'.rooms = s.rooms) {room room' : Room} (hs : s'' = s'.withRoom room')
    (hget : s.rooms.get room'.roomID = some room) (href : room'.ref = room.ref)
    (hdate : room'.roomOccupied = false →
      if room.roomOccupied then room'.emptySinceMs = t else room'.emptySinceMs = room.emptySinceMs) :
    Dates t s s'' := by
  subst hs
  intro roomID room'' hget' hempty
  replace hget' : (s'.rooms.modify room'.roomID fun _ => room').get roomID = some room'' := hget'
  rw [OMap.get_modify] at hget'
  split at hget'
  · next heq =>
    obtain ⟨_, -, rfl⟩ := Option.map_eq_some_iff.1 hget'
    subst heq
    have hdate := hdate hempty
    split at hdate
    · next hoccupied =>
      refine .inr ⟨hdate, fun old hold _ => ?_⟩
      rw [hget] at hold
      exact Option.some.inj hold ▸ hoccupied
    · next hvacant => exact .inl ⟨room, hget, href.symm, eq_false_of_ne_true hvacant, hdate⟩
  · exact .inl ⟨room'', hrooms ▸ hget', rfl, hempty, rfl⟩

/-- A room put back with as many connected as before keeps its date. -/
theorem Dates.kept (hrooms : s'.rooms = s.rooms) {room room' : Room} (hs : s'' = s'.withRoom room')
    (hget : s.rooms.get room'.roomID = some room) (href : room'.ref = room.ref)
    (hoccupied : room'.roomOccupied = room.roomOccupied)
    (hdate : room'.emptySinceMs = room.emptySinceMs) : Dates t s s'' := by
  refine .put hrooms hs hget href fun hempty => ?_
  rw [if_neg (ne_true_of_eq_false (hoccupied.symm.trans hempty))]
  exact hdate

/-- Somebody is connected to the room put back. -/
theorem Dates.joined (hrooms : s'.rooms = s.rooms) {room room' : Room} (hs : s'' = s'.withRoom room')
    (hget : s.rooms.get room'.roomID = some room) (href : room'.ref = room.ref)
    (hoccupied : room'.roomOccupied = true) : Dates t s s'' :=
  .put hrooms hs hget href fun hempty => absurd hoccupied (ne_true_of_eq_false hempty)

/-- Somebody was connected to the room put back, which has the time if nobody is now. -/
theorem Dates.left (hrooms : s'.rooms = s.rooms) {room room' : Room} (hs : s'' = s'.withRoom room')
    (hget : s.rooms.get room'.roomID = some room) (href : room'.ref = room.ref)
    (hoccupied : room.roomOccupied = true)
    (hdate : room'.roomOccupied = false → room'.emptySinceMs = t) : Dates t s s'' := by
  refine .put hrooms hs hget href fun hempty => ?_
  rw [if_pos hoccupied]
  exact hdate hempty

/-- The room of a code is empty under an identity. -/
theorem emptyRoom_eq {roomID : String} {ref : ℕ} : s.emptyRoom roomID = some ref ↔
    ∃ room, s.rooms.get roomID = some room ∧ room.roomOccupied = false ∧ room.ref = ref := by
  simp only [emptyRoom, Option.map_eq_some_iff, Option.filter_eq_some_iff, Bool.not_eq_true',
    and_assoc]

/-- Every empty room carries the date that was noted. -/
def Watch.Dated (w : Watch) : Prop := ∀ roomID room, w.store.rooms.get roomID = some room →
  room.roomOccupied = false → room.emptySinceMs = w.emptiedMs roomID

theorem Watch.Dated.next {w : Watch} (h : w.Dated) {emptiedMs : String → ℤ}
    (hstep : Dates t w.store s)
    (hnoted : ∀ roomID, emptiedMs roomID =
      if BecameEmpty w.store s roomID then t else w.emptiedMs roomID) :
    Watch.Dated { store := s, emptiedMs } := by
  intro roomID room' hget hempty
  have hnow : s.emptyRoom roomID = some room'.ref := emptyRoom_eq.2 ⟨room', hget, hempty, rfl⟩
  rcases hstep roomID room' hget hempty with ⟨room, hold, href, hvacant, hdate⟩ | ⟨hdate, hoccupied⟩
  · have hbefore : w.store.emptyRoom roomID = some room'.ref :=
      emptyRoom_eq.2 ⟨room, hold, hvacant, href⟩
    have hsame : ¬ BecameEmpty w.store s roomID := fun hb => hb.2 (hnow.trans hbefore.symm)
    show room'.emptySinceMs = emptiedMs roomID
    rw [hnoted, if_neg hsame, hdate]
    exact h roomID room hold hvacant
  · have hbecame : BecameEmpty w.store s roomID := by
      refine ⟨by simp [hnow], fun heq => ?_⟩
      obtain ⟨room, hold, hvacant, href⟩ := emptyRoom_eq.1 (heq.symm.trans hnow)
      rw [hoccupied room hold href] at hvacant
      cases hvacant
    show room'.emptySinceMs = emptiedMs roomID
    rw [hnoted, if_pos hbecame, hdate]

/-! ## A clock that stands -/

/-- No room was touched, and a clock that stood still stands. -/
structure Told (s₀ s : Store) : Prop where
  rooms : s.rooms = s₀.rooms
  nextRef_le : s₀.nextRef ≤ s.nextRef
  steady : ∀ t, s₀.now = .const t → s.now = .const t

@[grind .] theorem Told.refl (s : Store) : Told s s := ⟨rfl, le_rfl, fun _ h => h⟩

@[grind →] theorem Told.trans (h : Told s s') (h' : Told s' s'') : Told s s'' :=
  ⟨h'.rooms.trans h.rooms, h.nextRef_le.trans h'.nextRef_le, fun t ht => h'.steady t (h.steady t ht)⟩

@[grind →] theorem Wrote.told {Q : Rows → Rows → Prop} (h : Wrote Q s s') : Told s s' := by
  obtain ⟨_, rfl, -⟩ := h
  exact ⟨rfl, le_rfl, fun _ h => h⟩

theorem drawRandom_told (size : ℕ) (s₀ : Store) :
    ⦃fun s => ⌜s = s₀⌝⦄ drawRandom size
      ⦃post⟨fun _ s => ⌜Told s₀ s⌝, fun _ _ => ⌜False⌝⟩⦄ := by
  mvcgen [drawRandom, -drawRandom_spec]
  subst_vars
  exact ⟨rfl, le_rfl, fun _ h => h⟩

theorem newRef_told (s₀ : Store) :
    ⦃fun s => ⌜s = s₀⌝⦄ newRef
      ⦃post⟨fun ref s => ⌜Told s₀ s ∧ ref = s₀.nextRef⌝, fun _ _ => ⌜False⌝⟩⦄ := by
  mvcgen [newRef, -newRef_spec]
  subst_vars
  exact ⟨⟨rfl, Nat.le_succ _, fun _ h => h⟩, rfl⟩

theorem readClock_told (s₀ : Store) :
    ⦃fun s => ⌜s = s₀⌝⦄ readClock
      ⦃post⟨fun now s => ⌜Told s₀ s ∧ ∀ t, s₀.now = .const t → now = t⌝,
        fun _ _ => ⌜False⌝⟩⦄ := by
  mvcgen [readClock, -readClock_spec]
  subst_vars
  refine ⟨⟨rfl, le_rfl, fun t h => ?_⟩, fun t h => ?_⟩
  · exact (congrArg Stream'.tail h).trans (Stream'.tail_const t)
  · exact congrArg Stream'.head h

theorem uniformIndexWithin_told (count attempts : ℕ) (s₀ : Store) :
    ⦃fun s => ⌜Told s₀ s⌝⦄ uniformIndexWithin count attempts
      ⦃post⟨fun _ s => ⌜Told s₀ s⌝, fun _ _ => ⌜True⌝⟩⦄ := by
  induction attempts with
  | zero => mvcgen [uniformIndexWithin]
  | succ attempts ih =>
    mvcgen [uniformIndexWithin, ih, drawRandom_told, -drawRandom_spec]
    all_goals grind

theorem takeRoomCodeAt_told (index : ℕ) (s₀ : Store) :
    ⦃fun s => ⌜Told s₀ s⌝⦄ takeRoomCodeAt index
      ⦃post⟨fun _ s => ⌜Told s₀ s⌝, fun _ _ => ⌜False⌝⟩⦄ := by
  mvcgen [takeRoomCodeAt, -takeRoomCodeAt_spec]
  case vc1 h _ _ => exact ⟨h.rooms, h.nextRef_le, h.steady⟩

theorem takeRoomCode_told (preferredRoomID : String) (s₀ : Store) :
    ⦃fun s => ⌜s = s₀⌝⦄ takeRoomCode preferredRoomID
      ⦃post⟨fun _ s => ⌜Told s₀ s⌝, fun _ _ => ⌜True⌝⟩⦄ := by
  have hindex (count attempts : ℕ) := uniformIndexWithin_told count attempts s₀
  have htake (index : ℕ) := takeRoomCodeAt_told index s₀
  mvcgen [takeRoomCode, uniformIndex, hindex, htake, -takeRoomCode_spec, -takeRoomCodeAt_spec,
    -uniformIndex_spec]
  all_goals grind

theorem createViewerGrant_told (s₀ : Store) :
    ⦃fun s => ⌜s = s₀⌝⦄ createViewerGrant
      ⦃post⟨fun _ s => ⌜Told s₀ s⌝, fun _ _ => ⌜True⌝⟩⦄ := by
  mvcgen [createViewerGrant, drawRandom_told, -createViewerGrant_spec, -drawRandom_spec]
  all_goals grind

theorem randomDigest_told (s₀ : Store) :
    ⦃fun s => ⌜s = s₀⌝⦄ randomDigest
      ⦃post⟨fun _ s => ⌜Told s₀ s⌝, fun _ _ => ⌜True⌝⟩⦄ := by
  mvcgen [randomDigest, drawRandom_told, -randomDigest_spec, -drawRandom_spec]
  all_goals grind

theorem newAuthorizationGeneration_told (s₀ : Store) :
    ⦃fun s => ⌜s = s₀⌝⦄ newAuthorizationGeneration
      ⦃post⟨fun _ s => ⌜Told s₀ s⌝, fun _ _ => ⌜True⌝⟩⦄ := by
  mvcgen [newAuthorizationGeneration, drawRandom_told, -newAuthorizationGeneration_spec,
    -drawRandom_spec]
  all_goals grind

theorem grantOf_told (action : String) (s₀ : Store) :
    ⦃fun s => ⌜s = s₀⌝⦄ grantOf action
      ⦃post⟨fun _ s => ⌜Told s₀ s⌝, fun _ _ => ⌜True⌝⟩⦄ := by
  mvcgen [grantOf, createViewerGrant_told, -grantOf_spec, -createViewerGrant_spec]
  all_goals grind

theorem grantDigest_told (viewerGrant : String) (s₀ : Store) :
    ⦃fun s => ⌜s = s₀⌝⦄ grantDigest viewerGrant
      ⦃post⟨fun _ s => ⌜Told s₀ s⌝, fun _ _ => ⌜True⌝⟩⦄ := by
  mvcgen [grantDigest, randomDigest_told, -grantDigest_spec, -randomDigest_spec]
  all_goals grind

theorem newRoom_told (roomID : String) (policy : CodeEntryPolicy) (material : Option Bytes)
    (s₀ : Store) :
    ⦃fun s => ⌜s = s₀⌝⦄ newRoom roomID policy material
      ⦃post⟨fun r s => ⌜Told s₀ s ∧ s₀.nextRef ≤ r.1.ref ∧
          ∀ t, s₀.now = .const t → r.1.emptySinceMs = t⌝, fun _ _ => ⌜True⌝⟩⦄ := by
  mvcgen [newRoom, drawRandom_told, createViewerGrant_told, newAuthorizationGeneration_told,
    newRef_told, readClock_told, -newRoom_spec, -drawRandom_spec, -createViewerGrant_spec,
    -newAuthorizationGeneration_spec, -newRef_spec, -readClock_spec]
  all_goals grind [Told]

/-- The room after a departure carries the time at which it became empty. -/
theorem noteEmpty_told (room : Room) (s₀ : Store) :
    ⦃fun s => ⌜s = s₀⌝⦄ noteEmpty room
      ⦃post⟨fun r s => ⌜Told s₀ s ∧ ∃ emptySinceMs, r = { room with emptySinceMs } ∧
          (room.roomOccupied = false → ∀ t, s₀.now = .const t → emptySinceMs = t)⌝,
        fun _ _ => ⌜False⌝⟩⦄ := by
  mvcgen [noteEmpty, readClock_told, -noteEmpty_spec, -readClock_spec]
  case vc1 hoccupied _ hs => exact ⟨hs ▸ .refl _, _, rfl, fun h => by simp [h] at hoccupied⟩
  case vc2 hs _ _ h => exact ⟨hs ▸ h.1, _, rfl, fun _ t ht => h.2 t (hs ▸ ht)⟩

theorem noteEmptied_told (wasOccupied : Bool) (room : Room) (s₀ : Store) :
    ⦃fun s => ⌜s = s₀⌝⦄ noteEmptied wasOccupied room
      ⦃post⟨fun r s => ⌜Told s₀ s ∧ ∃ emptySinceMs, r = { room with emptySinceMs } ∧
          (room.roomOccupied = false → if wasOccupied then ∀ t, s₀.now = .const t → emptySinceMs = t
            else emptySinceMs = room.emptySinceMs)⌝, fun _ _ => ⌜False⌝⟩⦄ := by
  mvcgen [noteEmptied, noteEmpty_told, -noteEmptied_spec, -noteEmpty_spec]
  case vc2 hwas _ hs => exact ⟨hs ▸ .refl _, _, rfl, fun _ => by simp [hwas]⟩
  all_goals grind

/-! ## The operations -/

theorem Told.dates (h : Told s s') : Dates t s s' := .of_rooms h.rooms

/-- What an operation that succeeds does to the dates at a clock that stands. -/
def Stamps {α : Type} (call : Act Store α) : Prop := ∀ (t : ℤ) (s₀ : Store), Authority s₀ →
  Given s₀ → s₀.now = .const t →
  ⦃fun s => ⌜s = s₀⌝⦄ call ⦃post⟨fun _ s => ⌜Dates t s₀ s⌝, fun _ _ => ⌜True⌝⟩⦄

theorem createRoom_stamps (policy : CodeEntryPolicy) (material : Option Bytes)
    (derived : Option Failure) (preferredRoomID : String) :
    Stamps (createRoom policy material derived preferredRoomID) := by
  intro t s₀ h hg hnow
  mvcgen [createRoom, takeRoomCode_told, newRoom_told, -takeRoomCode_spec, -newRoom_spec]
  case vc1 s hs _ s₁ hs₁ _ s₂ hs₂ _ _ _ _ _ _ roomID s₃ ht r s₄ hd _ s₅ hw _ =>
    obtain rfl : s₂ = s₀ := by grind
    obtain ⟨hd, hfresh, hdate⟩ := hd
    have htold : Told s₂ s₅ := (ht.trans hd).trans hw.told
    have hlow : s₂.nextRef ≤ r.1.ref := ht.nextRef_le.trans hfresh
    exact htold.dates.set hg hlow (hdate t (ht.steady t hnow))

theorem replaceRoom_stamps (roomID hostToken : String) (policy : CodeEntryPolicy)
    (material : Option Bytes) (derived : Option Failure) (current : ℕ) :
    Stamps (replaceRoom roomID hostToken policy material derived current) := by
  intro t s₀ h hg hnow
  mvcgen [replaceRoom, replaceRoomWith, takeRoomCode_told, newRoom_told, -takeRoomCode_spec,
    -newRoom_spec]
  case vc1 s hs _ s₁ hs₁ roomID' s₂ ht r s₃ hd _ _ s₄ hw _ _ s' hs' =>
    obtain rfl : s₁ = s₀ := by grind
    obtain ⟨hd, hfresh, hdate⟩ := hd
    have htold : Told s₁ s₄ := (ht.trans hd).trans hw.told
    have hlow : s₁.nextRef ≤ r.1.ref := ht.nextRef_le.trans hfresh
    have hdeleted : Dates t s₁ { s₄ with rooms := s₄.rooms.delete roomID } := htold.dates.delete
    subst hs'
    exact hdeleted.set hg hlow (hdate t (ht.steady t hnow))

theorem setViewerPassword_stamps (roomID hostToken : String) (material : Option Bytes)
    (derived : Option Failure) (current : ℕ) :
    Stamps (setViewerPassword roomID hostToken material derived current) := by
  intro t s₀ h hg hnow
  mvcgen [setViewerPassword]
  case vc1 s hs room s₁ hroom _ s₂ hw _ s' hs' =>
    obtain ⟨rfl, -, hget⟩ := hroom
    obtain rfl : s₁ = s₀ := hs
    obtain rfl := h.named roomID room hget
    exact Dates.kept (Wrote.told hw).rooms hs' hget rfl rfl rfl

theorem setCodeEntryPolicy_stamps (roomID : String) (policy : CodeEntryPolicy) (hostToken : String) :
    Stamps (setCodeEntryPolicy roomID policy hostToken) := by
  intro t s₀ h hg hnow
  mvcgen [setCodeEntryPolicy]
  case vc1 s hs _ s₁ hi room s₂ hroom _ s₃ hw _ s' hs' =>
    obtain ⟨rfl, hget⟩ := hroom
    obtain ⟨rfl, -⟩ := hi
    obtain rfl : s₂ = s₀ := hs
    obtain rfl := h.named roomID room hget
    exact Dates.kept (Wrote.told hw).rooms hs' hget rfl rfl rfl

theorem setViewerGrant_stamps (roomID action hostToken : String) :
    Stamps (setViewerGrant roomID action hostToken) := by
  intro t s₀ h hg hnow
  mvcgen [setViewerGrant, grantOf_told, grantDigest_told, newAuthorizationGeneration_told,
    noteEmptied_told, -grantOf_spec, -grantDigest_spec, -newAuthorizationGeneration_spec,
    -noteEmptied_spec]
  case vc1 s hs _ s₁ hi room s₂ hroom _ _ s₃ hd₁ _ s₄ hd₂ _ s₅ hd₃ _ s₆ hw room' s₇ _ s' hs' hd₄ =>
    obtain ⟨rfl, hget⟩ := hroom
    obtain ⟨rfl, -⟩ := hi
    obtain rfl : s₂ = s₀ := hs
    obtain ⟨hd₄, emptySinceMs, rfl, hdate⟩ := hd₄
    obtain rfl := h.named roomID room hget
    have htold : Told s₂ s₆ := ((hd₁.trans hd₂).trans hd₃).trans (Wrote.told hw)
    refine Dates.put (htold.trans hd₄).rooms hs' hget rfl fun hempty => ?_
    replace hdate := hdate hempty
    split at hdate
    · next hoccupied =>
      rw [if_pos hoccupied]
      exact hdate t (htold.steady t hnow)
    · next hvacant =>
      rw [if_neg hvacant]
      exact hdate

theorem connectHost_stamps {room : Room} {input : ConnectParticipantInput} (s₀ : Store)
    (hget : s₀.rooms.get room.roomID = some room) (hsession : input.sessionID ≠ "") :
    ⦃fun s => ⌜s = s₀⌝⦄ connectHost room input
      ⦃post⟨fun _ s => ⌜∀ t, Dates t s₀ s⌝, fun _ _ => ⌜True⌝⟩⦄ := by
  have hhost (host : Participant) : ({ room with
      host := some { host with sessionID := input.sessionID } } : Room).roomOccupied = true :=
    occupied_host rfl hsession
  mvcgen [connectHost, -connectHost_spec]
  case vc1 s hs _ _ s' hs' =>
    subst hs
    exact fun _ => .joined rfl hs' hget rfl (hhost _)
  case vc2 s hs _ s₁ hd _ _ s' hs' =>
    subst hs
    exact fun _ => .joined hd.1.unmoved.rooms hs' hget rfl (hhost _)

theorem connectViewer_stamps {room : Room} {clientID sessionID : String} {admittedBy : AdmittedBy}
    (s₀ : Store) (hget : s₀.rooms.get room.roomID = some room) (hsession : sessionID ≠ "") :
    ⦃fun s => ⌜s = s₀⌝⦄ connectViewer room clientID sessionID admittedBy
      ⦃post⟨fun _ s => ⌜∀ t, Dates t s₀ s⌝, fun _ _ => ⌜True⌝⟩⦄ := by
  have hviewer {viewer : Participant} (h : viewer.sessionID = sessionID) :
      ({ room with viewers := room.viewers.set clientID viewer } : Room).roomOccupied = true :=
    occupied_viewer ((OMap.get_set ..).trans (if_pos rfl)) (h ▸ hsession)
  mvcgen [connectViewer, -connectViewer_spec]
  case vc1 s hs _ _ s' hs' =>
    subst hs
    exact fun _ => .joined rfl hs' hget rfl (hviewer rfl)
  case vc2 s hs _ _ _ s₁ hd _ _ s' hs' =>
    subst hs
    exact fun _ => .joined hd.1.unmoved.rooms hs' hget rfl (hviewer rfl)

theorem connectParticipant_stamps {input : ConnectParticipantInput} (hsession : input.sessionID ≠ "") :
    Stamps (connectParticipant input) := by
  intro t s₀ h hg hnow
  have hnamed := h.named
  mvcgen [connectParticipant, connectHost_stamps, connectViewer_stamps, -connectHost_spec,
    -connectViewer_spec]
  all_goals grind

theorem connectViewerWithPassword_stamps {input : ConnectViewerWithPasswordInput}
    (derived expectedMaterial : Bytes) (room : Option ℕ) (mayConnect : Bool)
    (hsession : input.sessionID ≠ "") :
    Stamps (connectViewerWithPassword input derived expectedMaterial room mayConnect) := by
  intro t s₀ h hg hnow
  have hnamed := h.named
  mvcgen [connectViewerWithPassword, connectViewer_stamps, -connectViewer_spec]
  all_goals grind

theorem disconnectParticipant_stamps (roomID peerID : String) {sessionID : String}
    (hsession : sessionID ≠ "") : Stamps (disconnectParticipant roomID peerID sessionID) := by
  intro t s₀ h hg hnow
  mvcgen [disconnectParticipant, noteEmpty_told, -noteEmpty_spec]
  case vc3 s hs _ s₁ hs₁ room hroom host hhost hsame _ s₂ hd _ s' hs' =>
    obtain ⟨rfl, -⟩ := hs₁
    obtain rfl : s₁ = s₀ := hs
    obtain ⟨hd, emptySinceMs, rfl, hdate⟩ := hd
    obtain rfl := h.named roomID room hroom
    refine Dates.left hd.rooms hs' hroom rfl ?_ fun hempty => hdate hempty t hnow
    refine occupied_host (Option.filter_eq_some_iff.1 hhost).1 ?_
    exact (not_not.1 hsame).symm ▸ hsession
  case vc6 s hs _ s₁ hs₁ room hroom _ viewer hviewer hsame viewers _ s₂ hd _ s' hs' =>
    obtain ⟨rfl, -⟩ := hs₁
    obtain rfl : s₁ = s₀ := hs
    obtain ⟨hd, emptySinceMs, rfl, hdate⟩ := hd
    obtain rfl := h.named roomID room hroom
    obtain ⟨clientID, hget⟩ := OMap.mem_values.1 (List.mem_of_find?_eq_some hviewer)
    refine Dates.left hd.rooms hs' hroom rfl ?_ fun hempty => hdate hempty t hnow
    exact occupied_viewer hget ((not_not.1 hsame).symm ▸ hsession)
  all_goals grind [Told.dates]

theorem removeDisconnectedViewer_stamps (roomID peerID : String) :
    Stamps (removeDisconnectedViewer roomID peerID) := by
  intro t s₀ h hg hnow
  mvcgen [removeDisconnectedViewer]
  case vc4 s hs room hroom viewer hviewer hoffline _ s' hs' =>
    obtain rfl : s = s₀ := hs
    obtain rfl := h.named roomID room hroom
    obtain ⟨clientID, hget⟩ := OMap.mem_values.1 (List.mem_of_find?_eq_some hviewer)
    obtain rfl := (h.seated _ room hroom).named clientID viewer hget
    refine Dates.kept rfl hs' hroom rfl ?_ rfl
    exact roomOccupied_delete hget (not_not.1 hoffline)
  all_goals grind [Told.dates]

/-! ## Retirement -/

theorem onDatabase_exact {α : Type} (call : Act Database α) (s₀ : Store) :
    ⦃fun s => ⌜s = s₀⌝⦄ onDatabase call
      ⦃post⟨fun a s => ⌜∃ d d', s₀.database = some d ∧ call.run.run d = (.ok a, d') ∧
          s = { s₀ with database := some d' }⌝,
        fun e s => ⌜s.rooms = s₀.rooms ∧ ∀ d, s₀.database = some d →
          (call.run.run d).1 = .error e⌝⟩⦄ := by
  mvcgen [onDatabase]
  case vc1 hs hnone => exact hs ▸ ⟨rfl, fun d hd => by simp [hnone] at hd⟩
  case vc2 hs d hd result d' hrun _ a s =>
    rintro rfl rfl
    subst hs
    exact ⟨d, d', hd, hrun, rfl⟩
  case vc3 hs d hd result d' hrun _ e s =>
    rintro rfl rfl
    subst hs
    refine ⟨rfl, fun d₁ hd₁ => ?_⟩
    obtain rfl : d = d₁ := Option.some.inj (hd.symm.trans hd₁)
    exact congrArg Prod.fst hrun

theorem writeDatabase_exact (write : Act Database Unit) (s₀ : Store) :
    ⦃fun s => ⌜s = s₀⌝⦄ writeDatabase write
      ⦃post⟨fun _ s => ⌜s.rooms = s₀.rooms ∧ ∀ d, s₀.database = some d →
          (write.run.run d).1 = .ok ()⌝,
        fun e s => ⌜s.rooms = s₀.rooms ∧ ∃ d, s₀.database = some d ∧
          (write.run.run d).1 = .error e⌝⟩⦄ := by
  mvcgen [writeDatabase, onDatabase_exact]
  case vc1 s hs _ _ s' =>
    rintro ⟨d, d', hd, hrun, rfl⟩
    subst hs
    refine ⟨rfl, fun d₁ hd₁ => ?_⟩
    obtain rfl : d = d₁ := Option.some.inj (hd.symm.trans hd₁)
    exact congrArg Prod.fst hrun
  case vc2 s hs hsome e s' =>
    intro hrooms herror
    subst hs
    obtain ⟨d, hd⟩ := Option.isSome_iff_exists.1 hsome
    exact ⟨hrooms, d, hd, herror d hd⟩
  case vc3 s hs hnone =>
    subst hs
    exact ⟨rfl, fun d hd => by simp [hd] at hnone⟩

theorem abandonRooms_exact (roomIDs : List String) (s₀ : Store) :
    ⦃fun s => ⌜s = s₀⌝⦄ abandonRooms roomIDs
      ⦃post⟨fun closed s => ⌜closed = (retiring s₀.rooms roomIDs).map Prod.fst ∧
          s.rooms = (closed.map ClosedRoom.roomID).foldl OMap.delete s₀.rooms ∧
          (closed ≠ [] → ∀ d, s₀.database = some d → ((Database.deleteRooms
            ((retiring s₀.rooms roomIDs).map fun room => (room.1.roomID, room.2))).run.run d).1 = .ok ())⌝,
        fun e s => ⌜s.rooms = s₀.rooms ∧ (s₀.initialized = true → ∃ d, s₀.database = some d ∧
          ((Database.deleteRooms ((retiring s₀.rooms roomIDs).map fun room =>
            (room.1.roomID, room.2))).run.run d).1 = .error e)⌝⟩⦄ := by
  mvcgen [abandonRooms, ensureInitialized, writeDatabase_exact, -abandonRooms_spec,
    -ensureInitialized_spec, -deleteRooms_spec]
  case vc1 s hs huninitialized =>
    subst hs
    exact ⟨rfl, fun hi => by simp [hi] at huninitialized⟩
  case vc2 s hs _ retired closed hnone =>
    subst hs
    exact ⟨(List.eq_nil_of_length_eq_zero hnone).symm, rfl, fun h => absurd rfl h⟩
  case vc3 s hs _ retired closed _ _ s₁ hw _ s₂ hs₂ =>
    subst hs
    obtain ⟨hrooms, hwritten⟩ := hw
    refine ⟨rfl, ?_, fun _ => hwritten⟩
    rw [hs₂, hrooms]
  case vc4 s hs _ retired closed _ e s₁ =>
    intro hrooms herror
    subst hs
    exact ⟨hrooms, fun _ => herror⟩

/-! ## Restore -/

/-- The clock stands and every room carries what it says. -/
def AllDated (t : ℤ) (s : Store) : Prop :=
  s.now = .const t ∧ ∀ roomID room, s.rooms.get roomID = some room → room.emptySinceMs = t

theorem AllDated.dates (h : AllDated t s') (hempty : s.rooms = .empty) : Dates t s s' := by
  intro roomID room' hget _
  refine .inr ⟨h.2 roomID room' hget, fun room hold => ?_⟩
  rw [hempty] at hold
  cases hold

theorem restoreRooms_dated (t : ℤ) : ∀ rows : Rows,
    ⦃fun s => ⌜AllDated t s⌝⦄ restoreRooms rows
      ⦃post⟨fun _ s => ⌜AllDated t s⌝, fun _ _ => ⌜True⌝⟩⦄
  | [] => by mvcgen [restoreRooms]
  | stored :: rest => by
    have ih := restoreRooms_dated t rest
    mvcgen [restoreRooms, ih, newRef_told, readClock_told, -newRef_spec, -readClock_spec]
    case vc1 s hs ref s₁ hr now room s₂ hc _ =>
      obtain ⟨hnow, hdated⟩ := hs
      have hnow₁ : s₁.now = .const t := hr.1.steady t hnow
      have hrooms : s₂.rooms = s.rooms := hc.1.rooms.trans hr.1.rooms
      refine ⟨hc.1.steady t hnow₁, fun roomID room' hget => ?_⟩
      replace hget : (s₂.rooms.set stored.roomID room).get roomID = some room' := hget
      rw [OMap.get_set, hrooms] at hget
      split at hget
      · cases hget
        exact hc.2 t hnow₁
      · exact hdated roomID room' hget

theorem restore_dated (t : ℤ) (s₀ : Store) (hempty : s₀.rooms = .empty) (hnow : s₀.now = .const t) :
    ⦃fun s => ⌜s = s₀⌝⦄ restore
      ⦃post⟨fun _ s => ⌜AllDated t s⌝, fun _ _ => ⌜True⌝⟩⦄ := by
  have hrooms := restoreRooms_dated t
  mvcgen [restore, onDatabase_exact, hrooms, -restore_spec]
  case vc1 s hs _ s₁ hopened _ _ _ _ _ =>
    obtain ⟨d, d', -, -, rfl⟩ := hopened
    subst hs
    refine ⟨hnow, fun roomID room hget => ?_⟩
    replace hget : s.rooms.get roomID = some room := hget
    rw [hempty] at hget
    cases hget

theorem initializeStore_stamps : Stamps initializeStore := by
  intro t s₀ h hg hnow
  have hrestore := restore_dated t
  mvcgen [initializeStore, hrestore, -restore_spec]
  case vc1 hs _ => exact .of_rooms (congrArg rooms hs)
  case vc2 hs _ _ _ =>
    subst hs
    exact .of_rooms rfl
  case vc3 hs hi _ => exact hs ▸ h.unrestored (eq_false_of_ne_true (hs ▸ hi))
  case vc4 hs _ _ => exact hs ▸ hnow
  case vc5 s hs hi _ _ s₁ hdated _ =>
    subst hs
    exact hdated.dates (h.unrestored (eq_false_of_ne_true hi))

theorem close_stamps : Stamps close := by
  intro t s₀ h hg hnow
  mvcgen [close, onDatabase_exact, -onClose_spec]
  case vc1 hs _ _ s₁ =>
    rintro ⟨d, d', -, -, rfl⟩
    subst hs
    exact .of_rooms rfl
  case vc2 hs _ => exact .of_rooms (congrArg rooms hs)

/-! ## Runs -/

theorem abandonRooms_stamps (roomIDs : List String) (s₀ : Store) :
    ⦃fun s => ⌜s = s₀⌝⦄ abandonRooms roomIDs
      ⦃post⟨fun _ s => ⌜∀ t, Dates t s₀ s⌝, fun _ _ => ⌜True⌝⟩⦄ := by
  refine Effect.triple_iff.2 fun s hs => ?_
  have h := Effect.triple_iff.1 (abandonRooms_exact roomIDs s₀) s hs
  rcases hrun : (abandonRooms roomIDs).run.run s with ⟨_ | closed, s'⟩
  · trivial
  · rw [hrun] at h
    refine fun t => .of_found fun roomID room hget => ?_
    rw [h.2.1] at hget
    exact OMap.get_foldl_delete hget

theorem abandonRoom_stamps (roomID : String) : Stamps (abandonRoom roomID) := by
  intro t s₀ h hg hnow
  mvcgen [abandonRoom, abandonRooms_stamps, -abandonRooms_spec]
  all_goals grind

theorem abandonAllRooms_stamps : Stamps abandonAllRooms := by
  intro t s₀ h hg hnow
  mvcgen [abandonAllRooms, abandonRooms_stamps, -abandonRooms_spec]
  all_goals grind

theorem expireEmptyRooms_stamps (beforeMs : ℤ) : Stamps (expireEmptyRooms beforeMs) := by
  intro t s₀ h hg hnow
  mvcgen [expireEmptyRooms, abandonRooms_stamps, -abandonRooms_spec]
  all_goals grind

theorem stamps_discard {α : Type} {call : Act Store α} (h : Stamps call) :
    Stamps (discard call : Act Store Unit) := by
  intro t s₀ ha hg hnow
  refine Effect.triple_iff.2 fun s hs => ?_
  have h := Effect.triple_iff.1 (h t s₀ ha hg hnow) s hs
  rw [Effect.run_discard]
  rcases hrun : call.run.run s with ⟨_ | _, s'⟩
  · trivial
  · rw [hrun] at h
    exact h

theorem Op.stamps (op : Op) (h : op.Connected) : Stamps op.act := by
  cases op with
  | initializeStore => exact initializeStore_stamps
  | close => exact close_stamps
  | createRoom => exact stamps_discard (createRoom_stamps _ _ _ _)
  | replaceRoom => exact stamps_discard (replaceRoom_stamps _ _ _ _ _ _)
  | setViewerPassword => exact stamps_discard (setViewerPassword_stamps _ _ _ _ _)
  | setCodeEntryPolicy => exact stamps_discard (setCodeEntryPolicy_stamps _ _ _)
  | setViewerGrant => exact stamps_discard (setViewerGrant_stamps _ _ _)
  | connectParticipant => exact stamps_discard (connectParticipant_stamps h)
  | connectViewerWithPassword =>
    exact stamps_discard (connectViewerWithPassword_stamps _ _ _ _ h)
  | disconnectParticipant => exact stamps_discard (disconnectParticipant_stamps _ _ h)
  | removeDisconnectedViewer => exact stamps_discard (removeDisconnectedViewer_stamps _ _)
  | abandonRoom => exact stamps_discard (abandonRoom_stamps _)
  | abandonAllRooms => exact stamps_discard abandonAllRooms_stamps
  | expireEmptyRooms => exact stamps_discard (expireEmptyRooms_stamps _)

/-- Whether it succeeds or fails, an operation dates the rooms it empties. -/
theorem step_dates (h : Authority s) (hg : Given s) (hnow : s.now = .const t) {op : Op}
    (hop : op.Connected) : Dates t s (s.step op).2 := by
  rcases hr : s.step op with ⟨_ | _, s'⟩
  · exact .of_rooms (step_error h hr).rooms
  · exact Effect.run_ok (op.stamps hop t s h hg hnow) rfl hr

theorem answering_authority (h : Authority s) (call : Stamped) : Authority (s.answering call) :=
  ⟨⟨h.codes, h.named, h.bounded, h.seated⟩, h.stored, h.unrestored⟩

namespace Watch

variable {w : Watch}

/-- What a watched run keeps. -/
structure Kept (w : Watch) : Prop where
  authority : Authority w.store
  given : Given w.store
  dated : w.Dated

theorem Kept.step (h : w.Kept) {call : Stamped} (hop : call.op.Connected) : (w.step call).Kept := by
  have ha := answering_authority h.authority call
  have hg : Given (w.store.answering call) := h.given
  refine ⟨(step_keeps ha call.op).1, (step_descends ha call.op).given hg, ?_⟩
  have hdates : Dates call.nowMs w.store (w.step call).store := step_dates ha hg rfl hop
  exact h.dated.next hdates fun _ => rfl

theorem Kept.run (h : w.Kept) {calls : List Stamped} (hcalls : ∀ call ∈ calls, call.op.Connected) :
    (w.run calls).Kept := by
  induction calls generalizing w with
  | nil => exact h
  | cons call calls ih =>
    rw [List.forall_mem_cons] at hcalls
    exact ih (h.step hcalls.1) hcalls.2

theorem Kept.of_new {options : Options} (h : Store.new options = .ok s) (emptiedMs : String → ℤ) :
    Kept { store := s, emptiedMs } := by
  have hrooms : s.rooms = .empty := by
    unfold Store.new at h
    split at h
    · cases h
    · split at h
      · cases h
      · obtain rfl := Except.ok.inj h
        rfl
  refine ⟨new_authority h, new_given h, fun roomID room hget => ?_⟩
  replace hget : s.rooms.get roomID = some room := hget
  rw [hrooms] at hget
  cases hget

/-- The rooms that last became empty by a time. -/
def due (w : Watch) (beforeMs : ℤ) : List String := w.store.rooms.keys.filter fun roomID =>
  (w.store.emptyRoom roomID).isSome && decide (w.emptiedMs roomID ≤ beforeMs)

theorem Dated.emptyRoomIDs (h : w.Dated) (beforeMs : ℤ) :
    w.store.emptyRoomIDs beforeMs = w.due beforeMs := by
  unfold Store.emptyRoomIDs due OMap.keys
  rw [List.filter_map]
  refine congrArg (List.map Prod.fst) (List.filter_congr fun e he => ?_)
  have hget : w.store.rooms.get e.1 = some e.2 := OMap.get_eq_some.2 he
  rw [Function.comp_apply, emptyRoom, hget, Bool.and_comm]
  cases hoccupied : e.2.roomOccupied with
  | true => simp [hoccupied]
  | false => simp [hoccupied, h e.1 e.2 hget hoccupied]

/-- The rows of the rooms that are due, as the transaction finds them. -/
def dueRows (w : Watch) (beforeMs : ℤ) : List (String × Bytes) :=
  (retiring w.store.rooms (w.due beforeMs)).map fun room => (room.1.roomID, room.2)

end Watch

theorem get_foldl_delete_eq (roomIDs : List String) (m : OMap String Room) (roomID : String) :
    (roomIDs.foldl OMap.delete m).get roomID = if roomID ∈ roomIDs then none else m.get roomID := by
  induction roomIDs generalizing m with
  | nil => rfl
  | cons first rest ih =>
    rw [List.foldl_cons, ih, OMap.get_delete]
    by_cases hrest : roomID ∈ rest
    · simp [hrest]
    · by_cases hfirst : roomID = first
      · simp [hfirst]
      · simp [hrest, hfirst]

/-- What a retirement answers and leaves: the rooms that are due closed in creation order and
    no other, or none when the write failed. -/
def Watch.Retires (w : Watch) (beforeMs : ℤ) : Except Failure (List ClosedRoom) × Store → Prop
  | (.ok closed, s') => closed.map ClosedRoom.roomID = w.due beforeMs ∧
      (∀ roomID, s'.rooms.get roomID =
        if roomID ∈ w.due beforeMs then none else w.store.rooms.get roomID) ∧
      (w.due beforeMs ≠ [] → ∀ d, w.store.database = some d →
        ((Database.deleteRooms (w.dueRows beforeMs)).run.run d).1 = .ok ())
  | (.error e, s') => s'.rooms = w.store.rooms ∧
      s'.database.map Database.file = w.store.database.map Database.file ∧
      (w.store.initialized = true → ∃ d, w.store.database = some d ∧
        ((Database.deleteRooms (w.dueRows beforeMs)).run.run d).1 = .error e)

theorem Watch.Kept.retires {w : Watch} (h : w.Kept) (beforeMs : ℤ) :
    w.Retires beforeMs ((expireEmptyRooms beforeMs).run.run w.store) := by
  have hexact := Effect.triple_iff.1 (abandonRooms_exact (w.due beforeMs) w.store) w.store rfl
  have hrun : (expireEmptyRooms beforeMs).run.run w.store =
      (abandonRooms (w.due beforeMs)).run.run w.store := by
    rw [← h.dated.emptyRoomIDs beforeMs]
    exact Effect.run_get_bind _ _
  have hunmoved {e : Failure} {s' : Store}
      (herror : (expireEmptyRooms beforeMs).run.run w.store = (.error e, s')) :=
    Effect.run_error (expireEmptyRooms_keeps beforeMs w.store h.authority) rfl herror
  rw [hrun] at hunmoved ⊢
  rcases hr : (abandonRooms (w.due beforeMs)).run.run w.store with ⟨e | closed, s'⟩
  · rw [hr] at hexact
    exact ⟨hexact.1, (hunmoved hr).file, hexact.2⟩
  · rw [hr] at hexact
    obtain ⟨hclosed, hrooms, hwritten⟩ := hexact
    have hclosedIDs : closed.map ClosedRoom.roomID = w.due beforeMs := by
      rw [hclosed, List.map_map]
      refine (retiring_ids _ _).trans (List.filter_eq_self.2 fun roomID hdue => ?_)
      exact OMap.has_iff.2 (List.mem_filter.1 hdue).1
    refine ⟨hclosedIDs, fun roomID => ?_, fun hne => hwritten fun hnil => hne ?_⟩
    · rw [hrooms, hclosedIDs]
      exact get_foldl_delete_eq _ _ _
    · rw [← hclosedIDs, hnil]
      rfl

/-- Retirement after any history: exactly the rooms close whose last transition to empty was
    at or before the cutoff, and none when the write fails. -/
theorem expire_follows_history {options : Options} (h : Store.new options = .ok s)
    (emptiedMs : String → ℤ) {calls : List Stamped} (hcalls : ∀ call ∈ calls, call.op.Connected)
    (beforeMs : ℤ) : let w := Watch.run { store := s, emptiedMs } calls
    w.Retires beforeMs ((expireEmptyRooms beforeMs).run.run w.store) :=
  ((Watch.Kept.of_new h emptiedMs).run hcalls).retires beforeMs

/-- A room that is created, joined with its code and left again. -/
def visit : List Stamped :=
  [{ op := .createRoom codeEntryOpen none none "1000"
     nowMs := 5
     random := .cons (List.replicate 32 0) (.const (List.replicate 16 0)) },
    { op := .connectParticipant
        { roomID := "1000", role := .viewer, token := "", viewerGrant := ""
          clientID := "client", sessionID := "session" }
      nowMs := 7
      random := .const (List.replicate 16 0) },
    { op := .disconnectParticipant "1000" "AAAAAAAAAAAAAAAAAAAAAA" "session"
      nowMs := 9
      random := .const [] }]

/-- A store for one room, without a database. -/
def inMemory : Options where
  maxRooms := 1
  maxViewersPerRoom := 1
  database := none
  random := .const []
  now := .const 0

theorem expire_follows_visit : ∃ s, Store.new inMemory = .ok s ∧
    let w := Watch.run { store := s, emptiedMs := fun _ => 0 } visit
    w.Retires 8 ((expireEmptyRooms 8).run.run w.store) := by
  obtain ⟨s, hnew⟩ : ∃ s, Store.new inMemory = .ok s := ⟨_, rfl⟩
  have hvisit : ∀ call ∈ visit, call.op.Connected := by simp [visit, Op.Connected]
  exact ⟨s, hnew, expire_follows_history hnew (fun _ => 0) hvisit 8⟩

end Store

end Piik.Room
