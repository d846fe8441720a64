/-
  A commit after a derivation stands on the room object the derivation began
  with: identities are never given twice, so the object that answers to the
  challenged one has been the room of its code all the while.
-/
import Piik.Room.Authority
import Piik.Room.Password

set_option mvcgen.warning false

namespace Piik.Room.Store

open Std.Do

variable {s s' s'' s₀ s₁ s₂ s₃ : Store}

/-! ## Identities -/

/-- A room of the later store is the object that stood under its code before, or has an
    identity that was not given yet. -/
structure Descends (s s' : Store) : Prop where
  nextRef_le : s.nextRef ≤ s'.nextRef
  origin : ∀ roomID room', s'.rooms.get roomID = some room' →
    (s.nextRef ≤ room'.ref ∧ room'.ref < s'.nextRef) ∨
      ∃ room, s.rooms.get roomID = some room ∧ room.ref = room'.ref

/-- Every identity in use has been given. -/
def Given (s : Store) : Prop := ∀ roomID room, s.rooms.get roomID = some room → room.ref < s.nextRef

@[grind .] theorem Descends.refl (s : Store) : Descends s s :=
  ⟨le_rfl, fun _ room h => .inr ⟨room, h, rfl⟩⟩

@[grind →] theorem Descends.trans (h : Descends s s') (h' : Descends s' s'') : Descends s s'' := by
  refine ⟨h.nextRef_le.trans h'.nextRef_le, fun roomID room'' hget => ?_⟩
  rcases h'.origin roomID room'' hget with ⟨hlow, hhigh⟩ | ⟨room', hget', href⟩
  · exact .inl ⟨h.nextRef_le.trans hlow, hhigh⟩
  rw [← href]
  exact (h.origin roomID room' hget').imp_left fun ⟨hlow, hhigh⟩ =>
    ⟨hlow, hhigh.trans_le h'.nextRef_le⟩

theorem Descends.given (h : Descends s s') (hg : Given s) : Given s' := by
  intro roomID room' hget
  rcases h.origin roomID room' hget with ⟨-, hlt⟩ | ⟨room, hget', href⟩
  · exact hlt
  · exact href ▸ (hg roomID room hget').trans_le h.nextRef_le

theorem Descends.of_rooms (hrooms : s'.rooms = s.rooms) (hle : s.nextRef ≤ s'.nextRef) :
    Descends s s' :=
  ⟨hle, fun _ room hget => .inr ⟨room, hrooms ▸ hget, rfl⟩⟩

@[grind →] theorem Drawn.descends (h : Drawn s s') : Descends s s' := by
  obtain ⟨_, _, _, rfl⟩ := h
  exact .of_rooms rfl (Nat.le_add_right ..)

@[grind →] theorem Took.descends {roomID : String} (h : Took s roomID s') : Descends s s' := by
  obtain ⟨_, _, _, _, rfl, -⟩ := h
  exact .of_rooms rfl (Nat.le_add_right ..)

@[grind →] theorem Refused.descends (h : Refused s s') : Descends s s' := by
  obtain ⟨_, rfl, -⟩ := h
  exact .of_rooms rfl le_rfl

@[grind →] theorem Wrote.descends {Q : Rows → Rows → Prop} (h : Wrote Q s s') : Descends s s' := by
  obtain ⟨_, rfl, -⟩ := h
  exact .of_rooms rfl le_rfl

@[grind →] theorem Updated.descends {roomID : String} {hostTokenDigest : Bytes}
    {f : StoredRoomAuthority → StoredRoomAuthority} (h : Updated roomID hostTokenDigest f s s') :
    Descends s s' :=
  Wrote.descends h

/-- The code of a failed operation goes back. -/
theorem Descends.released (h : Descends s s') {freeRoomCodes : List String}
    (hs : s'' = { s' with freeRoomCodes }) : Descends s s'' := by
  subst hs
  exact h.trans (.of_rooms rfl le_rfl)

/-- A room with a new identity was set. -/
theorem Descends.set (h : Descends s s') {roomID : String} {room : Room}
    (hlow : s.nextRef ≤ room.ref) (hhigh : room.ref < s'.nextRef) :
    Descends s { s' with rooms := s'.rooms.set roomID room } := by
  refine ⟨h.nextRef_le, fun roomID' room' hget => ?_⟩
  rw [OMap.get_set] at hget
  split at hget
  · cases hget
    exact .inl ⟨hlow, hhigh⟩
  · exact h.origin roomID' room' hget

theorem Descends.delete (h : Descends s s') {roomID : String} :
    Descends s { s' with rooms := s'.rooms.delete roomID } := by
  refine ⟨h.nextRef_le, fun roomID' room' hget => ?_⟩
  rw [OMap.get_delete] at hget
  split at hget
  · cases hget
  · exact h.origin roomID' room' hget

/-- A room was put back with other seats or another authority. -/
theorem Descends.put (h : Descends s s') {room room' : Room} (hs : s'' = s'.withRoom room')
    (hget : s.rooms.get room'.roomID = some room) (href : room'.ref = room.ref) :
    Descends s s'' := by
  subst hs
  refine ⟨h.nextRef_le, fun roomID room'' hget' => ?_⟩
  replace hget' : (s'.rooms.modify room'.roomID fun _ => room').get roomID = some room'' := hget'
  rw [OMap.get_modify] at hget'
  split at hget'
  · next heq =>
    obtain ⟨_, -, rfl⟩ := Option.map_eq_some_iff.1 hget'
    exact .inr ⟨room, heq ▸ hget, href.symm⟩
  · exact h.origin roomID room'' hget'

/-- No operation gives an identity twice, whether it fails or not. -/
def Ages {α : Type} (call : Act Store α) : Prop := ∀ s₀ : Store, Authority s₀ →
  ⦃fun s => ⌜s = s₀⌝⦄ call
    ⦃post⟨fun _ s => ⌜Descends s₀ s⌝, fun _ s => ⌜Descends s₀ s⌝⟩⦄

theorem createRoom_ages (policy : CodeEntryPolicy) (material : Option Bytes)
    (derived : Option Failure) (preferredRoomID : String) :
    Ages (createRoom policy material derived preferredRoomID) := by
  intro s₀ h
  mvcgen [createRoom]
  case vc4 roomID s₁ ht r s₂ hd _ s₃ hw _ =>
    obtain ⟨hd, -, -, -, hlow, hhigh⟩ := hd
    have hle := (ht.descends.trans hd.descends).nextRef_le
    refine Descends.set (by grind) ?_ ?_
    · have := ht.descends.nextRef_le
      grind
    · exact hhigh.trans_le hw.descends.nextRef_le
  case vc5 hs => exact Descends.released (by grind) hs
  case vc6 hs => exact Descends.released (by grind) hs
  all_goals grind

theorem replaceRoom_ages (roomID hostToken : String) (policy : CodeEntryPolicy)
    (material : Option Bytes) (derived : Option Failure) (current : ℕ) :
    Ages (replaceRoom roomID hostToken policy material derived current) := by
  intro s₀ h
  mvcgen [replaceRoom, replaceRoomWith]
  case vc1 s hs old s₁ hold roomID' s₂ ht r s₃ hd _ _ s₄ hw _ _ s' hs' =>
    obtain ⟨hd, -, -, -, hlow, hhigh⟩ := hd
    have hmid := ht.descends
    have hdel : Descends s₀ { s₄ with rooms := s₄.rooms.delete roomID } := Descends.delete (by grind)
    refine Descends.released ?_ hs'
    refine Descends.set hdel ?_ ?_
    · have := ht.descends.nextRef_le
      grind
    · exact hhigh.trans_le hw.descends.nextRef_le
  case vc2 hs => exact Descends.released (by grind) hs
  case vc3 hs => exact Descends.released (by grind) hs
  all_goals grind

theorem setViewerPassword_ages (roomID hostToken : String) (material : Option Bytes)
    (derived : Option Failure) (current : ℕ) :
    Ages (setViewerPassword roomID hostToken material derived current) := by
  intro s₀ h
  mvcgen [setViewerPassword]
  case vc1 s hs room s₁ hroom _ s₂ hw _ s' hs' =>
    obtain ⟨rfl, -, hget⟩ := hroom
    obtain rfl : s₁ = s₀ := hs
    obtain rfl := h.named roomID room hget
    exact hw.descends.put hs' hget rfl
  all_goals grind

theorem setCodeEntryPolicy_ages (roomID : String) (policy : CodeEntryPolicy) (hostToken : String) :
    Ages (setCodeEntryPolicy roomID policy hostToken) := by
  intro s₀ h
  mvcgen [setCodeEntryPolicy]
  case vc1 s hs _ s₁ hi room s₂ hroom _ s₃ hw _ s' hs' =>
    obtain ⟨rfl, hget⟩ := hroom
    obtain ⟨rfl, -⟩ := hi
    obtain rfl : s₂ = s₀ := hs
    obtain rfl := h.named roomID room hget
    exact hw.descends.put hs' hget rfl
  all_goals grind

theorem setViewerGrant_ages (roomID action hostToken : String) :
    Ages (setViewerGrant roomID action hostToken) := by
  intro s₀ h
  mvcgen [setViewerGrant]
  case vc1 s hs _ s₁ hi room s₂ hroom _ _ s₃ hd₁ _ s₄ hd₂ _ s₅ hd₃ _ s₆ hw room' s₇ hd₄ _ s' hs' =>
    obtain ⟨rfl, hget⟩ := hroom
    obtain ⟨rfl, -⟩ := hi
    obtain rfl : s₂ = s₀ := hs
    obtain ⟨hd₄, emptySinceMs, rfl⟩ := hd₄
    obtain rfl := h.named roomID room hget
    refine Descends.put ?_ hs' hget rfl
    grind
  all_goals grind

theorem connectHost_ages {room : Room} {input : ConnectParticipantInput} (s₀ : Store)
    (hget : s₀.rooms.get room.roomID = some room) : ⦃fun s => ⌜s = s₀⌝⦄ connectHost room input
      ⦃post⟨fun _ s => ⌜Descends s₀ s⌝, fun _ s => ⌜Descends s₀ s⌝⟩⦄ := by
  mvcgen [connectHost, -connectHost_spec]
  case vc2 s hs _ _ s' hs' =>
    subst hs
    exact (Descends.refl s).put hs' hget rfl
  case vc3 s hs _ s₁ hd _ _ s' hs' =>
    subst hs
    exact hd.1.descends.put hs' hget rfl
  all_goals grind

theorem connectViewer_ages {room : Room} {clientID sessionID : String} {admittedBy : AdmittedBy}
    (s₀ : Store) (hget : s₀.rooms.get room.roomID = some room) :
    ⦃fun s => ⌜s = s₀⌝⦄ connectViewer room clientID sessionID admittedBy
      ⦃post⟨fun _ s => ⌜Descends s₀ s⌝, fun _ s => ⌜Descends s₀ s⌝⟩⦄ := by
  mvcgen [connectViewer, -connectViewer_spec]
  case vc1 s hs _ _ s' hs' =>
    subst hs
    exact (Descends.refl s).put hs' hget rfl
  case vc3 s hs _ _ _ s₁ hd _ _ s' hs' =>
    subst hs
    exact hd.1.descends.put hs' hget rfl
  all_goals grind

theorem connectParticipant_ages (input : ConnectParticipantInput) :
    Ages (connectParticipant input) := by
  intro s₀ h
  have hnamed := h.named
  mvcgen [connectParticipant, connectHost_ages, connectViewer_ages, -connectHost_spec,
    -connectViewer_spec]
  all_goals grind

theorem connectViewerWithPassword_ages (input : ConnectViewerWithPasswordInput)
    (derived expectedMaterial : Bytes) (room : Option ℕ) (mayConnect : Bool) :
    Ages (connectViewerWithPassword input derived expectedMaterial room mayConnect) := by
  intro s₀ h
  have hnamed := h.named
  mvcgen [connectViewerWithPassword, connectViewer_ages, -connectViewer_spec]
  all_goals grind

theorem disconnectParticipant_ages (roomID peerID sessionID : String) :
    Ages (disconnectParticipant roomID peerID sessionID) := by
  intro s₀ h
  mvcgen [disconnectParticipant]
  case vc3 s hs _ s₁ hs₁ room hroom host hhost _ _ s₂ hd _ s' hs' =>
    obtain ⟨rfl, -⟩ := hs₁
    obtain rfl : s₁ = s₀ := hs
    obtain ⟨hd, emptySinceMs, rfl⟩ := hd
    obtain rfl := h.named roomID room hroom
    exact hd.descends.put hs' hroom rfl
  case vc6 s hs _ s₁ hs₁ room hroom _ viewer _ _ viewers _ s₂ hd _ s' hs' =>
    obtain ⟨rfl, -⟩ := hs₁
    obtain rfl : s₁ = s₀ := hs
    obtain ⟨hd, emptySinceMs, rfl⟩ := hd
    obtain rfl := h.named roomID room hroom
    exact hd.descends.put hs' hroom rfl
  all_goals grind

theorem removeDisconnectedViewer_ages (roomID peerID : String) :
    Ages (removeDisconnectedViewer roomID peerID) := by
  intro s₀ h
  mvcgen [removeDisconnectedViewer]
  case vc4 s hs room hroom viewer _ _ _ s' hs' =>
    obtain rfl : s = s₀ := hs
    obtain rfl := h.named roomID room hroom
    exact (Descends.refl s).put hs' hroom rfl
  all_goals grind

theorem Descends.deleted (h : Descends s s') (roomIDs : List String) :
    Descends s { s' with rooms := roomIDs.foldl OMap.delete s'.rooms } := by
  induction roomIDs generalizing s' with
  | nil => exact h
  | cons roomID rest ih => exact ih h.delete

theorem abandonRooms_ages (roomIDs : List String) (s₀ : Store) :
    ⦃fun s => ⌜s = s₀⌝⦄ abandonRooms roomIDs
      ⦃post⟨fun _ s => ⌜Descends s₀ s⌝, fun _ s => ⌜Descends s₀ s⌝⟩⦄ := by
  mvcgen [abandonRooms, -abandonRooms_spec]
  case vc2 s hs _ s₁ hs₁ _ _ _ _ s₂ hw _ s' hs' =>
    exact ((Descends.trans (by grind) hw.descends).deleted _).released hs'
  all_goals grind

theorem abandonRoom_ages (roomID : String) : Ages (abandonRoom roomID) := by
  intro s₀ h
  mvcgen [abandonRoom, abandonRooms_ages, -abandonRooms_spec]
  all_goals grind

theorem abandonAllRooms_ages : Ages abandonAllRooms := by
  intro s₀ h
  mvcgen [abandonAllRooms, abandonRooms_ages, -abandonRooms_spec]

theorem expireEmptyRooms_ages (beforeMs : ℤ) : Ages (expireEmptyRooms beforeMs) := by
  intro s₀ h
  mvcgen [expireEmptyRooms, abandonRooms_ages, -abandonRooms_spec]

theorem close_ages : Ages close := by
  intro s₀ h
  mvcgen [close]
  all_goals grind

theorem Restored.descends {rows : Rows} (h : Restored rows s s') : Descends s s' := by
  obtain ⟨rooms, hd⟩ := h.drawn
  refine ⟨hd.nextRef_le, fun roomID room hget => ?_⟩
  rcases h.fresh roomID room hget with hold | ⟨-, -, -, hlow, hhigh⟩
  · exact .inr ⟨room, hold, rfl⟩
  · exact .inl ⟨hlow, hhigh⟩

theorem restore_ages (s₀ : Store) (h : Authority s₀) (hi : s₀.initialized = false) :
    ⦃fun s => ⌜s = s₀⌝⦄ restore
      ⦃post⟨fun _ s => ⌜Descends s₀ s⌝, fun _ s => ⌜Descends s₀ s⌝⟩⦄ := by
  have hopen := onDatabase_spec Database.initializeDatabase_spec
  mvcgen [restore, hopen, restoreRooms_spec, -restore_spec]
  case vc1 hs _ _ hw _ _ =>
    subst hs
    obtain ⟨d₀, d, -, rfl, -⟩ := hw
    exact .of_rooms rfl le_rfl
  case vc2 hs _ _ hw _ _ _ _ _ =>
    subst hs
    obtain ⟨d₀, d, -, rfl, -⟩ := hw
    exact .of_rooms rfl le_rfl
  case vc3 hs rows _ hw _ _ _ _ hdup =>
    subst hs
    obtain ⟨d₀, d, -, rfl, -⟩ := hw
    rw [h.unrestored hi]
    exact nodup_of_length_dedup (not_not.1 hdup)
  case vc4 hs rows _ hw _ _ _ _ _ _ _ hr _ =>
    subst hs
    obtain ⟨d₀, d, -, rfl, -⟩ := hw
    refine Descends.trans ?_ (hr.descends.released rfl)
    exact .of_rooms rfl le_rfl
  all_goals grind

theorem Descends.emptied (h : Descends s s') : Descends s { s' with rooms := .empty } :=
  ⟨h.nextRef_le, nofun⟩

theorem initializeStore_ages : Ages initializeStore := by
  intro s₀ h
  mvcgen [initializeStore, restore_ages, -restore_spec]
  case vc2 hs _ _ _ =>
    subst hs
    exact .of_rooms rfl le_rfl
  case vc5 hs _ _ _ s₁ hr _ =>
    subst hs
    exact hr.trans (.of_rooms rfl le_rfl)
  case vc6 hs _ _ _ s₁ hr _ _ s₂ hclosed =>
    subst hs
    exact hr.emptied.trans hclosed.descends
  case vc7 hs _ _ _ s₁ hr _ _ s₂ hclosed =>
    subst hs
    exact hr.emptied.trans hclosed.descends
  all_goals grind

/-! ## The lock released -/

theorem ages_discard {α : Type} {call : Act Store α} (h : Ages call) :
    Ages (discard call : Act Store Unit) := by
  intro s₀ hs₀
  refine Effect.triple_iff.2 fun s hs => ?_
  have h := Effect.triple_iff.1 (h s₀ hs₀) s hs
  rw [Effect.run_discard]
  rcases hrun : call.run.run s with ⟨_ | _, s'⟩
  · rw [hrun] at h
    exact h
  · rw [hrun] at h
    exact h

theorem Op.ages (op : Op) : Ages op.act := by
  cases op with
  | initializeStore => exact initializeStore_ages
  | close => exact close_ages
  | createRoom => exact ages_discard (createRoom_ages _ _ _ _)
  | replaceRoom => exact ages_discard (replaceRoom_ages _ _ _ _ _ _)
  | setViewerPassword => exact ages_discard (setViewerPassword_ages _ _ _ _ _)
  | setCodeEntryPolicy => exact ages_discard (setCodeEntryPolicy_ages _ _ _)
  | setViewerGrant => exact ages_discard (setViewerGrant_ages _ _ _)
  | connectParticipant => exact ages_discard (connectParticipant_ages _)
  | connectViewerWithPassword => exact ages_discard (connectViewerWithPassword_ages _ _ _ _ _)
  | disconnectParticipant => exact ages_discard (disconnectParticipant_ages _ _ _)
  | removeDisconnectedViewer => exact ages_discard (removeDisconnectedViewer_ages _ _)
  | abandonRoom => exact ages_discard (abandonRoom_ages _)
  | abandonAllRooms => exact ages_discard abandonAllRooms_ages
  | expireEmptyRooms => exact ages_discard (expireEmptyRooms_ages _)

theorem step_descends (h : Authority s) (op : Op) : Descends s (s.step op).2 := by
  rcases hr : s.step op with ⟨_ | _, s'⟩
  · exact Effect.run_error (op.ages s h) rfl hr
  · exact Effect.run_ok (op.ages s h) rfl hr

theorem Elapses.keeps (h : Elapses s s') (ha : Authority s) : Authority s' ∧ Descends s s' := by
  rcases h with ⟨op, rfl⟩ | hdraw
  · exact ⟨(step_keeps ha op).1, step_descends ha op⟩
  · obtain ⟨random, rfl⟩ := hdraw
    have hd : Drawn s { s with random } := ⟨_, _, 0, rfl⟩
    exact ⟨hd.unmoved.authority ha, hd.descends⟩

theorem Elapsed.keeps (h : Elapsed s s') (ha : Authority s) : Authority s' ∧ Descends s s' := by
  induction h with
  | refl => exact ⟨ha, .refl s⟩
  | tail _ hstep ih =>
    obtain ⟨ha, hd⟩ := ih
    obtain ⟨ha', hd'⟩ := hstep.keeps ha
    exact ⟨ha', hd.trans hd'⟩

theorem Elapsed.given (h : Elapsed s s') (ha : Authority s) (hg : Given s) : Given s' :=
  (h.keeps ha).2.given hg

theorem new_given {options : Options} (h : Store.new options = .ok s) : Given s := by
  unfold Store.new at h
  split at h
  · cases h
  · split at h
    · cases h
    · obtain rfl := Except.ok.inj h
      exact nofun

/-- The object found later under a code was there all the while, if its identity had
    been given at the start. -/
theorem Elapsed.throughout (h : Elapsed s s₁) (h' : Elapsed s₁ s') (ha : Authority s)
    {roomID : String} {room : Room} (hget : s'.rooms.get roomID = some room)
    (hold : room.ref < s.nextRef) : ∃ room₁, s₁.rooms.get roomID = some room₁ ∧ room₁.ref = room.ref := by
  obtain ⟨ha₁, hd⟩ := h.keeps ha
  rcases ((h'.keeps ha₁).2).origin roomID room hget with ⟨hlow, -⟩ | hfound
  · exact absurd (hold.trans_le hd.nextRef_le) (not_lt.2 hlow)
  · exact hfound

/-! ## The commits -/

theorem viewerPasswordChallenge_spec (roomID : String) (s₀ : Store) :
    ⦃fun s => ⌜s = s₀⌝⦄ viewerPasswordChallenge roomID
      ⦃post⟨fun c s => ⌜s = s₀ ∧ c.room = (s₀.rooms.get roomID).map Room.ref ∧
          c.expectedMaterial = challengedMaterial (s₀.rooms.get roomID) ∧
          c.salt = c.expectedMaterial.take viewerPasswordSaltBytes⌝, fun _ s => ⌜s = s₀⌝⟩⦄ := by
  mvcgen [viewerPasswordChallenge]
  all_goals grind

/-- The room the Host's token owns, with an identity. -/
def Owned (s : Store) (roomID hostToken : String) (ref : ℕ) : Prop :=
  ∃ room, s.rooms.get roomID = some room ∧ room.ref = ref ∧
    verifyDigest hostToken room.hostTokenDigest = true

theorem hostStillOwnsRoom_iff {roomID hostToken : String} {current : ℕ} :
    s.hostStillOwnsRoom roomID hostToken current = true ↔ Owned s roomID hostToken current := by
  simp only [hostStillOwnsRoom, Option.any_eq_true, Bool.and_eq_true, decide_eq_true_eq, Owned]

/-- A derivation of material draws a salt and leaves the store alone. -/
theorem deriveViewerPasswordMaterial_elapses (scrypt : String → Bytes → Except Failure Bytes)
    (password : String) (acquired mayStart : Bool) (s₀ : Store) :
    ⦃fun s => ⌜s = s₀⌝⦄ deriveViewerPasswordMaterial scrypt password acquired mayStart
      ⦃post⟨fun _ s => ⌜Elapsed s₀ s⌝, fun _ s => ⌜Elapsed s₀ s⌝⟩⦄ := by
  have hdraw (s₁ : Store) : ⦃fun s => ⌜s = s₁⌝⦄ drawRandom viewerPasswordSaltBytes
      ⦃post⟨fun _ s => ⌜Elapsed s₁ s⌝, fun _ _ => ⌜False⌝⟩⦄ := by
    mvcgen [drawRandom, -drawRandom_spec]
    subst_vars
    exact .single (.inr ⟨_, rfl⟩)
  mvcgen [deriveViewerPasswordMaterial, hdraw, -drawRandom_spec]
  all_goals simp_all [Elapsed, Relation.ReflTransGen.refl]

theorem getHostManagedRoom_exact (roomID hostToken : String) (s₀ : Store) :
    ⦃fun s => ⌜s = s₀⌝⦄ getHostManagedRoom roomID hostToken
      ⦃post⟨fun room s => ⌜s = s₀ ∧ s₀.rooms.get roomID = some room ∧
          verifyDigest hostToken room.hostTokenDigest = true⌝, fun _ s => ⌜s = s₀⌝⟩⦄ := by
  mvcgen [getHostManagedRoom, -getHostManagedRoom_spec]
  all_goals simp_all

theorem hostManagedRoom_spec (roomID hostToken : String) (s₀ : Store) :
    ⦃fun s => ⌜s = s₀⌝⦄ hostManagedRoom roomID hostToken
      ⦃post⟨fun ref s => ⌜s = s₀ ∧ Owned s₀ roomID hostToken ref⌝, fun _ s => ⌜s = s₀⌝⟩⦄ := by
  mvcgen [hostManagedRoom, getHostManagedRoom_exact, -getHostManagedRoom_spec]
  all_goals grind [Owned]

theorem ownedRoom_exact (roomID hostToken : String) (derived : Option Failure) (current : ℕ)
    (s₀ : Store) :
    ⦃fun s => ⌜s = s₀⌝⦄ ownedRoom roomID hostToken derived current
      ⦃post⟨fun _ _ => ⌜derived = none ∧ Owned s₀ roomID hostToken current⌝, fun _ _ => ⌜True⌝⟩⦄ := by
  mvcgen [ownedRoom, getHostManagedRoom_exact, refuseDerivation, -ownedRoom_spec,
    -getHostManagedRoom_spec, -refuseDerivation_spec]
  all_goals grind [Owned, isGateOutcome]

theorem connectViewerWithPassword_exact (input : ConnectViewerWithPasswordInput)
    (derived expectedMaterial : Bytes) (room : Option ℕ) (mayConnect : Bool) (s₀ : Store) :
    ⦃fun s => ⌜s = s₀⌝⦄
      connectViewerWithPassword input derived expectedMaterial room mayConnect
      ⦃post⟨fun _ _ => ⌜∃ current, s₀.rooms.get input.roomID = some current ∧
          room = some current.ref ∧ current.codeEntryPolicy = codeEntryPrivate ∧
          current.viewerPasswordMaterial = some expectedMaterial ∧
          derived = expectedMaterial.drop viewerPasswordSaltBytes ∧ mayConnect = true⌝,
        fun _ _ => ⌜True⌝⟩⦄ := by
  have hconnect (room : Room) (clientID sessionID : String) (admittedBy : AdmittedBy) (s₁ : Store) :
      ⦃fun s => ⌜s = s₁⌝⦄ connectViewer room clientID sessionID admittedBy
        ⦃post⟨fun _ _ => ⌜True⌝, fun _ _ => ⌜True⌝⟩⦄ :=
    Effect.triple_trivial
  mvcgen [connectViewerWithPassword, hconnect, -connectViewer_spec]
  all_goals grind

theorem replaceRoom_exact (roomID hostToken : String) (policy : CodeEntryPolicy)
    (material : Option Bytes) (derived : Option Failure) (current : ℕ) (s₀ : Store) :
    ⦃fun s => ⌜s = s₀⌝⦄ replaceRoom roomID hostToken policy material derived current
      ⦃post⟨fun _ _ => ⌜derived = none ∧ Owned s₀ roomID hostToken current⌝, fun _ _ => ⌜True⌝⟩⦄ := by
  have hcommit (replacementRoomID : String) (owned : Room) (s₁ : Store) :
      ⦃fun s => ⌜s = s₁⌝⦄ replaceRoomWith roomID replacementRoomID policy material owned
        ⦃post⟨fun _ _ => ⌜True⌝, fun _ _ => ⌜True⌝⟩⦄ :=
    Effect.triple_trivial
  mvcgen [replaceRoom, ownedRoom_exact, hcommit, -ownedRoom_spec]
  all_goals grind

theorem setViewerPassword_exact (roomID hostToken : String) (material : Option Bytes)
    (derived : Option Failure) (current : ℕ) (s₀ : Store) :
    ⦃fun s => ⌜s = s₀⌝⦄ setViewerPassword roomID hostToken material derived current
      ⦃post⟨fun _ _ => ⌜derived = none ∧ Owned s₀ roomID hostToken current⌝, fun _ _ => ⌜True⌝⟩⦄ := by
  mvcgen [setViewerPassword, ownedRoom_exact, -ownedRoom_spec]
  all_goals grind

theorem createRoom_exact (policy : CodeEntryPolicy) (material : Option Bytes)
    (derived : Option Failure) (preferredRoomID : String) (s₀ : Store) :
    ⦃fun s => ⌜s = s₀⌝⦄ createRoom policy material derived preferredRoomID
      ⦃post⟨fun _ _ => ⌜derived = none ∧ s₀.initialized = true ∧ s₀.rooms.len < s₀.maxRooms⌝,
        fun _ _ => ⌜True⌝⟩⦄ := by
  mvcgen [createRoom, refuseDerivation, -refuseDerivation_spec]
  all_goals grind [isGateOutcome]

theorem deriveViewerPassword_ok {scrypt : String → Bytes → Except Failure Bytes} {password : String}
    {salt derived : Bytes} {acquired mayConnect : Bool}
    (h : deriveViewerPassword scrypt password salt acquired mayConnect = .ok derived) :
    acquired = true ∧ mayConnect = true ∧ scrypt password salt = .ok derived := by
  cases acquired with
  | false =>
    simp only [deriveViewerPassword, gateRun] at h
    split at h
    · cases h
    · cases h
  | true =>
    cases mayConnect with
    | false =>
      simp only [deriveViewerPassword, gateRun] at h
      split at h
      · cases h
      · cases h
    | true =>
      simp only [deriveViewerPassword, gateRun] at h
      split at h
      · cases h
      · dsimp at h
        split at h
        · cases h
        · exact ⟨rfl, rfl, h⟩

/-- What an operation keeps, read off its one run. -/
theorem Keeps.refused {α : Type} {call : Act Store α} (h : Keeps call) (ha : Authority s) {e : Failure}
    (hr : call.run.run s = (.error e, s')) : Unmoved s s' :=
  Effect.run_error (h s ha) rfl hr

/-- The object with that identity is the room of its code now, and has been it since. -/
def Stands (s s' : Store) (roomID : String) (ref : ℕ) : Prop :=
  ∀ s₁, Elapsed s s₁ → Elapsed s₁ s' → ∃ room, s₁.rooms.get roomID = some room ∧ room.ref = ref

theorem Stands.of_ref (hg : Given s) (ha : Authority s) {roomID : String} {found current : Room}
    (hfound : s.rooms.get roomID = some found) (hcurrent : s'.rooms.get roomID = some current)
    (href : current.ref = found.ref) : Stands s s' roomID found.ref := by
  intro s₁ h h'
  obtain ⟨room₁, hget, href₁⟩ := h.throughout h' ha hcurrent (href ▸ hg roomID found hfound)
  exact ⟨room₁, hget, href₁.trans href⟩

/-- The commits of password admission, over every run of a store and whatever happens
    while the lock is released for a derivation. -/
theorem commits_recheck (scrypt : String → Bytes → Except Failure Bytes) {options : Options}
    {s₀ s₁ : Store} (hnew : Store.new options = .ok s₀) (hreach : Elapsed s₀ s₁) :
    (∀ (input : ConnectViewerWithPasswordInput) (password : String) (c : Challenge)
        (acquired mayStart mayConnect : Bool) (derived : Bytes) (s₂ : Store),
      (viewerPasswordChallenge input.roomID).run.run s₁ = (.ok c, s₁) → Elapsed s₁ s₂ →
      deriveViewerPassword scrypt password c.salt acquired mayStart = .ok derived →
      match (connectViewerWithPassword input derived c.expectedMaterial c.room mayConnect).run.run s₂ with
      | (.ok _, _) => ∃ challenged current,
          s₁.rooms.get input.roomID = some challenged ∧
          s₂.rooms.get input.roomID = some current ∧ current.ref = challenged.ref ∧
          Stands s₁ s₂ input.roomID challenged.ref ∧
          current.codeEntryPolicy = codeEntryPrivate ∧
          current.viewerPasswordMaterial = some (challengedMaterial (some challenged)) ∧
          scrypt password c.salt =
            .ok ((challengedMaterial (some challenged)).drop viewerPasswordSaltBytes) ∧
          acquired = true ∧ mayStart = true ∧ mayConnect = true
      | (.error _, s₃) => Unmoved s₂ s₃) ∧
    (∀ (roomID hostToken : String) (policy : CodeEntryPolicy) (material : Option Bytes)
        (derived : Option Failure) (current : ℕ) (s₂ : Store),
      (hostManagedRoom roomID hostToken).run.run s₁ = (.ok current, s₁) → Elapsed s₁ s₂ →
      (match (replaceRoom roomID hostToken policy material derived current).run.run s₂ with
        | (.ok _, _) => derived = none ∧ Owned s₁ roomID hostToken current ∧
            Owned s₂ roomID hostToken current ∧ Stands s₁ s₂ roomID current
        | (.error _, s₃) => Unmoved s₂ s₃) ∧
      match (setViewerPassword roomID hostToken material derived current).run.run s₂ with
      | (.ok _, _) => derived = none ∧ Owned s₁ roomID hostToken current ∧
          Owned s₂ roomID hostToken current ∧ Stands s₁ s₂ roomID current
      | (.error _, s₃) => Unmoved s₂ s₃) ∧
    ∀ (policy : CodeEntryPolicy) (material : Option Bytes) (derived : Option Failure)
        (preferredRoomID : String),
      match (createRoom policy material derived preferredRoomID).run.run s₁ with
      | (.ok _, _) => derived = none ∧ s₁.initialized = true ∧ s₁.rooms.len < s₁.maxRooms
      | (.error _, s₂) => Unmoved s₁ s₂ := by
  have ha₀ := new_authority hnew
  obtain ⟨ha, hd⟩ := hreach.keeps ha₀
  have hg := hd.given (new_given hnew)
  have hstands {roomID hostToken : String} {current : ℕ} {s₂ : Store}
      (h₁ : Owned s₁ roomID hostToken current) (h₂ : Owned s₂ roomID hostToken current) :
      Stands s₁ s₂ roomID current := by
    obtain ⟨found, hfound, rfl, -⟩ := h₁
    obtain ⟨room, hget, href, -⟩ := h₂
    exact .of_ref hg ha hfound hget href
  refine ⟨?_, ?_, ?_⟩
  · intro input password c acquired mayStart mayConnect derived s₂ hc hs₂ hkey
    obtain ⟨-, hroom, hmaterial, -⟩ := Effect.run_ok (viewerPasswordChallenge_spec _ s₁) rfl hc
    obtain ⟨ha₂, -⟩ := hs₂.keeps ha
    obtain ⟨hacquired, hmayStart, hscrypt⟩ := deriveViewerPassword_ok hkey
    split
    · next _ _ hr =>
      obtain ⟨current, hget, href, hpolicy, hsame, hderived, hmay⟩ :=
        Effect.run_ok (connectViewerWithPassword_exact _ _ _ _ _ s₂) rfl hr
      rw [href, eq_comm] at hroom
      obtain ⟨challenged, hfound, hchallenged⟩ := Option.map_eq_some_iff.1 hroom
      rw [hfound] at hmaterial
      refine ⟨challenged, current, hfound, hget, hchallenged.symm, ?_, hpolicy, hmaterial ▸ hsame,
        ?_, hacquired, hmayStart, hmay⟩
      · exact .of_ref hg ha hfound hget hchallenged.symm
      · rw [hscrypt, hderived, hmaterial]
    · next hr => exact (connectViewerWithPassword_keeps _ _ _ _ _).refused ha₂ hr
  · intro roomID hostToken policy material derived current s₂ hc hs₂
    obtain ⟨-, howned⟩ := Effect.run_ok (hostManagedRoom_spec roomID hostToken s₁) rfl hc
    obtain ⟨ha₂, -⟩ := hs₂.keeps ha
    constructor
    · split
      · next hr =>
        obtain ⟨hderived, howned₂⟩ := Effect.run_ok (replaceRoom_exact _ _ _ _ _ _ s₂) rfl hr
        exact ⟨hderived, howned, howned₂, hstands howned howned₂⟩
      · next hr => exact (replaceRoom_keeps _ _ _ _ _ _).refused ha₂ hr
    · split
      · next hr =>
        obtain ⟨hderived, howned₂⟩ := Effect.run_ok (setViewerPassword_exact _ _ _ _ _ s₂) rfl hr
        exact ⟨hderived, howned, howned₂, hstands howned howned₂⟩
      · next hr => exact (setViewerPassword_keeps _ _ _ _ _).refused ha₂ hr
  · intro policy material derived preferredRoomID
    split
    · next hr => exact Effect.run_ok (createRoom_exact _ _ _ _ s₁) rfl hr
    · next hr => exact (createRoom_keeps _ _ _ _).refused ha hr

/-! ## A private room -/

theorem map_range_succ (k : ℕ) (f : ℕ → String) :
    ∃ rest, (List.range (k + 1)).map f = f 0 :: rest :=
  ⟨_, by rw [List.range_succ_eq_map, List.map_cons]⟩

theorem roomCodes_cons : ∃ rest, roomCodes = "1000" :: rest := by
  have hfirst : toString (roomCodeFirst + 0) = "1000" := by decide
  rw [← hfirst]
  exact map_range_succ 8999 fun index => toString (roomCodeFirst + index)

/-- A derivation of 32 bytes from the password and the salt. -/
def stretch (password : String) (salt : Bytes) : Except Failure Bytes :=
  .ok ((password.toList.map (fun c : Char => c.toNat.toUInt8) ++ salt ++ List.replicate 32 0).take 32)

/-- The material that the derivation gives for the password "pw". -/
def stretchedMaterial : Bytes :=
  (List.replicate 16 5 : Bytes) ++ (([112, 119] : Bytes) ++ List.replicate 16 5 ++ List.replicate 32 0).take 32

/-- One room for two viewers. -/
def pairOptions : Options where
  maxRooms := 1
  maxViewersPerRoom := 2
  database := none
  random n := List.replicate (if n = 0 then 32 else 16) n.toUInt8
  now := .const 0

/-- A private room is challenged, another viewer is admitted while the lock is released, and the
    one who was challenged is admitted after it. -/
theorem commits_recheck_admits : ∃ s₀ s₁ s₂ s₃ c derived connected, Store.new pairOptions = .ok s₀ ∧
    Elapsed s₀ s₁ ∧ (viewerPasswordChallenge "1000").run.run s₁ = (.ok c, s₁) ∧ Elapsed s₁ s₂ ∧
    ((s₂.rooms.get "1000").any fun room => room.viewers.has "other") = true ∧
    deriveViewerPassword stretch "pw" c.salt true true = .ok derived ∧
    (connectViewerWithPassword ⟨"1000", "viewer", "s2"⟩ derived c.expectedMaterial c.room true).run.run s₂ =
      (.ok connected, s₃) ∧
    ∃ challenged current, s₁.rooms.get "1000" = some challenged ∧ s₂.rooms.get "1000" = some current ∧
      current.ref = challenged.ref ∧ Stands s₁ s₂ "1000" challenged.ref ∧
      current.codeEntryPolicy = codeEntryPrivate ∧
      current.viewerPasswordMaterial = some (challengedMaterial (some challenged)) ∧
      stretch "pw" c.salt = .ok ((challengedMaterial (some challenged)).drop viewerPasswordSaltBytes) := by
  obtain ⟨rest, hcodes⟩ := roomCodes_cons
  have hrun : ∀ codes : List String, codes = "1000" :: rest → ∃ s₁ s₂ s₃ c derived connected,
      (step { freeRoomCodes := codes, random := pairOptions.random, now := pairOptions.now
              database := none, initialized := true, maxRooms := 1, maxViewersPerRoom := 2 }
        (.createRoom codeEntryPrivate (some stretchedMaterial) none "1000")).2 = s₁ ∧
      (viewerPasswordChallenge "1000").run.run s₁ = (.ok c, s₁) ∧
      (s₁.step (.connectViewerWithPassword ⟨"1000", "other", "s1"⟩ (stretchedMaterial.drop 16)
        stretchedMaterial (some 0) true)).2 = s₂ ∧
      ((s₂.rooms.get "1000").any fun room => room.viewers.has "other") = true ∧
      deriveViewerPassword stretch "pw" c.salt true true = .ok derived ∧
      (connectViewerWithPassword ⟨"1000", "viewer", "s2"⟩ derived c.expectedMaterial c.room true).run.run s₂ =
        (.ok connected, s₃) := by
    rintro _ rfl
    exact ⟨_, _, _, _, _, _, rfl, rfl, rfl, rfl, rfl, rfl⟩
  obtain ⟨s₁, s₂, s₃, c, derived, connected, hcreate, hc, hother, hin, hkey, hentry⟩ := hrun _ hcodes
  have h₁ : Elapsed _ s₁ := .single (.inl ⟨_, hcreate⟩)
  have h₂ : Elapsed s₁ s₂ := .single (.inl ⟨_, hother⟩)
  have hnew : Store.new pairOptions = .ok _ := rfl
  have hcommit := (commits_recheck stretch hnew h₁).1 ⟨"1000", "viewer", "s2"⟩
    "pw" c true true true derived s₂ hc h₂ hkey
  rw [hentry] at hcommit
  obtain ⟨challenged, current, hfound, hget, href, hstands, hpolicy, hsame, hscrypt, -⟩ := hcommit
  exact ⟨_, s₁, s₂, s₃, c, derived, connected, rfl, h₁, hc, h₂, hin, hkey, hentry, challenged, current, hfound,
    hget, href, hstands, hpolicy, hsame, hscrypt⟩

/-- One room for one viewer, and a source that repeats itself. -/
def freshOptions : Options where
  maxRooms := 1
  maxViewersPerRoom := 1
  database := none
  random n := List.replicate (if n = 0 then 32 else 16) 0
  now := .const 0

/-- A creation stands on no room: there is none before it. -/
theorem createRoom_fresh : ∃ s₀ created s₁, Store.new freshOptions = .ok s₀ ∧ s₀.rooms = .empty ∧
    (createRoom codeEntryOpen none none "1000").run.run s₀ = (.ok created, s₁) := by
  obtain ⟨rest, hcodes⟩ := roomCodes_cons
  have hcreate : ∀ codes : List String, codes = "1000" :: rest → ∃ created s₁,
      (createRoom codeEntryOpen none none "1000").run.run
        { freeRoomCodes := codes, random := freshOptions.random, now := freshOptions.now,
          database := none, initialized := true, maxRooms := 1, maxViewersPerRoom := 1 } =
          (.ok created, s₁) := by
    rintro _ rfl
    exact ⟨_, _, rfl⟩
  obtain ⟨created, s₁, hr⟩ := hcreate _ hcodes
  exact ⟨_, created, s₁, rfl, rfl, hr⟩
end Piik.Room.Store
