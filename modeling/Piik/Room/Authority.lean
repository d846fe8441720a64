/-
  Every operation of the room store keeps its authority, and one that fails
  leaves the rooms, the rows and the set of free codes as they were.
-/
import Piik.Room.Calls

set_option mvcgen.warning false

namespace Piik.Room.Store

open Std.Do

variable {s₀ s₁ s₂ s₃ s' : Store}

/-! ## Lookups -/

@[spec] theorem refuseDerivation_spec (derived : Option Failure) (s₀ : Store) :
    ⦃fun s => ⌜s = s₀⌝⦄ refuseDerivation derived
      ⦃post⟨fun _ s => ⌜s = s₀⌝, fun _ s => ⌜s = s₀⌝⟩⦄ := by
  mvcgen [refuseDerivation]

@[spec] theorem ensureInitialized_spec (s₀ : Store) :
    ⦃fun s => ⌜s = s₀⌝⦄ ensureInitialized
      ⦃post⟨fun _ s => ⌜s = s₀ ∧ s₀.initialized = true⌝, fun _ s => ⌜s = s₀⌝⟩⦄ := by
  mvcgen [ensureInitialized]
  all_goals simp_all

@[spec] theorem getAvailableRoom_spec (roomID : String) (s₀ : Store) :
    ⦃fun s => ⌜s = s₀⌝⦄ getAvailableRoom roomID
      ⦃post⟨fun room s => ⌜s = s₀ ∧ s₀.rooms.get roomID = some room⌝, fun _ s => ⌜s = s₀⌝⟩⦄ := by
  mvcgen [getAvailableRoom]
  all_goals simp_all

@[spec] theorem getHostManagedRoom_spec (roomID hostToken : String) (s₀ : Store) :
    ⦃fun s => ⌜s = s₀⌝⦄ getHostManagedRoom roomID hostToken
      ⦃post⟨fun room s => ⌜s = s₀ ∧ s₀.rooms.get roomID = some room⌝, fun _ s => ⌜s = s₀⌝⟩⦄ := by
  mvcgen [getHostManagedRoom]
  all_goals simp_all

@[spec] theorem ownedRoom_spec (roomID hostToken : String) (derived : Option Failure) (current : ℕ)
    (s₀ : Store) :
    ⦃fun s => ⌜s = s₀⌝⦄ ownedRoom roomID hostToken derived current
      ⦃post⟨fun room s => ⌜s = s₀ ∧ s₀.initialized = true ∧ s₀.rooms.get roomID = some room⌝,
        fun _ s => ⌜s = s₀⌝⟩⦄ := by
  mvcgen [ownedRoom]
  all_goals simp_all

@[spec] theorem putRoom_spec (room : Room) (s₀ : Store) :
    ⦃fun s => ⌜s = s₀⌝⦄ putRoom room
      ⦃post⟨fun _ s => ⌜s = s₀.withRoom room⌝, fun _ _ => ⌜False⌝⟩⦄ := by
  mvcgen [putRoom]
  subst_vars
  rfl

/-! ## Create -/

/-- What an operation keeps, and what it leaves when it fails. -/
def Keeps {α : Type} (call : Act Store α) : Prop := ∀ s₀ : Store, Authority s₀ →
  ⦃fun s => ⌜s = s₀⌝⦄ call
    ⦃post⟨fun _ s => ⌜Authority s ∧ SameLimits s₀ s⌝, fun _ s => ⌜Unmoved s₀ s⌝⟩⦄

/-- The code of a creation that failed is back in the pool. -/
@[grind →] theorem Took.released {roomID : String} (h : Took s₀ roomID s₁) (h' : Unmoved s₁ s₂) :
    Unmoved s₀ { s₂ with freeRoomCodes := s₂.freeRoomCodes ++ [roomID] } := by
  obtain ⟨codes, _, _, _, rfl, hperm⟩ := h
  refine ⟨⟨h'.maxRooms, h'.maxViewersPerRoom⟩, h'.rooms, ?_, h'.file, h'.initialized⟩
  refine (List.perm_append_singleton ..).trans ?_
  exact (h'.codes.cons _).trans hperm

theorem Authority.created (h : Authority s₀) (hi : s₀.initialized = true)
    (hmax : s₀.rooms.len < s₀.maxRooms) {room : Room} (ht : Took s₀ room.roomID s₁)
    (hd : Drawn s₁ s₂) (hhost : room.host = none) (hviewers : room.viewers = .empty)
    (hw : Wrote (fun rows rows' => rows' = rows ++ [room.storedRoomAuthority]) s₂ s₃) :
    Authority { s₃ with rooms := s₃.rooms.set room.roomID room } ∧
      SameLimits s₀ { s₃ with rooms := s₃.rooms.set room.roomID room } := by
  obtain ⟨codes, _, _, _, rfl, hperm⟩ := ht
  obtain ⟨_, _, _, rfl⟩ := hd
  obtain ⟨database, rfl, hrows⟩ := hw
  have hnew : room.roomID ∉ s₀.rooms.keys := fun hk =>
    h.toPool.notMem_free hk (hperm.subset (List.mem_cons_self ..))
  refine ⟨⟨h.toPool.opened ⟨rfl, rfl⟩ (Room.seated_empty hhost hviewers) hperm rfl hmax, ?_, ?_⟩,
    ⟨rfl, rfl⟩⟩
  · intro _ d hdb
    obtain ⟨d₀, hd₀, hq⟩ := hrows d hdb
    rw [hq, h.stored hi d₀ hd₀]
    exact (authorities_set hnew).symm
  · intro hi'
    exact absurd hi (by simp [show s₀.initialized = false from hi'])

theorem createRoom_keeps (policy : CodeEntryPolicy) (material : Option Bytes)
    (derived : Option Failure) (preferredRoomID : String) :
    Keeps (createRoom policy material derived preferredRoomID) := by
  intro s₀ h
  mvcgen [createRoom]
  case vc4 s hs _ hmax _ _ _ _ roomID s₁ ht r s₂ hd _ s₃ hw _ =>
    obtain rfl : s = s₀ := by grind
    obtain ⟨hd, rfl, hhost, hviewers, -⟩ := hd
    exact h.created (by grind) (not_le.1 hmax) ht hd hhost hviewers hw
  all_goals grind

/-! ## Replace -/

theorem Authority.replaced (h : Authority s₀) (hi : s₀.initialized = true) {old room : Room}
    (hget : s₀.rooms.get old.roomID = some old) (ht : Took s₀ room.roomID s₁) (hd : Drawn s₁ s₂)
    (hhost : room.host = none) (hviewers : room.viewers = .empty)
    (hw : Wrote (fun rows rows' => rows' = (rows ++ [room.storedRoomAuthority]).filter fun row =>
      !matchesRow old.roomID old.hostTokenDigest row) s₂ s₃)
    (hs : s' = { s₃ with
      rooms := (s₃.rooms.delete old.roomID).set room.roomID room
      freeRoomCodes := s₃.freeRoomCodes ++ [old.roomID] }) :
    Authority s' ∧ SameLimits s₀ s' := by
  obtain ⟨codes, _, _, _, rfl, hperm⟩ := ht
  obtain ⟨_, _, _, rfl⟩ := hd
  obtain ⟨database, rfl, hrows⟩ := hw
  subst hs
  have hold : old.roomID ∈ s₀.rooms.keys := OMap.mem_keys.2 ⟨old, hget⟩
  have hnew : room.roomID ∉ s₀.rooms.keys := fun hk =>
    h.toPool.notMem_free hk (hperm.subset (List.mem_cons_self ..))
  have hne : room.roomID ≠ old.roomID := fun heq => hnew (heq ▸ hold)
  -- The old room closes first, which makes way for the new one.
  have hclosed : Pool { s₀ with
      rooms := s₀.rooms.delete old.roomID, freeRoomCodes := s₀.freeRoomCodes ++ [old.roomID] } :=
    h.toPool.closed ⟨rfl, rfl⟩ (List.nodup_singleton _) (by simpa using hold) rfl rfl
  have hlen : (s₀.rooms.delete old.roomID).len < s₀.maxRooms := by
    have := OMap.len_delete hold
    have := h.bounded
    omega
  refine ⟨⟨hclosed.opened ⟨rfl, rfl⟩ (Room.seated_empty hhost hviewers)
    (hperm.append_right [old.roomID]) rfl hlen, ?_, ?_⟩, ⟨rfl, rfl⟩⟩
  · intro _ d hdb
    obtain ⟨d₀, hd₀, hq⟩ := hrows d hdb
    have hnew' : room.roomID ∉ (s₀.rooms.delete old.roomID).keys := by
      rw [OMap.keys_delete]
      exact fun hk => hnew (List.mem_filter.1 hk).1
    have hkept : matchesRow old.roomID old.hostTokenDigest room.storedRoomAuthority = false := by
      simp [matchesRow, Room.storedRoomAuthority, hne]
    rw [hq, h.stored hi d₀ hd₀, List.filter_append, ← h.toPool.authorities_delete hget]
    refine Eq.trans ?_ (authorities_set hnew').symm
    rw [List.filter_cons_of_pos (by simp [hkept]), List.filter_nil]
  · intro hi'
    exact absurd hi (by simp [show s₀.initialized = false from hi'])

theorem replaceRoom_keeps (roomID hostToken : String) (policy : CodeEntryPolicy)
    (material : Option Bytes) (derived : Option Failure) (current : ℕ) :
    Keeps (replaceRoom roomID hostToken policy material derived current) := by
  intro s₀ h
  mvcgen [replaceRoom, replaceRoomWith]
  case vc1 s hs old s₁ hold roomID' s₂ ht r s₃ hd _ _ s₄ hw _ _ s' hs' =>
    obtain ⟨rfl, hi, hget⟩ := hold
    obtain rfl : s₁ = s₀ := hs
    obtain ⟨hd, rfl, hhost, hviewers, -⟩ := hd
    obtain rfl := h.named roomID old hget
    exact h.replaced hi hget ht hd hhost hviewers hw hs'
  all_goals grind

/-! ## Authority changes -/

/-- A room whose authority changed in memory as its row did. -/
theorem Authority.amended (h : Authority s₀) (hi : s₀.initialized = true) {room room' : Room}
    (hget : s₀.rooms.get room.roomID = some room) {f : StoredRoomAuthority → StoredRoomAuthority}
    (hd : Drawn s₀ s₁) (hw : Updated room.roomID room.hostTokenDigest f s₁ s₂) (hd' : Drawn s₂ s₃)
    (hid : room'.roomID = room.roomID) (hf : room'.storedRoomAuthority = f room.storedRoomAuthority)
    (hseated : room'.Seated s₀.maxViewersPerRoom)
    (hs : s' = s₃.withRoom room') :
    Authority s' ∧ SameLimits s₀ s' := by
  obtain ⟨_, _, _, rfl⟩ := hd
  obtain ⟨database, rfl, hrows⟩ := hw
  obtain ⟨_, _, _, rfl⟩ := hd'
  subst hs
  refine ⟨⟨h.toPool.put ⟨rfl, rfl⟩ hseated rfl rfl, ?_, ?_⟩, ⟨rfl, rfl⟩⟩
  · intro _ d hdb
    obtain ⟨d₀, hd₀, hq⟩ := hrows d hdb
    rw [hq, h.stored hi d₀ hd₀]
    exact (h.toPool.authorities_put hget hid hf).symm
  · intro hi'
    exact absurd hi (by simp [show s₀.initialized = false from hi'])

theorem setViewerPassword_keeps (roomID hostToken : String) (material : Option Bytes)
    (derived : Option Failure) (current : ℕ) :
    Keeps (setViewerPassword roomID hostToken material derived current) := by
  intro s₀ h
  mvcgen [setViewerPassword]
  case vc1 s hs room s₁ hroom _ s₂ hw _ s' hs' =>
    obtain ⟨rfl, hi, hget⟩ := hroom
    obtain rfl : s₁ = s₀ := hs
    obtain rfl := h.named roomID room hget
    refine h.amended hi hget (.refl _) hw (.refl _) ?_ ?_ ?_ hs'
    · rfl
    · rfl
    · exact (h.seated _ _ hget).host rfl rfl
  all_goals grind

theorem setCodeEntryPolicy_keeps (roomID : String) (policy : CodeEntryPolicy) (hostToken : String) :
    Keeps (setCodeEntryPolicy roomID policy hostToken) := by
  intro s₀ h
  mvcgen [setCodeEntryPolicy]
  case vc1 s hs _ s₁ hi room s₂ hroom _ s₃ hw _ s' hs' =>
    obtain ⟨rfl, hget⟩ := hroom
    obtain ⟨rfl, hi⟩ := hi
    obtain rfl : s₂ = s₀ := hs
    obtain rfl := h.named roomID room hget
    refine h.amended hi hget (.refl _) hw (.refl _) ?_ ?_ ?_ hs'
    · rfl
    · rfl
    · exact (h.seated _ _ hget).host rfl rfl
  all_goals grind

theorem setViewerGrant_keeps (roomID action hostToken : String) :
    Keeps (setViewerGrant roomID action hostToken) := by
  intro s₀ h
  mvcgen [setViewerGrant]
  case vc1 s hs _ s₁ hi room s₂ hroom _ _ s₃ hd₁ _ s₄ hd₂ _ s₅ hd₃ _ s₆ hw room' s₇ hd₄ _ s' hs' =>
    obtain ⟨rfl, hget⟩ := hroom
    obtain ⟨rfl, hi⟩ := hi
    obtain rfl : s₂ = s₀ := hs
    obtain ⟨hd₄, emptySinceMs, rfl⟩ := hd₄
    obtain rfl := h.named roomID room hget
    refine h.amended hi hget ((hd₁.trans hd₂).trans hd₃) hw hd₄ ?_ ?_ ?_ hs'
    · rfl
    · rfl
    · exact (h.seated _ _ hget).filter (fun _ viewer => viewer.admittedBy ≠ .grant) rfl rfl
  all_goals grind

/-! ## Membership -/

/-- A change of the seats of a room leaves its authority alone. -/
theorem Authority.joined (h : Authority s₀) {room room' : Room}
    (hget : s₀.rooms.get room.roomID = some room) (hd : Drawn s₀ s₁)
    (hs : s' = s₁.withRoom room')
    (hid : room'.roomID = room.roomID) (hrow : room'.storedRoomAuthority = room.storedRoomAuthority)
    (hseated : room'.Seated s₀.maxViewersPerRoom) : Authority s' ∧ SameLimits s₀ s' := by
  obtain ⟨_, _, _, rfl⟩ := hd
  subst hs
  have hrows := h.toPool.authorities_put hget hid (f := id) hrow
  have hsame : s₀.authorities.map (fun row =>
      if matchesRow room.roomID room.hostTokenDigest row then id row else row) = s₀.authorities := by
    refine (List.map_congr_left fun row _ => ?_).trans (List.map_id _)
    exact ite_self _
  refine ⟨⟨h.toPool.put ⟨rfl, rfl⟩ hseated rfl rfl, ?_, ?_⟩, ⟨rfl, rfl⟩⟩
  · intro hi d hdb
    exact (h.stored hi d hdb).trans (hrows.trans hsame).symm
  · intro hi
    have hempty : s₀.rooms = .empty := h.unrestored hi
    rw [hempty] at hget
    cases hget

/-- The room behind the pointer is the store's. -/
def Holds (s₀ : Store) (room : Room) : Prop :=
  Authority s₀ ∧ s₀.rooms.get room.roomID = some room

@[spec] theorem connectHost_spec (room : Room) (input : ConnectParticipantInput) (s₀ : Store) :
    ⦃fun s => ⌜s = s₀ ∧ Holds s₀ room⌝⦄ connectHost room input
      ⦃post⟨fun _ s => ⌜Authority s ∧ SameLimits s₀ s⌝, fun _ s => ⌜Unmoved s₀ s⌝⟩⦄ := by
  mvcgen [connectHost]
  case vc2 current hc s hs _ _ s' hs' =>
    obtain ⟨rfl, h, hget⟩ := hs
    refine h.joined hget (.refl _) hs' rfl rfl ((h.seated _ _ hget).host ?_ rfl)
    rw [(Option.filter_eq_some_iff.1 hc).1]
    rfl
  case vc3 s hs peerID s₁ hpeer _ _ s' hs' =>
    obtain ⟨rfl, h, hget⟩ := hs
    exact h.joined hget hpeer.1 hs' rfl rfl ((h.seated _ _ hget).newHost hpeer.2 rfl rfl)
  all_goals grind

@[spec] theorem connectViewer_spec (room : Room) (clientID sessionID : String)
    (admittedBy : AdmittedBy) (s₀ : Store) :
    ⦃fun s => ⌜s = s₀ ∧ Holds s₀ room⌝⦄ connectViewer room clientID sessionID admittedBy
      ⦃post⟨fun _ s => ⌜Authority s ∧ SameLimits s₀ s⌝, fun _ s => ⌜Unmoved s₀ s⌝⟩⦄ := by
  mvcgen [connectViewer]
  case vc1 joining hj s hs _ _ s' hs' =>
    obtain ⟨rfl, h, hget⟩ := hs
    have hset : room.viewers.set clientID { joining with sessionID, admittedBy } =
        room.viewers.modify clientID fun viewer => { viewer with sessionID, admittedBy } :=
      (OMap.modify_eq_set hj fun viewer => { viewer with sessionID, admittedBy }).symm
    refine h.joined hget (.refl _) hs' rfl rfl ?_
    refine (h.seated _ _ hget).viewer ?_ ?_ rfl hset
    · exact fun _ => rfl
    · exact fun _ => rfl
  case vc3 hfree s hs _ hmax peerID s₁ hpeer _ _ s' hs' =>
    obtain ⟨rfl, h, hget⟩ := hs
    let viewer : Participant := { clientID, peerID, sessionID, admittedBy }
    have hseated : Room.Seated s.maxViewersPerRoom
        { room with viewers := room.viewers.set viewer.clientID viewer } :=
      (h.seated _ _ hget).newViewer hfree hpeer.2 (not_le.1 hmax) rfl rfl
    exact h.joined hget hpeer.1 hs' rfl rfl hseated
  all_goals grind

@[spec] theorem roomToJoin_spec (input : ConnectParticipantInput) (s₀ : Store) :
    ⦃fun s => ⌜s = s₀⌝⦄ roomToJoin input
      ⦃post⟨fun room s => ⌜s = s₀ ∧ s₀.rooms.get input.roomID = some room⌝,
        fun _ s => ⌜s = s₀⌝⟩⦄ := by
  mvcgen [roomToJoin]
  all_goals simp_all

theorem connectParticipant_keeps (input : ConnectParticipantInput) :
    Keeps (connectParticipant input) := by
  intro s₀ h
  have hnamed := h.named
  mvcgen [connectParticipant]
  all_goals grind [Holds]

theorem connectViewerWithPassword_keeps (input : ConnectViewerWithPasswordInput)
    (derived expectedMaterial : Bytes) (room : Option ℕ) (mayConnect : Bool) :
    Keeps (connectViewerWithPassword input derived expectedMaterial room mayConnect) := by
  intro s₀ h
  have hnamed := h.named
  mvcgen [connectViewerWithPassword]
  all_goals grind [Holds]

theorem disconnectParticipant_keeps (roomID peerID sessionID : String) :
    Keeps (disconnectParticipant roomID peerID sessionID) := by
  intro s₀ h
  mvcgen [disconnectParticipant]
  case vc3 s hs _ s₁ hs₁ room hroom host hhost _ _ s₂ hd _ s' hs' =>
    obtain ⟨rfl, -⟩ := hs₁
    obtain rfl : s₁ = s₀ := hs
    obtain ⟨hd, emptySinceMs, rfl⟩ := hd
    obtain rfl := h.named roomID room hroom
    refine h.joined hroom hd hs' rfl rfl ((h.seated _ _ hroom).host ?_ rfl)
    rw [(Option.filter_eq_some_iff.1 hhost).1]
    rfl
  case vc6 s hs _ s₁ hs₁ room hroom _ viewer _ _ viewers _ s₂ hd _ s' hs' =>
    obtain ⟨rfl, -⟩ := hs₁
    obtain rfl : s₁ = s₀ := hs
    obtain ⟨hd, emptySinceMs, rfl⟩ := hd
    obtain rfl := h.named roomID room hroom
    refine h.joined hroom hd hs' rfl rfl ?_
    have hviewers : viewers = room.viewers.modify viewer.clientID fun viewer =>
        { viewer with sessionID := "" } := rfl
    refine (h.seated _ _ hroom).viewer ?_ ?_ rfl hviewers
    · exact fun _ => rfl
    · exact fun _ => rfl
  all_goals grind

theorem removeDisconnectedViewer_keeps (roomID peerID : String) :
    Keeps (removeDisconnectedViewer roomID peerID) := by
  intro s₀ h
  mvcgen [removeDisconnectedViewer]
  case vc4 s hs room hroom viewer _ _ _ s' hs' =>
    obtain rfl : s = s₀ := hs
    obtain rfl := h.named roomID room hroom
    exact h.joined hroom (.refl _) hs' rfl rfl ((h.seated _ _ hroom).delete rfl rfl)
  all_goals grind

/-! ## Retirement -/

/-- The ids a batch closes are those of its rooms that there are. -/
theorem retiring_ids (rooms : OMap String Room) (roomIDs : List String) :
    (retiring rooms roomIDs).map (fun r => r.1.roomID) = roomIDs.filter fun roomID => rooms.has roomID := by
  induction roomIDs with
  | nil => rfl
  | cons roomID rest ih =>
    cases hget : rooms.get roomID with
    | none => simpa [retiring, hget, OMap.has] using ih
    | some room => simpa [retiring, hget, OMap.has] using ih

theorem retiring_digest {rooms : OMap String Room} {roomIDs : List String} {r : ClosedRoom × Bytes}
    (h : r ∈ retiring rooms roomIDs) :
    ∃ room, rooms.get r.1.roomID = some room ∧ room.hostTokenDigest = r.2 := by
  obtain ⟨roomID, -, h⟩ := List.mem_filterMap.1 h
  obtain ⟨room, hget, rfl⟩ := Option.map_eq_some_iff.1 h
  exact ⟨room, hget, rfl⟩

@[spec] theorem releaseRooms_spec : ∀ (closed : List ClosedRoom) (s₀ : Store),
    ⦃fun s => ⌜s = s₀⌝⦄ releaseRooms closed
      ⦃post⟨fun _ s => ⌜s = { s₀ with
          rooms := (closed.map ClosedRoom.roomID).foldl OMap.delete s₀.rooms
          freeRoomCodes := s₀.freeRoomCodes ++ closed.map ClosedRoom.roomID }⌝,
        fun _ _ => ⌜False⌝⟩⦄
  | [], s₀ => by
    mvcgen [releaseRooms]
    subst_vars
    simp
  | room :: rest, s₀ => by
    have ih := releaseRooms_spec rest
    mvcgen [releaseRooms, ih]
    case vc1 s hs t _ s₁ hs₁ _ s₂ =>
      intro hs₂
      subst hs
      have hcodes : (s.freeRoomCodes ++ [room.roomID]) ++ rest.map ClosedRoom.roomID =
          s.freeRoomCodes ++ (room :: rest).map ClosedRoom.roomID := by simp
      rw [hs₂, hs₁, ← hcodes]
      rfl

/-- Deleting the rows of a batch of rooms deletes the rooms. -/
theorem authorities_retire : ∀ {retired : List (ClosedRoom × Bytes)} {m : OMap String Room},
    (∀ roomID room, m.get roomID = some room → room.roomID = roomID) →
    (∀ r ∈ retired, ∀ room, m.get r.1.roomID = some room → room.hostTokenDigest = r.2) →
    (retired.map fun r => (r.1.roomID, r.2)).foldl
      (fun rows room => rows.filter fun row => !matchesRow room.1 room.2 row)
      (m.values.map Room.storedRoomAuthority) =
      ((retired.map fun r => r.1.roomID).foldl OMap.delete m).values.map Room.storedRoomAuthority
  | [], _, _, _ => rfl
  | r :: rest, m, hnamed, hdigest => by
    have hone : (m.delete r.1.roomID).values.map Room.storedRoomAuthority =
        (m.values.map Room.storedRoomAuthority).filter fun row => !matchesRow r.1.roomID r.2 row := by
      refine OMap.values_delete_map fun roomID room hget => ?_
      have hid := hnamed roomID room hget
      rw [Bool.not_eq_true', matchesRow, Bool.and_eq_false_iff, decide_eq_false_iff_not,
        decide_eq_false_iff_not]
      constructor
      · rintro (hne | hne) rfl
        · exact hne hid
        · exact hne (hdigest r (List.mem_cons_self ..) room hget)
      · intro hne
        exact .inl fun heq => hne (hid.symm.trans heq)
    rw [List.map_cons, List.map_cons, List.foldl_cons, List.foldl_cons, ← hone]
    refine authorities_retire ?_ ?_
    · intro roomID room hget
      rw [OMap.get_delete] at hget
      split at hget
      · cases hget
      · exact hnamed roomID room hget
    · intro r' hr' room hget
      rw [OMap.get_delete] at hget
      split at hget
      · cases hget
      · exact hdigest r' (List.mem_cons_of_mem _ hr') room hget

theorem Authority.retired (h : Authority s₀) (hi : s₀.initialized = true) {roomIDs : List String}
    (hnodup : roomIDs.Nodup)
    (hw : Wrote (fun rows rows' => rows' = ((retiring s₀.rooms roomIDs).map fun r =>
      (r.1.roomID, r.2)).foldl (fun rows room => rows.filter fun row =>
        !matchesRow room.1 room.2 row) rows) s₀ s₁)
    (hs : s' = { s₁ with
      rooms := (((retiring s₀.rooms roomIDs).map Prod.fst).map ClosedRoom.roomID).foldl OMap.delete s₁.rooms
      freeRoomCodes := s₁.freeRoomCodes ++
        ((retiring s₀.rooms roomIDs).map Prod.fst).map ClosedRoom.roomID }) :
    Authority s' ∧ SameLimits s₀ s' := by
  obtain ⟨database, rfl, hrows⟩ := hw
  subst hs
  have hids : ((retiring s₀.rooms roomIDs).map Prod.fst).map ClosedRoom.roomID =
      roomIDs.filter fun roomID => s₀.rooms.has roomID := by
    rw [List.map_map]
    exact retiring_ids _ _
  refine ⟨⟨h.toPool.closed ⟨rfl, rfl⟩ ?_ ?_ rfl rfl, ?_, ?_⟩, ⟨rfl, rfl⟩⟩
  · rw [hids]
    exact hnodup.filter _
  · rw [hids]
    exact fun roomID hmem => OMap.has_iff.1 (List.mem_filter.1 hmem).2
  · intro _ d hdb
    obtain ⟨d₀, hd₀, hq⟩ := hrows d hdb
    rw [hq, h.stored hi d₀ hd₀, authorities, authorities_retire h.named ?_, authorities,
      List.map_map]
    · rfl
    · intro r hr room hget
      obtain ⟨room', hget', hdigest⟩ := retiring_digest hr
      rw [hget] at hget'
      cases hget'
      exact hdigest
  · intro hi'
    exact absurd hi (by simp [show s₀.initialized = false from hi'])

@[spec] theorem abandonRooms_spec (roomIDs : List String) (s₀ : Store) :
    ⦃fun s => ⌜s = s₀ ∧ roomIDs.Nodup ∧ Authority s₀⌝⦄ abandonRooms roomIDs
      ⦃post⟨fun _ s => ⌜Authority s ∧ SameLimits s₀ s⌝, fun _ s => ⌜Unmoved s₀ s⌝⟩⦄ := by
  mvcgen [abandonRooms]
  case vc2 s hs _ s₁ hs₁ _ _ _ _ s₂ hw _ s' hs' =>
    obtain ⟨rfl, hnodup, h⟩ := hs
    obtain ⟨rfl, hi⟩ := hs₁
    exact h.retired hi hnodup hw hs'
  all_goals grind

theorem abandonRoom_keeps (roomID : String) : Keeps (abandonRoom roomID) := by
  intro s₀ h
  mvcgen [abandonRoom]
  all_goals grind [List.nodup_singleton]

theorem abandonAllRooms_keeps : Keeps abandonAllRooms := by
  intro s₀ h
  mvcgen [abandonAllRooms]
  case vc1 s hs => exact ⟨hs, s.rooms.nodup_keys, h⟩

theorem emptyRoomIDs_nodup (s : Store) (beforeMs : ℤ) : (s.emptyRoomIDs beforeMs).Nodup :=
  s.rooms.nodup.sublist (List.filter_sublist.map Prod.fst)

theorem expireEmptyRooms_keeps (beforeMs : ℤ) : Keeps (expireEmptyRooms beforeMs) := by
  intro s₀ h
  mvcgen [expireEmptyRooms]
  case vc1 s hs => exact ⟨hs, emptyRoomIDs_nodup s beforeMs, h⟩

/-! ## Restore and close -/

@[spec] theorem onClose_spec (s₀ : Store) :
    ⦃fun s => ⌜s = s₀⌝⦄ onDatabase Database.closeHandles
      ⦃post⟨fun _ s => ⌜Refused s₀ s⌝, fun _ s => ⌜Refused s₀ s⌝⟩⦄ := by
  have h := onDatabase_spec Database.closeHandles_spec s₀
  mvcgen [h]
  case vc2 =>
    rintro ⟨d₀, d, hd₀, rfl, hfile⟩
    exact ⟨_, rfl, by rw [hd₀, Option.map_some, Option.map_some, hfile]⟩

theorem close_keeps : Keeps close := by
  intro s₀ h
  mvcgen [close]
  all_goals grind

/-- Rooms just restored: the rows in memory, with nobody in them. -/
structure Restored (rows : Rows) (s₀ s : Store) : Prop where
  drawn : ∃ rooms, Drawn { s₀ with rooms } s
  keys : s.rooms.keys = s₀.rooms.keys ++ rows.map StoredRoomAuthority.roomID
  rows : s.authorities = s₀.authorities ++ rows
  fresh : ∀ roomID room, s.rooms.get roomID = some room → s₀.rooms.get roomID = some room ∨
    (room.roomID = roomID ∧ room.host = none ∧ room.viewers = .empty ∧
      s₀.nextRef ≤ room.ref ∧ room.ref < s.nextRef)

theorem Restored.cons {stored : StoredRoomAuthority} {rest : Rows} {ref : ℕ} {now : ℤ}
    (hd : Drawn s₀ s₁) (href : s₀.nextRef ≤ ref ∧ ref < s₁.nextRef)
    (hnew : stored.roomID ∉ s₀.rooms.keys)
    (hs : s₂ = { s₁ with rooms := s₁.rooms.set stored.roomID (restoredRoom stored ref now) })
    (h : Restored rest s₂ s₃) : Restored (stored :: rest) s₀ s₃ := by
  obtain ⟨_, _, drawn, rfl⟩ := hd
  subst hs
  obtain ⟨rooms, _, _, drawn', hs₃⟩ := h.drawn
  have hle : s₀.nextRef + drawn ≤ s₃.nextRef := by rw [hs₃]; exact Nat.le_add_right ..
  constructor
  · exact ⟨rooms, _, _, drawn + drawn', by rw [hs₃, ← Nat.add_assoc]⟩
  · rw [h.keys, OMap.keys_set, if_neg hnew, List.map_cons, List.append_assoc]
    rfl
  · rw [h.rows]
    have hid : (restoredRoom stored ref now).roomID ∉ s₀.rooms.keys := hnew
    have hrow := authorities_set hid
    refine (congrArg (· ++ rest) hrow).trans ?_
    rw [List.append_assoc]
    rfl
  · intro roomID room hget
    rcases h.fresh roomID room hget with hget | hfresh
    · rw [OMap.get_set] at hget
      split at hget
      · next heq =>
        cases hget
        exact .inr ⟨heq.symm, rfl, rfl, href.1, href.2.trans_le hle⟩
      · exact .inl hget
    · obtain ⟨hid, hhost, hviewers, hlow, hhigh⟩ := hfresh
      exact .inr ⟨hid, hhost, hviewers, (Nat.le_add_right ..).trans hlow, hhigh⟩

theorem restoreRooms_spec : ∀ (rows : Rows) (s₀ : Store),
    (s₀.rooms.keys ++ rows.map StoredRoomAuthority.roomID).Nodup →
    ⦃fun s => ⌜s = s₀⌝⦄ restoreRooms rows
      ⦃post⟨fun _ s => ⌜Restored rows s₀ s⌝, fun _ _ => ⌜False⌝⟩⦄
  | [], s₀, _ => by
    mvcgen [restoreRooms]
    subst_vars
    exact ⟨⟨_, .refl _⟩, by simp, by simp, fun _ _ h => .inl h⟩
  | stored :: rest, s₀, hnodup => by
    have ih := restoreRooms_spec rest
    have hnew : stored.roomID ∉ s₀.rooms.keys := fun hk =>
      (List.nodup_append.1 hnodup).2.2 _ hk _ (List.mem_cons_self ..) rfl
    mvcgen [restoreRooms, ih]
    case vc1 s hs _ s₁ hd₁ _ _ s₂ hd₂ _ =>
      subst hs
      obtain ⟨_, _, _, rfl⟩ := hd₁.1.trans hd₂
      rw [OMap.keys_set, if_neg hnew, List.append_assoc]
      exact hnodup
    case vc2 s hs _ s₁ hd₁ _ _ s₂ hd₂ _ _ s' =>
      subst hs
      obtain ⟨hd₁, rfl, hnext⟩ := hd₁
      have hlt := hnext ▸ hd₂.nextRef_le
      exact fun h => .cons (hd₁.trans hd₂) ⟨le_rfl, hlt⟩ hnew rfl h

theorem Authority.restored (h : Authority s₀) (hi : s₀.initialized = false) {rows : Rows}
    {d : Database} (hrows : d.file.rows = rows)
    (hvalid : ∀ row ∈ rows, validRoomCode row.roomID = true) (hmax : rows.length ≤ s₀.maxRooms)
    (hnodup : (rows.map StoredRoomAuthority.roomID).Nodup)
    (hr : Restored rows { s₀ with database := some d } s₁)
    (hs : s' = { s₁ with
      freeRoomCodes := s₁.freeRoomCodes.filter (· ∉ rows.map StoredRoomAuthority.roomID)
      initialized := true }) :
    Authority s' ∧ SameLimits s₀ s' := by
  obtain ⟨rooms, _, _, _, rfl⟩ := hr.drawn
  subst hs
  have hempty : s₀.rooms = .empty := h.unrestored hi
  have hkeys : rooms.keys = rows.map StoredRoomAuthority.roomID := by
    refine hr.keys.trans ?_
    rw [show s₀.rooms = .empty from hempty]
    rfl
  have hfresh : ∀ roomID room, rooms.get roomID = some room →
      room.roomID = roomID ∧ room.host = none ∧ room.viewers = .empty := by
    intro roomID room hget
    rcases hr.fresh roomID room hget with hold | ⟨hid, hhost, hviewers, -⟩
    · rw [show s₀.rooms = .empty from hempty] at hold
      cases hold
    · exact ⟨hid, hhost, hviewers⟩
  have hfree : s₀.freeRoomCodes.Perm roomCodes := by
    have := h.codes
    rwa [hempty, OMap.keys_empty, List.append_nil] at this
  have hsub : rows.map StoredRoomAuthority.roomID ⊆ s₀.freeRoomCodes := by
    intro roomID hmem
    obtain ⟨row, hrow, rfl⟩ := List.mem_map.1 hmem
    exact hfree.symm.subset (validRoomCode_mem (hvalid row hrow))
  refine ⟨⟨⟨?_, fun roomID room hget => (hfresh roomID room hget).1, ?_, ?_⟩, ?_, ?_⟩, ⟨rfl, rfl⟩⟩
  · refine List.Perm.trans ?_ ((perm_append_filter (hfree.nodup_iff.2 roomCodes_nodup) hnodup
      hsub).trans hfree)
    exact (List.Perm.append_left _ (.of_eq hkeys)).trans List.perm_append_comm
  · rw [← OMap.length_keys, hkeys, List.length_map]
    exact hmax
  · intro roomID room hget
    obtain ⟨-, hhost, hviewers⟩ := hfresh roomID room hget
    exact Room.seated_empty hhost hviewers
  · intro _ d' hd'
    cases hd'
    have hauth := hr.rows
    have hnone : s₀.authorities = [] := by
      rw [authorities, hempty]
      rfl
    refine hrows.trans (Eq.trans ?_ hauth.symm)
    exact (congrArg (· ++ rows) hnone).symm
  · intro hi'
    cases hi'

/-- Rooms dropped by a failed restore; there were none before it. -/
theorem Unmoved.emptied (h : Unmoved s₀ s) (hrooms : s₀.rooms = .empty) :
    Unmoved s₀ { s with rooms := .empty } :=
  ⟨⟨h.maxRooms, h.maxViewersPerRoom⟩, hrooms.symm, h.codes, h.file, h.initialized⟩

/-- What was opened stays unmoved, unless an empty file was given its schema. -/
theorem unmoved_opened {rows : Rows} {d₀ d : Database} (hd₀ : s₀.database = some d₀)
    (hfile : d.file = d₀.file ∨ rows = []) (hne : rows ≠ []) :
    Unmoved s₀ { s₀ with database := some d } := by
  refine ⟨⟨rfl, rfl⟩, rfl, .refl _, ?_, rfl⟩
  change some d.file = s₀.database.map Database.file
  rw [hd₀, hfile.resolve_right hne]
  rfl

theorem nodup_of_length_dedup {rows : Rows}
    (h : (rows.map StoredRoomAuthority.roomID).dedup.length = rows.length) :
    (rows.map StoredRoomAuthority.roomID).Nodup := by
  refine List.dedup_eq_self.1 ((List.dedup_sublist _).eq_of_length ?_)
  rw [h, List.length_map]

@[spec] theorem restore_spec (s₀ : Store) :
    ⦃fun s => ⌜s = s₀ ∧ Authority s₀ ∧ s₀.initialized = false⌝⦄ restore
      ⦃post⟨fun _ s => ⌜Authority { s with initialized := true } ∧
          SameLimits s₀ { s with initialized := true }⌝, fun _ s => ⌜Unmoved s₀ s⌝⟩⦄ := by
  have hopen := onDatabase_spec Database.initializeDatabase_spec
  mvcgen [restore, hopen, restoreRooms_spec]
  case vc1 hs rows _ hw _ hmax =>
    obtain ⟨rfl, -, -⟩ := hs
    obtain ⟨d₀, d, hd₀, rfl, -, hfile, -⟩ := hw
    refine unmoved_opened hd₀ hfile fun hnil => ?_
    simp [hnil] at hmax
  case vc2 hs rows _ hw _ _ _ _ hdup =>
    obtain ⟨rfl, -, -⟩ := hs
    obtain ⟨d₀, d, hd₀, rfl, -, hfile, -⟩ := hw
    refine unmoved_opened hd₀ hfile fun hnil => hdup ?_
    subst hnil
    rfl
  case vc3 hs rows _ hw _ _ _ _ hdup =>
    obtain ⟨rfl, h, hi⟩ := hs
    obtain ⟨d₀, d, hd₀, rfl, -, -, -⟩ := hw
    rw [h.unrestored hi]
    exact nodup_of_length_dedup (not_not.1 hdup)
  case vc4 hs rows _ hw _ hmax _ _ hdup _ _ hr _ =>
    obtain ⟨rfl, h, hi⟩ := hs
    obtain ⟨d₀, d, hd₀, rfl, hrows, -, hvalid⟩ := hw
    exact Authority.restored h hi hrows hvalid (not_lt.1 hmax)
      (nodup_of_length_dedup (not_not.1 hdup)) hr rfl
  case vc5 hs _ _ =>
    obtain ⟨rfl, -, -⟩ := hs
    exact fun h => h.unmoved

theorem initializeStore_keeps : Keeps initializeStore := by
  intro s₀ h
  mvcgen [initializeStore]
  case vc1 hs _ =>
    subst hs
    exact ⟨h, .refl _⟩
  case vc2 s hs _ hnone _ =>
    subst hs
    refine ⟨⟨⟨h.codes, h.named, h.bounded, h.seated⟩, fun _ d hd => ?_, nofun⟩, ⟨rfl, rfl⟩⟩
    replace hd : s.database = some d := hd
    rw [hd] at hnone
    cases hnone
  case vc3 hs hi _ =>
    subst hs
    exact ⟨trivial, h, eq_false_of_ne_true hi⟩
  case vc4 hs _ _ _ _ hr _ =>
    subst hs
    exact hr
  case vc5 hs hi _ _ s₁ hr _ _ s₂ hclosed =>
    subst hs
    exact (hr.emptied (h.unrestored (eq_false_of_ne_true hi))).trans hclosed.unmoved
  case vc6 hs hi _ _ s₁ hr _ _ s₂ hclosed =>
    subst hs
    exact (hr.emptied (h.unrestored (eq_false_of_ne_true hi))).trans hclosed.unmoved

/-! ## Runs -/

theorem keeps_discard {α : Type} {call : Act Store α} (h : Keeps call) :
    Keeps (discard call : Act Store Unit) := by
  intro s₀ hs₀
  refine Effect.triple_iff.2 fun s hs => ?_
  have h := Effect.triple_iff.1 (h s₀ hs₀) s hs
  rw [Effect.run_discard]
  rcases hrun : call.run.run s with ⟨_ | _, s'⟩
  · rw [hrun] at h
    exact h
  · rw [hrun] at h
    exact h

theorem Op.keeps (op : Op) : Keeps op.act := by
  cases op with
  | initializeStore => exact initializeStore_keeps
  | close => exact close_keeps
  | createRoom => exact keeps_discard (createRoom_keeps _ _ _ _)
  | replaceRoom => exact keeps_discard (replaceRoom_keeps _ _ _ _ _ _)
  | setViewerPassword => exact keeps_discard (setViewerPassword_keeps _ _ _ _ _)
  | setCodeEntryPolicy => exact keeps_discard (setCodeEntryPolicy_keeps _ _ _)
  | setViewerGrant => exact keeps_discard (setViewerGrant_keeps _ _ _)
  | connectParticipant => exact keeps_discard (connectParticipant_keeps _)
  | connectViewerWithPassword => exact keeps_discard (connectViewerWithPassword_keeps _ _ _ _ _)
  | disconnectParticipant => exact keeps_discard (disconnectParticipant_keeps _ _ _)
  | removeDisconnectedViewer => exact keeps_discard (removeDisconnectedViewer_keeps _ _)
  | abandonRoom => exact keeps_discard (abandonRoom_keeps _)
  | abandonAllRooms => exact keeps_discard abandonAllRooms_keeps
  | expireEmptyRooms => exact keeps_discard (expireEmptyRooms_keeps _)

/-- A failed operation moves nothing. -/
theorem step_error (h : Authority s) {op : Op} {e : Failure} (hr : s.step op = (.error e, s')) :
    Unmoved s s' :=
  Effect.run_error (op.keeps s h) rfl hr

theorem step_keeps (h : Authority s) (op : Op) :
    Authority (s.step op).2 ∧ SameLimits s (s.step op).2 := by
  rcases hr : s.step op with ⟨_ | _, s'⟩
  · have hu := step_error h hr
    exact ⟨hu.authority h, hu.toSameLimits⟩
  · exact Effect.run_ok (op.keeps s h) rfl hr

theorem run_keeps : ∀ (ops : List Op) {s : Store}, Authority s →
    Authority (s.run ops) ∧ SameLimits s (s.run ops)
  | [], s, h => ⟨h, .refl s⟩
  | op :: ops, s, h => by
    obtain ⟨h₁, hl₁⟩ := step_keeps h op
    obtain ⟨h₂, hl₂⟩ := run_keeps ops h₁
    exact ⟨h₂, hl₁.trans hl₂⟩

theorem new_authority {options : Options} (h : Store.new options = .ok s) : Authority s := by
  unfold Store.new at h
  split at h
  · cases h
  · split at h
    · cases h
    · obtain rfl := Except.ok.inj h
      refine ⟨⟨?_, nofun, Nat.zero_le _, nofun⟩, fun hi d hd => ?_, fun _ => rfl⟩
      · rw [OMap.keys_empty, List.append_nil]
      · replace hd : options.database = some d := hd
        change options.database.isNone = true at hi
        rw [hd] at hi
        cases hi

theorem new_limits {options : Options} (h : Store.new options = .ok s) :
    s.maxRooms = options.maxRooms.toNat ∧
      s.maxViewersPerRoom = options.maxViewersPerRoom.toNat := by
  unfold Store.new at h
  split at h
  · cases h
  · split at h
    · cases h
    · obtain rfl := Except.ok.inj h
      exact ⟨rfl, rfl⟩

theorem new_positive {options : Options} (h : Store.new options = .ok s) :
    0 ≤ options.maxRooms ∧ 0 ≤ options.maxViewersPerRoom := by
  unfold Store.new at h
  split at h
  · cases h
  · split at h
    · cases h
    · omega

/-- The room authority over every run of a store: codes and rooms share out the room
    codes, the limits hold, the rows of an initialized store are those of its rooms,
    and a refused operation changes none of this. -/
theorem run_authority {options : Options} {s₀ : Store} (h : Store.new options = .ok s₀)
    (ops : List Op) : let s := s₀.run ops
    (s.freeRoomCodes.Nodup ∧ s.rooms.keys.Nodup ∧ s.freeRoomCodes.Disjoint s.rooms.keys ∧
      (∀ code, code ∈ s.freeRoomCodes ∨ code ∈ s.rooms.keys ↔ code ∈ roomCodes) ∧
      roomCodes.length = 9000) ∧
    s.rooms.len ≤ options.maxRooms ∧
    (∀ roomID room, s.rooms.get roomID = some room → room.roomID = roomID ∧
      room.viewers.len ≤ options.maxViewersPerRoom ∧ room.peerIDs.Nodup) ∧
    (s.initialized = true → ∀ d, s.database = some d → d.file.rows = s.authorities) ∧
    (s.initialized = false → s.rooms = .empty) ∧
    ∀ op e s', s.step op = (.error e, s') →
      s'.rooms = s.rooms ∧ s'.database.map (·.file.rows) = s.database.map (·.file.rows) ∧
        s'.freeRoomCodes.Perm s.freeRoomCodes := by
  obtain ⟨ha, hl⟩ := run_keeps ops (new_authority h)
  obtain ⟨hmax, hviewers⟩ := new_limits h
  obtain ⟨hmax', hviewers'⟩ := new_positive h
  have hnodup := ha.codes.nodup_iff.2 roomCodes_nodup
  obtain ⟨hfree, hkeys, hdisjoint⟩ := List.nodup_append'.1 hnodup
  refine ⟨⟨hfree, hkeys, hdisjoint, fun code => ?_, ?_⟩, ?_, ?_, ha.stored, ha.unrestored, ?_⟩
  · rw [← List.mem_append]
    exact ha.codes.mem_iff
  · rw [roomCodes, List.length_map, List.length_range]
    rfl
  · have := ha.bounded
    rw [hl.maxRooms, hmax] at this
    omega
  · intro roomID room hget
    have hseated := ha.seated roomID room hget
    refine ⟨ha.named roomID room hget, ?_, hseated.distinct⟩
    have := hseated.bounded
    rw [hl.maxViewersPerRoom, hviewers] at this
    omega
  · intro op e s' hr
    have hu := step_error ha hr
    refine ⟨hu.rooms, ?_, hu.codes⟩
    have := congrArg (Option.map File.rows) hu.file
    rwa [Option.map_map, Option.map_map] at this

/-- An empty file, whose third transaction fails. -/
def failingFile : Options where
  maxRooms := 1
  maxViewersPerRoom := 1
  database := some
    { file := { applicationID := 0, userVersion := 0, rows := [] }
      driver := fun n => n ≠ 2 }
  random n := List.replicate (if n = 0 then 32 else 16) 0
  now := .const 0

/-- A room with a viewer. -/
def servedOnce : List Op :=
  [.initializeStore, .createRoom codeEntryOpen none none "1000",
    .connectParticipant { roomID := "1000", role := .viewer, clientID := "client", sessionID := "session"
                          token := "", viewerGrant := "" }]

/-- The room is to be abandoned and its row cannot be deleted: it stays, with its viewer. -/
theorem run_authority_served : ∃ s₀ s', Store.new failingFile = .ok s₀ ∧
    let s := s₀.run servedOnce
    s.initialized = true ∧ ((s.rooms.get "1000").any fun room => room.viewers.len = 1) = true ∧
    "1000" ∉ s.freeRoomCodes ∧ (∀ d, s.database = some d → d.file.rows = s.authorities) ∧
    s.step (.abandonRoom "1000") = (.error .sqlite, s') ∧
    s'.rooms = s.rooms ∧ s'.database.map (·.file.rows) = s.database.map (·.file.rows) ∧
      s'.freeRoomCodes.Perm s.freeRoomCodes := by
  have hrun : ((Store.new failingFile).toOption.map fun s₀ =>
      let s := s₀.run servedOnce
      (s.initialized, (s.rooms.get "1000").any (fun room => room.viewers.len = 1), decide ("1000" ∈ s.rooms.keys),
        Except.rec (motive := fun _ => Bool) (fun e => decide (e = .sqlite)) (fun _ => false)
          (s.step (.abandonRoom "1000")).1)) = some (true, true, true, true) := by
    decide +kernel
  cases hnew : Store.new failingFile with
  | error e => simp [hnew, Except.toOption] at hrun
  | ok s₀ =>
    obtain ⟨⟨-, -, hdisjoint, -⟩, -, -, hrows, -, hrefused⟩ := run_authority hnew servedOnce
    simp only [hnew, Except.toOption, Option.map_some, Option.some.injEq, Prod.mk.injEq, decide_eq_true_eq] at hrun
    obtain ⟨hinit, hviewer, hroom, hfailed⟩ := hrun
    refine ⟨s₀, ((s₀.run servedOnce).step (.abandonRoom "1000")).2, rfl, ?_⟩
    generalize s₀.run servedOnce = s at hdisjoint hrows hrefused hinit hviewer hroom hfailed ⊢
    cases hanswer : (s.step (.abandonRoom "1000")).1 with
    | ok answer =>
      rw [hanswer] at hfailed
      cases hfailed
    | error e =>
      rw [hanswer] at hfailed
      obtain rfl := of_decide_eq_true hfailed
      have hstep : s.step (.abandonRoom "1000") = (.error .sqlite, (s.step (.abandonRoom "1000")).2) :=
        Prod.ext hanswer rfl
      exact ⟨hinit, hviewer, fun hfree => hdisjoint hfree hroom, hrows hinit, hstep, hrefused _ _ _ hstep⟩

/-- A file of an older schema with one room, which no restore accepts. -/
def olderRoom : StoredRoomAuthority where
  roomID := "1000"
  hostTokenDigest := []
  viewerGrantDigest := []
  viewerAuthorizationGeneration := ""
  codeEntryPolicy := codeEntryOpen
  viewerPasswordMaterial := none

/-- A store over it. -/
def olderFile : Options where
  maxRooms := 1
  maxViewersPerRoom := 1
  database := some
    { file := { applicationID := roomDatabaseApplicationID, userVersion := 1, rows := [olderRoom] }
      driver := .const true }
  random := .const []
  now := .const 0

/-- The rows of a file whose restore was refused are those of no room. -/
theorem rows_outlive_refused_restore : ∃ s₀, Store.new olderFile = .ok s₀ ∧
    ¬ ∀ d, (s₀.run [.initializeStore]).database = some d →
      d.file.rows = (s₀.run [.initializeStore]).authorities := by
  refine ⟨_, rfl, fun h => ?_⟩
  have := h _ rfl
  cases this

end Piik.Room.Store
