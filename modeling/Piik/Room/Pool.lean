/-
  What holds of the room store between operations: every code is free or the id
  of one room, limits are kept, and the database has the rooms.  A room can be
  opened, closed and written to.
-/
import Mathlib
import Piik.Room.Store

-- a room of the package `room`
set_option linter.dupNamespace false

namespace Piik.Room

/-! ## Codes -/

theorem roomCodes_nodup : roomCodes.Nodup := by
  refine List.Nodup.map ?_ List.nodup_range
  intro i j h
  have : (roomCodeFirst + i).repr = (roomCodeFirst + j).repr := h
  simpa using Nat.repr_injective this

theorem isDigit_digitChar {c : Char} (h : isDigit c = true) :
    Nat.digitChar (c.toNat - 48) = c ∧ c.toNat - 48 < 10 := by
  simp only [isDigit, Bool.and_eq_true, decide_eq_true_eq] at h
  have h1 : 48 ≤ c.toNat := h.1
  have h2 : c.toNat ≤ 57 := h.2
  refine ⟨?_, by omega⟩
  have hc : c = Char.ofNat c.toNat := (Char.ofNat_toNat c).symm
  generalize c.toNat = n at *
  subst hc
  interval_cases n <;> rfl

/-- Four digits spell their value. -/
theorem toDigits_four {a b c d : ℕ} (ha : 0 < a) (ha' : a < 10) (hb : b < 10) (hc : c < 10) (hd : d < 10) :
    Nat.toDigits 10 (1000 * a + 100 * b + 10 * c + d) =
      [a.digitChar, b.digitChar, c.digitChar, d.digitChar] := by
  have h₁ : (1000 * a + 100 * b + 10 * c + d) / 10 = 100 * a + 10 * b + c := by omega
  have h₂ : (100 * a + 10 * b + c) / 10 = 10 * a + b := by omega
  have h₃ : (10 * a + b) / 10 = a := by omega
  have m₁ : (1000 * a + 100 * b + 10 * c + d) % 10 = d := by omega
  have m₂ : (100 * a + 10 * b + c) % 10 = c := by omega
  have m₃ : (10 * a + b) % 10 = b := by omega
  rw [Nat.toDigits_of_base_le (by omega) (by omega), h₁, m₁,
    Nat.toDigits_of_base_le (by omega) (by omega), h₂, m₂,
    Nat.toDigits_of_base_le (by omega) (by omega), h₃, m₃, Nat.toDigits_of_lt_base ha']
  rfl

theorem utf16Length_digits : ∀ {cs : List Char}, (∀ c ∈ cs, isDigit c = true) →
    (cs.map fun c => if c.toNat > 0xffff then 2 else 1).sum = cs.length
  | [], _ => rfl
  | c :: cs, h => by
    have hc := h c (List.mem_cons_self ..)
    simp only [isDigit, Bool.and_eq_true, decide_eq_true_eq] at hc
    have hle : c.toNat ≤ 57 := hc.2
    rw [List.map_cons, List.sum_cons, List.length_cons,
      utf16Length_digits fun c' hc' => h c' (List.mem_cons_of_mem _ hc'), if_neg (by omega)]
    omega

/-- The valid room codes are the ones the pool began with. -/
theorem validRoomCode_mem {code : String} (h : validRoomCode code = true) : code ∈ roomCodes := by
  unfold validRoomCode at h
  rw [Bool.and_eq_true, decide_eq_true_eq] at h
  obtain ⟨hlen, h⟩ := h
  obtain ⟨a, cs, hcs⟩ : ∃ a cs, code.toList = a :: cs := by
    cases hl : code.toList with
    | nil => simp [hl] at h
    | cons a cs => exact ⟨a, cs, rfl⟩
  simp only [hcs, Bool.and_eq_true, List.all_eq_true, decide_eq_true_eq] at h
  obtain ⟨⟨ha, ha'⟩, hdigits⟩ := h
  have hfirst : isDigit a = true := by
    simp only [isDigit, Bool.and_eq_true, decide_eq_true_eq]
    exact ⟨le_trans (by decide) ha, ha'⟩
  have hall : ∀ c ∈ code.toList, isDigit c = true := by
    rw [hcs]
    intro c hc
    rcases List.mem_cons.1 hc with rfl | hc
    · exact hfirst
    · exact hdigits c hc
  rw [utf16Length, utf16Length_digits hall] at hlen
  obtain ⟨b, c, d, hfour⟩ : ∃ b c d, code.toList = [a, b, c, d] := by
    match cs, hcs, hlen with
    | [b, c, d], hcs, _ => exact ⟨b, c, d, hcs⟩
    | [], hcs, hlen => simp [hcs, roomCodeLength] at hlen
    | [_], hcs, hlen => simp [hcs, roomCodeLength] at hlen
    | [_, _], hcs, hlen => simp [hcs, roomCodeLength] at hlen
    | _ :: _ :: _ :: _ :: _, hcs, hlen => simp [hcs, roomCodeLength] at hlen
  obtain ⟨hda, hva⟩ := isDigit_digitChar (hall a (by simp [hfour]))
  obtain ⟨hdb, hvb⟩ := isDigit_digitChar (hall b (by simp [hfour]))
  obtain ⟨hdc, hvc⟩ := isDigit_digitChar (hall c (by simp [hfour]))
  obtain ⟨hdd, hvd⟩ := isDigit_digitChar (hall d (by simp [hfour]))
  have hpos : 0 < a.toNat - 48 := by
    have : 49 ≤ a.toNat := ha
    omega
  have hspell := toDigits_four hpos hva hvb hvc hvd
  refine List.mem_map.2 ⟨1000 * (a.toNat - 48) + 100 * (b.toNat - 48) + 10 * (c.toNat - 48) +
    (d.toNat - 48) - 1000, List.mem_range.2 (by unfold capacity; omega), ?_⟩
  have hvalue : roomCodeFirst + (1000 * (a.toNat - 48) + 100 * (b.toNat - 48) +
      10 * (c.toNat - 48) + (d.toNat - 48) - 1000) = 1000 * (a.toNat - 48) +
      100 * (b.toNat - 48) + 10 * (c.toNat - 48) + (d.toNat - 48) := by
    unfold roomCodeFirst
    omega
  rw [hvalue]
  refine Nat.repr_eq_ofList_toDigits.trans ?_
  rw [hspell, hda, hdb, hdc, hdd, ← hfour, String.ofList_toList]

/-! ## The invariant -/

/-- The seats of a room: within the limit, with distinct peer ids, the Host's among
    them, each viewer under its own client id. -/
structure Room.Seated (maxViewersPerRoom : ℕ) (room : Room) : Prop where
  bounded : room.viewers.len ≤ maxViewersPerRoom
  distinct : room.peerIDs.Nodup
  named : ∀ clientID viewer, room.viewers.get clientID = some viewer → viewer.clientID = clientID

namespace Room

variable {maxViewersPerRoom : ℕ} {room room' : Room}

theorem seated_empty (hhost : room.host = none) (hviewers : room.viewers = .empty) :
    room.Seated maxViewersPerRoom := by
  refine ⟨?_, ?_, ?_⟩
  · rw [hviewers]
    exact Nat.zero_le _
  · simp [peerIDs, hhost, hviewers, OMap.values, OMap.empty]
  · intro clientID viewer h
    rw [hviewers] at h
    cases h

/-- Fewer viewers, the same Host. -/
theorem Seated.filter (h : room.Seated maxViewersPerRoom) (p : String → Participant → Bool)
    (hhost : room'.host = room.host) (hviewers : room'.viewers = room.viewers.filter p) :
    room'.Seated maxViewersPerRoom := by
  refine ⟨?_, ?_, ?_⟩
  · rw [hviewers]
    exact (OMap.len_filter_le ..).trans h.bounded
  · rw [peerIDs, hhost, hviewers]
    refine h.distinct.sublist (List.Sublist.append_left ?_ _)
    exact (List.filter_sublist.map Prod.snd).map Participant.peerID
  · intro clientID viewer hget
    rw [hviewers, OMap.get_filter, Option.filter_eq_some_iff] at hget
    exact h.named clientID viewer hget.1

theorem Seated.delete (h : room.Seated maxViewersPerRoom) {clientID : String}
    (hhost : room'.host = room.host) (hviewers : room'.viewers = room.viewers.delete clientID) :
    room'.Seated maxViewersPerRoom := h.filter _ hhost hviewers

/-- A participant whose session has changed keeps its peer id. -/
theorem Seated.viewer (h : room.Seated maxViewersPerRoom) {clientID : String} {f : Participant → Participant}
    (hpeer : ∀ p, (f p).peerID = p.peerID) (hclient : ∀ p, (f p).clientID = p.clientID)
    (hhost : room'.host = room.host) (hviewers : room'.viewers = room.viewers.modify clientID f) :
    room'.Seated maxViewersPerRoom := by
  refine ⟨?_, ?_, ?_⟩
  · rw [hviewers, OMap.len_modify]
    exact h.bounded
  · have hids : (room.viewers.modify clientID f).values.map Participant.peerID =
        (room.viewers.values.map Participant.peerID).map id :=
      OMap.values_modify_map (fun p _ => hpeer p) fun _ _ _ _ => rfl
    rw [peerIDs, hhost, hviewers, hids, List.map_id]
    exact h.distinct
  · intro clientID' viewer hget
    rw [hviewers, OMap.get_modify] at hget
    split at hget
    · next heq =>
      obtain ⟨p, hp, rfl⟩ := Option.map_eq_some_iff.1 hget
      exact (hclient p).trans (h.named clientID' p hp)
    · exact h.named clientID' viewer hget

theorem Seated.host (h : room.Seated maxViewersPerRoom) (hhost :
      room'.host.map Participant.peerID = room.host.map Participant.peerID)
    (hviewers : room'.viewers = room.viewers) : room'.Seated maxViewersPerRoom := by
  refine ⟨?_, ?_, ?_⟩
  · rw [hviewers]
    exact h.bounded
  · rw [peerIDs, hhost, hviewers]
    exact h.distinct
  · rw [hviewers]
    exact h.named

/-- A new Host takes the place of the one before. -/
theorem Seated.newHost (h : room.Seated maxViewersPerRoom) {host : Participant}
    (hnew : host.peerID ∉ room.peerIDs) (hhost : room'.host = some host)
    (hviewers : room'.viewers = room.viewers) : room'.Seated maxViewersPerRoom := by
  refine ⟨?_, ?_, ?_⟩
  · rw [hviewers]
    exact h.bounded
  · rw [peerIDs, hhost, hviewers]
    refine List.nodup_cons.2 ⟨fun hmem => hnew (List.mem_append_right _ hmem), ?_⟩
    exact (List.nodup_append.1 h.distinct).2.1
  · rw [hviewers]
    exact h.named

theorem Seated.newViewer (h : room.Seated maxViewersPerRoom) {viewer : Participant}
    (hfree : room.viewers.get viewer.clientID = none) (hnew : viewer.peerID ∉ room.peerIDs)
    (hroom : room.viewers.len < maxViewersPerRoom) (hhost : room'.host = room.host)
    (hviewers : room'.viewers = room.viewers.set viewer.clientID viewer) :
    room'.Seated maxViewersPerRoom := by
  have hkey : viewer.clientID ∉ room.viewers.keys := OMap.get_eq_none.1 hfree
  refine ⟨?_, ?_, ?_⟩
  · rw [hviewers, OMap.len_set_of_notMem hkey]
    exact hroom
  · rw [peerIDs, hhost, hviewers, OMap.values_set_of_notMem hkey, List.map_append,
      List.map_singleton, ← List.append_assoc]
    exact List.nodup_append.2 ⟨h.distinct, List.nodup_singleton _, by
      intro a ha b hb heq
      exact hnew (List.mem_singleton.1 hb ▸ heq ▸ ha)⟩
  · intro clientID p hget
    rw [hviewers, OMap.get_set] at hget
    split at hget
    · next heq =>
      cases hget
      exact heq.symm
    · exact h.named clientID p hget

end Room

namespace Store

/-- The stable authority of the rooms in memory. -/
def authorities (s : Store) : Rows := s.rooms.values.map Room.storedRoomAuthority

/-- The pool of codes and the rooms that took theirs from it. -/
structure Pool (s : Store) : Prop where
  codes : (s.freeRoomCodes ++ s.rooms.keys).Perm roomCodes
  named : ∀ roomID room, s.rooms.get roomID = some room → room.roomID = roomID
  bounded : s.rooms.len ≤ s.maxRooms
  seated : ∀ roomID room, s.rooms.get roomID = some room → room.Seated s.maxViewersPerRoom

/-- `Pool`, and the database has the rooms of the store. -/
structure Authority (s : Store) : Prop extends Pool s where
  stored : s.initialized → ∀ d, s.database = some d → d.file.rows = s.authorities
  unrestored : s.initialized = false → s.rooms = .empty

/-- The limits of two stores are the same. -/
structure SameLimits (s s' : Store) : Prop where
  maxRooms : s'.maxRooms = s.maxRooms
  maxViewersPerRoom : s'.maxViewersPerRoom = s.maxViewersPerRoom

/-- What a failed operation leaves: the rooms, the file and the set of free codes. -/
structure Unmoved (s s' : Store) : Prop extends SameLimits s s' where
  rooms : s'.rooms = s.rooms
  codes : s'.freeRoomCodes.Perm s.freeRoomCodes
  file : s'.database.map Database.file = s.database.map Database.file
  initialized : s'.initialized = s.initialized

attribute [grind →] Unmoved.toSameLimits

@[grind .] theorem SameLimits.refl (s : Store) : SameLimits s s := ⟨rfl, rfl⟩

@[grind →] theorem SameLimits.trans {s s' s'' : Store} (h : SameLimits s s') (h' : SameLimits s' s'') :
    SameLimits s s'' :=
  ⟨h'.maxRooms.trans h.maxRooms, h'.maxViewersPerRoom.trans h.maxViewersPerRoom⟩

@[grind .] theorem Unmoved.refl (s : Store) : Unmoved s s := ⟨.refl s, rfl, .refl _, rfl, rfl⟩

@[grind →] theorem Unmoved.trans {s s' s'' : Store} (h : Unmoved s s') (h' : Unmoved s' s'') :
    Unmoved s s'' where
  toSameLimits := h.toSameLimits.trans h'.toSameLimits
  rooms := h'.rooms.trans h.rooms
  codes := h'.codes.trans h.codes
  file := h'.file.trans h.file
  initialized := h'.initialized.trans h.initialized

@[grind →] theorem Unmoved.authority {s s' : Store} (h : Unmoved s s') (ha : Authority s) : Authority s' where
  codes := (h.codes.append (.of_eq (by rw [h.rooms]))).trans ha.codes
  named := by rw [h.rooms]; exact ha.named
  bounded := by rw [h.rooms, h.maxRooms]; exact ha.bounded
  seated := by rw [h.rooms, h.maxViewersPerRoom]; exact ha.seated
  stored := by
    intro hi d hd
    have hfile := h.file
    rw [hd, Option.map_some, eq_comm, Option.map_eq_some_iff] at hfile
    obtain ⟨d₀, hd₀, hf⟩ := hfile
    rw [← hf, authorities, h.rooms]
    exact ha.stored (h.initialized ▸ hi) d₀ hd₀
  unrestored := by
    rw [h.rooms, h.initialized]
    exact ha.unrestored

/-! ## What the rooms and the pool can do -/

variable {s s' : Store}

theorem Pool.notMem_free (h : Pool s) {roomID : String} (hk : roomID ∈ s.rooms.keys) :
    roomID ∉ s.freeRoomCodes := by
  have := h.codes.nodup_iff.2 roomCodes_nodup
  exact fun hf => (List.nodup_append.1 this).2.2 roomID hf roomID hk rfl

/-- A code taken from the pool becomes a room. -/
theorem Pool.opened (h : Pool s) (hl : SameLimits s s') {room : Room}
    (hseated : room.Seated s.maxViewersPerRoom) (hcodes : (room.roomID :: s'.freeRoomCodes).Perm s.freeRoomCodes)
    (hrooms : s'.rooms = s.rooms.set room.roomID room) (hmax : s.rooms.len < s.maxRooms) : Pool s' := by
  have hfree : room.roomID ∈ s.freeRoomCodes := hcodes.subset (List.mem_cons_self ..)
  have hnew : room.roomID ∉ s.rooms.keys := fun hk => h.notMem_free hk hfree
  have hget : ∀ roomID r, s'.rooms.get roomID = some r →
      (roomID = room.roomID ∧ r = room) ∨ s.rooms.get roomID = some r := by
    intro roomID r hr
    rw [hrooms, OMap.get_set] at hr
    split at hr
    · next heq => exact .inl ⟨heq, (Option.some.inj hr).symm⟩
    · exact .inr hr
  constructor
  · rw [hrooms, OMap.keys_set, if_neg hnew]
    refine List.Perm.trans ?_ h.codes
    rw [← List.append_assoc]
    refine (List.perm_append_singleton ..).trans ?_
    rw [← List.cons_append]
    exact hcodes.append_right _
  · intro roomID r hr
    rcases hget roomID r hr with ⟨rfl, rfl⟩ | hr
    · rfl
    · exact h.named roomID r hr
  · rw [hrooms, OMap.len_set_of_notMem hnew, hl.maxRooms]
    exact hmax
  · intro roomID r hr
    rw [hl.maxViewersPerRoom]
    rcases hget roomID r hr with ⟨-, rfl⟩ | hr
    · exact hseated
    · exact h.seated roomID r hr

/-- A list is some of its elements and the others. -/
theorem perm_append_filter {l sub : List String} (hl : l.Nodup) (hnodup : sub.Nodup) (hsub : sub ⊆ l) :
    (sub ++ l.filter (· ∉ sub)).Perm l := by
  have hin : (l.filter (· ∈ sub)).Perm sub := by
    refine (List.perm_ext_iff_of_nodup (hl.filter _) hnodup).2 fun a => ?_
    simp only [List.mem_filter, decide_eq_true_eq]
    exact ⟨fun ha => ha.2, fun ha => ⟨hsub ha, ha⟩⟩
  have := List.filter_append_perm (fun x => decide (x ∈ sub)) l
  refine (hin.symm.append_right _).trans (List.Perm.trans (.of_eq ?_) this)
  congr 1
  exact List.filter_congr fun a _ => by simp

/-- Rooms that close give their codes back. -/
theorem Pool.closed (h : Pool s) (hl : SameLimits s s') {roomIDs : List String}
    (hnodup : roomIDs.Nodup) (hsub : roomIDs ⊆ s.rooms.keys)
    (hcodes : s'.freeRoomCodes = s.freeRoomCodes ++ roomIDs)
    (hrooms : s'.rooms = roomIDs.foldl OMap.delete s.rooms) : Pool s' := by
  constructor
  · have hsplit := perm_append_filter s.rooms.nodup_keys hnodup hsub
    rw [hrooms, OMap.keys_foldl_delete, hcodes, List.append_assoc]
    exact (hsplit.append_left _).trans h.codes
  · intro roomID r hr
    rw [hrooms] at hr
    exact h.named roomID r (OMap.get_foldl_delete hr)
  · rw [hrooms, hl.maxRooms]
    exact (OMap.len_foldl_delete_le ..).trans h.bounded
  · intro roomID r hr
    rw [hrooms] at hr
    rw [hl.maxViewersPerRoom]
    exact h.seated roomID r (OMap.get_foldl_delete hr)

/-- A room that is written to stays where it was. -/
theorem Pool.put (h : Pool s) (hl : SameLimits s s') {room' : Room}
    (hseated : room'.Seated s.maxViewersPerRoom) (hcodes : s'.freeRoomCodes = s.freeRoomCodes)
    (hrooms : s'.rooms = s.rooms.modify room'.roomID fun _ => room') : Pool s' := by
  have hgets : ∀ roomID r, s'.rooms.get roomID = some r →
      (roomID = room'.roomID ∧ r = room') ∨ s.rooms.get roomID = some r := by
    intro roomID r hr
    rw [hrooms, OMap.get_modify] at hr
    split at hr
    · next heq =>
      obtain ⟨_, _, heq'⟩ := Option.map_eq_some_iff.1 hr
      exact .inl ⟨heq, heq'.symm⟩
    · exact .inr hr
  constructor
  · rw [hcodes, hrooms, OMap.keys_modify]
    exact h.codes
  · intro roomID r hr
    rcases hgets roomID r hr with ⟨rfl, rfl⟩ | hr
    · rfl
    · exact h.named roomID r hr
  · rw [hrooms, OMap.len_modify, hl.maxRooms]
    exact h.bounded
  · intro roomID r hr
    rw [hl.maxViewersPerRoom]
    rcases hgets roomID r hr with ⟨-, rfl⟩ | hr
    · exact hseated
    · exact h.seated roomID r hr

/-! ## What the rows follow -/

/-- The row of a room is the one its id and Host token digest find. -/
theorem Pool.matchesRow_iff (h : Pool s) {room : Room} (hget : s.rooms.get room.roomID = some room)
    {roomID : String} {r : Room} (hr : s.rooms.get roomID = some r) :
    matchesRow room.roomID room.hostTokenDigest r.storedRoomAuthority = true ↔ roomID = room.roomID := by
  have hid := h.named roomID r hr
  rw [matchesRow, Bool.and_eq_true, decide_eq_true_iff, decide_eq_true_iff]
  constructor
  · rintro ⟨hm, -⟩
    exact hid.symm.trans hm
  · rintro rfl
    rw [hget] at hr
    cases hr
    exact ⟨rfl, rfl⟩

theorem authorities_set {m : OMap String Room} {room : Room} (h : room.roomID ∉ m.keys) :
    (m.set room.roomID room).values.map Room.storedRoomAuthority =
      m.values.map Room.storedRoomAuthority ++ [room.storedRoomAuthority] := by
  rw [OMap.values_set_of_notMem h, List.map_append, List.map_singleton]

theorem Pool.authorities_delete (h : Pool s) {room : Room}
    (hget : s.rooms.get room.roomID = some room) :
    (s.rooms.delete room.roomID).values.map Room.storedRoomAuthority =
      s.authorities.filter fun row => !matchesRow room.roomID room.hostTokenDigest row := by
  refine OMap.values_delete_map fun roomID r hr => ?_
  rw [Bool.not_eq_true', ← Bool.not_eq_true, h.matchesRow_iff hget hr]

/-- An update of the row in place is an update of the room in place. -/
theorem Pool.authorities_put (h : Pool s) {room room' : Room}
    (hget : s.rooms.get room.roomID = some room) (hid : room'.roomID = room.roomID)
    {f : StoredRoomAuthority → StoredRoomAuthority}
    (hf : room'.storedRoomAuthority = f room.storedRoomAuthority) :
    (s.rooms.modify room'.roomID fun _ => room').values.map Room.storedRoomAuthority =
      s.authorities.map fun row =>
        if matchesRow room.roomID room.hostTokenDigest row then f row else row := by
  rw [hid]
  refine OMap.values_modify_map ?_ ?_
  · intro r hr
    rw [if_pos ((h.matchesRow_iff hget hr).2 rfl)]
    rw [hget] at hr
    cases hr
    exact hf
  · intro roomID r hr hne
    rw [if_neg (mt (h.matchesRow_iff hget hr).1 hne)]

end Store

end Piik.Room
