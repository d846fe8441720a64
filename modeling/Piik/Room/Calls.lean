/-
  Triples of the calls the operations of the room store are made of: what they
  draw, the pool, and the writes to the database.
-/
import Piik.Lib.Effect
import Piik.Room.Pool

set_option mvcgen.warning false

namespace Piik.Room

open Std.Do

/-! ## Transactions -/

namespace Database

/-- A write that is carried out whole, with the rows in the relation `Q`, or not at all. -/
def Writes (write : Act Database Unit) (Q : Rows → Rows → Prop) : Prop := ∀ d₀,
  ⦃fun d => ⌜d = d₀⌝⦄ write
    ⦃post⟨fun _ d => ⌜Q d₀.file.rows d.file.rows⌝, fun _ d => ⌜d.file = d₀.file⌝⟩⦄

@[spec] theorem liftExcept_spec {σ α : Type} (r : Except Failure α) (s₀ : σ) :
    ⦃fun s => ⌜s = s₀⌝⦄ (liftExcept r : Act σ α)
      ⦃post⟨fun a s => ⌜s = s₀ ∧ r = .ok a⌝, fun e s => ⌜s = s₀ ∧ r = .error e⌝⟩⦄ := by
  mvcgen [liftExcept]

@[spec] theorem askDriver_spec (d₀ : Database) :
    ⦃fun d => ⌜d = d₀⌝⦄ askDriver
      ⦃post⟨fun _ d => ⌜d.file = d₀.file⌝, fun _ _ => ⌜False⌝⟩⦄ := by
  mvcgen [askDriver]
  subst_vars
  rfl

@[spec] theorem closeHandles_spec (d₀ : Database) :
    ⦃fun d => ⌜d = d₀⌝⦄ closeHandles
      ⦃post⟨fun _ d => ⌜d.file = d₀.file⌝, fun _ d => ⌜d.file = d₀.file⌝⟩⦄ := by
  mvcgen [closeHandles]
  all_goals simp_all

/-! ## Rows -/

theorem check_ok {holds : Bool} {failure : Failure} {u : Unit} (h : check holds failure = .ok u) :
    holds = true := by
  unfold check at h
  split at h
  · assumption
  · cases h

theorem bind_ok {α β : Type} {x : Except Failure α} {f : α → Except Failure β} {b : β}
    (h : x >>= f = .ok b) : ∃ a, x = .ok a ∧ f a = .ok b := by
  cases x with
  | error e => cases h
  | ok a => exact ⟨a, rfl, h⟩

theorem transaction_writes {operation : Rows → Except Failure Rows} {Q : Rows → Rows → Prop}
    (h : ∀ rows rows', operation rows = .ok rows' → Q rows rows') :
    Writes (transaction operation) Q := by
  intro d₀
  mvcgen [transaction]
  case vc4 d _ _ _ _ _ hd rows hop _ =>
    subst_vars
    exact h _ _ (hd ▸ hop)
  all_goals simp_all

theorem Writes.guard {write : Act Database Unit} {Q : Rows → Rows → Prop} (h : Writes write Q)
    (r : Except Failure Unit) : Writes (do Database.liftExcept r; write) Q := by
  intro d₀
  have h := h d₀
  mvcgen [h]
  all_goals simp_all

theorem insertStoredRoom_ok {room : StoredRoomAuthority} {rows : Rows} {r : Rows × ℕ}
    (h : insertStoredRoom room rows = .ok r) : r.1 = rows ++ [room] := by
  unfold insertStoredRoom at h
  split at h
  · cases h
  · cases h
    rfl

theorem insertRoom_writes (room : StoredRoomAuthority) :
    Writes (insertRoom room) fun rows rows' => rows' = rows ++ [room] := by
  refine (transaction_writes fun rows rows' hop => ?_).guard _
  obtain ⟨r, hins, hop⟩ := bind_ok hop
  obtain ⟨-, -, hop⟩ := bind_ok hop
  cases hop
  exact insertStoredRoom_ok hins

theorem updateRoom_writes (roomID : String) (hostTokenDigest : Bytes)
    (f : StoredRoomAuthority → StoredRoomAuthority) (operation : String) :
    Writes (updateRoom roomID hostTokenDigest f operation) fun rows rows' =>
      rows' = rows.map fun row => if matchesRow roomID hostTokenDigest row then f row else row := by
  refine transaction_writes fun rows rows' hop => ?_
  obtain ⟨-, -, hop⟩ := bind_ok hop
  cases hop
  rfl

theorem setViewerPassword_writes (roomID : String) (hostTokenDigest : Bytes)
    (viewerPasswordMaterial : Option Bytes) :
    Writes (setViewerPassword roomID hostTokenDigest viewerPasswordMaterial) fun rows rows' =>
      rows' = rows.map fun row => if matchesRow roomID hostTokenDigest row then
        { row with viewerPasswordMaterial } else row :=
  ((updateRoom_writes roomID hostTokenDigest _ _).guard _).guard _

theorem setCodeEntryPolicy_writes (roomID : String) (hostTokenDigest : Bytes)
    (codeEntryPolicy : CodeEntryPolicy) :
    Writes (setCodeEntryPolicy roomID hostTokenDigest codeEntryPolicy) fun rows rows' =>
      rows' = rows.map fun row => if matchesRow roomID hostTokenDigest row then
        { row with codeEntryPolicy } else row := by
  refine Writes.guard (fun d₀ => ?_) _
  have h := updateRoom_writes roomID hostTokenDigest (fun row => { row with codeEntryPolicy })
    "code-entry policy update" d₀
  mvcgen [h]
  all_goals simp_all

theorem setViewerGrant_writes (roomID : String) (hostTokenDigest viewerGrantDigest : Bytes)
    (viewerAuthorizationGeneration : String) :
    Writes (setViewerGrant roomID hostTokenDigest viewerGrantDigest viewerAuthorizationGeneration)
      fun rows rows' => rows' = rows.map fun row => if matchesRow roomID hostTokenDigest row then
        { row with viewerGrantDigest, viewerAuthorizationGeneration } else row :=
  (((updateRoom_writes roomID hostTokenDigest _ _).guard _).guard _).guard _

theorem deleteRow_ok {room : String × Bytes} {operation : String} {rows rows' : Rows}
    (h : deleteRow room operation rows = .ok rows') :
    rows' = rows.filter fun row => !matchesRow room.1 room.2 row := by
  obtain ⟨-, -, h⟩ := bind_ok h
  cases h
  rfl

theorem deleteRows_ok : ∀ {rooms : List (String × Bytes)} {rows rows' : Rows},
    deleteRows rooms rows = .ok rows' → rows' = rooms.foldl
      (fun rows room => rows.filter fun row => !matchesRow room.1 room.2 row) rows
  | [], _, _, h => by cases h; rfl
  | room :: rooms, rows, rows', h => by
    obtain ⟨rows₁, h₁, h⟩ := bind_ok h
    rw [List.foldl_cons, ← deleteRow_ok h₁]
    exact deleteRows_ok h

theorem deleteRooms_writes (rooms : List (String × Bytes)) :
    Writes (deleteRooms rooms) fun rows rows' => rows' = rooms.foldl
      (fun rows room => rows.filter fun row => !matchesRow room.1 room.2 row) rows :=
  (transaction_writes fun _ _ => deleteRows_ok).guard _

theorem replaceRoom_writes (oldRoomID : String) (oldHostTokenDigest : Bytes)
    (replacement : StoredRoomAuthority) :
    Writes (replaceRoom oldRoomID oldHostTokenDigest replacement) fun rows rows' =>
      rows' = (rows ++ [replacement]).filter fun row => !matchesRow oldRoomID oldHostTokenDigest row := by
  have htransaction : Writes (transaction fun rows => insertStoredRoom replacement rows >>= fun r =>
      assertSingleChange r.2 "replacement insert" >>= fun _ =>
        deleteRow (oldRoomID, oldHostTokenDigest) "replacement delete" r.1) fun rows rows' =>
      rows' = (rows ++ [replacement]).filter fun row => !matchesRow oldRoomID oldHostTokenDigest row := by
    refine transaction_writes fun rows rows' hop => ?_
    obtain ⟨r, hins, hop⟩ := bind_ok hop
    obtain ⟨-, -, hop⟩ := bind_ok hop
    rw [← insertStoredRoom_ok hins]
    exact deleteRow_ok hop
  refine ((Writes.guard fun d₀ => ?_) _).guard _
  have h := htransaction d₀
  mvcgen [h]
  all_goals simp_all

/-! ## Opening -/

theorem readStoredRooms_ok {file : File} {rows : Rows} (h : file.readStoredRooms = .ok rows) :
    rows = file.rows ∧ ∀ row ∈ rows, validRoomCode row.roomID = true := by
  obtain ⟨_, hforM, h⟩ := bind_ok h
  cases h
  refine ⟨rfl, ?_⟩
  revert hforM
  induction file.rows with
  | nil => intro _ row hrow; cases hrow
  | cons row rows ih =>
    intro h row' hrow'
    change (File.readStoredRoom row >>= fun _ => rows.forM File.readStoredRoom) = _ at h
    obtain ⟨_, hread, h⟩ := bind_ok h
    rcases List.mem_cons.1 hrow' with rfl | hrow'
    · obtain ⟨-, -, h⟩ := bind_ok hread
      obtain ⟨-, -, h⟩ := bind_ok h
      obtain ⟨-, -, h⟩ := bind_ok h
      obtain ⟨-, -, h⟩ := bind_ok h
      obtain ⟨_, hcode, -⟩ := bind_ok h
      exact check_ok hcode
    · exact ih h row' hrow'

theorem ensureExactSchema_ok {file file' : File} (h : file.ensureExactSchema = .ok file') :
    file' = file ∨ file'.rows = [] := by
  obtain ⟨applicationID, -, h⟩ := bind_ok h
  obtain ⟨schemaVersion, -, h⟩ := bind_ok h
  split at h
  · cases h
    exact .inr rfl
  · obtain ⟨-, -, h⟩ := bind_ok h
    obtain ⟨-, -, h⟩ := bind_ok h
    obtain ⟨-, -, h⟩ := bind_ok h
    obtain ⟨-, -, h⟩ := bind_ok h
    cases h
    exact .inl rfl

theorem recover_ok {file file' : File} {rows : Rows} (h : file.recover = .ok (rows, file')) :
    file'.rows = rows ∧ (file' = file ∨ rows = []) ∧
      ∀ row ∈ rows, validRoomCode row.roomID = true := by
  obtain ⟨file₁, hschema, h⟩ := bind_ok h
  obtain ⟨-, -, h⟩ := bind_ok h
  obtain ⟨rows₁, hread, h⟩ := bind_ok h
  cases h
  obtain ⟨hrows, hvalid⟩ := readStoredRooms_ok hread
  refine ⟨hrows.symm, ?_, hvalid⟩
  rcases ensureExactSchema_ok hschema with heq | hempty
  · exact .inl heq
  · exact .inr (hrows.trans hempty)

/-- The rows that were read are those of the file, and only an empty file is written to. -/
@[spec] theorem initializeDatabase_spec (d₀ : Database) :
    ⦃fun d => ⌜d = d₀⌝⦄ initializeDatabase
      ⦃post⟨fun rows d => ⌜d.file.rows = rows ∧ (d.file = d₀.file ∨ rows = []) ∧
        ∀ row ∈ rows, validRoomCode row.roomID = true⌝, fun _ d => ⌜d.file = d₀.file⌝⟩⦄ := by
  mvcgen [initializeDatabase]
  case vc4 d hd _ _ _ _ _ d' hfile rows file hrecover _ =>
    subst hd
    exact recover_ok (hfile ▸ hrecover)
  all_goals simp_all

end Database

namespace Store

/-! ## Draws -/

/-- Only the random source, the clock and the next identity have moved. -/
def Drawn (s₀ s : Store) : Prop :=
  ∃ random now drawn, s = { s₀ with random, now, nextRef := s₀.nextRef + drawn }

@[grind .] theorem Drawn.refl (s : Store) : Drawn s s := ⟨_, _, 0, rfl⟩

@[grind →] theorem Drawn.trans {s s' s'' : Store} (h : Drawn s s') (h' : Drawn s' s'') : Drawn s s'' := by
  obtain ⟨_, _, drawn, rfl⟩ := h
  obtain ⟨_, _, drawn', rfl⟩ := h'
  exact ⟨_, _, drawn + drawn', by rw [← Nat.add_assoc]⟩

@[grind →] theorem Drawn.nextRef_le {s s' : Store} (h : Drawn s s') : s.nextRef ≤ s'.nextRef := by
  obtain ⟨_, _, _, rfl⟩ := h
  exact Nat.le_add_right ..

@[grind →] theorem Drawn.unmoved {s s' : Store} (h : Drawn s s') : Unmoved s s' := by
  obtain ⟨_, _, _, rfl⟩ := h
  exact ⟨⟨rfl, rfl⟩, rfl, .refl _, rfl, rfl⟩

@[spec] theorem drawRandom_spec (size : ℕ) (s₀ : Store) :
    ⦃fun s => ⌜s = s₀⌝⦄ drawRandom size
      ⦃post⟨fun _ s => ⌜Drawn s₀ s⌝, fun _ _ => ⌜False⌝⟩⦄ := by
  mvcgen [drawRandom]
  subst_vars
  exact ⟨_, _, 0, rfl⟩

@[spec] theorem readClock_spec (s₀ : Store) :
    ⦃fun s => ⌜s = s₀⌝⦄ readClock ⦃post⟨fun _ s => ⌜Drawn s₀ s⌝, fun _ _ => ⌜False⌝⟩⦄ := by
  mvcgen [readClock]
  subst_vars
  exact ⟨_, _, 0, rfl⟩

@[spec] theorem newRef_spec (s₀ : Store) :
    ⦃fun s => ⌜s = s₀⌝⦄ newRef
      ⦃post⟨fun ref s => ⌜Drawn s₀ s ∧ ref = s₀.nextRef ∧ s.nextRef = s₀.nextRef + 1⌝,
        fun _ _ => ⌜False⌝⟩⦄ := by
  mvcgen [newRef]
  subst_vars
  exact ⟨⟨_, _, 1, rfl⟩, rfl, rfl⟩

@[spec] theorem createViewerGrant_spec (s₀ : Store) :
    ⦃fun s => ⌜s = s₀⌝⦄ createViewerGrant
      ⦃post⟨fun _ s => ⌜Drawn s₀ s⌝, fun _ s => ⌜Drawn s₀ s⌝⟩⦄ := by
  mvcgen [createViewerGrant]
  all_goals simp_all

@[spec] theorem randomDigest_spec (s₀ : Store) :
    ⦃fun s => ⌜s = s₀⌝⦄ randomDigest
      ⦃post⟨fun _ s => ⌜Drawn s₀ s⌝, fun _ s => ⌜Drawn s₀ s⌝⟩⦄ := by
  mvcgen [randomDigest]
  all_goals simp_all

@[spec] theorem newAuthorizationGeneration_spec (s₀ : Store) :
    ⦃fun s => ⌜s = s₀⌝⦄ newAuthorizationGeneration
      ⦃post⟨fun _ s => ⌜Drawn s₀ s⌝, fun _ s => ⌜Drawn s₀ s⌝⟩⦄ := by
  mvcgen [newAuthorizationGeneration]
  all_goals simp_all

theorem uniformIndexWithin_spec {count : ℕ} (hcount : 0 < count) (attempts : ℕ) (s₀ : Store) :
    ⦃fun s => ⌜Drawn s₀ s⌝⦄ uniformIndexWithin count attempts
      ⦃post⟨fun index s => ⌜Drawn s₀ s ∧ index < count⌝, fun _ s => ⌜Drawn s₀ s⌝⟩⦄ := by
  induction attempts with
  | zero => mvcgen [uniformIndexWithin]
  | succ attempts ih =>
    have hmod (n : ℕ) : n % count < count := Nat.mod_lt _ hcount
    mvcgen [uniformIndexWithin, ih]
    case vc3 => exact ⟨by grind, hmod _⟩
    all_goals grind

theorem uniqueIDWithin_spec (size : ℕ) (taken : String → Bool) (attempts : ℕ) (s₀ : Store) :
    ⦃fun s => ⌜Drawn s₀ s⌝⦄ uniqueIDWithin size taken attempts
      ⦃post⟨fun candidate s => ⌜Drawn s₀ s ∧ taken candidate = false⌝, fun _ s => ⌜Drawn s₀ s⌝⟩⦄ := by
  induction attempts with
  | zero => mvcgen [uniqueIDWithin]
  | succ attempts ih =>
    mvcgen [uniqueIDWithin, ih]
    all_goals grind

/-- A new peer id is nobody's in the room. -/
@[spec] theorem newPeerID_spec (room : Room) (s₀ : Store) :
    ⦃fun s => ⌜s = s₀⌝⦄ newPeerID room
      ⦃post⟨fun peerID s => ⌜Drawn s₀ s ∧ peerID ∉ room.peerIDs⌝, fun _ s => ⌜Drawn s₀ s⌝⟩⦄ := by
  have h := uniqueIDWithin_spec 16 (fun candidate =>
    room.host.any (fun host => host.peerID = candidate) ||
      room.viewers.values.any fun viewer => viewer.peerID = candidate) 8 s₀
  mvcgen [newPeerID, uniqueID, h]
  case vc1 hs => exact hs ▸ .refl _
  case vc2 =>
    intro hdrawn htaken
    refine ⟨hdrawn, fun hmem => ?_⟩
    rw [Bool.or_eq_false_iff] at htaken
    rcases List.mem_append.1 hmem with hmem | hmem
    · obtain ⟨host, hhost, rfl⟩ := Option.map_eq_some_iff.1 (Option.mem_toList.1 hmem)
      simp [hhost] at htaken
    · obtain ⟨viewer, hviewer, rfl⟩ := List.mem_map.1 hmem
      exact (List.any_eq_false.1 htaken.2 viewer hviewer) (by simp)

@[spec] theorem newRoom_spec (roomID : String) (policy : CodeEntryPolicy) (material : Option Bytes)
    (s₀ : Store) :
    ⦃fun s => ⌜s = s₀⌝⦄ newRoom roomID policy material
      ⦃post⟨fun r s => ⌜Drawn s₀ s ∧ r.1.roomID = roomID ∧ r.1.host = none ∧ r.1.viewers = .empty ∧
        s₀.nextRef ≤ r.1.ref ∧ r.1.ref < s.nextRef⌝, fun _ s => ⌜Drawn s₀ s⌝⟩⦄ := by
  mvcgen [newRoom]
  all_goals grind

@[spec] theorem noteEmpty_spec (room : Room) (s₀ : Store) :
    ⦃fun s => ⌜s = s₀⌝⦄ noteEmpty room
      ⦃post⟨fun r s => ⌜Drawn s₀ s ∧ ∃ emptySinceMs, r = { room with emptySinceMs }⌝,
        fun _ _ => ⌜False⌝⟩⦄ := by
  mvcgen [noteEmpty]
  case vc1 hs => exact ⟨hs ▸ .refl _, _, rfl⟩
  case vc2 hs _ _ h => exact ⟨hs ▸ h, _, rfl⟩

@[spec] theorem grantOf_spec (action : String) (s₀ : Store) :
    ⦃fun s => ⌜s = s₀⌝⦄ grantOf action
      ⦃post⟨fun _ s => ⌜Drawn s₀ s⌝, fun _ s => ⌜Drawn s₀ s⌝⟩⦄ := by
  mvcgen [grantOf]
  all_goals grind

@[spec] theorem grantDigest_spec (viewerGrant : String) (s₀ : Store) :
    ⦃fun s => ⌜s = s₀⌝⦄ grantDigest viewerGrant
      ⦃post⟨fun _ s => ⌜Drawn s₀ s⌝, fun _ s => ⌜Drawn s₀ s⌝⟩⦄ := by
  mvcgen [grantDigest]
  all_goals grind

@[spec] theorem noteEmptied_spec (wasOccupied : Bool) (room : Room) (s₀ : Store) :
    ⦃fun s => ⌜s = s₀⌝⦄ noteEmptied wasOccupied room
      ⦃post⟨fun r s => ⌜Drawn s₀ s ∧ ∃ emptySinceMs, r = { room with emptySinceMs }⌝,
        fun _ _ => ⌜False⌝⟩⦄ := by
  mvcgen [noteEmptied]
  case vc2 _ hs => exact ⟨hs ▸ .refl _, _, rfl⟩

/-! ## The pool -/

/-- Taking the code at an index leaves the others. -/
theorem takeRoomCodeAt_perm {codes : List String} {index : ℕ} (h : index < codes.length) :
    (codes.getD index "" :: if index < codes.length - 1 then
      (codes.take (codes.length - 1)).set index (codes.getD (codes.length - 1) "")
      else codes.take (codes.length - 1)).Perm codes := by
  rcases List.eq_nil_or_concat' codes with rfl | ⟨kept, last, rfl⟩
  · cases h
  have hlen : (kept ++ [last]).length - 1 = kept.length := by simp
  have htake : (kept ++ [last]).take kept.length = kept := by simp
  have hlast : (kept ++ [last]).getD kept.length "" = last := by simp
  rw [hlen, htake, hlast]
  split
  · next hindex =>
    rw [List.getD_append _ _ _ _ hindex, List.getD_eq_getElem _ _ hindex,
      List.set_eq_take_append_cons_drop, if_pos hindex]
    have hsplit : kept = kept.take index ++ kept[index] :: kept.drop (index + 1) := by
      rw [← List.drop_eq_getElem_cons hindex, List.take_append_drop]
    refine List.Perm.trans ?_ (List.Perm.append_right [last] (List.Perm.of_eq hsplit.symm))
    rw [List.append_assoc, List.cons_append]
    refine List.perm_middle.symm.trans (List.Perm.append_left _ (List.Perm.cons _ ?_))
    exact (List.perm_append_singleton ..).symm
  · next hindex =>
    have : index = kept.length := by simp at h; omega
    rw [this, hlast]
    exact (List.perm_append_singleton ..).symm

/-- A code was taken from the pool. -/
def Took (s₀ : Store) (roomID : String) (s : Store) : Prop :=
  ∃ freeRoomCodes random now drawn,
    s = { s₀ with freeRoomCodes, random, now, nextRef := s₀.nextRef + drawn } ∧
    (roomID :: freeRoomCodes).Perm s₀.freeRoomCodes

@[grind →] theorem Drawn.took {s s' s'' : Store} {roomID : String} (h : Drawn s s')
    (h' : Took s' roomID s'') : Took s roomID s'' := by
  obtain ⟨_, _, drawn, rfl⟩ := h
  obtain ⟨_, _, _, drawn', rfl, hperm⟩ := h'
  exact ⟨_, _, _, drawn + drawn', by rw [← Nat.add_assoc], hperm⟩

@[grind →] theorem Drawn.freeRoomCodes {s s' : Store} (h : Drawn s s') :
    s'.freeRoomCodes = s.freeRoomCodes := by
  obtain ⟨_, _, _, rfl⟩ := h
  rfl

@[spec] theorem takeRoomCodeAt_spec (index : ℕ) (s₀ : Store) :
    ⦃fun s => ⌜s = s₀ ∧ index < s.freeRoomCodes.length⌝⦄ takeRoomCodeAt index
      ⦃post⟨fun roomID s => ⌜Took s₀ roomID s⌝, fun _ _ => ⌜False⌝⟩⦄ := by
  mvcgen [takeRoomCodeAt]
  case vc1 h _ _ =>
    obtain ⟨rfl, hindex⟩ := h
    exact ⟨_, _, _, 0, rfl, takeRoomCodeAt_perm hindex⟩

@[spec] theorem uniformIndex_spec (count : ℕ) (s₀ : Store) :
    ⦃fun s => ⌜s = s₀ ∧ 0 < count⌝⦄ uniformIndex count
      ⦃post⟨fun index s => ⌜Drawn s₀ s ∧ index < count⌝, fun _ s => ⌜Drawn s₀ s⌝⟩⦄ := by
  refine Effect.triple_iff.2 fun s hs => ?_
  exact Effect.triple_iff.1 (uniformIndexWithin_spec hs.2 16 s₀) s (hs.1 ▸ .refl _)

@[spec] theorem takeRoomCode_spec (preferredRoomID : String) (s₀ : Store) :
    ⦃fun s => ⌜s = s₀⌝⦄ takeRoomCode preferredRoomID
      ⦃post⟨fun roomID s => ⌜Took s₀ roomID s⌝, fun _ s => ⌜Drawn s₀ s⌝⟩⦄ := by
  mvcgen [takeRoomCode]
  all_goals grind

@[spec] theorem releaseRoomCode_spec (roomID : String) (s₀ : Store) :
    ⦃fun s => ⌜s = s₀⌝⦄ releaseRoomCode roomID
      ⦃post⟨fun _ s => ⌜s = { s₀ with freeRoomCodes := s₀.freeRoomCodes ++ [roomID] }⌝,
        fun _ _ => ⌜False⌝⟩⦄ := by
  mvcgen [releaseRoomCode]
  subst_vars
  rfl

/-! ## The database -/

/-- A call on the database has left the file as it was. -/
def Refused (s₀ s : Store) : Prop :=
  ∃ database, s = { s₀ with database } ∧ database.map Database.file = s₀.database.map Database.file

@[grind →] theorem Refused.unmoved {s s' : Store} (h : Refused s s') : Unmoved s s' := by
  obtain ⟨_, rfl, hfile⟩ := h
  exact ⟨⟨rfl, rfl⟩, rfl, .refl _, hfile, rfl⟩

/-- The rows were written, if there is a database. -/
def Wrote (Q : Rows → Rows → Prop) (s₀ s : Store) : Prop :=
  ∃ database, s = { s₀ with database } ∧ ∀ d, database = some d →
    ∃ d₀, s₀.database = some d₀ ∧ Q d₀.file.rows d.file.rows

theorem onDatabase_spec {α : Type} {call : Act Database α} {Q : Database → α → Database → Prop}
    (h : ∀ d₀, ⦃fun d => ⌜d = d₀⌝⦄ call
      ⦃post⟨fun a d => ⌜Q d₀ a d⌝, fun _ d => ⌜d.file = d₀.file⌝⟩⦄) (s₀ : Store) :
    ⦃fun s => ⌜s = s₀⌝⦄ onDatabase call
      ⦃post⟨fun a s => ⌜∃ d₀ d, s₀.database = some d₀ ∧ s = { s₀ with database := some d } ∧ Q d₀ a d⌝,
        fun _ s => ⌜Refused s₀ s⌝⟩⦄ := by
  mvcgen [onDatabase]
  case vc1 hs _ => exact hs ▸ ⟨_, rfl, rfl⟩
  case vc2 hs d hd result d' hrun _ a s =>
    rintro rfl rfl
    subst hs
    exact ⟨d, d', hd, rfl, Effect.run_ok (h d) rfl hrun⟩
  case vc3 hs d hd result d' hrun _ e s =>
    rintro rfl rfl
    subst hs
    have hfile : d'.file = d.file := Effect.run_error (h d) rfl hrun
    exact ⟨_, rfl, by rw [hd, Option.map_some, Option.map_some, hfile]⟩

theorem writeDatabase_spec {write : Act Database Unit} {Q : Rows → Rows → Prop}
    (h : Database.Writes write Q) (s₀ : Store) :
    ⦃fun s => ⌜s = s₀⌝⦄ writeDatabase write
      ⦃post⟨fun _ s => ⌜Wrote Q s₀ s⌝, fun _ s => ⌜Refused s₀ s⌝⟩⦄ := by
  have h := onDatabase_spec h s₀
  mvcgen [writeDatabase, h]
  case vc2 =>
    rintro ⟨d₀, d, hd₀, rfl, hq⟩
    refine ⟨_, rfl, fun d' hd' => ?_⟩
    cases hd'
    exact ⟨d₀, hd₀, hq⟩
  case vc3 hs hnone =>
    subst hs
    refine ⟨_, rfl, fun d hd => ?_⟩
    simp [hd] at hnone

@[spec] theorem insertRoom_spec (room : StoredRoomAuthority) (s₀ : Store) :
    ⦃fun s => ⌜s = s₀⌝⦄ writeDatabase (Database.insertRoom room)
      ⦃post⟨fun _ s => ⌜Wrote (fun rows rows' => rows' = rows ++ [room]) s₀ s⌝,
        fun _ s => ⌜Refused s₀ s⌝⟩⦄ :=
  writeDatabase_spec (Database.insertRoom_writes room) s₀

@[spec] theorem replaceRoom_spec (roomID : String) (hostTokenDigest : Bytes)
    (room : StoredRoomAuthority) (s₀ : Store) :
    ⦃fun s => ⌜s = s₀⌝⦄ writeDatabase (Database.replaceRoom roomID hostTokenDigest room)
      ⦃post⟨fun _ s => ⌜Wrote (fun rows rows' => rows' = (rows ++ [room]).filter fun row =>
        !matchesRow roomID hostTokenDigest row) s₀ s⌝, fun _ s => ⌜Refused s₀ s⌝⟩⦄ :=
  writeDatabase_spec (Database.replaceRoom_writes roomID hostTokenDigest room) s₀

@[spec] theorem deleteRooms_spec (rooms : List (String × Bytes)) (s₀ : Store) :
    ⦃fun s => ⌜s = s₀⌝⦄ writeDatabase (Database.deleteRooms rooms)
      ⦃post⟨fun _ s => ⌜Wrote (fun rows rows' => rows' = rooms.foldl
        (fun rows room => rows.filter fun row => !matchesRow room.1 room.2 row) rows) s₀ s⌝,
        fun _ s => ⌜Refused s₀ s⌝⟩⦄ :=
  writeDatabase_spec (Database.deleteRooms_writes rooms) s₀

/-- The rows a room's id and Host token digest find were updated. -/
def Updated (roomID : String) (hostTokenDigest : Bytes)
    (f : StoredRoomAuthority → StoredRoomAuthority) : Store → Store → Prop :=
  Wrote fun rows rows' => rows' = rows.map fun row =>
    if matchesRow roomID hostTokenDigest row then f row else row

@[spec] theorem setViewerPassword_spec (roomID : String) (hostTokenDigest : Bytes)
    (viewerPasswordMaterial : Option Bytes) (s₀ : Store) :
    ⦃fun s => ⌜s = s₀⌝⦄
      writeDatabase (Database.setViewerPassword roomID hostTokenDigest viewerPasswordMaterial)
      ⦃post⟨fun _ s => ⌜Updated roomID hostTokenDigest
        (fun row => { row with viewerPasswordMaterial }) s₀ s⌝, fun _ s => ⌜Refused s₀ s⌝⟩⦄ :=
  writeDatabase_spec
    (Database.setViewerPassword_writes roomID hostTokenDigest viewerPasswordMaterial) s₀

@[spec] theorem setCodeEntryPolicy_spec (roomID : String) (hostTokenDigest : Bytes)
    (codeEntryPolicy : CodeEntryPolicy) (s₀ : Store) :
    ⦃fun s => ⌜s = s₀⌝⦄
      writeDatabase (Database.setCodeEntryPolicy roomID hostTokenDigest codeEntryPolicy)
      ⦃post⟨fun _ s => ⌜Updated roomID hostTokenDigest
        (fun row => { row with codeEntryPolicy }) s₀ s⌝, fun _ s => ⌜Refused s₀ s⌝⟩⦄ :=
  writeDatabase_spec (Database.setCodeEntryPolicy_writes roomID hostTokenDigest codeEntryPolicy) s₀

@[spec] theorem setViewerGrant_spec (roomID : String) (hostTokenDigest viewerGrantDigest : Bytes)
    (viewerAuthorizationGeneration : String) (s₀ : Store) :
    ⦃fun s => ⌜s = s₀⌝⦄
      writeDatabase (Database.setViewerGrant roomID hostTokenDigest viewerGrantDigest
        viewerAuthorizationGeneration)
      ⦃post⟨fun _ s => ⌜Updated roomID hostTokenDigest
        (fun row => { row with viewerGrantDigest, viewerAuthorizationGeneration }) s₀ s⌝,
        fun _ s => ⌜Refused s₀ s⌝⟩⦄ :=
  writeDatabase_spec (Database.setViewerGrant_writes roomID hostTokenDigest viewerGrantDigest
    viewerAuthorizationGeneration) s₀

end Store

end Piik.Room
