/-
  The draw of a room code (`takeRoomCode`, `uniformIndex` of `room/store.go`) in
  the 64-bit numbers of the source: which values are drawn again, and that the
  others are shared out evenly.
-/
import Piik.Lib.BigEndian
import Piik.Lib.Buckets
import Piik.Room.Calls

namespace Piik.Room.Store

/-! ## The draw in 64-bit numbers -/

/-- `binary.BigEndian.Uint64`. -/
def uint64 (value : Bytes) : UInt64 := UInt64.ofNat (BigEndian.uint value)

/-- The largest value of the type. -/
def mathMaxUint64 : UInt64 := 0xFFFFFFFFFFFFFFFF

/-- `2 ^ 64 % span`, without the `2 ^ 64`. -/
def remainder (span : UInt64) : UInt64 := (mathMaxUint64 % span + 1) % span

/-- The first value of the incomplete final bucket, when there is one. -/
def limit (span : UInt64) : UInt64 := mathMaxUint64 - remainder span + 1

/-- The value falls in the incomplete final bucket. -/
def redraws (span value : UInt64) : Bool := remainder span ≠ 0 && value ≥ limit span

/-- `uniformIndex` with its wrapping arithmetic. -/
def wrappingIndexWithin (count : ℕ) : ℕ → Act Store ℕ
  | 0 => throw (.other "Unable to select a room code uniformly")
  | attempts + 1 => do
    let span := UInt64.ofNat count
    let value ← drawRandom 8
    if value.length ≠ 8 then throw (.other "Room code random source must return 8 bytes")
    if redraws span (uint64 value) then wrappingIndexWithin count attempts
    else return (uint64 value % span).toNat

/-- An index below the count, computed in the code's own integers. -/
def wrappingIndex (count : ℕ) : Act Store ℕ := wrappingIndexWithin count 16

variable {count : ℕ} {value : Bytes}

/-! ## Nothing wraps -/

theorem toNat_span (hfits : count < 2 ^ 64) : (UInt64.ofNat count).toNat = count := by
  rw [UInt64.toNat_ofNat', Nat.mod_eq_of_lt hfits]

theorem toNat_max : mathMaxUint64.toNat = 2 ^ 64 - 1 := by decide

theorem toNat_uint64 (hlen : value.length = 8) : (uint64 value).toNat = BigEndian.uint value := by
  have hlt : BigEndian.uint value < 256 ^ value.length := BigEndian.uint_lt
  rw [hlen] at hlt
  rw [uint64, UInt64.toNat_ofNat', Nat.mod_eq_of_lt (by omega)]

/-- The sum is at most the span. -/
theorem sum_fits (hpos : 0 < count) (hfits : count < 2 ^ 64) :
    mathMaxUint64.toNat % count + 1 < 2 ^ 64 := by
  have := Nat.mod_lt mathMaxUint64.toNat hpos
  omega

theorem toNat_remainder (hpos : 0 < count) (hfits : count < 2 ^ 64) :
    (remainder (UInt64.ofNat count)).toNat = 2 ^ 64 % count := by
  have hsum := sum_fits hpos hfits
  rw [remainder, UInt64.toNat_mod, UInt64.toNat_add, UInt64.toNat_mod, toNat_span hfits, UInt64.toNat_one,
    Nat.mod_eq_of_lt hsum, toNat_max, Nat.mod_add_mod, Nat.sub_add_cancel Nat.one_le_two_pow]

theorem remainder_eq_zero (hpos : 0 < count) (hfits : count < 2 ^ 64) :
    remainder (UInt64.ofNat count) = 0 ↔ 2 ^ 64 % count = 0 := by
  rw [← UInt64.toNat_inj, toNat_remainder hpos hfits]
  rfl

theorem toNat_limit (hpos : 0 < count) (hfits : count < 2 ^ 64) (hr : 2 ^ 64 % count ≠ 0) :
    (limit (UInt64.ofNat count)).toNat = 2 ^ 64 - 2 ^ 64 % count := by
  have hrem := toNat_remainder hpos hfits
  have hlt : 2 ^ 64 % count < 2 ^ 64 := lt_of_lt_of_le (Nat.mod_lt _ hpos) hfits.le
  have hle : remainder (UInt64.ofNat count) ≤ mathMaxUint64 := by
    rw [UInt64.le_iff_toNat_le, hrem, toNat_max]
    omega
  rw [limit, UInt64.toNat_add, UInt64.toNat_sub_of_le _ _ hle, hrem, toNat_max, UInt64.toNat_one]
  omega

/-- What is not drawn again is what fills whole buckets. -/
theorem redraws_iff (hpos : 0 < count) (hfits : count < 2 ^ 64) (hlen : value.length = 8) :
    redraws (UInt64.ofNat count) (uint64 value) = true ↔
      Buckets.whole (2 ^ 64) count ≤ BigEndian.uint value := by
  have hvalue : BigEndian.uint value < 256 ^ value.length := BigEndian.uint_lt
  rw [hlen] at hvalue
  simp only [redraws, Bool.and_eq_true, decide_eq_true_eq, ne_eq, remainder_eq_zero hpos hfits,
    ge_iff_le, UInt64.le_iff_toNat_le, toNat_uint64 hlen, Buckets.whole]
  by_cases hr : 2 ^ 64 % count = 0
  · rw [hr]
    simp only [not_true_eq_false, false_and, false_iff]
    omega
  · rw [toNat_limit hpos hfits hr]
    exact and_iff_right hr

/-- The wrapping arithmetic of the source computes the numbers of the model. -/
theorem wrappingIndexWithin_eq (hpos : 0 < count) (hfits : count < 2 ^ 64) (attempts : ℕ) :
    wrappingIndexWithin count attempts = uniformIndexWithin count attempts := by
  induction attempts with
  | zero => rfl
  | succ attempts ih =>
    rw [wrappingIndexWithin, uniformIndexWithin, ih]
    refine bind_congr fun value => ?_
    by_cases hlen : value.length = 8
    · have hmod : (uint64 value % UInt64.ofNat count).toNat = bigEndianUint64 value % count := by
        rw [UInt64.toNat_mod, toNat_uint64 hlen, toNat_span hfits]
        rfl
      have hrem : (maxUint64 % count + 1) % count = 2 ^ 64 % count := by
        rw [← toNat_remainder hpos hfits, remainder, UInt64.toNat_mod, UInt64.toNat_add,
          UInt64.toNat_mod, toNat_span hfits, UInt64.toNat_one, Nat.mod_eq_of_lt (sum_fits hpos hfits)]
        rfl
      have hagain : redraws (UInt64.ofNat count) (uint64 value) =
          (decide (2 ^ 64 % count ≠ 0) &&
            decide (bigEndianUint64 value ≥ maxUint64 - 2 ^ 64 % count + 1)) := by
        rw [Bool.eq_iff_iff, redraws_iff hpos hfits hlen, Bool.and_eq_true, decide_eq_true_eq,
          decide_eq_true_eq]
        show 2 ^ 64 - 2 ^ 64 % count ≤ bigEndianUint64 value ↔ _
        have hvalue : BigEndian.uint value < 256 ^ value.length := BigEndian.uint_lt
        rw [hlen] at hvalue
        have hsame : BigEndian.uint value = bigEndianUint64 value := rfl
        have hlt : 2 ^ 64 % count < 2 ^ 64 := lt_of_lt_of_le (Nat.mod_lt _ hpos) hfits.le
        rw [maxUint64]
        omega
      simp only [hrem, hagain, hmod]
    · simp [hlen]

/-! ## The draws of a store -/

section Draws

/-- Eight bytes of the incomplete final bucket. -/
def Redrawn (count : ℕ) (value : Bytes) : Prop :=
  value.length = 8 ∧ redraws (UInt64.ofNat count) (uint64 value) = true

/-- Eight bytes that are accepted. -/
def Accepted (count : ℕ) (value : Bytes) : Prop :=
  value.length = 8 ∧ redraws (UInt64.ofNat count) (uint64 value) = false

theorem run_drawRandom_bind {α : Type} (size : ℕ) (f : Bytes → Act Store α) (s : Store) :
    (drawRandom size >>= f).run.run s = (f s.random.head).run.run { s with random := s.random.tail } := rfl

/-- One draw, and what comes of it. -/
theorem wrappingIndexWithin_succ (attempts : ℕ) (s : Store) :
    (wrappingIndexWithin count (attempts + 1)).run.run s =
      if s.random.head.length ≠ 8 then
        (.error (.other "Room code random source must return 8 bytes"), { s with random := s.random.tail })
      else if redraws (UInt64.ofNat count) (uint64 s.random.head) then
        (wrappingIndexWithin count attempts).run.run { s with random := s.random.tail }
      else (.ok (uint64 s.random.head % UInt64.ofNat count).toNat, { s with random := s.random.tail }) := by
  rw [wrappingIndexWithin, run_drawRandom_bind]
  by_cases hlen : s.random.head.length ≠ 8
  · rw [if_pos hlen]
    dsimp only
    rw [if_pos hlen]
    rfl
  · rw [if_neg hlen]
    dsimp only
    rw [if_neg hlen]
    split
    · rfl
    · rfl

/-- The draws of the final bucket only use up attempts. -/
theorem wrappingIndexWithin_redrawn (attempts k : ℕ) (s : Store)
    (h : ∀ j < k, Redrawn count (s.random.get j)) :
    (wrappingIndexWithin count (attempts + k)).run.run s =
      (wrappingIndexWithin count attempts).run.run { s with random := s.random.drop k } := by
  induction k generalizing s with
  | zero => rfl
  | succ k ih =>
    obtain ⟨hlen, hr⟩ := h 0 (by omega)
    have hlen' : ¬s.random.head.length ≠ 8 := not_not.2 hlen
    rw [← Nat.add_assoc, wrappingIndexWithin_succ, if_neg hlen', if_pos hr]
    exact ih { s with random := s.random.tail } fun j hj => h (j + 1) (by omega)

variable {s : Store} {k : ℕ}

theorem wrappingIndex_accepted (hk : k < 16) (h : ∀ j < k, Redrawn count (s.random.get j))
    (hat : Accepted count (s.random.get k)) : (wrappingIndex count).run.run s =
      (.ok (uint64 (s.random.get k) % UInt64.ofNat count).toNat,
        { s with random := s.random.drop (k + 1) }) := by
  obtain ⟨attempts, hattempts⟩ : ∃ attempts, 16 = attempts + 1 + k := ⟨15 - k, by omega⟩
  have hhead : (s.random.drop k).head = s.random.get k := Stream'.head_drop s.random k
  have htail : (s.random.drop k).tail = s.random.drop (k + 1) := Stream'.tail_drop'
  rw [wrappingIndex, hattempts, wrappingIndexWithin_redrawn _ _ _ h, wrappingIndexWithin_succ]
  dsimp only
  rw [hhead, htail, if_neg (not_not.2 hat.1), if_neg (by simp [hat.2])]

theorem wrappingIndex_short (hk : k < 16) (h : ∀ j < k, Redrawn count (s.random.get j))
    (hat : (s.random.get k).length ≠ 8) : (wrappingIndex count).run.run s =
      (.error (.other "Room code random source must return 8 bytes"),
        { s with random := s.random.drop (k + 1) }) := by
  obtain ⟨attempts, hattempts⟩ : ∃ attempts, 16 = attempts + 1 + k := ⟨15 - k, by omega⟩
  have hhead : (s.random.drop k).head = s.random.get k := Stream'.head_drop s.random k
  have htail : (s.random.drop k).tail = s.random.drop (k + 1) := Stream'.tail_drop'
  rw [wrappingIndex, hattempts, wrappingIndexWithin_redrawn _ _ _ h, wrappingIndexWithin_succ]
  dsimp only
  rw [hhead, htail, if_pos hat]

theorem wrappingIndex_exhausted (h : ∀ j < 16, Redrawn count (s.random.get j)) :
    (wrappingIndex count).run.run s = (.error (.other "Unable to select a room code uniformly"),
      { s with random := s.random.drop 16 }) :=
  wrappingIndexWithin_redrawn 0 16 s h

theorem wrappingIndex_eq (hpos : 0 < count) (hfits : count < 2 ^ 64) :
    wrappingIndex count = uniformIndex count := wrappingIndexWithin_eq hpos hfits 16

end Draws

/-! ## The room code -/

theorem accepted_iff (hpos : 0 < count) (hfits : count < 2 ^ 64) : Accepted count value ↔
    value.length = 8 ∧ BigEndian.uint value < Buckets.whole (2 ^ 64) count := by
  refine and_congr_right fun hlen => ?_
  rw [← Bool.not_eq_true, redraws_iff hpos hfits hlen]
  exact not_le

/-- An index is answered for as many values as any other. -/
theorem card_accepted (hpos : 0 < count) (hfits : count < 2 ^ 64) {index : ℕ} (hindex : index < count) :
    Nat.card {value // Accepted count value ∧ (uint64 value % UInt64.ofNat count).toNat = index} =
      2 ^ 64 / count := by
  have hsame : ∀ value, Accepted count value ∧ (uint64 value % UInt64.ofNat count).toNat = index ↔
      value.length = 8 ∧ BigEndian.uint value < Buckets.whole (2 ^ 64) count ∧
        BigEndian.uint value % count = index := by
    intro value
    rw [accepted_iff hpos hfits, and_assoc]
    refine and_congr_right fun hlen => ?_
    rw [UInt64.toNat_mod, toNat_uint64 hlen, toNat_span hfits]
  simp only [hsame]
  rw [BigEndian.card_uint (P := fun v => v < Buckets.whole (2 ^ 64) count ∧ v % count = index)
    fun v hv => lt_of_lt_of_le hv.1 Buckets.whole_le]
  exact Buckets.card_residue hindex

/-- A pool that has no code for the caller keeps its codes. -/
theorem takeRoomCode_fails {preferredRoomID : String} {s s' : Store} {e : Failure}
    (h : (takeRoomCode preferredRoomID).run.run s = (.error e, s')) :
    s'.freeRoomCodes = s.freeRoomCodes :=
  (Effect.run_error (takeRoomCode_spec preferredRoomID s) rfl h).freeRoomCodes

theorem run_bind_error {α β : Type} {m : Act Store α} {f : α → Act Store β} {s s' : Store} {e : Failure}
    (h : m.run.run s = (.error e, s')) : (m >>= f).run.run s = (.error e, s') := by
  rw [ExceptT.run_bind, StateT.run_bind, h]
  rfl

/-- The error of the draw is the error of the call. -/
theorem takeRoomCode_of_draw {preferredRoomID : String} {s s' : Store} {e : Failure}
    (hcodes : s.freeRoomCodes ≠ []) (hpreferred : preferredRoomID = "" ∨ preferredRoomID ∉ s.freeRoomCodes)
    (h : (uniformIndex s.freeRoomCodes.length).run.run s = (.error e, s')) :
    (takeRoomCode preferredRoomID).run.run s = (.error e, s') := by
  have hlen : s.freeRoomCodes.length ≠ 0 := fun h => hcodes (List.length_eq_zero_iff.1 h)
  have hindex : ¬(decide (preferredRoomID ≠ "") &&
      decide (s.freeRoomCodes.idxOf preferredRoomID < s.freeRoomCodes.length)) = true := by
    rw [Bool.and_eq_true, decide_eq_true_eq, decide_eq_true_eq, List.idxOf_lt_length_iff]
    rcases hpreferred with rfl | hmem
    · simp
    · simp [hmem]
  rw [takeRoomCode, Effect.run_get_bind]
  dsimp only
  rw [if_neg hlen, if_neg hindex]
  exact run_bind_error h

/-- Every count has its largest whole run of values accepted and shared out evenly,
    in arithmetic that never wraps; without an accepted value the call fails and the
    pool is as it was. -/
theorem uniformIndex_unbiased {count : ℕ} (hpos : 0 < count) (hfits : count < 2 ^ 63) :
    (mathMaxUint64.toNat % count + 1 < 2 ^ 64 ∧
      (remainder (UInt64.ofNat count)).toNat = 2 ^ 64 % count ∧
      (2 ^ 64 % count ≠ 0 → (limit (UInt64.ofNat count)).toNat = 2 ^ 64 - 2 ^ 64 % count)) ∧
    (count ∣ Buckets.whole (2 ^ 64) count ∧ Buckets.whole (2 ^ 64) count ≤ 2 ^ 64 ∧
      ∀ m, count ∣ m → m ≤ 2 ^ 64 → m ≤ Buckets.whole (2 ^ 64) count) ∧
    (∀ value, Accepted count value ↔
      value.length = 8 ∧ BigEndian.uint value < Buckets.whole (2 ^ 64) count) ∧
    (∀ index < count, Nat.card {value // Accepted count value ∧
      (uint64 value % UInt64.ofNat count).toNat = index} = 2 ^ 64 / count) ∧
    wrappingIndex count = uniformIndex count ∧
    ∀ s : Store,
      (∀ k < 16, (∀ j < k, Redrawn count (s.random.get j)) → Accepted count (s.random.get k) →
        (wrappingIndex count).run.run s = (.ok (uint64 (s.random.get k) % UInt64.ofNat count).toNat,
          { s with random := s.random.drop (k + 1) })) ∧
      (∀ k < 16, (∀ j < k, Redrawn count (s.random.get j)) → (s.random.get k).length ≠ 8 →
        (wrappingIndex count).run.run s = (.error (.other "Room code random source must return 8 bytes"),
          { s with random := s.random.drop (k + 1) })) ∧
      ((∀ j < 16, Redrawn count (s.random.get j)) →
        (wrappingIndex count).run.run s = (.error (.other "Unable to select a room code uniformly"),
          { s with random := s.random.drop 16 })) ∧
      (s.freeRoomCodes.length = count → ∀ preferredRoomID e s',
        (preferredRoomID = "" ∨ preferredRoomID ∉ s.freeRoomCodes) →
        (wrappingIndex count).run.run s = (.error e, s') →
        (takeRoomCode preferredRoomID).run.run s = (.error e, s')) ∧
      ∀ preferredRoomID e s', (takeRoomCode preferredRoomID).run.run s = (.error e, s') →
        s'.freeRoomCodes = s.freeRoomCodes := by
  have hfits' : count < 2 ^ 64 := by omega
  refine ⟨⟨sum_fits hpos hfits', toNat_remainder hpos hfits', toNat_limit hpos hfits'⟩,
    ⟨Buckets.dvd_whole, Buckets.whole_le, fun m => Buckets.le_whole⟩,
    fun value => accepted_iff hpos hfits', fun index => card_accepted hpos hfits',
    wrappingIndex_eq hpos hfits', fun s => ⟨fun k hk => wrappingIndex_accepted hk,
      fun k hk => wrappingIndex_short hk, wrappingIndex_exhausted, ?_,
      fun preferredRoomID e s' => takeRoomCode_fails⟩⟩
  intro hcount preferredRoomID e s' hpreferred herr
  have hcodes : s.freeRoomCodes ≠ [] := by
    intro h
    rw [h] at hcount
    exact absurd hpos (by simp [← hcount])
  rw [wrappingIndex_eq hpos hfits', ← hcount] at herr
  exact takeRoomCode_of_draw hcodes hpreferred herr

theorem uniformIndex_unbiased_capacity : capacity ∣ Buckets.whole (2 ^ 64) capacity ∧
    Nat.card {value // Accepted capacity value ∧
      (uint64 value % UInt64.ofNat capacity).toNat = 8999} = 2 ^ 64 / 9000 := by
  obtain ⟨-, ⟨hdvd, -⟩, -, hcard, -⟩ := @uniformIndex_unbiased capacity (by decide) (by decide)
  exact ⟨hdvd, hcard 8999 (by decide)⟩

end Piik.Room.Store
