/-
  `hasUnpairedSurrogateEscape` (`server/protocol/scalars.go`): the raw token of a
  display name is scanned for `\u` escapes of lone surrogates, which
  `encoding/json` folds to U+FFFD.

  A token is a list of pieces (raw characters, one-letter escapes, `\u` escapes),
  so every list of pieces is a valid token.
-/
import Mathlib

namespace Piik.Protocol.Surrogate

/-! ## The scanner -/

/-- The value `strconv.ParseUint` gives to a digit. -/
def digit (c : UInt8) : Option ℕ :=
  if 0x30 ≤ c ∧ c ≤ 0x39 then some (c.toNat - 0x30) else
    let lower := c ||| 0x20
    if 0x61 ≤ lower ∧ lower ≤ 0x7a then some (lower.toNat - 0x61 + 10) else none

/-- `strconv.ParseUint` of at most eight digits with base 16. -/
def parseUint (digits : List UInt8) : Option ℕ :=
  if digits = [] then none else
    digits.foldlM (fun value c => (digit c).bind fun d =>
      if 16 ≤ d then none else some (value * 16 + d)) 0

/-- A high surrogate. -/
def isHigh (unit : ℕ) : Bool := 0xd800 ≤ unit && unit ≤ 0xdbff

/-- A low surrogate. -/
def isLow (unit : ℕ) : Bool := 0xdc00 ≤ unit && unit ≤ 0xdfff

/-- `text[from:from + 4]`. -/
def four (text : List UInt8) (start : ℕ) : List UInt8 := (text.drop start).take 4

/-- The loop of `hasUnpairedSurrogateEscape` from an index on. -/
def scanFrom (text : List UInt8) : ℕ → ℕ → Bool
  | 0, _ => false
  | fuel + 1, index =>
    if text.length < index + 6 then false
    else if text.getD index 0 ≠ 0x5c then scanFrom text fuel (index + 1)
    -- consumes the whole escape, `\\` included, before looking for `\u`
    else if text.getD (index + 1) 0 ≠ 0x75 then scanFrom text fuel (index + 2)
    else match parseUint (four text (index + 2)) with
      | none => scanFrom text fuel (index + 1)
      | some unit =>
        if isHigh unit then
          if text.length < index + 12 || text.getD (index + 6) 0 ≠ 0x5c ||
              text.getD (index + 7) 0 ≠ 0x75 then true
          else match parseUint (four text (index + 8)) with
            | none => true
            | some low => if isLow low then scanFrom text fuel (index + 12) else true
        else if isLow unit then true
        else scanFrom text fuel (index + 6)

/-- The scan from the start of a token. -/
def hasUnpairedSurrogateEscape (token : List UInt8) : Bool := scanFrom token token.length 0

/-! ## String tokens -/

/-- A hexadecimal digit as it is written. -/
structure HexDigit where
  value : Fin 16
  upper : Bool

/-- The character of a digit. -/
def HexDigit.byte (h : HexDigit) : UInt8 :=
  if h.value < 10 then 0x30 + UInt8.ofNat h.value
  else if h.upper then 0x37 + UInt8.ofNat h.value
  else 0x57 + UInt8.ofNat h.value

/-- The escapes of one letter. -/
inductive Letter
  | quote | backslash | solidus | b | f | n | r | t

/-- The character after the backslash. -/
def Letter.byte : Letter → UInt8
  | quote => 0x22 | backslash => 0x5c | solidus => 0x2f
  | b => 0x62 | f => 0x66 | n => 0x6e | r => 0x72 | t => 0x74

/-- The code unit a one-letter escape denotes. -/
def Letter.unit : Letter → ℕ
  | quote => 0x22 | backslash => 0x5c | solidus => 0x2f
  | b => 8 | f => 12 | n => 10 | r => 13 | t => 9

/-- What stands between the quotes of a string token. -/
inductive Piece
  | raw (c : Char) (unescaped : c ≠ '"' ∧ c ≠ '\\' ∧ 0x20 ≤ c.toNat)
  | letter (e : Letter)
  | unicode (h₃ h₂ h₁ h₀ : HexDigit)

/-- The code unit that four digits stand for. -/
def fourDigits (h₃ h₂ h₁ h₀ : HexDigit) : ℕ :=
  ((h₃.value * 16 + h₂.value) * 16 + h₁.value) * 16 + h₀.value

/-- The bytes of a piece. -/
def Piece.bytes : Piece → List UInt8
  | raw c _ => String.utf8EncodeChar c
  | letter e => [0x5c, e.byte]
  | unicode h₃ h₂ h₁ h₀ => [0x5c, 0x75, h₃.byte, h₂.byte, h₁.byte, h₀.byte]

/-- The bytes of a string token. -/
def token (pieces : List Piece) : List UInt8 := 0x22 :: pieces.flatMap Piece.bytes ++ [0x22]

/-- A UTF-16 code unit of the denoted sequence, and whether an escape writes it. -/
structure CodeUnit where
  value : ℕ
  escaped : Bool
  deriving DecidableEq

/-- The UTF-16 code units of a character. -/
def utf16 (c : Char) : List ℕ :=
  if c.toNat < 0x10000 then [c.toNat]
  else [0xd800 + (c.toNat - 0x10000) / 0x400, 0xdc00 + (c.toNat - 0x10000) % 0x400]

/-- The code units `JSON.parse` reads a piece as. -/
def Piece.units : Piece → List CodeUnit
  | raw c _ => (utf16 c).map fun value => ⟨value, false⟩
  | letter e => [⟨e.unit, true⟩]
  | unicode h₃ h₂ h₁ h₀ => [⟨fourDigits h₃ h₂ h₁ h₀, true⟩]

/-- The code units that a token stands for. -/
def denoted (pieces : List Piece) : List CodeUnit := pieces.flatMap Piece.units

/-! ## Pairs -/

variable {u v : CodeUnit} {us : List CodeUnit} {i : ℕ}

/-- A high surrogate that is written as an escape. -/
def CodeUnit.escapedHigh (u : CodeUnit) : Bool := u.escaped && isHigh u.value

/-- A low surrogate that is written as an escape. -/
def CodeUnit.escapedLow (u : CodeUnit) : Bool := u.escaped && isLow u.value

/-- A surrogate of either kind. -/
def IsSurrogate (unit : ℕ) : Prop := 0xd800 ≤ unit ∧ unit ≤ 0xdfff

/-- The unit at `i` and the next one are a high-low pair of two adjacent escapes. -/
def PairAt (us : List CodeUnit) (i : ℕ) : Prop :=
  ∃ u v, us[i]? = some u ∧ us[i + 1]? = some v ∧ u.escapedHigh = true ∧ v.escapedLow = true

/-- The unit at `i` is part of a high-low pair of two adjacent escapes. -/
def InPair (us : List CodeUnit) (i : ℕ) : Prop := PairAt us i ∨ ∃ j, j + 1 = i ∧ PairAt us j

/-- A surrogate code unit that is not part of a pair of two adjacent escapes. -/
def HasUnpaired (us : List CodeUnit) : Prop :=
  ∃ i u, us[i]? = some u ∧ IsSurrogate u.value ∧ ¬ InPair us i

/-- The same of the surrogates that escapes write. -/
def HasUnpairedEscape (us : List CodeUnit) : Prop :=
  ∃ i u, us[i]? = some u ∧ u.escaped = true ∧ IsSurrogate u.value ∧ ¬ InPair us i

theorem isSurrogate_iff (unit : ℕ) : IsSurrogate unit ↔ isHigh unit = true ∨ isLow unit = true := by
  simp only [IsSurrogate, isHigh, isLow, Bool.and_eq_true, decide_eq_true_eq]
  omega

theorem not_isLow_of_isHigh {unit : ℕ} (h : isHigh unit = true) : isLow unit = false := by
  simp only [isHigh, isLow, Bool.and_eq_true, decide_eq_true_eq, Bool.and_eq_false_iff,
    decide_eq_false_iff_not] at h ⊢
  omega

@[simp] theorem pairAt_succ : PairAt (u :: us) (i + 1) ↔ PairAt us i := by
  simp [PairAt]

theorem pairAt_zero :
    PairAt (u :: us) 0 ↔ u.escapedHigh = true ∧ ∃ v ∈ us.head?, v.escapedLow = true := by
  cases us with
  | nil => simp [PairAt]
  | cons v us => simp [PairAt]

@[simp] theorem inPair_zero : InPair us 0 ↔ PairAt us 0 := by simp [InPair]

theorem inPair_succ : InPair us (i + 1) ↔ PairAt us (i + 1) ∨ PairAt us i := by
  simp [InPair]

/-- Only a high surrogate reaches into the units after it. -/
theorem inPair_cons (h : u.escapedHigh = false) : InPair (u :: us) (i + 1) ↔ InPair us i := by
  have hzero : ¬ PairAt (u :: us) 0 := by simp [pairAt_zero, h]
  cases i with
  | zero => simp [inPair_succ, hzero]
  | succ i => simp [inPair_succ]

theorem hasUnpairedEscape_cons (h : u.escapedHigh = false) :
    HasUnpairedEscape (u :: us) ↔ u.escapedLow = true ∨ HasUnpairedEscape us := by
  constructor
  · rintro ⟨i, w, hw, hesc, hsur, hpair⟩
    cases i with
    | zero =>
      obtain rfl : u = w := by simpa using hw
      left
      rcases (isSurrogate_iff _).1 hsur with hhigh | hlow
      · simp [CodeUnit.escapedHigh, hesc, hhigh] at h
      · simp [CodeUnit.escapedLow, hesc, hlow]
    | succ i => exact .inr ⟨i, w, by simpa using hw, hesc, hsur, by rwa [inPair_cons h] at hpair⟩
  · rintro (hlow | ⟨i, w, hw, hesc, hsur, hpair⟩)
    · have := Bool.and_eq_true_iff.1 hlow
      exact ⟨0, u, rfl, this.1, (isSurrogate_iff _).2 (.inr this.2), by simp [pairAt_zero, h]⟩
    · exact ⟨i + 1, w, by simpa using hw, hesc, hsur, by rwa [inPair_cons h]⟩

/-- A high surrogate without its low one is unpaired. -/
theorem hasUnpairedEscape_lone (h : u.escapedHigh = true)
    (hnext : ∀ v ∈ us.head?, v.escapedLow = false) : HasUnpairedEscape (u :: us) := by
  have hu := Bool.and_eq_true_iff.1 h
  refine ⟨0, u, rfl, hu.1, (isSurrogate_iff _).2 (.inl hu.2), ?_⟩
  rw [inPair_zero, pairAt_zero]
  rintro ⟨-, v, hv, hlow⟩
  rw [hnext v hv] at hlow
  cases hlow

theorem escapedLow_not_high (h : v.escapedLow = true) : v.escapedHigh = false := by
  have hv := Bool.and_eq_true_iff.1 h
  by_contra hhigh
  rw [Bool.not_eq_false] at hhigh
  rw [not_isLow_of_isHigh (Bool.and_eq_true_iff.1 hhigh).2] at hv
  cases hv.2

/-- A pair is passed over as a whole. -/
theorem hasUnpairedEscape_pair (hu : u.escapedHigh = true) (hv : v.escapedLow = true) :
    HasUnpairedEscape (u :: v :: us) ↔ HasUnpairedEscape us := by
  have hpair : PairAt (u :: v :: us) 0 := ⟨u, v, rfl, rfl, hu, hv⟩
  have hrest : ∀ i, InPair (u :: v :: us) (i + 2) ↔ InPair us i := by
    intro i
    have hcons : InPair (v :: us) (i + 1) ↔ InPair us i := inPair_cons (escapedLow_not_high hv)
    rw [← hcons]
    simp [inPair_succ]
  constructor
  · rintro ⟨i, w, hw, hesc, hsur, hnot⟩
    rcases i with - | - | i
    · exact absurd (inPair_zero.2 hpair) hnot
    · exact absurd (inPair_succ.2 (.inr hpair)) hnot
    · exact ⟨i, w, by simpa using hw, hesc, hsur, by rwa [hrest] at hnot⟩
  · rintro ⟨i, w, hw, hesc, hsur, hnot⟩
    exact ⟨i + 2, w, by simpa using hw, hesc, hsur, by rwa [hrest]⟩

theorem hasUnpairedEscape_unescaped {values : List ℕ} :
    HasUnpairedEscape (values.map (fun value => ⟨value, false⟩) ++ us) ↔ HasUnpairedEscape us := by
  induction values with
  | nil => simp
  | cons value values ih =>
    rw [List.map_cons, List.cons_append, hasUnpairedEscape_cons (by simp [CodeUnit.escapedHigh]), ih]
    simp [CodeUnit.escapedLow]

/-! ## What the scanner reads -/

theorem HexDigit.digit_byte (h : HexDigit) : digit h.byte = some h.value.val := by
  obtain ⟨value, upper⟩ := h
  revert value upper
  decide

theorem parseUint_byte (h₃ h₂ h₁ h₀ : HexDigit) :
    parseUint [h₃.byte, h₂.byte, h₁.byte, h₀.byte] = some (fourDigits h₃ h₂ h₁ h₀) := by
  have hdigit (h : HexDigit) : ¬ 16 ≤ h.value.val := by omega
  simp [parseUint, HexDigit.digit_byte, hdigit, fourDigits]

/-- No byte of a raw character is a backslash. -/
theorem utf8EncodeChar_ne {c : Char} (h : c ≠ '\\') {b : UInt8}
    (hb : b ∈ String.utf8EncodeChar c) : b ≠ 0x5c := by
  have hval : c.val.toNat ≠ 0x5c := by
    intro heq
    exact h (Char.ext (UInt32.toNat_inj.1 (by simpa using heq)))
  rintro rfl
  have hnat : ∀ n, UInt8.ofNat n = 0x5c → n % 256 = 0x5c := by
    intro n hn
    simpa using congrArg UInt8.toNat hn
  simp only [String.utf8EncodeChar] at hb
  split at hb
  · have := hnat _ (List.mem_singleton.1 hb).symm
    omega
  split at hb
  · rcases List.mem_cons.1 hb with h | h
    · have := hnat _ h.symm
      omega
    · have := hnat _ (List.mem_singleton.1 h).symm
      omega
  split at hb <;> simp only [List.mem_cons, List.not_mem_nil, or_false] at hb
  · rcases hb with h | h | h <;> have := hnat _ h.symm <;> omega
  · rcases hb with h | h | h | h <;> have := hnat _ h.symm <;> omega

theorem Letter.byte_ne (e : Letter) : e.byte ≠ 0x75 := by cases e <;> decide

variable {text done rest bytes : List UInt8} {fuel : ℕ} {b : UInt8}

theorem four_append {k : ℕ} : four (done ++ rest) (done.length + k) = four rest k := by
  rw [four, List.drop_length_add_append]
  rfl

theorem getD_append {k : ℕ} : (done ++ rest).getD (done.length + k) 0 = rest.getD k 0 := by
  simp [List.getElem?_append_right]

/-- Fewer than six bytes hold no `\u` escape. -/
theorem scanFrom_short (h : rest.length < 6) : scanFrom (done ++ rest) fuel done.length = false := by
  cases fuel with
  | zero => rfl
  | succ fuel =>
    rw [scanFrom, if_pos]
    simp only [List.length_append]
    omega

theorem scanFrom_plain (h : b ≠ 0x5c) :
    scanFrom (done ++ b :: rest) (fuel + 1) done.length =
      scanFrom (done ++ [b] ++ rest) fuel (done ++ [b]).length := by
  by_cases hshort : (b :: rest).length < 6
  · rw [scanFrom_short hshort, scanFrom_short]
    exact Nat.lt_of_succ_lt hshort
  · rw [scanFrom, if_neg, if_pos]
    · simp
    · simpa using h
    · simp only [List.length_append]
      omega

theorem scanFrom_raw (h : ∀ b ∈ bytes, b ≠ 0x5c) :
    scanFrom (done ++ (bytes ++ rest)) (bytes.length + fuel) done.length =
      scanFrom (done ++ bytes ++ rest) fuel (done ++ bytes).length := by
  induction bytes generalizing done with
  | nil => simp
  | cons b bytes ih =>
    rw [List.length_cons, Nat.add_right_comm, List.cons_append, scanFrom_plain (h b (by simp)),
      ih fun b hb => h b (List.mem_cons_of_mem _ hb)]
    simp

theorem scanFrom_letter (h : b ≠ 0x75) :
    scanFrom (done ++ 0x5c :: b :: rest) (fuel + 1) done.length =
      scanFrom (done ++ [0x5c, b] ++ rest) fuel (done ++ [0x5c, b]).length := by
  by_cases hshort : (0x5c :: b :: rest).length < 6
  · rw [scanFrom_short hshort, scanFrom_short]
    simp only [List.length_cons] at hshort
    omega
  · rw [scanFrom, if_neg, if_neg, if_pos]
    · simp
    · simpa using h
    · simp
    · simp only [List.length_append]
      omega

/-- The escape of a unit that is no surrogate is passed over, and one of a low surrogate found. -/
theorem scanFrom_unicode {h₃ h₂ h₁ h₀ : HexDigit} (h : isHigh (fourDigits h₃ h₂ h₁ h₀) = false) :
    scanFrom (done ++ ((Piece.unicode h₃ h₂ h₁ h₀).bytes ++ rest)) (fuel + 1) done.length =
      (isLow (fourDigits h₃ h₂ h₁ h₀) ||
        scanFrom (done ++ (Piece.unicode h₃ h₂ h₁ h₀).bytes ++ rest) fuel
          (done ++ (Piece.unicode h₃ h₂ h₁ h₀).bytes).length) := by
  have hfour : four (done ++ ((Piece.unicode h₃ h₂ h₁ h₀).bytes ++ rest)) (done.length + 2) =
      [h₃.byte, h₂.byte, h₁.byte, h₀.byte] := by
    rw [four_append]
    simp [four, Piece.bytes]
  rw [scanFrom, if_neg, if_neg, if_neg, hfour, parseUint_byte]
  · simp only [h, Bool.false_eq_true, if_false]
    split <;> simp_all [Piece.bytes]
  · simp [Piece.bytes]
  · simp [Piece.bytes]
  · simp [Piece.bytes]

/-- The escape of a high surrogate is passed over with the low one after it. -/
theorem scanFrom_high {h₃ h₂ h₁ h₀ : HexDigit} (h : isHigh (fourDigits h₃ h₂ h₁ h₀) = true) :
    scanFrom (done ++ ((Piece.unicode h₃ h₂ h₁ h₀).bytes ++ rest)) (fuel + 1) done.length =
      if rest.length < 6 ∨ rest.getD 0 0 ≠ 0x5c ∨ rest.getD 1 0 ≠ 0x75 then true
      else match parseUint (four rest 2) with
        | none => true
        | some low => if isLow low then
          scanFrom (done ++ ((Piece.unicode h₃ h₂ h₁ h₀).bytes ++ rest)) fuel (done.length + 12)
          else true := by
  have hfour : four (done ++ ((Piece.unicode h₃ h₂ h₁ h₀).bytes ++ rest)) (done.length + 2) =
      [h₃.byte, h₂.byte, h₁.byte, h₀.byte] := by
    rw [four_append]
    simp [four, Piece.bytes]
  have hnext : four (done ++ ((Piece.unicode h₃ h₂ h₁ h₀).bytes ++ rest)) (done.length + 8) =
      four rest 2 := by
    rw [four_append]
    simp [four, Piece.bytes]
  rw [scanFrom, if_neg, if_neg, if_neg, hfour, parseUint_byte]
  · have hlength : (done ++ ((Piece.unicode h₃ h₂ h₁ h₀).bytes ++ rest)).length <
        done.length + 12 ↔ rest.length < 6 := by
      simp only [Piece.bytes, List.length_append, List.length_cons, List.length_nil]
      omega
    have hzero : (done ++ ((Piece.unicode h₃ h₂ h₁ h₀).bytes ++ rest)).getD (done.length + 6) 0 =
        rest.getD 0 0 := by
      rw [getD_append]
      simp [Piece.bytes]
    have hone : (done ++ ((Piece.unicode h₃ h₂ h₁ h₀).bytes ++ rest)).getD (done.length + 7) 0 =
        rest.getD 1 0 := by
      rw [getD_append]
      simp [Piece.bytes]
    simp only [h, if_true, hlength, hzero, hone, hnext, Bool.or_eq_true, decide_eq_true_eq, or_assoc]
  · simp [Piece.bytes]
  · simp [Piece.bytes]
  · simp [Piece.bytes]

/-! ## Exactness -/

/-- What is left of a token after some pieces. -/
def remainder (pieces : List Piece) : List UInt8 := pieces.flatMap Piece.bytes ++ [0x22]

theorem remainder_cons (p : Piece) (pieces : List Piece) :
    remainder (p :: pieces) = p.bytes ++ remainder pieces := by
  simp [remainder]

theorem denoted_cons (p : Piece) (pieces : List Piece) :
    denoted (p :: pieces) = p.units ++ denoted pieces := rfl

/-- Where no `\u` escape follows, the bytes show it and the units hold no escaped low surrogate. -/
theorem follows_or (pieces : List Piece) :
    (∃ h₃ h₂ h₁ h₀ rest, pieces = .unicode h₃ h₂ h₁ h₀ :: rest) ∨
      ((remainder pieces).length < 6 ∨ (remainder pieces).getD 0 0 ≠ 0x5c ∨
        (remainder pieces).getD 1 0 ≠ 0x75) ∧
      ∀ v ∈ (denoted pieces).head?, v.escapedLow = false := by
  rcases pieces with - | ⟨p, pieces⟩
  · right
    simp [remainder, denoted]
  cases p with
  | unicode h₃ h₂ h₁ h₀ => exact .inl ⟨h₃, h₂, h₁, h₀, pieces, rfl⟩
  | letter e =>
    right
    refine ⟨.inr (.inr ?_), ?_⟩
    · rw [remainder_cons]
      simpa [Piece.bytes] using e.byte_ne
    · intro v hv
      obtain rfl : (⟨e.unit, true⟩ : CodeUnit) = v := by simpa [denoted_cons, Piece.units] using hv
      cases e <;> decide
  | raw c hc =>
    right
    refine ⟨.inr (.inl ?_), ?_⟩
    · rw [remainder_cons, Piece.bytes]
      have hne := fun b hb => utf8EncodeChar_ne hc.2.1 (b := b) hb
      cases henc : String.utf8EncodeChar c with
      | nil =>
        have := String.length_utf8EncodeChar c
        rw [henc] at this
        exact absurd this.symm (Char.utf8Size_pos c).ne'
      | cons b bs =>
        rw [henc] at hne
        simpa using hne b (by simp)
    · intro v hv
      rw [denoted_cons, Piece.units, utf16] at hv
      split at hv <;> obtain rfl := Option.mem_some.1 hv <;> rfl

theorem scanFrom_iff (pieces : List Piece) :
    (pieces.flatMap Piece.bytes).length ≤ fuel →
      (scanFrom (done ++ remainder pieces) fuel done.length = true ↔
        HasUnpairedEscape (denoted pieces)) := by
  induction hn : pieces.length using Nat.strong_induction_on generalizing pieces done fuel with
  | _ n ih =>
  intro hfuel
  subst hn
  rcases pieces with - | ⟨p, pieces⟩
  · rw [scanFrom_short (by simp [remainder])]
    simp [denoted, HasUnpairedEscape]
  rw [List.flatMap_cons, List.length_append] at hfuel
  rw [remainder_cons, denoted_cons]
  have hrest {fuel : ℕ} (h : (pieces.flatMap Piece.bytes).length ≤ fuel) (done : List UInt8) :
      scanFrom (done ++ remainder pieces) fuel done.length = true ↔ HasUnpairedEscape (denoted pieces) :=
    ih pieces.length (Nat.lt_succ_self _) pieces rfl h
  cases p with
  | raw c hc =>
    obtain ⟨fuel, rfl⟩ := Nat.exists_eq_add_of_le (Nat.le_of_add_right_le hfuel)
    rw [Piece.bytes, scanFrom_raw fun b hb => utf8EncodeChar_ne hc.2.1 hb,
      hrest (by simpa [Piece.bytes] using hfuel), Piece.units, hasUnpairedEscape_unescaped]
  | letter e =>
    simp only [Piece.bytes, List.length_cons, List.length_nil] at hfuel
    obtain ⟨fuel, rfl⟩ := Nat.exists_eq_add_of_le' (show 1 ≤ fuel by omega)
    have hnot : isHigh e.unit = false ∧ isLow e.unit = false := by cases e <;> decide
    rw [Piece.bytes, List.cons_append, List.cons_append, List.nil_append,
      scanFrom_letter e.byte_ne, hrest (by omega), Piece.units, List.cons_append, List.nil_append,
      hasUnpairedEscape_cons (by simp [CodeUnit.escapedHigh, hnot])]
    simp [CodeUnit.escapedLow, hnot]
  | unicode h₃ h₂ h₁ h₀ =>
    have hbytes : (Piece.unicode h₃ h₂ h₁ h₀).bytes.length = 6 := rfl
    obtain ⟨fuel, rfl⟩ := Nat.exists_eq_add_of_le' (show 1 ≤ fuel by omega)
    rw [Piece.units, List.cons_append, List.nil_append]
    cases hhigh : isHigh (fourDigits h₃ h₂ h₁ h₀) with
    | false =>
      rw [scanFrom_unicode hhigh, hasUnpairedEscape_cons (by simp [CodeUnit.escapedHigh, hhigh]),
        Bool.or_eq_true, hrest (by omega)]
      simp [CodeUnit.escapedLow]
    | true =>
      have hu : CodeUnit.escapedHigh ⟨fourDigits h₃ h₂ h₁ h₀, true⟩ = true := by
        simp [CodeUnit.escapedHigh, hhigh]
      rw [scanFrom_high hhigh]
      rcases follows_or pieces with ⟨l₃, l₂, l₁, l₀, rest, rfl⟩ | ⟨hnone, hlow⟩
      · have hfour : four (remainder (.unicode l₃ l₂ l₁ l₀ :: rest)) 2 =
            [l₃.byte, l₂.byte, l₁.byte, l₀.byte] := by
          simp [four, remainder_cons, Piece.bytes]
        rw [if_neg (by simp [remainder_cons, Piece.bytes]), hfour, parseUint_byte, denoted_cons,
          Piece.units, List.cons_append, List.nil_append]
        cases hlow : isLow (fourDigits l₃ l₂ l₁ l₀) with
        | true =>
          have hskip : ∀ done, scanFrom (done ++ remainder rest) fuel done.length = true ↔
              HasUnpairedEscape (denoted rest) := by
            intro done
            refine ih rest.length (by simp) rest rfl ?_
            simp only [List.flatMap_cons, List.length_append] at hfuel
            omega
          rw [hasUnpairedEscape_pair hu (by simp [CodeUnit.escapedLow, hlow]),
            ← hskip (done ++ (Piece.unicode h₃ h₂ h₁ h₀).bytes ++ (Piece.unicode l₃ l₂ l₁ l₀).bytes)]
          simp [remainder_cons, Piece.bytes, hlow]
        | false =>
          simp only [Bool.false_eq_true, if_false, true_iff, hlow]
          exact hasUnpairedEscape_lone hu (by simp [CodeUnit.escapedLow, hlow])
      · rw [if_pos hnone]
        simpa using hasUnpairedEscape_lone hu hlow

/-- The scanner finds the unpaired surrogates that escapes write, and nothing else. -/
theorem hasUnpairedSurrogateEscape_iff (pieces : List Piece) :
    hasUnpairedSurrogateEscape (token pieces) = true ↔ HasUnpairedEscape (denoted pieces) := by
  have hquote : token pieces = [] ++ 0x22 :: remainder pieces := rfl
  rw [hasUnpairedSurrogateEscape, hquote, List.nil_append, List.length_cons]
  have hstep : scanFrom ([] ++ 0x22 :: remainder pieces) ((remainder pieces).length + 1) 0 =
      scanFrom ([] ++ [0x22] ++ remainder pieces) (remainder pieces).length 1 :=
    scanFrom_plain (by decide)
  have hrun : scanFrom ([0x22] ++ remainder pieces) (remainder pieces).length 1 = true ↔
      HasUnpairedEscape (denoted pieces) := scanFrom_iff pieces (by simp [remainder])
  rw [← hrun]
  exact Bool.eq_iff_iff.1 hstep

/-- A raw astral character denotes two surrogates that no escape writes. -/
theorem hasUnpairedSurrogateEscape_astral :
    let pieces := [Piece.raw '😀' (by decide)]
    hasUnpairedSurrogateEscape (token pieces) = false ∧ HasUnpaired (denoted pieces) := by
  refine ⟨by decide, 0, ⟨0xd83d, false⟩, by decide, by simp [IsSurrogate], ?_⟩
  rw [inPair_zero]
  rintro ⟨u, v, hu, -, hhigh, -⟩
  obtain rfl : (⟨0xd83d, false⟩ : CodeUnit) = u := by simpa [denoted, Piece.units, utf16] using hu
  cases hhigh

end Piik.Protocol.Surrogate
