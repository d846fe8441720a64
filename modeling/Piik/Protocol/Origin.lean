/-
  The origin of a candidate signal: `CandidateSignalOriginOf`
  (`protocol/helpers.go`) on the runes of a string, `candidateSignalOrigin`
  (`shared/nat-candidate.ts`) on its UTF-16 code units.
-/
import Piik.Lib.Pattern
import Piik.Protocol.Stun
import Piik.Protocol.Surrogate

namespace Piik.Protocol

open Pattern Surrogate

/-- What a candidate line is taken for. -/
inductive CandidateSignalOrigin
  | ended
  | ordinary
  | predicted
  deriving DecidableEq, Repr

/-- How a candidate line begins. -/
def lineStart : List Char := ['c', 'a', 'n', 'd', 'i', 'd', 'a', 't', 'e', ':']

/-! ## `protocol/helpers.go` -/

/-- The runes that `unicode.SimpleFold` leads to from a lower-case ASCII letter. -/
def simpleFold : Char → List Char
  | 'k' => ['k', 'K', '\u212a']
  | 's' => ['s', 'S', '\u017f']
  | c => [c, c.toUpper]

/-- A rune of the pattern under `(?i)`. -/
def foldedRune (c : Char) (r : Char) : Bool := r ∈ simpleFold c

/-- `[0-9]`. -/
def isDigitRune (r : Char) : Bool := '0' ≤ r && r ≤ '9'

/-- The regular expression, item by item. -/
def predictedCandidatePattern : List (Item Char) :=
  lineStart.map (fun c => .one (foldedRune c)) ++
    [.one (foldedRune 's'), .one fun r => foldedRune 'p' r || foldedRune 'm' r, .many isDigitRune,
      .one isJSWhitespace]

/-- `strings.TrimFunc`. -/
def trimFunc (p : Char → Bool) (l : List Char) : List Char :=
  ((l.dropWhile p).reverse.dropWhile p).reverse

/-- The origin of a candidate line as the server sees it. -/
def candidateSignalOriginOf (candidate : String) : CandidateSignalOrigin :=
  if trimFunc isJSWhitespace candidate.toList = [] then .ended
  else if matchesAt predictedCandidatePattern candidate.toList then .predicted
  else .ordinary

/-! ## `shared/nat-candidate.ts` -/

/-- `WhiteSpace` and `LineTerminator`. -/
def whiteSpace : List ℕ :=
  [0x9, 0xa, 0xb, 0xc, 0xd, 0x20, 0xa0, 0x1680, 0x2000, 0x2001, 0x2002, 0x2003, 0x2004, 0x2005, 0x2006,
    0x2007, 0x2008, 0x2009, 0x200a, 0x2028, 0x2029, 0x202f, 0x205f, 0x3000, 0xfeff]

/-- `toUppercase` of the Unicode character database on a code unit beyond ASCII, of
    which only that white space has no case is used. -/
structure Uppercase where
  toUppercase : ℕ → List ℕ
  caseless : ∀ w ∈ whiteSpace, ∀ unit, toUppercase unit = [w] ↔ unit = w

section

variable (t : Uppercase)

/-- `Canonicalize` under `/i` without `/u`: nothing beyond ASCII becomes ASCII. -/
def canonicalize (unit : ℕ) : ℕ :=
  if unit < 128 then if 97 ≤ unit ∧ unit ≤ 122 then unit - 32 else unit
  else match t.toUppercase unit with
    | [upper] => if upper < 128 then unit else upper
    | _ => unit

/-- A character class under `/i`. -/
def unitClass (members : List ℕ) (unit : ℕ) : Bool :=
  members.any fun member => canonicalize t member = canonicalize t unit

/-- The code units of the digits. -/
def digitUnits : List ℕ := [48, 49, 50, 51, 52, 53, 54, 55, 56, 57]

/-- `/^candidate:s[pm]\d+\s/i`. -/
def predictedPattern : List (Item ℕ) :=
  lineStart.map (fun c => .one (unitClass t [c.toNat])) ++
    [.one (unitClass t ['s'.toNat]), .one (unitClass t ['p'.toNat, 'm'.toNat]),
      .many (unitClass t digitUnits), .one (unitClass t whiteSpace)]

/-- `String.prototype.trim`. -/
def trim (units : List ℕ) : List ℕ :=
  ((units.dropWhile (· ∈ whiteSpace)).reverse.dropWhile (· ∈ whiteSpace)).reverse

/-- The argument null and the code units of a string. -/
def candidateSignalOrigin : Option (List ℕ) → CandidateSignalOrigin
  | none => .ended
  | some candidate =>
    if trim candidate = [] then .ended
    else if matchesAt (predictedPattern t) candidate then .predicted
    else .ordinary

end

/-- The code units of a string. -/
def codeUnits (s : String) : List ℕ := s.toList.flatMap utf16

/-! ## Trimming -/

theorem trimmed_eq_nil {α : Type} {p : α → Bool} {l : List α} :
    ((l.dropWhile p).reverse.dropWhile p).reverse = [] ↔ ∀ x ∈ l, p x = true := by
  rw [List.reverse_eq_nil_iff, List.dropWhile_eq_nil_iff]
  simp only [List.mem_reverse]
  constructor
  · intro h
    refine List.dropWhile_eq_nil_iff.1 (by_contra fun hne => ?_)
    have hhead := h _ (List.head_mem hne)
    rw [List.head_dropWhile_not p hne] at hhead
    cases hhead
  · intro h x hx
    exact h x ((List.dropWhile_sublist p).subset hx)

theorem isJSWhitespace_iff {c : Char} : isJSWhitespace c = true ↔ c.toNat ∈ whiteSpace := by
  have hinj : ∀ d : Char, c = d ↔ c.toNat = d.toNat := fun d =>
    ⟨congrArg _, fun h => Char.ext (UInt32.toNat_inj.1 h)⟩
  simp only [isJSWhitespace, whiteSpace, List.mem_cons, List.not_mem_nil, or_false, hinj, Bool.or_eq_true,
    decide_eq_true_eq, Bool.and_eq_true]
  simp only [Char.reduceToNat]
  omega

/-- The code units of a character beyond the basic plane are surrogates. -/
theorem utf16_beyond {c : Char} (h : 0x10000 ≤ c.toNat) :
    ∃ high low, utf16 c = [high, low] ∧ 0xd800 ≤ high ∧ high < 0xdc00 := by
  have hmax : c.toNat < 0x110000 := by
    have := c.valid
    rcases this with h | h
    · exact lt_trans h (by decide)
    · exact h.2
  exact ⟨_, _, if_neg (by omega), by omega, by omega⟩

theorem utf16_whiteSpace {c : Char} : (∀ unit ∈ utf16 c, unit ∈ whiteSpace) ↔ c.toNat ∈ whiteSpace := by
  by_cases h : c.toNat < 0x10000
  · rw [utf16, if_pos h]
    simp
  · obtain ⟨high, low, heq, hhigh, hlow⟩ := utf16_beyond (not_lt.1 h)
    rw [heq]
    constructor
    · intro hall
      have := hall high (by simp)
      simp only [whiteSpace, List.mem_cons, List.not_mem_nil, or_false] at this
      omega
    · intro hws
      simp only [whiteSpace, List.mem_cons, List.not_mem_nil, or_false] at hws
      omega

/-- A string is blank in both languages alike. -/
theorem trim_codeUnits {s : String} : trim (codeUnits s) = [] ↔ trimFunc isJSWhitespace s.toList = [] := by
  rw [trim, trimmed_eq_nil, trimFunc, trimmed_eq_nil, codeUnits]
  simp only [List.mem_flatMap, decide_eq_true_eq, isJSWhitespace_iff, ← utf16_whiteSpace]
  constructor
  · intro h c hc unit hunit
    exact h unit ⟨c, hc, hunit⟩
  · rintro h unit ⟨c, hc, hunit⟩
    exact h c hc unit hunit

/-! ## Classes -/

section

variable {t : Uppercase} {unit : ℕ}

theorem canonicalize_ascii (h : unit < 128) :
    canonicalize t unit = if 97 ≤ unit ∧ unit ≤ 122 then unit - 32 else unit := if_pos h

/-- What is beyond ASCII stays there. -/
theorem canonicalize_beyond (h : 128 ≤ unit) : 128 ≤ canonicalize t unit := by
  rw [canonicalize, if_neg (by omega)]
  split
  · split
    · exact h
    · omega
  · exact h

/-- A character of the pattern takes itself and its capital. -/
theorem unitClass_ascii {member : ℕ} (h : member < 128) (hlower : ¬(65 ≤ member ∧ member ≤ 90)) :
    unitClass t [member] unit = true ↔ unit = member ∨ (97 ≤ member ∧ member ≤ 122 ∧ unit = member - 32) := by
  rw [unitClass, List.any_cons, List.any_nil, Bool.or_false, decide_eq_true_eq, canonicalize_ascii h]
  by_cases hunit : unit < 128
  · rw [canonicalize_ascii hunit]
    split <;> split <;> omega
  · have hbeyond : 128 ≤ canonicalize t unit := canonicalize_beyond (by omega)
    split <;> omega

theorem unitClass_cons {member : ℕ} {members : List ℕ} :
    unitClass t (member :: members) unit = (unitClass t [member] unit || unitClass t members unit) := by
  simp [unitClass]

theorem unitClass_digits : unitClass t digitUnits unit = true ↔ 48 ≤ unit ∧ unit ≤ 57 := by
  have hany : unitClass t digitUnits unit = true ↔ ∃ member ∈ digitUnits, unitClass t [member] unit = true := by
    simp [unitClass]
  rw [hany]
  constructor
  · rintro ⟨member, hm, h⟩
    have hrange : 48 ≤ member ∧ member ≤ 57 := by
      simp only [digitUnits, List.mem_cons, List.not_mem_nil, or_false] at hm
      omega
    rw [unitClass_ascii (by omega) (by omega)] at h
    omega
  · intro h
    refine ⟨unit, ?_, (unitClass_ascii (by omega) (by omega)).2 (Or.inl rfl)⟩
    simp only [digitUnits, List.mem_cons, List.not_mem_nil, or_false]
    omega

theorem canonicalize_whiteSpace {w : ℕ} (h : w ∈ whiteSpace) : canonicalize t w = w := by
  by_cases hw : w < 128
  · rw [canonicalize_ascii hw, if_neg]
    simp only [whiteSpace, List.mem_cons, List.not_mem_nil, or_false] at h
    omega
  · rw [canonicalize, if_neg hw, (t.caseless w h w).2 rfl]
    exact if_neg hw

theorem unitClass_whiteSpace : unitClass t whiteSpace unit = true ↔ unit ∈ whiteSpace := by
  rw [unitClass, List.any_eq_true]
  constructor
  · rintro ⟨w, hw, h⟩
    rw [decide_eq_true_eq, canonicalize_whiteSpace hw] at h
    by_cases hunit : unit < 128
    · rw [canonicalize_ascii hunit] at h
      split at h
      · simp only [whiteSpace, List.mem_cons, List.not_mem_nil, or_false] at hw
        omega
      · exact h ▸ hw
    · rw [canonicalize, if_neg hunit] at h
      split at h
      · next upper hupper =>
        split at h
        · exact h ▸ hw
        · subst h
          exact (t.caseless w hw unit).1 hupper ▸ hw
      · exact h ▸ hw
  · intro h
    exact ⟨unit, h, by simp⟩

/-! ## The patterns -/

/-- A class of characters of the basic plane is read alike. -/
theorem agree_of {p : Char → Bool} {q : ℕ → Bool} (hq : ∀ c : Char, c.toNat < 0x10000 → q c.toNat = p c)
    (hbeyond : ∀ c : Char, 0x10000 ≤ c.toNat → p c = false)
    (hsurrogate : ∀ unit, 0xd800 ≤ unit → unit < 0xdc00 → q unit = false) : Agree utf16 p q := by
  intro c
  by_cases h : c.toNat < 0x10000
  · exact ⟨c.toNat, [], if_pos h, hq c h, fun _ => rfl⟩
  · obtain ⟨high, low, heq, hhigh, hlow⟩ := utf16_beyond (not_lt.1 h)
    have hp := hbeyond c (not_lt.1 h)
    exact ⟨high, [low], heq, (hsurrogate high hhigh hlow).trans hp.symm, fun h => by simp [hp] at h⟩

theorem char_eq_iff {c d : Char} : c = d ↔ c.toNat = d.toNat :=
  ⟨congrArg _, fun h => Char.ext (UInt32.toNat_inj.1 h)⟩

/-- `Plain` letters fold to themselves and their capitals only. -/
theorem agree_ascii {c : Char} (h : c.toNat < 128) (hlower : ¬(65 ≤ c.toNat ∧ c.toNat ≤ 90))
    (hupper : c.toUpper.toNat = if 97 ≤ c.toNat ∧ c.toNat ≤ 122 then c.toNat - 32 else c.toNat) :
    Agree utf16 (fun r => r = c || r = c.toUpper) (unitClass t [c.toNat]) := by
  have hp : ∀ r : Char, (decide (r = c) || decide (r = c.toUpper)) = true ↔
      r.toNat = c.toNat ∨ (97 ≤ c.toNat ∧ c.toNat ≤ 122 ∧ r.toNat = c.toNat - 32) := by
    intro r
    rw [Bool.or_eq_true, decide_eq_true_eq, decide_eq_true_eq, char_eq_iff, char_eq_iff, hupper]
    split <;> omega
  refine agree_of (fun r _ => ?_) (fun r hr => ?_) fun unit hlow hhigh => ?_
  · rw [Bool.eq_iff_iff, hp, unitClass_ascii h hlower]
  · rw [← Bool.not_eq_true, hp]
    omega
  · rw [← Bool.not_eq_true, unitClass_ascii h hlower]
    omega

theorem agree_or {p p' : Char → Bool} {member : ℕ} {members : List ℕ}
    (h : Agree utf16 p (unitClass t [member])) (h' : Agree utf16 p' (unitClass t members)) :
    Agree utf16 (fun r => p r || p' r) (unitClass t (member :: members)) := by
  intro c
  obtain ⟨u, us, hu, hq, hus⟩ := h c
  obtain ⟨u', us', hu', hq', hus'⟩ := h' c
  obtain ⟨rfl, rfl⟩ := List.cons.inj (hu.symm.trans hu')
  refine ⟨u, us, hu, by rw [unitClass_cons, hq, hq'], fun hp => ?_⟩
  rcases Bool.or_eq_true_iff.1 hp with hp | hp
  · exact hus hp
  · exact hus' hp

theorem agree_digits : Agree utf16 isDigitRune (unitClass t digitUnits) := by
  have hp : ∀ r : Char, isDigitRune r = true ↔ 48 ≤ r.toNat ∧ r.toNat ≤ 57 := by
    intro r
    rw [isDigitRune, Bool.and_eq_true, decide_eq_true_eq, decide_eq_true_eq]
    rfl
  refine agree_of (fun r _ => ?_) (fun r hr => ?_) fun unit hlow hhigh => ?_
  · rw [Bool.eq_iff_iff, hp, unitClass_digits]
  · rw [← Bool.not_eq_true, hp]
    omega
  · rw [← Bool.not_eq_true, unitClass_digits]
    omega

theorem agree_whiteSpace : Agree utf16 isJSWhitespace (unitClass t whiteSpace) := by
  have hrange : ∀ n, n ∈ whiteSpace → n < 0xd800 ∨ n = 0xfeff := by
    intro n hn
    simp only [whiteSpace, List.mem_cons, List.not_mem_nil, or_false] at hn
    omega
  refine agree_of (fun r _ => ?_) (fun r hr => ?_) fun unit hlow hhigh => ?_
  · rw [Bool.eq_iff_iff, isJSWhitespace_iff, unitClass_whiteSpace]
  · rw [← Bool.not_eq_true, isJSWhitespace_iff]
    intro h
    have := hrange _ h
    omega
  · rw [← Bool.not_eq_true, unitClass_whiteSpace]
    intro h
    have := hrange _ h
    omega

/-- What follows the `s` of the pattern. -/
def tail : List (Item Char) :=
  [.one fun r => foldedRune 'p' r || foldedRune 'm' r, .many isDigitRune, .one isJSWhitespace]

/-- The literal before it. -/
def head : List (Item Char) := lineStart.map fun c => .one (foldedRune c)

/-- The pattern with the plain letter only. -/
def plainPattern : List (Item Char) := head ++ .one (fun r => r = 's' || r = 'S') :: tail

/-- The pattern with the long s, U+017F, in place of the letter. -/
def longSPattern : List (Item Char) := head ++ .one (fun r => r = '\u017f') :: tail

theorem head_one : ∀ item ∈ head, ∃ p, item = .one p := by
  intro item h
  obtain ⟨c, -, rfl⟩ := List.mem_map.1 h
  exact ⟨_, rfl⟩

/-- The letter folds to itself, its capital and the long s. -/
theorem matchesAt_predicted {l : List Char} : matchesAt predictedCandidatePattern l =
    (matchesAt plainPattern l || matchesAt longSPattern l) := by
  rw [plainPattern, longSPattern, ← matchesAt_or head head_one]
  have hs : foldedRune 's' = fun r => (decide (r = 's') || decide (r = 'S')) || decide (r = '\u017f') := by
    funext r
    simp [foldedRune, simpleFold, Bool.or_assoc]
  rw [predictedCandidatePattern, hs, head, tail]

theorem encoded_plain : Encoded utf16 plainPattern (predictedPattern t) := by
  have hplain : ∀ c ∈ lineStart ++ ['p', 'm'], foldedRune c = (fun r => r = c || r = c.toUpper) ∧
      c.toNat < 128 ∧ ¬(65 ≤ c.toNat ∧ c.toNat ≤ 90) ∧
      c.toUpper.toNat = if 97 ≤ c.toNat ∧ c.toNat ≤ 122 then c.toNat - 32 else c.toNat := by
    intro c hc
    have hne : c ≠ 'k' ∧ c ≠ 's' := by
      constructor <;> rintro rfl <;> simp [lineStart] at hc
    refine ⟨?_, ?_⟩
    · funext r
      rw [foldedRune, simpleFold]
      · simp
      · exact hne.1
      · exact hne.2
    · clear hne
      simp only [lineStart, List.cons_append, List.nil_append, List.mem_cons, List.not_mem_nil, or_false] at hc
      rcases hc with rfl | rfl | rfl | rfl | rfl | rfl | rfl | rfl | rfl | rfl | rfl | rfl <;> decide
  have hagree : ∀ c ∈ lineStart ++ ['p', 'm'], Agree utf16 (foldedRune c) (unitClass t [c.toNat]) := by
    intro c hc
    obtain ⟨hfold, hascii, hlower, hupper⟩ := hplain c hc
    rw [hfold]
    exact agree_ascii hascii hlower hupper
  refine encoded_map_append (fun c hc => hagree c (List.mem_append_left _ hc)) (.one (agree_ascii ?_ ?_ ?_) (.one (agree_or ?_ ?_)
    (.many agree_digits (.one agree_whiteSpace .nil))))
  · decide
  · decide
  · decide
  · exact hagree 'p' (by decide)
  · exact hagree 'm' (by decide)

/-! ## Agreement -/

theorem plain_codeUnits {s : String} : matchesAt (predictedPattern t) (codeUnits s) =
    matchesAt plainPattern s.toList := matchesAt_encode encoded_plain s.toList

theorem not_plain_of_longS {l : List Char} (h : matchesAt longSPattern l = true) :
    matchesAt plainPattern l = false := by
  rw [← Bool.not_eq_true]
  intro hplain
  obtain ⟨c, hc, hc'⟩ := matchesAt_both head head_one hplain h
  obtain rfl := of_decide_eq_true hc'
  exact absurd hc (by decide)

/-- A line that begins with a letter is not blank. -/
theorem not_blank_of_longS {l : List Char} (h : matchesAt longSPattern l = true) :
    trimFunc isJSWhitespace l ≠ [] := by
  intro hblank
  rw [trimFunc, trimmed_eq_nil] at hblank
  cases l with
  | nil => cases h
  | cons c l =>
    have hc : foldedRune 'c' c = true := by
      rw [longSPattern, head, lineStart, List.map_cons, List.cons_append, matchesAt_one,
        Bool.and_eq_true] at h
      exact h.1
    have hspace := hblank c (List.mem_cons_self ..)
    have hcases : c = 'c' ∨ c = 'C' := by simpa [foldedRune, simpleFold] using hc
    rcases hcases with rfl | rfl
    · exact absurd hspace (by decide)
    · exact absurd hspace (by decide)

/-- Both languages classify a string alike, unless a long s stands where the pattern
    has its letter. -/
theorem candidateSignalOriginOf_iff (t : Uppercase) (s : String) :
    candidateSignalOriginOf s = candidateSignalOrigin t (some (codeUnits s)) ↔
      matchesAt longSPattern s.toList = false := by
  rw [candidateSignalOriginOf, candidateSignalOrigin, plain_codeUnits, matchesAt_predicted]
  simp only [trim_codeUnits]
  by_cases hblank : trimFunc isJSWhitespace s.toList = []
  · rw [if_pos hblank, if_pos hblank]
    refine iff_of_true rfl ?_
    rw [← Bool.not_eq_true]
    exact fun h => not_blank_of_longS h hblank
  · rw [if_neg hblank, if_neg hblank]
    cases hlong : matchesAt longSPattern s.toList with
    | false => simp
    | true => simp [not_plain_of_longS hlong]

end

/-- The table on the code units of ASCII and on the long s. -/
def longSUppercase : Uppercase where
  toUppercase unit := if unit = 0x17f then [0x53] else [unit]
  caseless := by
    intro w hw unit
    simp only [whiteSpace, List.mem_cons, List.not_mem_nil, or_false] at hw
    split
    · simp only [List.cons.injEq, and_true]
      omega
    · simp

/-- `candidate:ſp1 ` is predicted for the server and ordinary for the client. -/
theorem longS_classified_apart :
    candidateSignalOriginOf (String.ofList (lineStart ++ ['\u017f', 'p', '1', ' '])) = .predicted ∧
      candidateSignalOrigin longSUppercase
        (some (codeUnits (String.ofList (lineStart ++ ['\u017f', 'p', '1', ' '])))) = .ordinary := by
  rw [candidateSignalOriginOf, codeUnits, String.toList_ofList]
  decide

theorem candidateSignalOriginOf_iff_plain :
    candidateSignalOriginOf (String.ofList (lineStart ++ ['s', 'p', '1', ' '])) =
      candidateSignalOrigin longSUppercase
        (some (codeUnits (String.ofList (lineStart ++ ['s', 'p', '1', ' '])))) := by
  refine (candidateSignalOriginOf_iff longSUppercase _).2 ?_
  rw [String.toList_ofList]
  decide

end Piik.Protocol
