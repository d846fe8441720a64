/-
  The hosts outside brackets that the two sides accept, and where they part: on
  characters that `net/url` refuses, and on numbers beyond 64 bits.
-/
import Piik.Protocol.Stun

namespace Piik.Protocol

open Text

/-! ## Characters -/

/-- A printable ASCII character. -/
def Printable (c : Char) : Prop := 0x20 ≤ c.toNat ∧ c.toNat ≤ 0x7e

instance (c : Char) : Decidable (Printable c) := inferInstanceAs (Decidable (_ ∧ _))

theorem printable_forall {P : Char → Prop} (h : ∀ n < 95, P (Char.ofNat (n + 0x20))) {c : Char}
    (hc : Printable c) : P c := by
  have hn := h (c.toNat - 0x20) (by have := hc.2; omega)
  rwa [Nat.sub_add_cancel hc.1, Char.ofNat_toNat] at hn

/-- A character outside the upper-case letters is its own lower case. -/
theorem toLower_eq_self {c : Char} (h : ¬ ('A' ≤ c ∧ c ≤ 'Z')) : c.toLower = c := by
  unfold Char.toLower
  exact dif_neg h

theorem upper_forall {P : Char → Prop} (h : ∀ n < 26, P (Char.ofNat (n + 0x41))) {c : Char}
    (hc : 'A' ≤ c ∧ c ≤ 'Z') : P c := by
  have h₁ : 0x41 ≤ c.toNat := hc.1
  have h₂ : c.toNat ≤ 0x5a := hc.2
  have hn := h (c.toNat - 0x41) (by omega)
  rwa [Nat.sub_add_cancel h₁, Char.ofNat_toNat] at hn

/-- What does not distinguish cases is the same of the lower case. -/
theorem toLower_invariant {β : Type} {f : Char → β}
    (h : ∀ n < 26, f (Char.ofNat (n + 0x41)).toLower = f (Char.ofNat (n + 0x41))) (c : Char) :
    f c.toLower = f c := by
  by_cases hc : 'A' ≤ c ∧ c ≤ 'Z'
  · exact upper_forall (P := fun c => f c.toLower = f c) h hc
  · rw [toLower_eq_self hc]

theorem radixDigit_toLower (c : Char) : radixDigit c.toLower = radixDigit c :=
  toLower_invariant (by decide) c

theorem isDigit_toLower (c : Char) : c.toLower.isDigit = c.isDigit :=
  toLower_invariant (by decide) c

theorem isForbiddenDomainCodePoint_toLower (c : Char) :
    Whatwg.isForbiddenDomainCodePoint c.toLower = Whatwg.isForbiddenDomainCodePoint c :=
  toLower_invariant (by decide) c

/-! ## Labels -/

theorem splitOn_asciiLowercase (s : List Char) :
    (Whatwg.asciiLowercase s).splitOn '.' = (s.splitOn '.').map Whatwg.asciiLowercase := by
  induction s with
  | nil => rfl
  | cons c rest ih =>
    have hdot : (c.toLower == '.') = (c == '.') :=
      toLower_invariant (f := fun c => c == '.') (by decide) c
    simp only [Whatwg.asciiLowercase, List.splitOn, List.map_cons,
      List.splitOnP_cons_eq_if_modifyHead] at ih ⊢
    rw [hdot, ih]
    split
    · rfl
    · cases List.splitOnP (fun x => x == '.') rest <;> rfl

theorem labels_asciiLowercase (s : List Char) :
    Whatwg.labels (Whatwg.asciiLowercase s) = (Whatwg.labels s).map Whatwg.asciiLowercase := by
  simp only [Whatwg.labels, splitOn_asciiLowercase, List.length_map, List.getLast?_map]
  have hnil : ∀ l : List Char, Whatwg.asciiLowercase l = [] ↔ l = [] := fun l => List.map_eq_nil_iff
  have hlast : ((s.splitOn '.').getLast?.map Whatwg.asciiLowercase = some []) =
      ((s.splitOn '.').getLast? = some []) := by
    refine propext ?_
    rw [Option.map_eq_some_iff]
    constructor
    · rintro ⟨l, hl, hlnil⟩
      rw [hl, (hnil l).1 hlnil]
    · exact fun h => ⟨[], h, rfl⟩
  simp only [hlast]
  split
  · rw [List.map_dropLast]
  · rfl

theorem number_asciiLowercase (radix : ℕ) (digits : List Char) :
    number radix (Whatwg.asciiLowercase digits) = number radix digits := by
  simp only [number, Whatwg.asciiLowercase, List.foldl_map, radixDigit_toLower]

theorem all_asciiLowercase {p : Char → Bool} (hp : ∀ c, p c.toLower = p c) (s : List Char) :
    (Whatwg.asciiLowercase s).all p = s.all p := by
  rw [Whatwg.asciiLowercase, List.all_map]
  exact congrArg s.all (funext hp)

theorem toLower_eq_x {c : Char} : c.toLower = 'x' ↔ c = 'x' ∨ c = 'X' := by
  by_cases hc : 'A' ≤ c ∧ c ≤ 'Z'
  · exact upper_forall (P := fun c => c.toLower = 'x' ↔ c = 'x' ∨ c = 'X') (by decide) hc
  · rw [toLower_eq_self hc]
    refine ⟨.inl, fun h => h.resolve_right ?_⟩
    rintro rfl
    exact hc (by decide)

theorem toLower_ne_upper {c : Char} : c.toLower ≠ 'X' := by
  by_cases hc : 'A' ≤ c ∧ c ≤ 'Z'
  · exact upper_forall (P := fun c => c.toLower ≠ 'X') (by decide) hc
  · rw [toLower_eq_self hc]
    rintro rfl
    exact hc (by decide)

theorem radixPrefix_asciiLowercase (input : List Char) :
    radixPrefix (Whatwg.asciiLowercase input) =
      ((radixPrefix input).1, Whatwg.asciiLowercase (radixPrefix input).2) := by
  have hzero (c : Char) : c.toLower = '0' ↔ c = '0' :=
    iff_of_eq (toLower_invariant (f := fun c => c = '0') (by decide) c)
  rcases input with _ | ⟨a, rest⟩
  · rfl
  by_cases ha : a = '0'
  · subst ha
    rcases rest with _ | ⟨b, rest⟩
    · rfl
    by_cases hx : b = 'x' ∨ b = 'X'
    · rcases hx with rfl | rfl
      · rfl
      · rfl
    · have hlower : b.toLower ≠ 'x' := mt toLower_eq_x.1 hx
      rw [not_or] at hx
      simp [radixPrefix, Whatwg.asciiLowercase, hx.1, hx.2, toLower_ne_upper]
  · have hlower : a.toLower ≠ '0' := mt (hzero a).1 ha
    simp [radixPrefix, Whatwg.asciiLowercase, ha, hlower]

theorem parseIPv4Number_asciiLowercase (input : List Char) :
    Whatwg.parseIPv4Number (Whatwg.asciiLowercase input) = Whatwg.parseIPv4Number input := by
  have hall (radix : ℕ) (digits : List Char) :
      (Whatwg.asciiLowercase digits).all (fun c => radixDigit c < radix) =
        digits.all fun c => radixDigit c < radix :=
    all_asciiLowercase (p := fun c => radixDigit c < radix)
      (fun c => by simp only [radixDigit_toLower]) digits
  have hempty : (Whatwg.asciiLowercase input).isEmpty = input.isEmpty := by
    cases input <;> rfl
  simp only [Whatwg.parseIPv4Number, radixPrefix_asciiLowercase, hempty, hall,
    number_asciiLowercase]

theorem getLastD_map {α β : Type} (f : α → β) (l : List α) (a : α) :
    (l.map f).getLastD (f a) = f (l.getLastD a) := by
  simp only [List.getLastD_eq_getLast?, List.getLast?_map, Option.getD_map]

theorem endsInNumber_asciiLowercase (s : List Char) :
    Whatwg.endsInNumber (Whatwg.asciiLowercase s) = Whatwg.endsInNumber s := by
  have hlast : (Whatwg.labels (Whatwg.asciiLowercase s)).getLastD [] =
      Whatwg.asciiLowercase ((Whatwg.labels s).getLastD []) := by
    rw [labels_asciiLowercase]
    exact getLastD_map Whatwg.asciiLowercase _ []
  have hempty (l : List Char) : (Whatwg.asciiLowercase l).isEmpty = l.isEmpty := by
    cases l <;> rfl
  simp only [Whatwg.endsInNumber, hlast, hempty, parseIPv4Number_asciiLowercase,
    all_asciiLowercase isDigit_toLower]

theorem parseIPv4_asciiLowercase (s : List Char) :
    Whatwg.parseIPv4 (Whatwg.asciiLowercase s) = Whatwg.parseIPv4 s := by
  have hnumbers (l : List (List Char)) :
      (l.map Whatwg.asciiLowercase).mapM Whatwg.parseIPv4Number = l.mapM Whatwg.parseIPv4Number := by
    rw [List.mapM_map]
    exact congrArg (fun f => l.mapM f) (funext parseIPv4Number_asciiLowercase)
  simp only [Whatwg.parseIPv4, labels_asciiLowercase, List.length_map, hnumbers]

/-! ## Numbers of 64 bits -/

/-- Numbers from `2 ^ 64` on are no numbers to `strconv.ParseUint`. -/
theorem parseIPv4Number_eq (input : List Char) :
    parseIPv4Number input = (Whatwg.parseIPv4Number input).filter (· < 2 ^ 64) := by
  unfold parseIPv4Number Whatwg.parseIPv4Number
  rcases radixPrefix input with ⟨radix, digits⟩
  cases input with
  | nil => rfl
  | cons c rest =>
    cases digits with
    | nil => rfl
    | cons d digits =>
      by_cases hall : ((d :: digits).all fun c => decide (radixDigit c < radix)) = true
      · have hany : ((d :: digits).any fun c => decide (radixDigit c ≥ radix)) = false := by
          refine List.any_eq_false.2 fun e he => ?_
          have := of_decide_eq_true (List.all_eq_true.1 hall e he)
          simp; omega
        simp [hall, hany, parseUint, Option.filter]
      · have hany : ((d :: digits).any fun c => decide (radixDigit c ≥ radix)) = true := by
          by_contra hnone
          refine hall (List.all_eq_true.2 fun e he => ?_)
          have := List.any_eq_false.1 (eq_false_of_ne_true hnone) e he
          simp at this ⊢; omega
        simp [hall, hany]

theorem mapM_parseIPv4Number (parts : List (List Char)) :
    parts.mapM parseIPv4Number =
      (parts.mapM Whatwg.parseIPv4Number).filter fun numbers => numbers.all (· < 2 ^ 64) := by
  induction parts with
  | nil => rfl
  | cons part parts ih =>
    rw [List.mapM_cons, List.mapM_cons, ih, parseIPv4Number_eq]
    clear ih
    generalize 2 ^ 64 = bound
    cases Whatwg.parseIPv4Number part with
    | none => rfl
    | some n =>
      cases parts.mapM Whatwg.parseIPv4Number with
      | none => by_cases hn : n < bound <;> simp [Option.filter, hn]
      | some numbers =>
        by_cases hn : n < bound
        · by_cases hrest : ∀ x ∈ numbers, x < bound
          · simp [Option.filter, hn, if_pos hrest]
          · simp [Option.filter, hn, if_neg hrest]
        · simp [Option.filter, hn]

/-- What the IPv4 parser asks of its numbers. -/
def inRange (numbers : List ℕ) : Bool :=
  !numbers.dropLast.any (fun n => n > 255) && numbers.getLastD 0 < 256 ^ (5 - numbers.length)

/-- A number beyond 64 bits is out of range in every place. -/
theorem inRange_all {numbers : List ℕ} (h : inRange numbers = true) {n : ℕ} (hn : n ∈ numbers) :
    n < 2 ^ 64 := by
  rw [inRange, Bool.and_eq_true, Bool.not_eq_true', decide_eq_true_eq] at h
  obtain ⟨kept, last, rfl⟩ : ∃ kept last, numbers = kept ++ [last] := by
    rcases List.eq_nil_or_concat' numbers with rfl | ⟨kept, last, rfl⟩
    · cases hn
    · exact ⟨kept, last, rfl⟩
  rw [List.dropLast_concat, List.getLastD_concat] at h
  rcases List.mem_append.1 hn with hkept | hlast
  · have := List.any_eq_false.1 h.1 n hkept
    simp at this
    omega
  · rw [List.mem_singleton.1 hlast]
    refine h.2.trans_le ((Nat.pow_le_pow_right (by decide) ?_).trans (by decide : 256 ^ 4 ≤ 2 ^ 64))
    simp

theorem parseIPv4_isSome (host : List Char) : (Whatwg.parseIPv4 host).isSome =
    (!((Whatwg.labels host).length > 4) &&
      ((Whatwg.labels host).mapM Whatwg.parseIPv4Number).any inRange) := by
  unfold Whatwg.parseIPv4
  by_cases hlong : (Whatwg.labels host).length > 4
  · simp [hlong]
  · rw [if_neg hlong, decide_eq_false hlong, Bool.not_false, Bool.true_and]
    cases (Whatwg.labels host).mapM Whatwg.parseIPv4Number with
    | none => rfl
    | some numbers =>
      have hlast : decide (numbers.getLastD 0 < 256 ^ (5 - numbers.length)) =
          !decide (numbers.getLastD 0 ≥ 256 ^ (5 - numbers.length)) := by
        rw [← decide_not]
        exact decide_eq_decide.2 not_le.symm
      simp only [inRange, Option.any_some, hlast]
      generalize numbers.dropLast.any (fun n => decide (n > 255)) = wide
      cases wide with
      | true => rfl
      | false =>
        by_cases h : numbers.getLastD 0 ≥ 256 ^ (5 - numbers.length)
        · rw [if_neg Bool.false_ne_true, if_pos h, decide_eq_true h]
          rfl
        · rw [if_neg Bool.false_ne_true, if_neg h, decide_eq_false h]
          rfl

/-- The range checks of the two sides answer alike. -/
theorem validIPv4Host_eq (host : List Char) :
    validIPv4Host host = (Whatwg.parseIPv4 host).isSome := by
  rw [parseIPv4_isSome, validIPv4Host, mapM_parseIPv4Number,
    show hostParts host = Whatwg.labels host from rfl]
  by_cases hlong : (Whatwg.labels host).length > 4
  · simp [hlong]
  · rw [if_neg hlong, decide_eq_false hlong, Bool.not_false, Bool.true_and]
    cases (Whatwg.labels host).mapM Whatwg.parseIPv4Number with
    | none => rfl
    | some numbers =>
      have hgo : (if numbers.dropLast.any fun number => decide (number > 255) then false
          else decide (numbers.getLastD 0 < 256 ^ (5 - numbers.length))) = inRange numbers := by
        unfold inRange
        cases numbers.dropLast.any fun n => decide (n > 255) <;> rfl
      by_cases hfit : (numbers.all fun n => decide (n < 2 ^ 64)) = true
      · rw [Option.filter_some, if_pos hfit]
        exact hgo
      · rw [Option.filter_some, if_neg hfit, Option.any_some]
        refine (Bool.eq_false_iff.2 fun hrange => hfit ?_).symm
        exact List.all_eq_true.2 fun n hn => decide_eq_true (inRange_all hrange hn)

theorem mapM_mem {α β : Type} {f : α → Option β} : ∀ {l : List α} {r : List β} {a : α},
    l.mapM f = some r → a ∈ l → ∃ b ∈ r, f a = some b
  | x :: l, r, a, h, ha => by
    rw [List.mapM_cons] at h
    obtain ⟨b, hb, h⟩ := Option.bind_eq_some_iff.1 h
    obtain ⟨bs, hbs, h⟩ := Option.bind_eq_some_iff.1 h
    obtain rfl := Option.some.inj h
    rcases List.mem_cons.1 ha with rfl | ha
    · exact ⟨b, List.mem_cons_self .., hb⟩
    · obtain ⟨b', hb', heq⟩ := mapM_mem hbs ha
      exact ⟨b', List.mem_cons_of_mem _ hb', heq⟩

/-- An accepted IPv4 address has a number for each of its parts, all of them in range. -/
theorem parseIPv4_part {host part : List Char} (h : (Whatwg.parseIPv4 host).isSome = true)
    (hpart : part ∈ Whatwg.labels host) : ∃ n, Whatwg.parseIPv4Number part = some n ∧ n < 2 ^ 64 := by
  rw [parseIPv4_isSome, Bool.and_eq_true] at h
  obtain ⟨numbers, hnumbers, hrange⟩ := (Option.any_eq_true _ _).1 h.2
  obtain ⟨n, hn, heq⟩ := mapM_mem hnumbers hpart
  exact ⟨n, heq, inRange_all hrange hn⟩

/-! ## Where the sides part -/

/-- The characters of a host that the WHATWG parser keeps and `net/url` refuses: the grave
    accent and the braces. -/
def isRefusedCharacter (c : Char) : Bool := c = '\x60' || c = '\x7b' || c = '\x7d'

/-- The last label, before an empty one. -/
def lastLabel (host : List Char) : List Char := (Whatwg.labels host).getLastD []

/-- A hexadecimal number that does not fit 64 bits. -/
def IsOverlong (label : List Char) : Prop := ∃ x digits, label = '0' :: x :: digits ∧
  (x = 'x' ∨ x = 'X') ∧ digits.all isHexDigit = true ∧ 2 ^ 64 ≤ number 16 digits

theorem radixDigit_lt_ten {c : Char} : radixDigit c < 10 ↔ c.isDigit = true := by
  refine ⟨fun h => ?_, radixDigit_of_isDigit⟩
  unfold radixDigit at h
  split at h
  · next hc =>
    rw [Char.isDigit, Bool.and_eq_true, decide_eq_true_eq, decide_eq_true_eq]
    exact hc
  · split at h
    · omega
    · split at h
      · omega
      · omega

/-- A number that is no run of digits is hexadecimal. -/
theorem hexadecimal_of_number {label : List Char} {n : ℕ}
    (h : Whatwg.parseIPv4Number label = some n) (hdigits : ¬ label.all Char.isDigit = true) :
    ∃ x digits, label = '0' :: x :: digits ∧ (x = 'x' ∨ x = 'X') ∧
      digits.all isHexDigit = true ∧ n = number 16 digits := by
  have hsmall {radix : ℕ} (hradix : radix ≤ 10) {digits : List Char}
      (h : (digits.all fun c => decide (radixDigit c < radix)) = true) :
      digits.all Char.isDigit = true :=
    List.all_eq_true.2 fun c hc =>
      radixDigit_lt_ten.1 ((of_decide_eq_true (List.all_eq_true.1 h c hc)).trans_le hradix)
  rcases label with _ | ⟨a, rest⟩
  · exact absurd rfl hdigits
  by_cases ha : a = '0'
  · subst ha
    rcases rest with _ | ⟨b, rest⟩
    · exact absurd rfl hdigits
    by_cases hb : b = 'x' ∨ b = 'X'
    · have hradix : radixPrefix ('0' :: b :: rest) = (16, rest) := by rcases hb with rfl | rfl <;> rfl
      simp only [Whatwg.parseIPv4Number, hradix, List.isEmpty_cons, Bool.false_eq_true, if_false,
        Option.ite_none_right_eq_some, Option.some.injEq] at h
      exact ⟨b, rest, rfl, hb, h.1, h.2.symm⟩
    · rw [not_or] at hb
      have hradix : radixPrefix ('0' :: b :: rest) = (8, b :: rest) := by
        simp [radixPrefix, hb.1, hb.2]
      simp only [Whatwg.parseIPv4Number, hradix, List.isEmpty_cons, Bool.false_eq_true, if_false,
        Option.ite_none_right_eq_some] at h
      refine absurd ?_ hdigits
      rw [List.all_cons, hsmall (by decide) h.1]
      rfl
  · have hradix : radixPrefix (a :: rest) = (10, a :: rest) := by simp [radixPrefix, ha]
    simp only [Whatwg.parseIPv4Number, hradix, List.isEmpty_cons, Bool.false_eq_true, if_false,
      Option.ite_none_right_eq_some] at h
    exact absurd (hsmall le_rfl h.1) hdigits

theorem IsOverlong.number {label : List Char} (h : IsOverlong label) :
    ∃ n, Whatwg.parseIPv4Number label = some n ∧ 2 ^ 64 ≤ n := by
  obtain ⟨x, digits, rfl, hx, hhex, hlarge⟩ := h
  have hradix : radixPrefix ('0' :: x :: digits) = (16, digits) := by
    rcases hx with rfl | rfl <;> rfl
  refine ⟨Text.number 16 digits, ?_, hlarge⟩
  have hall : (digits.all fun c => decide (radixDigit c < 16)) = true := hhex
  simp [Whatwg.parseIPv4Number, hradix, hall]

theorem IsOverlong.not_digits {label : List Char} (h : IsOverlong label) :
    ¬ label.all Char.isDigit = true := by
  obtain ⟨x, digits, rfl, hx, -, -⟩ := h
  rcases hx with rfl | rfl <;> simp

theorem hostEndsInNumber_eq (host : List Char) : hostEndsInNumber host =
    ((!(lastLabel host).isEmpty && (lastLabel host).all Char.isDigit) ||
      ((Whatwg.parseIPv4Number (lastLabel host)).filter (· < 2 ^ 64)).isSome) := by
  rw [← parseIPv4Number_eq]
  rfl

theorem endsInNumber_of_host {host : List Char} (h : hostEndsInNumber host = true) :
    Whatwg.endsInNumber host = true := by
  rw [hostEndsInNumber_eq, Bool.or_eq_true] at h
  refine Bool.or_eq_true_iff.2 (h.imp_right fun hnumber => ?_)
  obtain ⟨n, hn⟩ := Option.isSome_iff_exists.1 hnumber
  exact Option.isSome_iff_exists.2 ⟨n, (Option.filter_eq_some_iff.1 hn).1⟩

/-- A host that only one side takes for an IPv4 address ends in a hexadecimal number
    beyond 64 bits. -/
theorem isOverlong_iff (host : List Char) : IsOverlong (lastLabel host) ↔
    Whatwg.endsInNumber host = true ∧ hostEndsInNumber host = false := by
  rw [hostEndsInNumber_eq, show Whatwg.endsInNumber host =
    ((!(lastLabel host).isEmpty && (lastLabel host).all Char.isDigit) ||
      (Whatwg.parseIPv4Number (lastLabel host)).isSome) from rfl]
  constructor
  · intro h
    obtain ⟨n, hn, hlarge⟩ := h.number
    have hdigits : (lastLabel host).all Char.isDigit = false := eq_false_of_ne_true h.not_digits
    rw [hn, hdigits, Bool.and_false, Option.filter_some, if_neg (by simpa using hlarge)]
    exact ⟨rfl, rfl⟩
  · rintro ⟨hjs, hgo⟩
    rw [Bool.or_eq_false_iff] at hgo
    rw [hgo.1, Bool.false_or] at hjs
    obtain ⟨n, hn⟩ := Option.isSome_iff_exists.1 hjs
    have hlarge : 2 ^ 64 ≤ n := by
      have := hgo.2
      rw [hn, Option.filter_some] at this
      by_contra hlt
      rw [if_pos (decide_eq_true (not_le.1 hlt))] at this
      cases this
    have hdigits : ¬ (lastLabel host).all Char.isDigit = true := by
      intro hall
      have hempty : (lastLabel host).isEmpty = true := by
        have := hgo.1
        rw [hall, Bool.and_true] at this
        simpa using this
      rw [List.isEmpty_iff.1 hempty] at hn
      cases hn
    obtain ⟨x, digits, hlabel, hx, hhex, rfl⟩ := hexadecimal_of_number hn hdigits
    exact ⟨x, digits, hlabel, hx, hhex, hlarge⟩

theorem mem_splitOn {c : Char} (hc : c ≠ '.') : ∀ {s : List Char}, c ∈ s →
    ∃ part ∈ s.splitOn '.', c ∈ part
  | d :: rest, h => by
    rw [List.splitOn, List.splitOnP_cons_eq_if_modifyHead]
    rcases List.mem_cons.1 h with rfl | h
    · rw [if_neg (by simpa using hc)]
      cases hparts : List.splitOnP (fun x => x == '.') rest with
      | nil => exact absurd hparts (List.splitOnP_ne_nil _ _)
      | cons first parts => exact ⟨c :: first, by simp⟩
    · obtain ⟨part, hpart, hmem⟩ := mem_splitOn hc h
      rw [List.splitOn] at hpart
      split
      · exact ⟨part, List.mem_cons_of_mem _ hpart, hmem⟩
      · cases hparts : List.splitOnP (fun x => x == '.') rest with
        | nil =>
          rw [hparts] at hpart
          cases hpart
        | cons first parts =>
          rw [hparts] at hpart
          rcases List.mem_cons.1 hpart with rfl | hpart
          · exact ⟨d :: part, by simp, List.mem_cons_of_mem _ hmem⟩
          · exact ⟨part, by simp [hpart], hmem⟩

/-- Every character but the dots stands in a label. -/
theorem mem_labels {c : Char} (hc : c ≠ '.') {s : List Char} (h : c ∈ s) :
    ∃ part ∈ Whatwg.labels s, c ∈ part := by
  obtain ⟨part, hpart, hmem⟩ := mem_splitOn hc h
  refine ⟨part, ?_, hmem⟩
  simp only [Whatwg.labels]
  split
  · next hdrop =>
    rw [Bool.and_eq_true, decide_eq_true_eq, decide_eq_true_eq] at hdrop
    obtain ⟨kept, last, heq⟩ := List.eq_nil_or_concat' (s.splitOn '.') |>.resolve_left (by
      intro hnil
      rw [hnil] at hpart
      cases hpart)
    rw [heq] at hpart hdrop ⊢
    rw [List.dropLast_concat]
    rcases List.mem_append.1 hpart with hpart | hpart
    · exact hpart
    · obtain rfl := List.mem_singleton.1 hpart
      rw [List.getLast?_concat] at hdrop
      rw [Option.some.inj hdrop.2] at hmem
      cases hmem
  · exact hpart

/-- A refused character is part of no number. -/
theorem parseIPv4Number_refused {part : List Char} {n : ℕ} {c : Char}
    (h : Whatwg.parseIPv4Number part = some n) (hc : c ∈ part) : isRefusedCharacter c = false := by
  have hdigit {d : Char} (hd : isHexDigit d = true) : isRefusedCharacter d = false := by
    refine Bool.eq_false_iff.2 fun href => ?_
    simp only [isRefusedCharacter, Bool.or_eq_true, decide_eq_true_eq] at href
    rcases href with (rfl | rfl) | rfl
    · cases hd
    · cases hd
    · cases hd
  by_cases hall : part.all Char.isDigit = true
  · exact hdigit (isHexDigit_of_isDigit (List.all_eq_true.1 hall c hc))
  · obtain ⟨x, digits, rfl, hx, hhex, -⟩ := hexadecimal_of_number h hall
    rcases List.mem_cons.1 hc with rfl | hc
    · rfl
    rcases List.mem_cons.1 hc with rfl | hc
    · rcases hx with rfl | rfl <;> rfl
    · exact hdigit (List.all_eq_true.1 hhex c hc)

theorem parseIPv4_refused {host : List Char} (h : host.any isRefusedCharacter = true) :
    (Whatwg.parseIPv4 host).isSome = false := by
  obtain ⟨c, hc, href⟩ := List.any_eq_true.1 h
  refine Bool.eq_false_iff.2 fun hsome => ?_
  have hdot : c ≠ '.' := by
    rintro rfl
    cases href
  obtain ⟨part, hpart, hmem⟩ := mem_labels hdot hc
  obtain ⟨n, hn, -⟩ := parseIPv4_part hsome hpart
  rw [parseIPv4Number_refused hn hmem] at href
  cases href

theorem parseIPv4_overlong {host : List Char} (h : IsOverlong (lastLabel host)) :
    (Whatwg.parseIPv4 host).isSome = false := by
  refine Bool.eq_false_iff.2 fun hsome => ?_
  obtain ⟨m, hm, hlarge⟩ := h.number
  have hpart : lastLabel host ∈ Whatwg.labels host := by
    rw [lastLabel, List.getLastD_eq_getLast?]
    cases hlast : (Whatwg.labels host).getLast? with
    | some part => exact List.mem_of_getLast? hlast
    | none =>
      rw [lastLabel, List.getLastD_eq_getLast?, hlast] at hm
      cases hm
  obtain ⟨n, hn, hsmall⟩ := parseIPv4_part hsome hpart
  rw [hm] at hn
  obtain rfl := Option.some.inj hn
  omega

/-! ## Domains -/

/-- A host outside brackets as `net/url` and the checks on top of it accept it. -/
def validHostText (host : List Char) : Bool :=
  !host.any NetUrl.shouldEscape && validWHATWGHost host host

variable (uts46 : List Char → Option (List Char))

/-- A host as the WHATWG host parser accepts it. -/
def isValidHostText (host : List Char) : Bool :=
  (Whatwg.parseHost uts46 host).any fun host => !host.isEmpty

/-- The host has a character that `net/url` refuses and the WHATWG parser keeps, or a last
    label whose number only the WHATWG parser reads. -/
def Slips (host : List Char) : Prop :=
  (host.any isRefusedCharacter = true ∧ Whatwg.endsInNumber host = false) ∨
    (host.any isRefusedCharacter = false ∧ IsOverlong (lastLabel host))

theorem forbidden_iff {c : Char} (hc : Printable c) :
    (c.toNat ≤ 0x1f || c.toNat = 0x7f || c ∈ forbiddenDomainCodePoints) =
      Whatwg.isForbiddenDomainCodePoint c :=
  printable_forall (P := fun c => (c.toNat ≤ 0x1f || c.toNat = 0x7f ||
    c ∈ forbiddenDomainCodePoints) = Whatwg.isForbiddenDomainCodePoint c) (by decide +kernel) hc

theorem shouldEscape_iff {c : Char} (hc : Printable c)
    (hforbidden : Whatwg.isForbiddenDomainCodePoint c = false) :
    NetUrl.shouldEscape c = isRefusedCharacter c :=
  printable_forall (P := fun c => Whatwg.isForbiddenDomainCodePoint c = false →
    NetUrl.shouldEscape c = isRefusedCharacter c) (by decide +kernel) hc hforbidden

theorem validWHATWGHost_eq {rawHost host : List Char} (h : ∀ c ∈ host, Printable c)
    (hbracket : rawHost.head? ≠ some '[') : validWHATWGHost rawHost host =
      (!host.any Whatwg.isForbiddenDomainCodePoint &&
        (!hostEndsInNumber host || (Whatwg.parseIPv4 host).isSome)) := by
  have hforbidden : (host.any fun c => c.toNat ≤ 0x1f || c.toNat = 0x7f ||
      c ∈ forbiddenDomainCodePoints) = host.any Whatwg.isForbiddenDomainCodePoint := by
    rw [Bool.eq_iff_iff, List.any_eq_true, List.any_eq_true]
    exact exists_congr fun c => and_congr_right fun hc => by rw [forbidden_iff (h c hc)]
  rw [validWHATWGHost, if_neg hbracket, hforbidden, validIPv4Host_eq]
  cases host.any Whatwg.isForbiddenDomainCodePoint with
  | true => rfl
  | false => cases hostEndsInNumber host <;> rfl

theorem validHostText_eq {host : List Char} (h : ∀ c ∈ host, Printable c)
    (hbracket : host.head? ≠ some '[') : validHostText host =
      (!host.any Whatwg.isForbiddenDomainCodePoint && (!host.any isRefusedCharacter &&
        (!hostEndsInNumber host || (Whatwg.parseIPv4 host).isSome))) := by
  rw [validHostText, validWHATWGHost_eq h hbracket]
  cases hany : host.any Whatwg.isForbiddenDomainCodePoint with
  | true => rw [Bool.not_true, Bool.false_and, Bool.and_false, Bool.false_and]
  | false =>
    have hescape : host.any NetUrl.shouldEscape = host.any isRefusedCharacter := by
      rw [Bool.eq_iff_iff, List.any_eq_true, List.any_eq_true]
      refine exists_congr fun c => and_congr_right fun hc => ?_
      rw [shouldEscape_iff (h c hc) (eq_false_of_ne_true (List.any_eq_false.1 hany c hc))]
    rw [hescape, Bool.not_false, Bool.true_and, Bool.true_and]

theorem isValidHostText_eq {host : List Char} (h : ∀ c ∈ host, Printable c) (hne : host ≠ [])
    (hpunycode : Whatwg.hasPunycodeLabel true host = false) (hbracket : host.head? ≠ some '[') :
    isValidHostText uts46 host = (!host.any Whatwg.isForbiddenDomainCodePoint &&
      (!Whatwg.endsInNumber host || (Whatwg.parseIPv4 host).isSome)) := by
  have hascii : host.all (fun c => c.toNat < 0x80) = true := by
    refine List.all_eq_true.2 fun c hc => decide_eq_true ?_
    have := (h c hc).2
    omega
  have hlower : (Whatwg.asciiLowercase host).isEmpty = false := by simpa [Whatwg.asciiLowercase]
  have hforbidden : (Whatwg.asciiLowercase host).any Whatwg.isForbiddenDomainCodePoint =
      host.any Whatwg.isForbiddenDomainCodePoint := by
    rw [Whatwg.asciiLowercase, List.any_map]
    exact congrArg host.any (funext isForbiddenDomainCodePoint_toLower)
  have hdomain : Whatwg.domainToASCII uts46 host = some (Whatwg.asciiLowercase host) := by
    rw [Whatwg.domainToASCII, hascii, hpunycode]
    rfl
  rw [isValidHostText, Whatwg.parseHost, if_neg hbracket, hdomain]
  simp only [Option.bind_eq_bind, Option.bind_some, hlower, hforbidden,
    endsInNumber_asciiLowercase, parseIPv4_asciiLowercase]
  cases host.any Whatwg.isForbiddenDomainCodePoint with
  | true => rfl
  | false =>
    cases Whatwg.endsInNumber host with
    | true => cases Whatwg.parseIPv4 host <;> rfl
    | false => simp [Whatwg.Host.isEmpty, hlower]

/-- On a host in printable ASCII without `xn--` labels, the two sides agree unless it slips. -/
theorem validHostText_iff {host : List Char} (h : ∀ c ∈ host, Printable c) (hne : host ≠ [])
    (hpunycode : Whatwg.hasPunycodeLabel true host = false) (hbracket : host.head? ≠ some '[') :
    validHostText host = isValidHostText uts46 host ↔
      ¬ (host.any Whatwg.isForbiddenDomainCodePoint = false ∧ Slips host) := by
  rw [validHostText_eq h hbracket, isValidHostText_eq uts46 h hne hpunycode hbracket, Slips,
    isOverlong_iff]
  have hrefused := @parseIPv4_refused host
  have hoverlong := fun h => parseIPv4_overlong ((isOverlong_iff host).2 h)
  have hnumber := @endsInNumber_of_host host
  generalize host.any Whatwg.isForbiddenDomainCodePoint = forbidden at *
  generalize host.any isRefusedCharacter = refused at *
  generalize Whatwg.endsInNumber host = ends at *
  generalize hostEndsInNumber host = hostEnds at *
  generalize (Whatwg.parseIPv4 host).isSome = isAddress at *
  revert hrefused hoverlong hnumber
  revert forbidden refused ends hostEnds isAddress
  decide

end Piik.Protocol
