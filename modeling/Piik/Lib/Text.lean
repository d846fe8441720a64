/-
  Texts as lists of characters: cutting at the first or the last occurrence of a
  character, and the numbers that digits spell.
-/
import Mathlib

namespace Text

variable {c : Char} {l before after : List Char}

/-! ## Cutting -/

/-- What stands before and after the first occurrence. -/
def cut (c : Char) : List Char → Option (List Char × List Char)
  | [] => none
  | x :: rest => if x = c then some ([], rest) else
    (cut c rest).map fun p => (x :: p.1, p.2)

/-- What stands before and after the last occurrence. -/
def cutLast (c : Char) : List Char → Option (List Char × List Char)
  | [] => none
  | x :: rest => match cutLast c rest with
    | some p => some (x :: p.1, p.2)
    | none => if x = c then some ([], rest) else none

theorem cut_eq_none : cut c l = none ↔ c ∉ l := by
  induction l with
  | nil => simp [cut]
  | cons x rest ih =>
    by_cases hx : x = c
    · simp [cut, hx]
    · simp [cut, hx, ih, Ne.symm hx]

theorem cut_eq_some : cut c l = some (before, after) ↔ l = before ++ c :: after ∧ c ∉ before := by
  induction l generalizing before with
  | nil => simp [cut]
  | cons x rest ih =>
    by_cases hx : x = c
    · subst hx
      cases before with
      | nil => simp [cut]
      | cons y ys =>
        constructor
        · simp [cut]
        · rintro ⟨heq, hmem⟩
          exact absurd (List.mem_cons.2 (.inl (List.cons.inj heq).1)) hmem
    · cases before with
      | nil =>
        constructor
        · simp [cut, hx]
        · rintro ⟨heq, -⟩
          exact absurd (List.cons.inj heq).1 hx
      | cons y ys =>
        simp only [cut, hx, if_false, Option.map_eq_some_iff, Prod.mk.injEq, Prod.exists,
          List.cons.injEq, List.cons_append, List.mem_cons, not_or]
        constructor
        · rintro ⟨a, b, hcut, ⟨rfl, rfl⟩, rfl⟩
          obtain ⟨rfl, hmem⟩ := ih.1 hcut
          exact ⟨⟨rfl, rfl⟩, Ne.symm hx, hmem⟩
        · rintro ⟨⟨rfl, rfl⟩, -, hmem⟩
          exact ⟨ys, after, ih.2 ⟨rfl, hmem⟩, ⟨rfl, rfl⟩, rfl⟩

theorem cutLast_eq_none : cutLast c l = none ↔ c ∉ l := by
  induction l with
  | nil => simp [cutLast]
  | cons x rest ih =>
    cases hrest : cutLast c rest with
    | some p =>
      have hmem : c ∈ rest := by
        by_contra hmem
        rw [ih.2 hmem] at hrest
        cases hrest
      simp [cutLast, hrest, hmem]
    | none =>
      have hmem : c ∉ rest := ih.1 hrest
      by_cases hx : x = c
      · simp [cutLast, hrest, hx]
      · simp [cutLast, hrest, hx, hmem, Ne.symm hx]

theorem cutLast_eq_some :
    cutLast c l = some (before, after) ↔ l = before ++ c :: after ∧ c ∉ after := by
  induction l generalizing before after with
  | nil => simp [cutLast]
  | cons x rest ih =>
    cases hrest : cutLast c rest with
    | some p =>
      obtain ⟨b, a⟩ := p
      obtain ⟨rfl, hmem⟩ := ih.1 hrest
      simp only [cutLast, hrest, Option.some.injEq, Prod.mk.injEq]
      constructor
      · rintro ⟨rfl, rfl⟩
        exact ⟨rfl, hmem⟩
      · rintro ⟨heq, hafter⟩
        cases before with
        | nil =>
          obtain ⟨-, rfl⟩ := List.cons.inj heq
          exact absurd (by simp) hafter
        | cons y ys =>
          obtain ⟨rfl, htail⟩ := List.cons.inj heq
          have := ih.2 ⟨htail, hafter⟩
          rw [hrest] at this
          obtain ⟨rfl, rfl⟩ := Prod.mk.inj (Option.some.inj this)
          exact ⟨rfl, rfl⟩
    | none =>
      have hnone : c ∉ rest := cutLast_eq_none.1 hrest
      by_cases hx : x = c
      · subst hx
        simp only [cutLast, hrest, if_true, Option.some.injEq, Prod.mk.injEq]
        constructor
        · rintro ⟨rfl, rfl⟩
          exact ⟨rfl, hnone⟩
        · rintro ⟨heq, -⟩
          cases before with
          | nil => exact ⟨rfl, (List.cons.inj heq).2⟩
          | cons y ys =>
            obtain ⟨-, rfl⟩ := List.cons.inj heq
            exact absurd (by simp) hnone
      · simp only [cutLast, hrest, hx, if_false, reduceCtorEq, false_iff]
        rintro ⟨heq, -⟩
        cases before with
        | nil => exact hx (List.cons.inj heq).1
        | cons y ys =>
          obtain ⟨-, rfl⟩ := List.cons.inj heq
          exact hnone (by simp)

/-! ## Numbers -/

/-- The value of a digit in the radices up to sixteen, or more than any of them. -/
def radixDigit (c : Char) : ℕ :=
  if '0' ≤ c ∧ c ≤ '9' then c.toNat - '0'.toNat
  else if 'a' ≤ c ∧ c ≤ 'f' then c.toNat - 'a'.toNat + 10
  else if 'A' ≤ c ∧ c ≤ 'F' then c.toNat - 'A'.toNat + 10
  else 99

/-- The number that digits spell. -/
def number (radix : ℕ) (digits : List Char) : ℕ :=
  digits.foldl (fun value c => value * radix + radixDigit c) 0

/-- The radix that the prefix announces (`0x`, `0`, or none) and the digits after it. -/
def radixPrefix : List Char → ℕ × List Char
  | '0' :: 'x' :: digits => (16, digits)
  | '0' :: 'X' :: digits => (16, digits)
  | '0' :: c :: digits => (8, c :: digits)
  | digits => (10, digits)

/-- A digit in radix 16. -/
def isHexDigit (c : Char) : Bool := radixDigit c < 16

end Text
