/-
  Anchored patterns of character classes, each read once or at least once, and
  what an encoding of the characters makes of them.
-/
import Mathlib

namespace Pattern

variable {α β : Type}

/-- A class, read once or as often as one likes. -/
inductive Item (α : Type)
  | one (p : α → Bool)
  | many (p : α → Bool)

/-- The text begins with what the items spell. -/
def matchesAt : List (Item α) → List α → Bool
  | [], _ => true
  | _ :: _, [] => false
  | .one p :: items, c :: cs => p c && matchesAt items cs
  | .many p :: items, c :: cs => p c && (matchesAt items cs || matchesAt (.many p :: items) cs)

variable {items : List (Item α)} {p q : α → Bool} {c : α} {cs : List α}

@[simp] theorem matchesAt_nil : matchesAt [] cs = true := by simp [matchesAt]

@[simp] theorem matchesAt_one : matchesAt (.one p :: items) (c :: cs) = (p c && matchesAt items cs) := by
  simp [matchesAt]

/-- One class takes either of two. -/
theorem matchesAt_or (before : List (Item α)) (hbefore : ∀ item ∈ before, ∃ p, item = .one p) :
    matchesAt (before ++ .one (fun c => p c || q c) :: items) cs =
      (matchesAt (before ++ .one p :: items) cs || matchesAt (before ++ .one q :: items) cs) := by
  induction before generalizing cs with
  | nil =>
    cases cs with
    | nil => rfl
    | cons c cs => simp [Bool.and_or_distrib_right]
  | cons item before ih =>
    obtain ⟨r, rfl⟩ := hbefore item (List.mem_cons_self ..)
    cases cs with
    | nil => rfl
    | cons c cs =>
      simp only [List.cons_append, matchesAt_one, ih fun item h => hbefore item (List.mem_cons_of_mem _ h),
        Bool.and_or_distrib_left]

/-- Two patterns that part at a class read the same character there. -/
theorem matchesAt_both (before : List (Item α)) (hbefore : ∀ item ∈ before, ∃ p, item = .one p)
    (hp : matchesAt (before ++ .one p :: items) cs = true)
    (hq : matchesAt (before ++ .one q :: items) cs = true) : ∃ c, p c = true ∧ q c = true := by
  induction before generalizing cs with
  | nil =>
    cases cs with
    | nil => cases hp
    | cons c cs =>
      rw [List.nil_append, matchesAt_one, Bool.and_eq_true] at hp hq
      exact ⟨c, hp.1, hq.1⟩
  | cons item before ih =>
    obtain ⟨r, rfl⟩ := hbefore item (List.mem_cons_self ..)
    cases cs with
    | nil => cases hp
    | cons c cs =>
      rw [List.cons_append, matchesAt_one, Bool.and_eq_true] at hp hq
      exact ih (fun item h => hbefore item (List.mem_cons_of_mem _ h)) hp.2 hq.2

/-! ## Encodings -/

section Encode

variable {encode : α → List β}

/-- The classes take a character and its encoding alike: an accepted character is one
    unit, and of the others no first unit is accepted. -/
def Agree (encode : α → List β) (p : α → Bool) (q : β → Bool) : Prop :=
  ∀ c, ∃ u us, encode c = u :: us ∧ q u = p c ∧ (p c = true → us = [])

/-- The same shape, with classes that agree. -/
inductive Encoded (encode : α → List β) : List (Item α) → List (Item β) → Prop
  | nil : Encoded encode [] []
  | one {p : α → Bool} {q : β → Bool} {items : List (Item α)} {items' : List (Item β)} :
    Agree encode p q → Encoded encode items items' → Encoded encode (.one p :: items) (.one q :: items')
  | many {p : α → Bool} {q : β → Bool} {items : List (Item α)} {items' : List (Item β)} :
    Agree encode p q → Encoded encode items items' → Encoded encode (.many p :: items) (.many q :: items')

theorem matchesAt_encode {items : List (Item α)} {items' : List (Item β)} (h : Encoded encode items items')
    (cs : List α) : matchesAt items' (cs.flatMap encode) = matchesAt items cs := by
  induction h generalizing cs with
  | nil => simp
  | @one p q items items' hagree _ ih =>
    cases cs with
    | nil => rfl
    | cons c cs =>
      obtain ⟨u, us, hu, hq, hus⟩ := hagree c
      rw [List.flatMap_cons, hu, List.cons_append, matchesAt_one, matchesAt_one, hq]
      cases hp : p c with
      | false => rfl
      | true => rw [hus hp, List.nil_append, ih]
  | @many p q items items' hagree _ ih =>
    induction cs with
    | nil => rfl
    | cons c cs ihcs =>
      obtain ⟨u, us, hu, hq, hus⟩ := hagree c
      rw [List.flatMap_cons, hu, List.cons_append, matchesAt, matchesAt, hq]
      cases hp : p c with
      | false => rfl
      | true => rw [hus hp, List.nil_append, ih, ihcs]

/-- A literal, class by class. -/
theorem encoded_map_append {γ : Type} {p : γ → α → Bool} {q : γ → β → Bool} {items : List (Item α)}
    {items' : List (Item β)} {l : List γ} (hagree : ∀ x ∈ l, Agree encode (p x) (q x))
    (h : Encoded encode items items') :
    Encoded encode (l.map (fun x => .one (p x)) ++ items) (l.map (fun x => .one (q x)) ++ items') := by
  induction l with
  | nil => exact h
  | cons x l ih =>
    exact .one (hagree x (List.mem_cons_self ..)) (ih fun y hy => hagree y (List.mem_cons_of_mem _ hy))

end Encode

end Pattern
