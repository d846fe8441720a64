/-
  Runs of steps that take and return tokens.

  A step relation `R b b' a r s s'` goes from `s` to `s'`, takes the tokens `a`
  from the outside and returns the tokens `r` to it.  It also sees, and may
  raise, a mark: `b` says whether the mark is up before the step, `b'` after.

  `Chain R` is the reflexive and transitive closure, with the tokens of the
  steps concatenated in order; `Runs R` forgets the mark.
-/
import Mathlib

universe u v

variable {α : Type u} {σ : Type v}

/-- A finite sequence of steps. -/
inductive Chain (R : Bool → Bool → List α → List α → σ → σ → Prop) :
    Bool → Bool → List α → List α → σ → σ → Prop
  | refl (b : Bool) (s : σ) : Chain R b b [] [] s s
  | head {b b₁ b₂ : Bool} {a a' r r' : List α} {s s₁ s₂ : σ} :
      R b b₁ a r s s₁ → Chain R b₁ b₂ a' r' s₁ s₂ → Chain R b b₂ (a ++ a') (r ++ r') s s₂

/-- Steps whatever the mark says. -/
def Runs (R : Bool → Bool → List α → List α → σ → σ → Prop) (a r : List α) (s s' : σ) : Prop :=
  ∀ b, ∃ b', Chain R b b' a r s s'

variable {R R' : Bool → Bool → List α → List α → σ → σ → Prop}
variable {b b₁ b₂ : Bool} {a a' r r' : List α} {s s₁ s₂ : σ}

namespace Chain

theorem single (h : R b b₁ a r s s₁) : Chain R b b₁ a r s s₁ := by
  simpa using head h (refl b₁ s₁)

theorem trans (h : Chain R b b₁ a r s s₁) (h' : Chain R b₁ b₂ a' r' s₁ s₂) :
    Chain R b b₂ (a ++ a') (r ++ r') s s₂ := by
  induction h with
  | refl => simpa using h'
  | head hd _ ih => simpa only [List.append_assoc] using head hd (ih h')

/-- Followed by a run without tokens. -/
theorem quiet (h : Chain R b b₁ a r s s₁) (h' : Chain R b₁ b₂ [] [] s₁ s₂) :
    Chain R b b₂ a r s s₂ := by
  simpa using h.trans h'

theorem mono (hR : ∀ {b b₁ a r s s₁}, R b b₁ a r s s₁ → R' b b₁ a r s s₁)
    (h : Chain R b b₁ a r s s₁) : Chain R' b b₁ a r s s₁ := by
  induction h with
  | refl b s => exact refl b s
  | head hd _ ih => exact head (hR hd) ih

/-- What every step preserves, a run preserves. -/
theorem invariant {P : σ → Prop} (hR : ∀ {b b₁ a r s s₁}, R b b₁ a r s s₁ → P s → P s₁)
    (h : Chain R b b₁ a r s s₁) (hs : P s) : P s₁ := by
  induction h with
  | refl => exact hs
  | head hd _ ih => exact ih (hR hd hs)

/-- A run without the mark at its end keeps what every unmarked step keeps. -/
theorem unmarked {β : Type*} {f : σ → β}
    (hR : ∀ {b b₁ a r s s₁}, R b b₁ a r s s₁ → b₁ = false → b = false ∧ f s₁ = f s)
    (h : Chain R b b₁ a r s s₁) (hb : b₁ = false) : b = false ∧ f s₁ = f s := by
  induction h with
  | refl => exact ⟨hb, rfl⟩
  | head hd _ ih =>
    obtain ⟨h₁, h₂⟩ := ih hb
    obtain ⟨h₃, h₄⟩ := hR hd h₁
    exact ⟨h₃, h₂.trans h₄⟩

end Chain

namespace Runs

theorem refl (s : σ) : Runs R [] [] s s := fun b => ⟨b, .refl b s⟩

theorem of_eq (h : s₁ = s) : Runs R [] [] s s₁ := by
  subst h; exact refl _

theorem single (h : ∀ b, ∃ b₁, R b b₁ a r s s₁) : Runs R a r s s₁ := fun b =>
  let ⟨b₁, h₁⟩ := h b
  ⟨b₁, .single h₁⟩

theorem trans (h : Runs R a r s s₁) (h' : Runs R a' r' s₁ s₂) : Runs R (a ++ a') (r ++ r') s s₂ := by
  intro b
  obtain ⟨b₁, h₁⟩ := h b
  obtain ⟨b₂, h₂⟩ := h' b₁
  exact ⟨b₂, h₁.trans h₂⟩

/-- Followed by a run without tokens. -/
theorem quiet (h : Runs R a r s s₁) (h' : Runs R [] [] s₁ s₂) : Runs R a r s s₂ := by
  simpa using h.trans h'

/-- The tokens up to an equation. -/
theorem cast (h : Runs R a r s s₁) (ha : a = a') (hr : r = r') : Runs R a' r' s s₁ :=
  ha ▸ hr ▸ h

theorem mono (hR : ∀ {b b₁ a r s s₁}, R b b₁ a r s s₁ → R' b b₁ a r s s₁)
    (h : Runs R a r s s₁) : Runs R' a r s s₁ := fun b =>
  let ⟨b₁, h₁⟩ := h b
  ⟨b₁, h₁.mono hR⟩

end Runs
