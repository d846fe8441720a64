/-
  Fallible calls on a state, `ExceptT ε (StateM σ)`: the state they reached
  survives an error.  A triple of such a call speaks of its one run.
-/
import Mathlib

namespace Effect

open Std.Do

variable {ε σ α : Type} {m : ExceptT ε (StateM σ) α} {P : σ → Prop} {Q : α → σ → Prop}
  {E : ε → σ → Prop}

/-- What a triple says of a run. -/
theorem triple_iff : ⦃fun s => ⌜P s⌝⦄ m ⦃post⟨fun a s => ⌜Q a s⌝, fun e s => ⌜E e s⌝⟩⦄ ↔
    ∀ s, P s → match m.run.run s with
      | (.ok a, s') => Q a s'
      | (.error e, s') => E e s' := by
  refine Triple.iff.trans (forall_congr' fun s => imp_congr Iff.rfl ?_)
  have hwp : wp⟦m⟧ (post⟨fun a s => ⌜Q a s⌝, fun e s => ⌜E e s⌝⟩) s = (match m.run.run s with
      | (.ok a, s') => ⌜Q a s'⌝
      | (.error e, s') => ⌜E e s'⌝ : SPred []) := by
    simp only [WP.wp, PredTrans.apply_pushExcept, PredTrans.apply_pushArg,
      PredTrans.apply_Pure_pure, Id.run]
    rcases m.run.run s with ⟨_ | a, s'⟩
    · rfl
    · rfl
  rw [hwp]
  rcases m.run.run s with ⟨_ | a, s'⟩
  · exact Iff.rfl
  · exact Iff.rfl

/-- A triple of every state is a triple of each. -/
theorem run_ok (h : ⦃fun s => ⌜P s⌝⦄ m ⦃post⟨fun a s => ⌜Q a s⌝, fun e s => ⌜E e s⌝⟩⦄) {s s' : σ}
    {a : α} (hs : P s) (hr : m.run.run s = (.ok a, s')) : Q a s' := by
  have := triple_iff.1 h s hs
  rw [hr] at this
  exact this

theorem run_error (h : ⦃fun s => ⌜P s⌝⦄ m ⦃post⟨fun a s => ⌜Q a s⌝, fun e s => ⌜E e s⌝⟩⦄) {s s' : σ}
    {e : ε} (hs : P s) (hr : m.run.run s = (.error e, s')) : E e s' := by
  have := triple_iff.1 h s hs
  rw [hr] at this
  exact this

/-- Nothing is said of either outcome. -/
theorem triple_trivial : ⦃fun s => ⌜P s⌝⦄ m ⦃post⟨fun _ _ => ⌜True⌝, fun _ _ => ⌜True⌝⟩⦄ := by
  refine triple_iff.2 fun s _ => ?_
  rcases m.run.run s with ⟨_ | _, s'⟩
  · trivial
  · trivial

/-- A call that begins with a look at the state. -/
theorem run_get_bind (f : σ → ExceptT ε (StateM σ) α) (s : σ) :
    (get >>= f : ExceptT ε (StateM σ) α).run.run s = (f s).run.run s := rfl

theorem run_discard (s : σ) : (discard m : ExceptT ε (StateM σ) Unit).run.run s =
    ((m.run.run s).1.map fun _ => (), (m.run.run s).2) := by
  simp only [discard, Functor.discard, Functor.mapConst, Function.comp, ExceptT.map, ExceptT.mk,
    ExceptT.run, StateT.run]
  change (bind m _ : StateT σ Id (Except ε Unit)) s = _
  simp only [bind, StateT.bind]
  rcases m s with ⟨_ | _, s'⟩
  · rfl
  · rfl

end Effect
