/-
  Whole buckets: the values below `N` that are left when the incomplete last
  bucket of `n` is cut off, of which every residue has as many.
-/
import Mathlib

namespace Buckets

variable {N n m r v : ℕ}

/-- How many values fill whole buckets of `n`. -/
def whole (N n : ℕ) : ℕ := N - N % n

theorem whole_eq : whole N n = n * (N / n) := by
  have := Nat.div_add_mod N n
  rw [whole]
  omega

theorem dvd_whole : n ∣ whole N n := ⟨N / n, whole_eq⟩

theorem whole_le : whole N n ≤ N := Nat.sub_le ..

/-- No longer run of values fills whole buckets. -/
theorem le_whole (h : n ∣ m) (hm : m ≤ N) : m ≤ whole N n := by
  obtain ⟨q, rfl⟩ := h
  rcases Nat.eq_zero_or_pos n with rfl | hn
  · simp
  · rw [whole_eq]
    refine Nat.mul_le_mul_left n ((Nat.le_div_iff_mul_le hn).2 ?_)
    rwa [Nat.mul_comm]

/-- The values with one residue are one in each bucket. -/
theorem mem_residue (hr : r < n) : v < whole N n ∧ v % n = r ↔ ∃ q < N / n, v = n * q + r := by
  have hn : 0 < n := by omega
  rw [whole_eq]
  constructor
  · rintro ⟨hv, rfl⟩
    exact ⟨v / n, Nat.div_lt_of_lt_mul hv, (Nat.div_add_mod v n).symm⟩
  · rintro ⟨q, hq, rfl⟩
    have hnext : n * (q + 1) ≤ n * (N / n) := Nat.mul_le_mul_left n hq
    refine ⟨?_, by rw [Nat.mul_add_mod, Nat.mod_eq_of_lt hr]⟩
    rw [Nat.mul_add] at hnext
    omega

/-- Every residue has as many values. -/
theorem card_residue (hr : r < n) : Nat.card {v // v < whole N n ∧ v % n = r} = N / n := by
  have hn : 0 < n := by omega
  let place : Fin (N / n) → {v // v < whole N n ∧ v % n = r} := fun q =>
    ⟨n * q + r, (mem_residue hr).2 ⟨q, q.isLt, rfl⟩⟩
  have hplace : place.Bijective := by
    constructor
    · intro q q' h
      have heq : n * (q : ℕ) + r = n * q' + r := congrArg Subtype.val h
      exact Fin.ext (Nat.eq_of_mul_eq_mul_left hn (by omega))
    · rintro ⟨v, hv⟩
      obtain ⟨q, hq, rfl⟩ := (mem_residue hr).1 hv
      exact ⟨⟨q, hq⟩, rfl⟩
  rw [← Nat.card_eq_of_bijective place hplace, Nat.card_fin]

end Buckets
