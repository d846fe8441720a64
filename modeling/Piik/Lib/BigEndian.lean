/-
  Unsigned numbers as bytes, the most significant byte first.
-/
import Mathlib

namespace BigEndian

variable {n v : ℕ} {bytes : List UInt8}

/-- The lowest `n` bytes of a number. -/
def put : ℕ → ℕ → List UInt8
  | 0, _ => []
  | n + 1, v => put n (v / 256) ++ [UInt8.ofNat v]

/-- The number that bytes spell. -/
def uint (bytes : List UInt8) : ℕ := bytes.foldl (fun value b => value * 256 + b.toNat) 0

@[simp] theorem length_put : (put n v).length = n := by
  induction n generalizing v with
  | zero => rfl
  | succ n ih => simp [put, ih]

@[simp] theorem uint_snoc {b : UInt8} : uint (bytes ++ [b]) = uint bytes * 256 + b.toNat := by
  simp [uint]

theorem uint_put : uint (put n v) = v % 256 ^ n := by
  induction n generalizing v with
  | zero => simp [put, uint, Nat.mod_one]
  | succ n ih =>
    rw [put, uint_snoc, ih, UInt8.toNat_ofNat', pow_succ' 256 n, Nat.mod_mul]
    omega

theorem uint_put_of_lt (h : v < 256 ^ n) : uint (put n v) = v := by
  rw [uint_put, Nat.mod_eq_of_lt h]

theorem uint_lt : uint bytes < 256 ^ bytes.length := by
  induction bytes using List.reverseRecOn with
  | nil => simp [uint]
  | append_singleton bytes b ih =>
    have hb := b.toNat_lt
    rw [uint_snoc, List.length_append, List.length_singleton, Nat.pow_succ]
    omega

theorem put_uint : put bytes.length (uint bytes) = bytes := by
  induction bytes using List.reverseRecOn with
  | nil => rfl
  | append_singleton bytes b ih =>
    have hb := b.toNat_lt
    have hhigh : (uint bytes * 256 + b.toNat) / 256 = uint bytes := by omega
    have hlow : UInt8.ofNat (uint bytes * 256 + b.toNat) = b := by
      refine UInt8.toNat_inj.1 ?_
      rw [UInt8.toNat_ofNat']
      omega
    rw [uint_snoc, List.length_append, List.length_singleton, put, hhigh, hlow, ih]

theorem uint_inj {bytes' : List UInt8} (hlen : bytes.length = bytes'.length)
    (h : uint bytes = uint bytes') : bytes = bytes' := by
  have hback : put bytes.length (uint bytes) = bytes := put_uint
  rw [← hback, h, hlen, put_uint]

/-- As many texts of `n` bytes as numbers that they can spell. -/
theorem card_uint {P : ℕ → Prop} (hP : ∀ v, P v → v < 256 ^ n) :
    Nat.card {bytes : List UInt8 // bytes.length = n ∧ P (uint bytes)} = Nat.card {v // P v} := by
  let spell : {bytes : List UInt8 // bytes.length = n ∧ P (uint bytes)} → {v // P v} := fun bytes =>
    ⟨uint bytes, bytes.2.2⟩
  refine Nat.card_eq_of_bijective spell ⟨?_, ?_⟩
  · rintro ⟨bytes, hlen, _⟩ ⟨bytes', hlen', _⟩ h
    have heq : uint bytes = uint bytes' := congrArg Subtype.val h
    exact Subtype.ext (uint_inj (hlen.trans hlen'.symm) heq)
  · rintro ⟨v, hv⟩
    have hspell := uint_put_of_lt (hP v hv)
    exact ⟨⟨put n v, length_put, hspell.symm ▸ hv⟩, Subtype.ext hspell⟩

end BigEndian
