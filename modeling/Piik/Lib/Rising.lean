/-
  Logs whose keys rise: what is taken in rising order out of what was made in
  rising order was taken in that order, and once.
-/
import Mathlib

/-- The keys of the list rise up to a bound. -/
structure Rising {α : Type} (key : α → ℕ) (l : List α) (top : ℕ) : Prop where
  rising : (l.map key).Pairwise (· < ·)
  below : ∀ a ∈ l, key a ≤ top

namespace Rising

variable {α β : Type} {key : α → ℕ} {l l' : List α} {top top' : ℕ} {a : α}

@[simp] theorem nil : Rising key [] top := ⟨List.Pairwise.nil, by simp⟩

theorem mono (h : Rising key l top) (hle : top ≤ top') : Rising key l top' :=
  ⟨h.rising, fun a ha => (h.below a ha).trans hle⟩

theorem snoc (h : Rising key l top) (hlt : top < key a) : Rising key (l ++ [a]) (key a) where
  rising := by
    rw [List.map_append, List.pairwise_append]
    refine ⟨h.rising, by simp, ?_⟩
    intro n hn m hm
    obtain ⟨b, hb, rfl⟩ := List.mem_map.1 hn
    rw [List.map_cons, List.map_nil, List.mem_singleton] at hm
    exact hm ▸ lt_of_le_of_lt (h.below b hb) hlt
  below := by
    intro b hb
    rcases List.mem_append.1 hb with hb | hb
    · exact (h.below b hb).trans hlt.le
    · rw [List.mem_singleton.1 hb]

theorem filter (h : Rising key l top) (p : α → Bool) : Rising key (l.filter p) top :=
  ⟨h.rising.sublist (List.filter_sublist.map key), fun a ha => h.below a (List.mem_filter.1 ha).1⟩

theorem map {f : α → β} {key' : β → ℕ} (h : Rising key l top) (hf : ∀ a, key' (f a) = key a) :
    Rising key' (l.map f) top := by
  refine ⟨?_, ?_⟩
  · have hkeys : key' ∘ f = key := funext hf
    rw [List.map_map, hkeys]
    exact h.rising
  · intro b hb
    obtain ⟨a, ha, rfl⟩ := List.mem_map.1 hb
    rw [hf]
    exact h.below a ha

/-- What is taken out of a list, in rising order, is a part of it. -/
theorem sublist (h : Rising key l top) (h' : Rising key l' top') (hsub : l ⊆ l') : l.Sublist l' := by
  have hpairs : l.Pairwise fun a b => key a < key b := List.pairwise_map.1 h.rising
  have hpairs' : l'.Pairwise fun a b => key a < key b := List.pairwise_map.1 h'.rising
  have hnodup : l.Nodup := hpairs.imp fun hlt heq => absurd (heq ▸ hlt) (lt_irrefl _)
  have hanti : Std.Antisymm fun a b : α => key a < key b := ⟨fun a b hlt hgt => absurd hlt hgt.asymm⟩
  exact List.sublist_of_subperm_of_pairwise (List.subperm_of_subset hnodup hsub) hpairs hpairs'

end Rising
