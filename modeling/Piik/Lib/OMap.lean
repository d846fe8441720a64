/-
  Insertion-ordered maps.

  An `OMap κ ν` is a list of key/value pairs without duplicate keys, in the
  order of first insertion: `set` on a present key keeps its position,
  `moveToBack` re-inserts it at the end, `delete` drops it.  The invariant is a
  field of the structure, so a map with two entries for a key cannot be built.

  The lemmas describe every operation by its effect on `get` and on `keys`.
-/
import Mathlib

/-- An insertion-ordered map. -/
structure OMap (κ ν : Type) where
  entries : List (κ × ν)
  nodup : (entries.map Prod.fst).Nodup

namespace OMap

variable {κ ν μ : Type}

@[ext]
theorem ext' {m m' : OMap κ ν} (h : m.entries = m'.entries) : m = m' := by
  cases m; cases m'; cases h; rfl

/-! ## Operations -/

/-- No entry. -/
def empty : OMap κ ν := ⟨[], List.nodup_nil⟩

instance : Inhabited (OMap κ ν) := ⟨empty⟩

/-- The keys in order. -/
def keys (m : OMap κ ν) : List κ := m.entries.map Prod.fst

/-- The values in order of their keys. -/
def values (m : OMap κ ν) : List ν := m.entries.map Prod.snd

/-- How many entries there are. -/
def len (m : OMap κ ν) : ℕ := m.entries.length

@[simp] theorem keys_empty : (empty : OMap κ ν).keys = [] := rfl

theorem nodup_keys (m : OMap κ ν) : m.keys.Nodup := m.nodup

@[simp] theorem length_keys (m : OMap κ ν) : m.keys.length = m.len := by simp [keys, len]

/-- Change every value in place. -/
def mapValues (m : OMap κ ν) (f : κ → ν → μ) : OMap κ μ where
  entries := m.entries.map fun e => (e.1, f e.1 e.2)
  nodup := by
    rw [List.map_map]; exact m.nodup

@[simp] theorem keys_mapValues (m : OMap κ ν) (f : κ → ν → μ) : (m.mapValues f).keys = m.keys := by
  simp [keys, mapValues, Function.comp_def]

theorem mapValues_id (m : OMap κ ν) : (m.mapValues fun _ v => v) = m :=
  ext' (List.map_id _)

theorem mapValues_mapValues {ρ : Type} (m : OMap κ ν) (f : κ → ν → μ) (g : κ → μ → ρ) :
    (m.mapValues f).mapValues g = m.mapValues fun k v => g k (f k v) := by
  refine ext' ?_
  simp [mapValues, Function.comp_def]

/-- The entries that pass. -/
def filter (m : OMap κ ν) (p : κ → ν → Bool) : OMap κ ν where
  entries := m.entries.filter fun e => p e.1 e.2
  nodup := m.nodup.sublist (List.filter_sublist.map Prod.fst)

/-- The total of a measure of the values. -/
def total (m : OMap κ ν) (f : ν → ℕ) : ℕ := (m.values.map f).sum

@[simp] theorem total_empty (f : ν → ℕ) : (empty : OMap κ ν).total f = 0 := rfl

theorem total_one (m : OMap κ ν) : m.total (fun _ => 1) = m.len := by
  simp [total, values, len, Function.comp_def]

theorem total_mapValues (m : OMap κ ν) (f : μ → ℕ) (g : ν → ℕ) (h : κ → ν → μ)
    (hf : ∀ k v, f (h k v) = g v) : (m.mapValues h).total f = m.total g := by
  simp only [total, values, mapValues, List.map_map]
  congr 1
  refine List.map_congr_left fun e _ => ?_
  exact hf e.1 e.2

variable [DecidableEq κ]

/-- The value stored under the first entry of `k`. -/
def lookup (k : κ) : List (κ × ν) → Option ν
  | [] => none
  | e :: es => if e.1 = k then some e.2 else lookup k es

/-- The value of a key. -/
def get (m : OMap κ ν) (k : κ) : Option ν := lookup k m.entries

/-- Whether the key is there. -/
def has (m : OMap κ ν) (k : κ) : Bool := (m.get k).isSome

/-- Change the value of a present key in place. -/
def modify (m : OMap κ ν) (k : κ) (f : ν → ν) : OMap κ ν where
  entries := m.entries.map fun e => if e.1 = k then (e.1, f e.2) else e
  nodup := by
    have h : (Prod.fst ∘ fun e : κ × ν => if e.1 = k then (e.1, f e.2) else e) = Prod.fst := by
      funext e; simp only [Function.comp]; split <;> rfl
    rw [List.map_map, h]; exact m.nodup

/-- The entries without the key. -/
def delete (m : OMap κ ν) (k : κ) : OMap κ ν := m.filter fun k' _ => k' ≠ k

theorem lookup_isSome {k : κ} {es : List (κ × ν)} :
    (lookup k es).isSome ↔ k ∈ es.map Prod.fst := by
  induction es with
  | nil => simp [lookup]
  | cons e es ih =>
    simp only [lookup, List.map_cons, List.mem_cons]
    split
    · next h => simp [h]
    · next h => simp [ih, Ne.symm h]

theorem has_iff {m : OMap κ ν} {k : κ} : m.has k ↔ k ∈ m.keys := lookup_isSome

/-- Append a key that is not present. -/
def append (m : OMap κ ν) (k : κ) (v : ν) (h : k ∉ m.keys) : OMap κ ν where
  entries := m.entries ++ [(k, v)]
  nodup := by
    rw [List.map_append, List.map_cons, List.map_nil]
    exact List.Nodup.append m.nodup (List.nodup_singleton k) (by simpa [List.disjoint_singleton, keys] using h)

/-- Store `v` under `k`: in place if `k` is present, at the end otherwise. -/
def set (m : OMap κ ν) (k : κ) (v : ν) : OMap κ ν :=
  if h : k ∈ m.keys then m.modify k fun _ => v else m.append k v h

/-- Delete and re-insert, as `map.delete(k); map.set(k, v)`. -/
def moveToBack (m : OMap κ ν) (k : κ) (v : ν) : OMap κ ν := (m.delete k).set k v

/-! ## Lookup after an operation -/

theorem lookup_map (f : κ × ν → κ × μ) (g : κ → ν → μ) (hf : ∀ e, f e = (e.1, g e.1 e.2)) (k : κ)
    (es : List (κ × ν)) : lookup k (es.map f) = (lookup k es).map (g k) := by
  induction es with
  | nil => rfl
  | cons e es ih =>
    simp only [List.map_cons, lookup, hf]
    split
    · next h => simp [h]
    · exact ih

@[simp] theorem get_empty (k : κ) : (empty : OMap κ ν).get k = none := rfl

theorem get_modify (m : OMap κ ν) (k k' : κ) (f : ν → ν) :
    (m.modify k f).get k' = if k' = k then (m.get k').map f else m.get k' := by
  simp only [get, modify]
  rw [lookup_map _ (fun k₀ v => if k₀ = k then f v else v)]
  · by_cases h : k' = k
    · simp [h]
    · simp [h]
  · rintro ⟨a, b⟩
    by_cases h : a = k <;> simp [h]

@[simp] theorem get_modify_self (m : OMap κ ν) (k : κ) (f : ν → ν) :
    (m.modify k f).get k = (m.get k).map f := by
  simp [get_modify]

theorem get_modify_of_ne (m : OMap κ ν) {k k' : κ} (f : ν → ν) (h : k' ≠ k) :
    (m.modify k f).get k' = m.get k' := by
  simp [get_modify, h]

@[simp] theorem get_mapValues (m : OMap κ ν) (f : κ → ν → μ) (k : κ) :
    (m.mapValues f).get k = (m.get k).map (f k) :=
  lookup_map _ f (fun _ => rfl) k m.entries

/-- Changing one value changes every value, most of them not at all. -/
theorem modify_eq_mapValues (m : OMap κ ν) (k : κ) (f : ν → ν) :
    m.modify k f = m.mapValues fun k' v => if k' = k then f v else v := by
  refine ext' (List.map_congr_left fun e _ => ?_)
  obtain ⟨k', v⟩ := e
  by_cases h : k' = k <;> simp [h]

theorem modify_modify (m : OMap κ ν) (k : κ) (f g : ν → ν) :
    (m.modify k f).modify k g = m.modify k (g ∘ f) := by
  refine ext' ?_
  simp only [modify, List.map_map]
  refine List.map_congr_left fun e _ => ?_
  obtain ⟨k', v⟩ := e
  by_cases h : k' = k <;> simp [h]

theorem lookup_eq_some {k : κ} {v : ν} {es : List (κ × ν)} (hn : (es.map Prod.fst).Nodup) :
    lookup k es = some v ↔ (k, v) ∈ es := by
  induction es with
  | nil => simp [lookup]
  | cons e es ih =>
    obtain ⟨k₀, v₀⟩ := e
    simp only [List.map_cons, List.nodup_cons] at hn
    simp only [lookup, List.mem_cons, Prod.mk.injEq]
    split
    · next h =>
      subst h
      constructor
      · rintro h; simp at h; simp [h]
      · rintro (h | h)
        · simp [h]
        · exact absurd (List.mem_map_of_mem (f := Prod.fst) h) hn.1
    · next h =>
      rw [ih hn.2]
      constructor
      · exact Or.inr
      · rintro (h' | h')
        · exact absurd h'.1.symm h
        · exact h'

theorem get_eq_some {m : OMap κ ν} {k : κ} {v : ν} : m.get k = some v ↔ (k, v) ∈ m.entries :=
  lookup_eq_some m.nodup

theorem get_eq_none {m : OMap κ ν} {k : κ} : m.get k = none ↔ k ∉ m.keys := by
  rw [← Option.not_isSome_iff_eq_none, get, lookup_isSome]; rfl

theorem mem_keys {m : OMap κ ν} {k : κ} : k ∈ m.keys ↔ ∃ v, m.get k = some v := by
  rw [← has_iff, has, Option.isSome_iff_exists]

theorem mem_values {m : OMap κ ν} {v : ν} : v ∈ m.values ↔ ∃ k, m.get k = some v := by
  simp only [values, List.mem_map, get_eq_some, Prod.exists]
  constructor
  · rintro ⟨k, v', h, rfl⟩; exact ⟨k, h⟩
  · rintro ⟨k, h⟩; exact ⟨k, v, h, rfl⟩

theorem get_filter (m : OMap κ ν) (p : κ → ν → Bool) (k : κ) :
    (m.filter p).get k = (m.get k).filter (p k) := by
  ext v
  simp only [get_eq_some, Option.filter_eq_some_iff]
  simp [filter]

@[simp] theorem get_delete (m : OMap κ ν) (k k' : κ) :
    (m.delete k).get k' = if k' = k then none else m.get k' := by
  rw [delete, get_filter]
  by_cases h : k' = k
  · simp [h]
  · simp only [h, if_false]
    cases m.get k' <;> simp [Option.filter, h]

theorem delete_eq_self {m : OMap κ ν} {k : κ} (h : m.get k = none) : m.delete k = m := by
  refine ext' (List.filter_eq_self.2 fun e he => ?_)
  have hk : e.1 ≠ k := fun hk => get_eq_none.1 h (hk ▸ List.mem_map.2 ⟨e, he, rfl⟩)
  simpa using hk

theorem lookup_append_of_not_mem {k : κ} {v : ν} {es : List (κ × ν)} (k' : κ)
    (h : k ∉ es.map Prod.fst) :
    lookup k' (es ++ [(k, v)]) = if k' = k then some v else lookup k' es := by
  induction es with
  | nil => simp [lookup, eq_comm]
  | cons e es ih =>
    simp only [List.map_cons, List.mem_cons, not_or] at h
    simp only [List.cons_append, lookup, ih h.2]
    by_cases h' : e.1 = k'
    · have : k' ≠ k := fun hk => h.1 (hk ▸ h'.symm)
      simp [h', this]
    · simp [h']

@[simp] theorem get_set (m : OMap κ ν) (k k' : κ) (v : ν) :
    (m.set k v).get k' = if k' = k then some v else m.get k' := by
  unfold set
  split
  · next h =>
    rw [get_modify]
    by_cases hk : k' = k
    · obtain ⟨w, hw⟩ := mem_keys.1 h
      simp [hk, hw]
    · simp [hk]
  · next h => exact lookup_append_of_not_mem k' h

@[simp] theorem get_moveToBack (m : OMap κ ν) (k k' : κ) (v : ν) :
    (m.moveToBack k v).get k' = if k' = k then some v else m.get k' := by
  simp only [moveToBack, get_set, get_delete]
  split <;> rfl

/-! ## Keys after an operation -/

@[simp] theorem keys_modify (m : OMap κ ν) (k : κ) (f : ν → ν) : (m.modify k f).keys = m.keys := by
  simp only [keys, modify, List.map_map]
  congr 1
  funext e
  simp only [Function.comp]
  split <;> rfl

theorem keys_set (m : OMap κ ν) (k : κ) (v : ν) :
    (m.set k v).keys = if k ∈ m.keys then m.keys else m.keys ++ [k] := by
  unfold set
  split
  · simp
  · simp [append, keys]

theorem keys_delete (m : OMap κ ν) (k : κ) : (m.delete k).keys = m.keys.filter (· ≠ k) := by
  simp [keys, delete, filter, List.filter_map, Function.comp_def]

/-! ## Counting entries -/

/-- The keys whose entry satisfies `P`. -/
def keysWhere (m : OMap κ ν) (P : κ → ν → Bool) : Finset κ :=
  ((m.entries.filter fun e => P e.1 e.2).map Prod.fst).toFinset

theorem mem_keysWhere {m : OMap κ ν} {P : κ → ν → Bool} {k : κ} :
    k ∈ m.keysWhere P ↔ ∃ v, m.get k = some v ∧ P k v := by
  simp only [keysWhere, List.mem_toFinset, List.mem_map, List.mem_filter, get_eq_some]
  constructor
  · rintro ⟨⟨k', v⟩, ⟨h, hp⟩, rfl⟩
    exact ⟨v, h, hp⟩
  · rintro ⟨v, h, hp⟩
    exact ⟨(k, v), ⟨h, hp⟩, rfl⟩

theorem card_keysWhere (m : OMap κ ν) (P : κ → ν → Bool) :
    (m.keysWhere P).card = (m.entries.filter fun e => P e.1 e.2).length := by
  have h : ((m.entries.filter fun e => P e.1 e.2).map Prod.fst).Nodup :=
    m.nodup.sublist (List.filter_sublist.map Prod.fst)
  rw [keysWhere, List.toFinset_card_of_nodup h, List.length_map]

/-! ## Totals -/

theorem total_lookup {k : κ} {v : ν} (f : ν → ℕ) : ∀ {es : List (κ × ν)}, (es.map Prod.fst).Nodup →
    lookup k es = some v →
    ((es.filter fun e => e.1 ≠ k).map fun e => f e.2).sum + f v = (es.map fun e => f e.2).sum
  | [], _, h => by cases h
  | e :: es, hn, h => by
    obtain ⟨he, hn⟩ := List.nodup_cons.1 hn
    unfold lookup at h
    by_cases hk : e.1 = k
    · rw [if_pos hk] at h
      cases h
      have hrest : es.filter (fun e => e.1 ≠ k) = es := by
        refine List.filter_eq_self.2 fun x hx => ?_
        have : x.1 ≠ k := fun hx' => he (hk ▸ hx' ▸ List.mem_map_of_mem hx)
        simpa using this
      rw [List.filter_cons_of_neg (by simp [hk]), hrest, List.map_cons, List.sum_cons]
      omega
    · rw [if_neg hk] at h
      have ih := total_lookup f hn h
      rw [List.filter_cons_of_pos (by simp [hk]), List.map_cons, List.sum_cons, List.map_cons,
        List.sum_cons]
      omega

/-- What a deleted value counted is gone. -/
theorem total_delete {m : OMap κ ν} {k : κ} {v : ν} (f : ν → ℕ) (h : m.get k = some v) :
    (m.delete k).total f + f v = m.total f := by
  have := total_lookup f m.nodup h
  simpa [total, values, delete, filter, Function.comp_def] using this

/-- A stored value counts, the one it replaces does not. -/
theorem total_set (m : OMap κ ν) (k : κ) (v : ν) (f : ν → ℕ) :
    (m.set k v).total f + ((m.get k).map f).getD 0 = m.total f + f v := by
  unfold set
  split
  · next h =>
    obtain ⟨w, hw⟩ := mem_keys.1 h
    have hget : (m.modify k fun _ => v).get k = some v := by simp [hw]
    have h₁ := total_delete f hw
    have h₂ := total_delete f hget
    have hsame : (m.modify k fun _ => v).delete k = m.delete k := by
      refine ext' ?_
      simp only [delete, filter, modify, List.filter_map]
      have hp : ((fun e : κ × ν => decide (e.1 ≠ k)) ∘ fun e => if e.1 = k then (e.1, v) else e) =
          fun e => decide (e.1 ≠ k) := by
        funext e
        simp only [Function.comp]
        split <;> simp_all
      rw [hp]
      refine (List.map_congr_left fun e he => ?_).trans (List.map_id _)
      have : e.1 ≠ k := by simpa using (List.mem_filter.1 he).2
      simp [this]
    rw [hsame] at h₂
    rw [hw]
    simp only [Option.map_some, Option.getD_some]
    omega
  · next h =>
    rw [get_eq_none.2 h]
    simp [total, values, append]

/-- Changing a present value is storing it. -/
theorem modify_eq_set {m : OMap κ ν} {k : κ} {v : ν} (h : m.get k = some v) (f : ν → ν) :
    m.modify k f = m.set k (f v) := by
  unfold set
  rw [dif_pos (mem_keys.2 ⟨v, h⟩)]
  refine ext' (List.map_congr_left fun e he => ?_)
  split
  · next hk =>
    have : m.get k = some e.2 := get_eq_some.2 (hk ▸ he)
    rw [h] at this
    cases this
    rfl
  · rfl

/-! ## Values after an operation -/

theorem entries_set_of_notMem {m : OMap κ ν} {k : κ} (h : k ∉ m.keys) (v : ν) :
    (m.set k v).entries = m.entries ++ [(k, v)] := by
  unfold set
  rw [dif_neg h]
  rfl

theorem values_set_of_notMem {m : OMap κ ν} {k : κ} (h : k ∉ m.keys) (v : ν) :
    (m.set k v).values = m.values ++ [v] := by
  simp [values, entries_set_of_notMem h]

theorem len_set_of_notMem {m : OMap κ ν} {k : κ} (h : k ∉ m.keys) (v : ν) :
    (m.set k v).len = m.len + 1 := by
  simp [len, entries_set_of_notMem h]

@[simp] theorem len_modify (m : OMap κ ν) (k : κ) (f : ν → ν) : (m.modify k f).len = m.len := by
  rw [← length_keys, keys_modify, length_keys]

omit [DecidableEq κ] in
theorem len_filter_le (m : OMap κ ν) (p : κ → ν → Bool) : (m.filter p).len ≤ m.len :=
  List.length_filter_le _ _

theorem len_delete_le (m : OMap κ ν) (k : κ) : (m.delete k).len ≤ m.len := m.len_filter_le _

theorem len_delete {m : OMap κ ν} {k : κ} (h : k ∈ m.keys) : (m.delete k).len + 1 = m.len := by
  obtain ⟨v, hv⟩ := mem_keys.1 h
  have := total_delete (fun _ => 1) hv
  rwa [total_one, total_one] at this

theorem values_modify_map {ρ : Type} {m : OMap κ ν} {k : κ} {f : ν → ν} {g : ν → ρ} {h : ρ → ρ}
    (hk : ∀ v, m.get k = some v → g (f v) = h (g v))
    (hne : ∀ k' v, m.get k' = some v → k' ≠ k → g v = h (g v)) :
    (m.modify k f).values.map g = (m.values.map g).map h := by
  simp only [values, modify, List.map_map]
  refine List.map_congr_left fun e he => ?_
  have hget : m.get e.1 = some e.2 := get_eq_some.2 he
  simp only [Function.comp]
  split
  · next heq => exact hk e.2 (heq ▸ hget)
  · next hn => exact hne e.1 e.2 hget hn

theorem values_delete_map {ρ : Type} {m : OMap κ ν} {k : κ} {g : ν → ρ} {p : ρ → Bool}
    (hp : ∀ k' v, m.get k' = some v → (p (g v) = true ↔ k' ≠ k)) :
    (m.delete k).values.map g = (m.values.map g).filter p := by
  simp only [values, delete, filter, List.map_map, List.filter_map]
  congr 1
  refine List.filter_congr fun e he => ?_
  have := hp e.1 e.2 (get_eq_some.2 he)
  by_cases hk : e.1 = k
  · simpa [hk] using this
  · simpa [hk] using this

/-- Deleting several keys leaves the others. -/
theorem keys_foldl_delete (ks : List κ) : ∀ m : OMap κ ν,
    (ks.foldl delete m).keys = m.keys.filter (· ∉ ks) := by
  induction ks with
  | nil => intro m; simp
  | cons k ks ih =>
    intro m
    rw [List.foldl_cons, ih, keys_delete, List.filter_filter]
    refine List.filter_congr fun a _ => ?_
    simp [Bool.and_comm]

theorem get_foldl_delete {ks : List κ} : ∀ {m : OMap κ ν} {k : κ} {v : ν},
    (ks.foldl delete m).get k = some v → m.get k = some v := by
  induction ks with
  | nil => intro m k v h; exact h
  | cons k' ks ih =>
    intro m k v h
    have h := ih h
    rw [get_delete] at h
    split at h
    · cases h
    · exact h

theorem len_foldl_delete_le (ks : List κ) : ∀ m : OMap κ ν, (ks.foldl delete m).len ≤ m.len := by
  induction ks with
  | nil => intro m; exact le_refl _
  | cons k ks ih => intro m; exact (ih _).trans (m.len_delete_le k)

end OMap

/-- The stable sort of a list by a strict order. -/
def List.sortStable {α : Type} (less : α → α → Bool) (l : List α) : List α :=
  l.insertionSort fun a b => !less b a

theorem List.mem_sortStable {α : Type} {less : α → α → Bool} {l : List α} {a : α} :
    a ∈ l.sortStable less ↔ a ∈ l :=
  (List.perm_insertionSort _ l).mem_iff

/-- Sorting by a key is sorting the keys. -/
theorem List.map_sortStable {α β : Type} [LinearOrder β] {less : α → α → Bool} {key : α → β}
    {l : List α} (h : ∀ a ∈ l, ∀ b ∈ l, less a b = decide (key a < key b)) :
    (l.sortStable less).map key = (l.map key).insertionSort (· ≤ ·) := by
  refine List.map_insertionSort _ _ key l fun a ha b hb => ?_
  simp [h b hb a ha]

/-- What comes late among fewer elements comes late among more of them. -/
theorem List.drop_sortStable_subset {α β : Type} [LinearOrder β] {less less' : α → α → Bool}
    {key : α → β} (hkey : Function.Injective key) {l l' : List α}
    (h : ∀ a ∈ l, ∀ b ∈ l, less a b = decide (key a < key b))
    (h' : ∀ a ∈ l', ∀ b ∈ l', less' a b = decide (key a < key b)) (hl : List.Subperm l' l)
    {k k' : ℕ} (hk : k ≤ k') :
    (l'.sortStable less').drop k' ⊆ (l.sortStable less).drop k := by
  intro a ha
  have hsub : List.Sublist ((l'.map key).insertionSort (· ≤ ·)) ((l.map key).insertionSort (· ≤ ·)) :=
    List.sublist_insertionSort' (List.pairwise_insertionSort _ _)
      (((List.perm_insertionSort _ _).subperm).trans (hl.map hkey))
  have hdrop := (List.drop_sublist_drop_left _ hk).trans (hsub.drop k)
  rw [← List.map_sortStable h, ← List.map_sortStable h', ← List.map_drop, ← List.map_drop] at hdrop
  obtain ⟨b, hb, hab⟩ := List.mem_map.1 (hdrop.subset (List.mem_map_of_mem ha))
  exact hkey hab ▸ hb
