/-
  The ordered map refines the reference map: under every sequence of calls and
  nested loops it never panics and gives the same answers.

  A position of the slice and an index of the reference correspond when the same
  entries lie ahead of them.  Compaction only happens when no loop runs, so only
  the two starts have to correspond then.
-/
import Piik.Ordered.Map

namespace Piik.Ordered

/-! ## What lies ahead -/

section
variable {K V : Type}

/-- The entries that are not deleted. -/
def pairs (es : List (Entry K V)) : List (K × V) :=
  (es.filter fun e => !e.deleted).map fun e => (e.key, e.value)

@[simp] theorem pairs_nil : pairs ([] : List (Entry K V)) = [] := rfl

@[simp] theorem pairs_cons (e : Entry K V) (es : List (Entry K V)) :
    pairs (e :: es) = if e.deleted then pairs es else (e.key, e.value) :: pairs es := by
  cases h : e.deleted <;> simp [pairs, h]

@[simp] theorem pairs_append (es es' : List (Entry K V)) :
    pairs (es ++ es') = pairs es ++ pairs es' := by
  simp [pairs]

theorem pairs_filter (es : List (Entry K V)) :
    pairs (es.filter fun e => !e.deleted) = pairs es := by
  simp [pairs]

theorem mem_pairs {es : List (Entry K V)} {x : K × V} :
    x ∈ pairs es ↔ ∃ e ∈ es, e.deleted = false ∧ (e.key, e.value) = x := by
  simp [pairs, and_assoc]

/-- The same entries lie ahead of both positions. -/
structure Ahead (es : List (Entry K V)) (js : List (Option (K × V))) (p q : ℕ) : Prop where
  left : p ≤ es.length
  right : q ≤ js.length
  same : pairs (es.drop p) = (js.drop q).reduceOption

variable {es es' : List (Entry K V)} {js js' : List (Option (K × V))} {p q : ℕ}

/-- A change of every entry where it stands. -/
theorem Ahead.map (h : Ahead es js p q) {f : Entry K V → Entry K V}
    {g : Option (K × V) → Option (K × V)} {T : List (K × V) → List (K × V)}
    (hf : ∀ es, pairs (es.map f) = T (pairs es))
    (hg : ∀ js : List (Option (K × V)), (js.map g).reduceOption = T js.reduceOption) :
    Ahead (es.map f) (js.map g) p q := by
  constructor
  · simpa using h.left
  · simpa using h.right
  · rw [← List.map_drop, ← List.map_drop, hf, hg, h.same]

/-- An entry is appended. -/
theorem Ahead.append (h : Ahead es js p q) (k : K) (v : V) :
    Ahead (es ++ [{ key := k, value := v }]) (js ++ [some (k, v)]) p q := by
  constructor
  · rw [List.length_append]
    exact Nat.le_add_right_of_le h.left
  · rw [List.length_append]
    exact Nat.le_add_right_of_le h.right
  · rw [List.drop_append_of_le_length h.left, List.drop_append_of_le_length h.right, pairs_append,
      List.reduceOption_append, h.same]
    rfl

theorem seek_spec (es : List (Entry K V)) (p : ℕ) :
    match Map.seek es p with
    | some (x, p') => ∃ n, p' = p + n + 1 ∧ n < es.length ∧ pairs es = x :: pairs (es.drop (n + 1))
    | none => pairs es = [] := by
  induction es generalizing p with
  | nil => simp [Map.seek]
  | cons e es ih =>
    unfold Map.seek
    by_cases hd : e.deleted
    · rw [if_pos hd]
      have := ih (p + 1)
      split at this
      · next x p' hs =>
        obtain ⟨n, hp, hn, heq⟩ := this
        refine ⟨n + 1, by omega, by simpa using hn, ?_⟩
        simpa [hd] using heq
      · next hs =>
        simpa [hd] using this
    · rw [if_neg hd]
      exact ⟨0, rfl, by simp, by simp [hd]⟩

theorem jsSeek_spec (js : List (Option (K × V))) (q : ℕ) :
    match JsMap.seek js q with
    | some (x, q') => ∃ n, q' = q + n + 1 ∧ n < js.length ∧
        js.reduceOption = x :: (js.drop (n + 1)).reduceOption
    | none => js.reduceOption = [] := by
  induction js generalizing q with
  | nil => simp [JsMap.seek]
  | cons e js ih =>
    cases e with
    | none =>
      have := ih (q + 1)
      simp only [JsMap.seek]
      split at this
      · next x q' hs =>
        obtain ⟨n, hq, hn, heq⟩ := this
        refine ⟨n + 1, by omega, by simpa using hn, ?_⟩
        simpa using heq
      · next hs =>
        simpa using this
    | some x =>
      simp only [JsMap.seek]
      exact ⟨0, rfl, by simp, by simp⟩

/-- Corresponding loops go to the same entry, or both end. -/
theorem Ahead.seek (h : Ahead es js p q) :
    (∃ x p' q', Map.seek (es.drop p) p = some (x, p') ∧ JsMap.seek (js.drop q) q = some (x, q') ∧
      Ahead es js p' q') ∨
    (Map.seek (es.drop p) p = none ∧ JsMap.seek (js.drop q) q = none) := by
  have he := seek_spec (es.drop p) p
  have hj := jsSeek_spec (js.drop q) q
  have hsame := h.same
  cases hes : Map.seek (es.drop p) p with
  | none =>
    cases hjs : JsMap.seek (js.drop q) q with
    | none => exact .inr ⟨rfl, rfl⟩
    | some r =>
      simp only [hes, hjs] at he hj
      obtain ⟨n, -, -, heq⟩ := hj
      rw [hsame, heq] at he
      cases he
  | some r =>
    cases hjs : JsMap.seek (js.drop q) q with
    | none =>
      simp only [hes, hjs] at he hj
      obtain ⟨n, -, -, heq⟩ := he
      rw [hsame, hj] at heq
      cases heq
    | some r' =>
      obtain ⟨x, p'⟩ := r
      obtain ⟨x', q'⟩ := r'
      simp only [hes, hjs] at he hj
      obtain ⟨n, rfl, hn, heq⟩ := he
      obtain ⟨n', rfl, hn', heq'⟩ := hj
      rw [List.length_drop] at hn hn'
      rw [hsame, heq', List.drop_drop, List.drop_drop] at heq
      obtain ⟨rfl, hrest⟩ := List.cons.inj heq
      refine .inl ⟨_, _, _, rfl, rfl, ⟨by omega, by omega, ?_⟩⟩
      rw [Nat.add_assoc p, Nat.add_assoc q]
      exact hrest.symm

end

variable {K V : Type} [DecidableEq K]

/-! ## The index -/

/-- The index gives the place of every key that is not deleted. -/
def Indexed (es : List (Entry K V)) (index : Option (OMap K ℕ)) : Prop :=
  ∀ k p, (index.bind fun ix => ix.get k) = some p ↔
    ∃ e, es[p]? = some e ∧ e.deleted = false ∧ e.key = k

/-- Change the entry of a key. -/
def touch (k : K) (f : Entry K V → Entry K V) (e : Entry K V) : Entry K V :=
  if e.deleted = false ∧ e.key = k then f e else e

variable {es : List (Entry K V)} {index : Option (OMap K ℕ)}

/-- What is written through the index is the entry of the key. -/
theorem Indexed.set_eq (h : Indexed es index) {k : K} {p : ℕ} {e : Entry K V}
    (hp : (index.bind fun ix => ix.get k) = some p) (he : es[p]? = some e)
    (f : Entry K V → Entry K V) : es.set p (f e) = es.map (touch k f) := by
  obtain ⟨e', he', hlive, hkey⟩ := (h k p).1 hp
  rw [he] at he'
  cases he'
  refine List.ext_getElem? fun q => ?_
  rw [List.getElem?_map, List.getElem?_set]
  by_cases hq : p = q
  · subst hq
    obtain ⟨hlt, rfl⟩ := List.getElem?_eq_some_iff.1 he
    simp [hlt, touch, hlive, hkey]
  · rw [if_neg hq]
    cases hq' : es[q]? with
    | none => rfl
    | some d =>
      have : ¬ (d.deleted = false ∧ d.key = k) := by
        rintro ⟨hd, hk⟩
        have := (h k q).2 ⟨d, hq', hd, hk⟩
        rw [hp] at this
        exact hq (Option.some.inj this)
      simp [touch, this]

theorem Indexed.found (h : Indexed es index) {k : K} {p : ℕ}
    (hp : (index.bind fun ix => ix.get k) = some p) :
    ∃ e, es[p]? = some e ∧ e.deleted = false ∧ e.key = k := (h k p).1 hp

theorem Indexed.mem_iff (h : Indexed es index) (k : K) :
    (index.bind fun ix => ix.get k).isSome ↔ k ∈ (pairs es).map Prod.fst := by
  rw [Option.isSome_iff_exists]
  constructor
  · rintro ⟨p, hp⟩
    obtain ⟨e, he, hlive, rfl⟩ := h.found hp
    exact List.mem_map.2 ⟨(e.key, e.value), mem_pairs.2 ⟨e, List.mem_of_getElem? he, hlive, rfl⟩, rfl⟩
  · intro hk
    obtain ⟨x, hx, rfl⟩ := List.mem_map.1 hk
    obtain ⟨e, he, hlive, rfl⟩ := mem_pairs.1 hx
    obtain ⟨p, hp⟩ := List.getElem?_of_mem he
    exact ⟨p, (h e.key p).2 ⟨e, hp, hlive, rfl⟩⟩

/-- No key is in use twice. -/
theorem Indexed.nodup (h : Indexed es index) : ((pairs es).map Prod.fst).Nodup := by
  have hpair : es.Pairwise fun d e => d.deleted = false → e.deleted = false → d.key ≠ e.key := by
    rw [List.pairwise_iff_getElem]
    intro i j hi hj hij hd he hk
    have h₁ := (h es[i].key i).2 ⟨es[i], List.getElem?_eq_getElem hi, hd, rfl⟩
    have h₂ := (h es[i].key j).2 ⟨es[j], List.getElem?_eq_getElem hj, he, hk.symm⟩
    rw [h₁] at h₂
    have := Option.some.inj h₂
    omega
  have hkeys : (pairs es).map Prod.fst = (es.filter fun e => !e.deleted).map Entry.key := by
    simp [pairs, Function.comp_def]
  rw [hkeys]
  unfold List.Nodup
  rw [List.pairwise_map]
  refine (hpair.sublist List.filter_sublist).imp_of_mem fun {d e} hd he hde => ?_
  exact hde (by simpa using (List.mem_filter.1 hd).2) (by simpa using (List.mem_filter.1 he).2)

theorem Indexed.len_eq {ix : OMap K ℕ} (h : Indexed es (some ix)) : ix.len = (pairs es).length := by
  have hperm : ix.keys.Perm ((pairs es).map Prod.fst) := by
    refine (List.perm_ext_iff_of_nodup ix.nodup_keys h.nodup).2 fun k => ?_
    rw [← h.mem_iff k]
    exact OMap.has_iff.symm
  rw [← OMap.length_keys, hperm.length_eq, List.length_map]

theorem Indexed.start : Indexed ([] : List (Entry K V)) none := by
  intro k p
  simp

/-- A new key goes to the end. -/
theorem Indexed.append (h : Indexed es index) {k : K}
    (hk : (index.bind fun ix => ix.get k) = none) (v : V) :
    Indexed (es ++ [{ key := k, value := v }])
      (some ((index.getD .empty).set k es.length)) := by
  have hget : ∀ k', (index.getD .empty).get k' = index.bind fun ix => ix.get k' := by
    intro k'
    cases index <;> rfl
  intro k' p
  show ((index.getD .empty).set k es.length).get k' = some p ↔ _
  rw [OMap.get_set, hget]
  by_cases hkk : k' = k
  · subst hkk
    rw [if_pos rfl]
    constructor
    · rintro ⟨⟩
      exact ⟨{ key := k', value := v }, by simp, rfl, rfl⟩
    · rintro ⟨e, he, hlive, hkey⟩
      rcases Nat.lt_or_ge p es.length with hlt | hge
      · rw [List.getElem?_append_left hlt] at he
        have := (h k' p).2 ⟨e, he, hlive, hkey⟩
        rw [hk] at this
        cases this
      · have := (List.getElem?_eq_some_iff.1 he).1
        rw [List.length_append, List.length_singleton] at this
        rw [show p = es.length by omega]
  · rw [if_neg hkk, h k' p]
    constructor
    · rintro ⟨e, he, hrest⟩
      exact ⟨e, (List.getElem?_append_left (List.getElem?_eq_some_iff.1 he).1).trans he, hrest⟩
    · rintro ⟨e, he, hlive, hkey⟩
      rcases Nat.lt_or_ge p es.length with hlt | hge
      · exact ⟨e, (List.getElem?_append_left hlt).symm.trans he, hlive, hkey⟩
      · rw [List.getElem?_append_right hge, List.getElem?_singleton] at he
        split at he
        · cases he
          exact absurd hkey.symm hkk
        · cases he

/-- A value is written in place. -/
theorem Indexed.rewrite (h : Indexed es index) (k : K) (v : V) :
    Indexed (es.map (touch k fun e => { e with value := v })) index := by
  intro k' p
  rw [h k' p, List.getElem?_map]
  cases hp : es[p]? with
  | none => simp
  | some e =>
    simp only [Option.map_some, Option.some.injEq, exists_eq_left']
    unfold touch
    split <;> rfl

/-- A deleted key is out of the index, and its entry is a tombstone. -/
theorem Indexed.delete [Inhabited V] (h : Indexed es index) (k : K) :
    Indexed (es.map (touch k Map.Entry.bury)) (index.map fun ix => ix.delete k) := by
  have hget : ∀ k', ((index.map fun ix => ix.delete k).bind fun ix => ix.get k') =
      if k' = k then none else index.bind fun ix => ix.get k' := by
    intro k'
    cases index with
    | none => simp
    | some ix => simp
  intro k' p
  rw [hget, List.getElem?_map]
  by_cases hk : k' = k
  · subst hk
    rw [if_pos rfl]
    refine iff_of_false (by simp) ?_
    rintro ⟨e', he', hlive, hkey⟩
    cases hp : es[p]? with
    | none => simp [hp] at he'
    | some e =>
      rw [hp] at he'
      cases he'
      unfold touch at hlive hkey
      split at hlive
      · cases hlive
      · next hn =>
        rw [if_neg hn] at hkey
        exact hn ⟨hlive, hkey⟩
  · rw [if_neg hk, h k' p]
    cases hp : es[p]? with
    | none => simp
    | some e =>
      simp only [Option.map_some, Option.some.injEq, exists_eq_left']
      unfold touch
      split
      · next hl =>
        refine iff_of_false ?_ ?_
        · rintro ⟨-, hkey⟩
          exact hk (hkey.symm.trans hl.2)
        · rintro ⟨hlive, -⟩
          cases hlive
      · rfl

/-- Where `compact` stands: the index is right for the keys that were moved. -/
def Moving (es : List (Entry K V)) (index : Option (OMap K ℕ)) (live : List (Entry K V)) : Prop :=
  ∀ k p, (index.bind fun ix => ix.get k) = some p ∧ k ∉ (pairs es).map Prod.fst ↔
    ∃ e, live[p]? = some e ∧ e.deleted = false ∧ e.key = k

theorem compactLoop_spec (es : List (Entry K V)) {index : Option (OMap K ℕ)}
    {live : List (Entry K V)} (hm : Moving es index live) (hn : ((pairs es).map Prod.fst).Nodup)
    (hindex : index.isSome ∨ pairs es = []) :
    ∃ index', Map.compactLoop es index live =
        some (index', live ++ es.filter fun e => !e.deleted) ∧
      Indexed (live ++ es.filter fun e => !e.deleted) index' := by
  induction es generalizing index live with
  | nil =>
    refine ⟨index, by simp [Map.compactLoop], fun k p => ?_⟩
    simpa using hm k p
  | cons e es ih =>
    unfold Map.compactLoop
    by_cases hd : e.deleted
    · rw [if_pos hd]
      simp only [Moving, pairs_cons, if_pos hd] at hm hn hindex
      simpa [hd] using ih hm hn hindex
    · rw [if_neg hd]
      simp only [Moving, pairs_cons, if_neg hd, List.map_cons, List.nodup_cons] at hm hn hindex
      cases index with
      | none => simp at hindex
      | some ix =>
        have hm' : Moving es (some (ix.set e.key live.length)) (live ++ [e]) := by
          intro k p
          show (ix.set e.key live.length).get k = some p ∧ _ ↔ _
          rw [OMap.get_set]
          have hkp := hm k p
          simp only [Option.bind_some, List.mem_cons, not_or] at hkp
          by_cases hk : k = e.key
          · subst hk
            rw [if_pos rfl]
            constructor
            · rintro ⟨⟨⟩, -⟩
              exact ⟨e, by simp, by simpa using hd, rfl⟩
            · rintro ⟨e', he', hlive, hkey⟩
              rcases Nat.lt_or_ge p live.length with hlt | hge
              · rw [List.getElem?_append_left hlt] at he'
                exact absurd rfl (hkp.2 ⟨e', he', hlive, hkey⟩).2.1
              · have := (List.getElem?_eq_some_iff.1 he').1
                rw [List.length_append, List.length_singleton] at this
                exact ⟨by rw [show p = live.length by omega], hn.1⟩
          · rw [if_neg hk]
            constructor
            · rintro ⟨hget, hout⟩
              obtain ⟨e', he', hrest⟩ := hkp.1 ⟨hget, hk, hout⟩
              exact ⟨e', (List.getElem?_append_left (List.getElem?_eq_some_iff.1 he').1).trans he',
                hrest⟩
            · rintro ⟨e', he', hlive, hkey⟩
              rcases Nat.lt_or_ge p live.length with hlt | hge
              · rw [List.getElem?_append_left hlt] at he'
                obtain ⟨hget, -, hout⟩ := hkp.2 ⟨e', he', hlive, hkey⟩
                exact ⟨hget, hout⟩
              · rw [List.getElem?_append_right hge, List.getElem?_singleton] at he'
                split at he'
                · cases he'
                  exact absurd hkey.symm hk
                · cases he'
        obtain ⟨index', hloop, hindexed⟩ := ih hm' hn.2 (.inl rfl)
        refine ⟨index', ?_, ?_⟩
        · dsimp only
          rw [hloop]
          simp [hd]
        · simpa [hd] using hindexed

/-! ## The simulation -/

/-- The map stands for the reference map. -/
structure Agrees (m : Map K V) (j : JsMap K V) : Prop where
  indexed : Indexed m.entries m.index
  iterating : m.iterating = m.loops.length
  start : Ahead m.entries j.entries 0 0
  length : m.loops.length = j.loops.length
  loops : ∀ i p q : ℕ, m.loops[i]? = some p → j.loops[i]? = some q → Ahead m.entries j.entries p q

/-- What the call of both maps gives. -/
def Matches (r : Option (MapAnswer K V × Map K V)) (r' : MapAnswer K V × JsMap K V) : Prop :=
  ∃ m', r = some (r'.1, m') ∧ Agrees m' r'.2

variable {m : Map K V} {j : JsMap K V}

theorem Agrees.new : Agrees ({} : Map K V) ({} : JsMap K V) where
  indexed := .start
  iterating := rfl
  start := ⟨Nat.le_refl 0, Nat.le_refl 0, rfl⟩
  length := rfl
  loops := by simp

theorem Agrees.live_eq (h : Agrees m j) : pairs m.entries = j.live := h.start.same

theorem find_of_mem {l : List (K × V)} (hn : (l.map Prod.fst).Nodup) {x : K × V} (hx : x ∈ l) :
    l.find? (fun e => e.1 = x.1) = some x := by
  induction l with
  | nil => cases hx
  | cons e l ih =>
    obtain ⟨he, hn⟩ := List.nodup_cons.1 hn
    rcases List.mem_cons.1 hx with rfl | hx
    · simp
    · have hne : e.1 ≠ x.1 := fun h => he (h ▸ List.mem_map_of_mem hx)
      rw [List.find?_cons_of_neg (by simpa using hne)]
      exact ih hn hx

theorem Agrees.position_some (h : Agrees m j) {k : K} {p : ℕ} (hp : m.position k = some p) :
    ∃ e, m.entries[p]? = some e ∧ j.get k = some e.value := by
  obtain ⟨e, he, hlive, rfl⟩ := h.indexed.found hp
  refine ⟨e, he, ?_⟩
  have hmem : (e.key, e.value) ∈ j.live := by
    rw [← h.live_eq]
    exact mem_pairs.2 ⟨e, List.mem_of_getElem? he, hlive, rfl⟩
  have hn : (j.live.map Prod.fst).Nodup := h.live_eq ▸ h.indexed.nodup
  unfold JsMap.get
  rw [find_of_mem hn hmem]
  rfl

theorem Agrees.position_none (h : Agrees m j) {k : K} (hp : m.position k = none) :
    k ∉ j.live.map Prod.fst ∧ j.get k = none := by
  have hout : k ∉ j.live.map Prod.fst := by
    rw [← h.live_eq, ← h.indexed.mem_iff k]
    have : (m.index.bind fun ix => ix.get k) = none := hp
    simp [this]
  refine ⟨hout, ?_⟩
  unfold JsMap.get
  rw [Option.map_eq_none_iff, List.find?_eq_none]
  intro x hx hk
  exact hout (List.mem_map.2 ⟨x, hx, by simpa using hk⟩)

theorem Agrees.has_eq (h : Agrees m j) (k : K) : m.has k = j.has k := by
  unfold Map.has JsMap.has
  cases hp : m.position k with
  | none => rw [(h.position_none hp).2]; rfl
  | some p =>
    obtain ⟨e, -, hget⟩ := h.position_some hp
    rw [hget]
    rfl

theorem Agrees.get_eq (h : Agrees m j) (k : K) : m.get k = some (j.get k) := by
  unfold Map.get
  cases hp : m.position k with
  | none => rw [(h.position_none hp).2]
  | some p =>
    obtain ⟨e, he, hget⟩ := h.position_some hp
    simp only
    rw [he, hget]
    rfl

theorem Agrees.len_eq (h : Agrees m j) : m.len = j.live.length := by
  rw [← h.live_eq]
  have hi := h.indexed
  unfold Map.len
  cases hix : m.index with
  | none =>
    rw [hix] at hi
    have : pairs m.entries = [] := by
      refine List.eq_nil_iff_forall_not_mem.2 fun x hx => ?_
      have := (hi.mem_iff x.1).2 (List.mem_map_of_mem hx)
      simp at this
    rw [this]
    rfl
  | some ix =>
    rw [hix] at hi
    exact hi.len_eq

/-- The entries of both maps change alike; the loops stay where they are. -/
theorem Agrees.map (h : Agrees m j) {f : Entry K V → Entry K V}
    {g : Option (K × V) → Option (K × V)} {T : List (K × V) → List (K × V)}
    (hf : ∀ es, pairs (es.map f) = T (pairs es))
    (hg : ∀ js : List (Option (K × V)), (js.map g).reduceOption = T js.reduceOption)
    {index : Option (OMap K ℕ)} (hi : Indexed (m.entries.map f) index) (deleted : Int) :
    Agrees { m with entries := m.entries.map f, index, deleted }
      { j with entries := j.entries.map g } :=
  ⟨hi, h.iterating, h.start.map hf hg, h.length, fun i p q hp hq => (h.loops i p q hp hq).map hf hg⟩

/-- **Compaction changes nothing that a loop or a caller can see.** -/
theorem Agrees.compact (h : Agrees m j) : ∃ m', m.compact = some m' ∧ Agrees m' j := by
  unfold Map.compact
  split_ifs with hkeep
  · exact ⟨m, rfl, h⟩
  · simp only [not_or] at hkeep
    have hnone : m.loops = [] := by
      have := h.iterating
      exact List.length_eq_zero_iff.1 (by omega)
    have hjnone : j.loops = [] := by
      have := h.length
      rw [hnone] at this
      exact List.length_eq_zero_iff.1 this.symm
    have hm : Moving m.entries m.index [] := by
      intro k p
      refine iff_of_false ?_ (by simp)
      rintro ⟨hget, hout⟩
      exact hout ((h.indexed.mem_iff k).1 (by simp [hget]))
    have hindex : m.index.isSome ∨ pairs m.entries = [] := by
      cases hix : m.index with
      | some ix => exact .inl rfl
      | none =>
        have := h.len_eq
        rw [Map.len, hix, ← h.live_eq] at this
        exact .inr (List.length_eq_zero_iff.1 this.symm)
    obtain ⟨index', hloop, hindexed⟩ := compactLoop_spec m.entries hm h.indexed.nodup hindex
    rw [hloop]
    refine ⟨_, rfl, hindexed, h.iterating, ⟨Nat.zero_le _, Nat.zero_le _, ?_⟩, h.length, ?_⟩
    · have := h.start.same
      simpa [pairs_filter] using this
    · intro i p q hp
      rw [show ({ m with
        index := index', entries := _, deleted := 0 } : Map K V).loops = [] from hnone] at hp
      simp at hp

/-! ## Calls -/

/-- The entry of one key changes. -/
theorem pairs_touch {k : K} {f : Entry K V → Entry K V} {T : List (K × V) → List (K × V)}
    (hnil : T [] = []) (hcons : ∀ e l, e.deleted = false →
      T ((e.key, e.value) :: l) = pairs [if e.key = k then f e else e] ++ T l)
    (es : List (Entry K V)) : pairs (es.map (touch k f)) = T (pairs es) := by
  induction es with
  | nil => simp [hnil]
  | cons e es ih =>
    rw [List.map_cons, ← List.singleton_append, pairs_append, ih]
    cases hd : e.deleted with
    | true => simp [touch, hd]
    | false =>
      have hlive : pairs (e :: es) = (e.key, e.value) :: pairs es := by simp [hd]
      rw [hlive, hcons e _ hd]
      simp [touch, hd]

theorem Agrees.set (h : Agrees m j) (k : K) (v : V) :
    ∃ m', m.set k v = some m' ∧ Agrees m' (j.set k v) := by
  have hhas := h.has_eq k
  unfold Map.set JsMap.set
  cases hp : m.position k with
  | none =>
    have hnot : ¬ j.has k := by
      rw [← hhas]
      simp [Map.has, hp]
    rw [if_neg hnot]
    refine ⟨_, rfl, h.indexed.append hp v, h.iterating, h.start.append k v, h.length, ?_⟩
    intro i p q hi hj
    exact (h.loops i p q hi hj).append k v
  | some p =>
    have hhas' : j.has k := by
      rw [← hhas]
      simp [Map.has, hp]
    obtain ⟨e, he, -⟩ := h.position_some hp
    simp only [he, if_pos hhas']
    have hset := h.indexed.set_eq hp he fun e => { e with value := v }
    rw [hset]
    refine ⟨_, rfl, h.map (T := fun l => l.map fun x => if x.1 = k then (x.1, v) else x)
      (fun es => ?_) (fun js => ?_) (h.indexed.rewrite k v) m.deleted⟩
    · refine pairs_touch rfl (fun e l hd => ?_) es
      by_cases hk : e.key = k <;> simp [hk, hd]
    · induction js with
      | nil => rfl
      | cons x js ih => cases x <;> simp_all

variable [Inhabited V]

theorem Agrees.delete (h : Agrees m j) (k : K) :
    ∃ m', m.delete k = some (j.has k, m') ∧ Agrees m' (j.delete k) := by
  have hhas := h.has_eq k
  unfold Map.delete JsMap.delete
  cases hp : m.position k with
  | none =>
    have hnot : j.has k = false := by
      rw [← hhas]
      simp [Map.has, hp]
    have hsame : (j.entries.map <| Option.filter fun e => e.1 ≠ k) = j.entries := by
      refine (List.map_congr_left fun x hx => ?_).trans (List.map_id _)
      cases x with
      | none => rfl
      | some x =>
        have hx : x.1 ≠ k := by
          rintro rfl
          exact (h.position_none hp).1 (List.mem_map_of_mem (List.reduceOption_mem_iff.2 hx))
        simp [Option.filter, hx]
    rw [hsame, hnot]
    exact ⟨m, rfl, h⟩
  | some p =>
    have hhas' : j.has k = true := by
      rw [← hhas]
      simp [Map.has, hp]
    obtain ⟨e, he, -⟩ := h.position_some hp
    simp only [he, hhas']
    have hset := h.indexed.set_eq hp he Map.Entry.bury
    rw [hset]
    have hburied : Agrees { m with
        entries := m.entries.map (touch k Map.Entry.bury)
        index := m.index.map fun ix => ix.delete k, deleted := m.deleted + 1 }
        { j with entries := j.entries.map <| Option.filter fun e => e.1 ≠ k } := by
      refine h.map (T := fun l => l.filter fun x => x.1 ≠ k) (fun es => ?_) (fun js => ?_)
        (h.indexed.delete k) (m.deleted + 1)
      · refine pairs_touch rfl (fun e l hd => ?_) es
        by_cases hk : e.key = k <;> simp [hk, hd, Map.Entry.bury]
      · induction js with
        | nil => rfl
        | cons x js ih =>
          cases x with
          | none => simpa using ih
          | some x => by_cases hk : x.1 = k <;> simp_all [Option.filter]
    obtain ⟨m', hm', ha⟩ := hburied.compact
    exact ⟨m', by rw [hm']; rfl, ha⟩

theorem Agrees.clear (h : Agrees m j) : ∃ m', m.clear = some m' ∧ Agrees m' j.clear := by
  have hnil : ∀ es : List (Entry K V),
      pairs (es.map fun e => if e.deleted then e else Map.Entry.bury e) = [] := by
    intro es
    induction es with
    | nil => rfl
    | cons e es ih => cases hd : e.deleted <;> simp_all [Map.Entry.bury]
  refine Agrees.compact (h.map (T := fun _ => []) hnil (fun js => ?_) ?_ _)
  · induction js with
    | nil => rfl
    | cons x js ih => simp
  · intro k p
    refine iff_of_false nofun ?_
    rintro ⟨e, he, hlive, rfl⟩
    have hmem : (e.key, e.value) ∈ pairs (m.entries.map fun e =>
        if e.deleted then e else Map.Entry.bury e) :=
      mem_pairs.2 ⟨e, List.mem_of_getElem? he, hlive, rfl⟩
    rw [hnil] at hmem
    cases hmem

omit [Inhabited V] in
theorem Agrees.finish (h : Agrees m j) {i : ℕ} (hi : i < m.loops.length) :
    ∃ m', m.finish i = some m' ∧ Agrees m' { j with loops := j.loops.eraseIdx i } := by
  refine Agrees.compact (m := { m with
    iterating := m.iterating - 1, loops := m.loops.eraseIdx i }) ⟨h.indexed, ?_, h.start, ?_, ?_⟩
  · have := h.iterating
    show m.iterating - 1 = ((m.loops.eraseIdx i).length : Int)
    rw [List.length_eraseIdx, if_pos hi]
    omega
  · show (m.loops.eraseIdx i).length = (j.loops.eraseIdx i).length
    rw [List.length_eraseIdx, List.length_eraseIdx, h.length]
  · intro i' p q hp hq
    replace hp : (m.loops.eraseIdx i)[i']? = some p := hp
    replace hq : (j.loops.eraseIdx i)[i']? = some q := hq
    rw [List.getElem?_eraseIdx] at hp hq
    split at hp
    · next hlt =>
      rw [if_pos hlt] at hq
      exact h.loops i' p q hp hq
    · next hge =>
      rw [if_neg hge] at hq
      exact h.loops (i' + 1) p q hp hq

omit [Inhabited V] in
theorem Agrees.next (h : Agrees m j) (i : ℕ) : Matches (m.next i) (j.next i) := by
  unfold Map.next JsMap.next
  cases hp : m.loops[i]? with
  | none =>
    have hq : j.loops[i]? = none := by
      rw [List.getElem?_eq_none_iff] at hp ⊢
      rwa [← h.length]
    rw [hq]
    exact ⟨m, rfl, h⟩
  | some p =>
    have hlt : i < m.loops.length := (List.getElem?_eq_some_iff.1 hp).1
    obtain ⟨q, hq⟩ : ∃ q, j.loops[i]? = some q :=
      ⟨_, List.getElem?_eq_getElem (h.length ▸ hlt)⟩
    rw [hq]
    rcases (h.loops i p q hp hq).seek with ⟨x, p', q', hes, hjs, hahead⟩ | ⟨hes, hjs⟩
    · simp only [hes, hjs]
      refine ⟨_, rfl, h.indexed, ?_, h.start, ?_, ?_⟩
      · simpa using h.iterating
      · simpa using h.length
      · intro i' p₁ q₁ hp₁ hq₁
        replace hp₁ : (m.loops.set i p')[i']? = some p₁ := hp₁
        replace hq₁ : (j.loops.set i q')[i']? = some q₁ := hq₁
        rw [List.getElem?_set] at hp₁ hq₁
        split at hp₁
        · next hii =>
          subst hii
          rw [if_pos rfl, if_pos (h.length ▸ hlt)] at hq₁
          cases hp₁
          cases hq₁
          exact hahead
        · next hii =>
          rw [if_neg hii] at hq₁
          exact h.loops i' p₁ q₁ hp₁ hq₁
    · simp only [hes, hjs]
      obtain ⟨m', hm', ha⟩ := h.finish hlt
      exact ⟨m', by rw [hm']; rfl, ha⟩

/-- **A call of the map answers as the reference does.** -/
theorem Agrees.step (h : Agrees m j) (a : MapAct K V) : Matches (m.step a) (j.step a) := by
  cases a with
  | get k => exact ⟨m, by simp [Map.step, JsMap.step, h.get_eq k], h⟩
  | has k => exact ⟨m, by simp [Map.step, JsMap.step, h.has_eq k], h⟩
  | len => exact ⟨m, by simp [Map.step, JsMap.step, h.len_eq], h⟩
  | set k v =>
    obtain ⟨m', hm', ha⟩ := h.set k v
    exact ⟨m', by simp [Map.step, JsMap.step, hm'], ha⟩
  | moveToBack k v =>
    obtain ⟨m₁, hm₁, ha₁⟩ := h.delete k
    obtain ⟨m', hm', ha⟩ := ha₁.set k v
    exact ⟨m', by simp [Map.step, JsMap.step, Map.moveToBack, hm₁, hm'], ha⟩
  | delete k =>
    obtain ⟨m', hm', ha⟩ := h.delete k
    exact ⟨m', by simp [Map.step, JsMap.step, hm'], ha⟩
  | clear =>
    obtain ⟨m', hm', ha⟩ := h.clear
    exact ⟨m', by simp [Map.step, JsMap.step, hm'], ha⟩
  | keys =>
    refine ⟨m, ?_, h⟩
    simp [Map.step, JsMap.step, Map.keys, Map.live, ← h.live_eq, pairs, Function.comp_def]
  | values =>
    refine ⟨m, ?_, h⟩
    simp [Map.step, JsMap.step, Map.values, Map.live, ← h.live_eq, pairs, Function.comp_def]
  | begin =>
    refine ⟨_, rfl, h.indexed, ?_, h.start, ?_, ?_⟩
    · have := h.iterating
      show m.iterating + 1 = ((m.loops ++ [0]).length : Int)
      rw [List.length_append, List.length_singleton]
      omega
    · show (m.loops ++ [0]).length = (j.loops ++ [0]).length
      rw [List.length_append, List.length_append, h.length]
    · intro i p q hp hq
      replace hp : (m.loops ++ [0])[i]? = some p := hp
      replace hq : (j.loops ++ [0])[i]? = some q := hq
      rw [List.getElem?_append] at hp hq
      rw [h.length] at hp
      split at hp
      · next hlt =>
        rw [if_pos hlt] at hq
        exact h.loops i p q hp hq
      · next hge =>
        rw [if_neg hge] at hq
        rw [List.getElem?_singleton] at hp hq
        split at hp
        · next h0 =>
          rw [if_pos h0] at hq
          cases hp
          cases hq
          exact h.start
        · cases hp
  | next i => exact h.next i
  | leave i =>
    simp only [Map.step, JsMap.step, Map.leave]
    split
    · next hlt =>
      obtain ⟨m', hm', ha⟩ := h.finish hlt
      exact ⟨m', by rw [hm']; rfl, ha⟩
    · next hge =>
      have hsame : j.loops.eraseIdx i = j.loops := by
        refine List.eraseIdx_of_length_le ?_
        have := h.length
        omega
      rw [hsame]
      exact ⟨m, rfl, h⟩

theorem Agrees.run (h : Agrees m j) (as : List (MapAct K V)) : m.run as = some (j.run as) := by
  induction as generalizing m j with
  | nil => rfl
  | cons a as ih =>
    obtain ⟨m', hm', ha⟩ := h.step a
    simp only [Map.run, JsMap.run, hm', Option.bind_some, ih ha, Option.map_some]

/-- **From the zero value on, every sequence of calls and nested loops is answered
    as by the reference map, and none of it panics.** -/
theorem ordered_map (as : List (MapAct K V)) :
    ({} : Map K V).run as = some (({} : JsMap K V).run as) :=
  Agrees.new.run as

end Piik.Ordered
