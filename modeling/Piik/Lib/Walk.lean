/-
  Walks along a parent function, with a visited set.

  `step a` either answers at `a` (`inl b`) or names the next node (`inr a'`).
  `walk step cyc n seen a` follows the steps from `a`, answering `cyc` when it
  meets a node again or runs out of `n`.  `Ends step a b` is the relation the
  walk computes: the steps from `a` lead to the answer `b`.

  * `ends_of_walk`: an answer other than `cyc` is the one the steps lead to;
  * `walk_of_ends`: where the steps lead to an answer, a walk with one more
    unit of fuel than there are nodes to leave finds it.
-/
import Mathlib

namespace Walk

variable {α β : Type}

/-- The steps from a node lead to an answer. -/
inductive Ends (step : α → β ⊕ α) : α → β → Prop where
  | here {a b} (h : step a = .inl b) : Ends step a b
  | next {a a' b} (h : step a = .inr a') (t : Ends step a' b) : Ends step a b

/-- A node on the way from `a`: reached from it by steps. -/
inductive Passes (step : α → β ⊕ α) : α → α → Prop where
  | refl (a) : Passes step a a
  | next {a a' x} (h : step a = .inr a') (t : Passes step a' x) : Passes step a x

theorem Ends.det {step : α → β ⊕ α} {a : α} {b b' : β} (h : Ends step a b) (h' : Ends step a b') :
    b = b' := by
  induction h with
  | here h =>
    cases h' with
    | here h' => rw [h] at h'; exact Sum.inl.inj h'
    | next h' _ => rw [h] at h'; cases h'
  | next h _ ih =>
    cases h' with
    | here h' => rw [h] at h'; cases h'
    | next h' t' => rw [h] at h'; cases h'; exact ih t'

theorem Passes.trans {step : α → β ⊕ α} {a x y : α} (h : Passes step a x) (h' : Passes step x y) :
    Passes step a y := by
  induction h with
  | refl => exact h'
  | next h _ ih => exact .next h (ih h')

theorem Passes.ends {step : α → β ⊕ α} {a x : α} {b : β} (hp : Passes step a x)
    (h : Ends step a b) : Ends step x b := by
  induction hp with
  | refl => exact h
  | next hs _ ih =>
    cases h with
    | here h => rw [hs] at h; cases h
    | next h t => rw [hs] at h; cases h; exact ih t

/-- The number of steps to the answer. -/
inductive EndsIn (step : α → β ⊕ α) : ℕ → α → β → Prop where
  | here {a b} (h : step a = .inl b) : EndsIn step 0 a b
  | next {n a a' b} (h : step a = .inr a') (t : EndsIn step n a' b) : EndsIn step (n + 1) a b

theorem Ends.exists_in {step : α → β ⊕ α} {a : α} {b : β} (h : Ends step a b) :
    ∃ n, EndsIn step n a b := by
  induction h with
  | here h => exact ⟨0, .here h⟩
  | next h _ ih => obtain ⟨n, hn⟩ := ih; exact ⟨n + 1, .next h hn⟩

theorem EndsIn.det {step : α → β ⊕ α} {n m : ℕ} {a : α} {b b' : β} (h : EndsIn step n a b)
    (h' : EndsIn step m a b') : n = m := by
  induction h generalizing m with
  | here h =>
    cases h' with
    | here => rfl
    | next h' _ => rw [h] at h'; cases h'
  | next h _ ih =>
    cases h' with
    | here h' => rw [h] at h'; cases h'
    | next h' t' => rw [h] at h'; cases h'; rw [ih t']

variable [DecidableEq α]

/-- Go on until the step answers. Fuel that runs out counts as a cycle. -/
def walk (step : α → β ⊕ α) (cyc : β) : ℕ → List α → α → β
  | 0, _, _ => cyc
  | n + 1, seen, a =>
    if a ∈ seen then cyc
    else match step a with
      | .inl b => b
      | .inr a' => walk step cyc n (a :: seen) a'

/-- **An answer other than the one for a cycle is the end of the steps.** -/
theorem ends_of_walk {step : α → β ⊕ α} {cyc b : β} (hb : b ≠ cyc) :
    ∀ {n seen a}, walk step cyc n seen a = b → Ends step a b
  | 0, _, _, h => absurd h.symm hb
  | n + 1, seen, a, h => by
    rw [walk] at h
    split at h
    · exact absurd h.symm hb
    · split at h
      · next b' hs => exact .here (h ▸ hs)
      · next a' hs => exact .next hs (ends_of_walk hb h)

/-- The nodes already left are not met again: each is further from the answer. -/
theorem walk_of_endsIn {step : α → β ⊕ α} {cyc b : β} {n : ℕ} {a : α} (h : EndsIn step n a b) :
    ∀ {m seen}, n < m → (∀ x ∈ seen, ∃ k, n < k ∧ EndsIn step k x b) →
      walk step cyc m seen a = b := by
  induction h with
  | @here a b h =>
    rintro (_ | m) seen hm hseen
    · cases hm
    · have : a ∉ seen := fun hx => by
        obtain ⟨k, hk, hk'⟩ := hseen a hx
        have := hk'.det (.here h)
        omega
      simp [walk, this, h]
  | @next n a a' b h t ih =>
    rintro (_ | m) seen hm hseen
    · cases hm
    · have hna : a ∉ seen := fun hx => by
        obtain ⟨k, hk, hk'⟩ := hseen a hx
        have := hk'.det (.next h t)
        omega
      rw [walk, if_neg hna, h]
      refine ih (by omega) fun x hx => ?_
      rcases List.mem_cons.1 hx with rfl | hx
      · exact ⟨n + 1, by omega, .next h t⟩
      · obtain ⟨k, hk, hk'⟩ := hseen x hx
        exact ⟨k, by omega, hk'⟩

/-- The nodes left on the way to the answer are distinct. -/
theorem EndsIn.exists_nodes {step : α → β ⊕ α} {S : List α}
    (hS : ∀ a a', step a = .inr a' → a ∈ S) {n : ℕ} {a : α} {b : β} (h : EndsIn step n a b) :
    ∃ T : Finset α, T.card = n ∧ (∀ x ∈ T, x ∈ S) ∧
      ∀ x ∈ T, ∃ k, 0 < k ∧ k ≤ n ∧ EndsIn step k x b := by
  induction h with
  | here => exact ⟨∅, rfl, by simp, by simp⟩
  | @next n a a' b h t ih =>
    obtain ⟨T, hc, hT, hk⟩ := ih
    have ha : a ∉ T := fun hx => by
      obtain ⟨k, _, hk, hk'⟩ := hk a hx
      have := hk'.det (.next h t)
      omega
    refine ⟨insert a T, by rw [Finset.card_insert_of_notMem ha, hc], ?_, ?_⟩
    · intro x hx
      rcases Finset.mem_insert.1 hx with rfl | hx
      · exact hS _ _ h
      · exact hT x hx
    · intro x hx
      rcases Finset.mem_insert.1 hx with rfl | hx
      · exact ⟨n + 1, by omega, le_rfl, .next h t⟩
      · obtain ⟨k, h0, hk, hk'⟩ := hk x hx
        exact ⟨k, h0, by omega, hk'⟩

theorem EndsIn.le_length {step : α → β ⊕ α} {S : List α}
    (hS : ∀ a a', step a = .inr a' → a ∈ S) {n : ℕ} {a : α} {b : β} (h : EndsIn step n a b) :
    n ≤ S.length := by
  obtain ⟨T, hc, hT, _⟩ := h.exists_nodes hS
  calc n = T.card := hc.symm
    _ ≤ S.toFinset.card := Finset.card_le_card fun x hx => List.mem_toFinset.2 (hT x hx)
    _ ≤ S.length := List.toFinset_card_le S

/-- **A walk with enough fuel finds the end of the steps.** -/
theorem walk_of_ends {step : α → β ⊕ α} (cyc : β) {b : β} {a : α} {S : List α}
    (hS : ∀ a a', step a = .inr a' → a ∈ S) (h : Ends step a b) :
    walk step cyc (S.length + 1) [] a = b := by
  obtain ⟨n, hn⟩ := h.exists_in
  exact walk_of_endsIn hn (Nat.lt_succ_of_le (hn.le_length hS)) (by simp)

/-! ## Loops -/

/-- The body of a loop with a visited set: what is visited, and the node to visit.
    That the loop returns is `Ends` of its body. -/
def visiting (step : α → β ⊕ α) (cyc : β) (s : List α × α) : β ⊕ (List α × α) :=
  if s.2 ∈ s.1 then .inl cyc
  else match step s.2 with
    | .inl b => .inl b
    | .inr a => .inr (s.2 :: s.1, a)

/-- **A loop with a visited set returns**, and with what the walk answers: it
    leaves each node at most once. -/
theorem ends_visiting {step : α → β ⊕ α} {cyc : β} {S : List α}
    (hS : ∀ a a', step a = .inr a' → a ∈ S) : ∀ {n : ℕ} {seen : List α} {a : α}, seen.Nodup →
      seen ⊆ S → S.length < n + seen.length →
      Ends (visiting step cyc) (seen, a) (walk step cyc n seen a)
  | 0, seen, a, hnd, hsub, hn => by
    have := (hnd.subperm hsub).length_le
    omega
  | n + 1, seen, a, hnd, hsub, hn => by
    rw [walk]
    by_cases ha : a ∈ seen
    · rw [if_pos ha]
      exact .here (by simp [visiting, ha])
    · rw [if_neg ha]
      cases hs : step a with
      | inl b => exact .here (by simp [visiting, ha, hs])
      | inr a' =>
        have hnext : visiting step cyc (seen, a) = .inr (a :: seen, a') := by simp [visiting, ha, hs]
        refine .next hnext (ends_visiting hS (hnd.cons ha) ?_ ?_)
        · exact List.cons_subset.2 ⟨hS a a' hs, hsub⟩
        · simp only [List.length_cons]
          omega

/-! ## Changing one step -/

section Graft

variable {step step' : α → β ⊕ α} {x a : α} {b : β}

omit [DecidableEq α] in
/-- A path that does not pass the changed node is the same. -/
theorem Ends.off (hs : ∀ y, y ≠ x → step' y = step y) (h : Ends step a b)
    (hx : ¬Passes step a x) : Ends step' a b := by
  induction h with
  | @here a b h => exact .here ((hs a fun e => hx (e ▸ .refl a)).trans h)
  | @next a a' b h _ ih =>
    exact .next ((hs a fun e => hx (e ▸ .refl a)).trans h) (ih fun hp => hx (.next h hp))

omit [DecidableEq α] in
/-- **Where the changed node still ends, so does everything that ended before.** -/
theorem Ends.graft (hs : ∀ y, y ≠ x → step' y = step y) (hx : Ends step' x b)
    (h : Ends step a b) : Ends step' a b := by
  induction h with
  | @here a b h =>
    by_cases e : a = x
    · exact e ▸ hx
    · exact .here ((hs a e).trans h)
  | @next a a' b h _ ih =>
    by_cases e : a = x
    · exact e ▸ hx
    · exact .next ((hs a e).trans h) (ih hx)

omit [DecidableEq α] in
/-- A step function that takes the same steps. -/
theorem Ends.mono (hs : ∀ y, step' y = step y) (h : Ends step a b) : Ends step' a b := by
  rwa [show step' = step from funext hs]

end Graft

/-! ## Collecting below a node -/

/-- Depth-first search below the nodes of a stack, its top first: what is found,
    in visit order without duplicates. -/
def collect (children : α → List α) : ℕ → List α → List α → List α
  | 0, found, _ => found
  | _ + 1, found, [] => found
  | n + 1, found, last :: stack =>
    let new := (children last).filter (· ∉ found)
    collect children n (found ++ new) (new.reverse ++ stack)

section Collect

variable {children : α → List α} {S : List α}

theorem subset_collect : ∀ n {found stack : List α}, found ⊆ collect children n found stack
  | 0, _, _ => fun _ h => h
  | _ + 1, _, [] => fun _ h => h
  | n + 1, _, _ :: _ => fun _ h => subset_collect n (List.mem_append_left _ h)

/-- The new children of a node are found once, and are nodes. -/
theorem found_append (hS : ∀ a, children a ⊆ S) (hnd : ∀ a, (children a).Nodup) {found : List α}
    (hf : found.Nodup) (hsub : found ⊆ S) (last : α) :
    (found ++ (children last).filter (· ∉ found)).Nodup ∧
      found ++ (children last).filter (· ∉ found) ⊆ S := by
  constructor
  · refine List.nodup_append.2 ⟨hf, (hnd last).filter _, fun x hx y hy e => ?_⟩
    have hy : y ∉ found := by simpa using (List.mem_filter.1 hy).2
    exact hy (e ▸ hx)
  · exact List.append_subset.2 ⟨hsub, fun x hx => hS last (List.mem_filter.1 hx).1⟩

/-- The body of the search loop: what is found, and the stack. -/
def collecting (children : α → List α) (s : List α × List α) : List α ⊕ (List α × List α) :=
  match s.2 with
  | [] => .inl s.1
  | last :: stack =>
    let new := (children last).filter (· ∉ s.1)
    .inr (s.1 ++ new, new.reverse ++ stack)

/-- **The search loop returns**: every node is pushed at most once. -/
theorem ends_collecting (hS : ∀ a, children a ⊆ S) (hnd : ∀ a, (children a).Nodup) :
    ∀ {n : ℕ} {found stack : List α}, found.Nodup → found ⊆ S →
      stack.length + (S.length - found.length) ≤ n →
      Ends (collecting children) (found, stack) (collect children n found stack)
  | 0, found, stack, _, _, hn => by
    obtain rfl : stack = [] := List.length_eq_zero_iff.1 (by omega)
    exact .here rfl
  | n + 1, found, [], _, _, _ => .here rfl
  | n + 1, found, last :: stack, hf, hsub, hn => by
    set new := (children last).filter (· ∉ found) with hnew
    obtain ⟨hf', hsub'⟩ := found_append hS hnd hf hsub last
    have hlen : (found ++ new).length ≤ S.length := (hf'.subperm hsub').length_le
    refine .next rfl (ends_collecting hS hnd hf' hsub' ?_)
    change (new.reverse ++ stack).length + (S.length - (found ++ new).length) ≤ n
    simp only [List.length_append, List.length_reverse, List.length_cons] at hn hlen ⊢
    omega

/-- What is found is a child of some node. -/
theorem collect_subset (hS : ∀ a, children a ⊆ S) :
    ∀ (n : ℕ) {found stack : List α}, found ⊆ S → collect children n found stack ⊆ S
  | 0, _, _, h => h
  | _ + 1, _, [], h => h
  | n + 1, _, last :: _, h => by
    refine collect_subset hS n (List.append_subset.2 ⟨h, fun x hx => ?_⟩)
    exact hS last (List.mem_filter.1 hx).1

/-- The search with enough fuel is closed: what is found, and what was on the
    stack, has its children found. -/
theorem collect_closed (hS : ∀ a, children a ⊆ S) (hnd : ∀ a, (children a).Nodup) :
    ∀ {n : ℕ} {found stack : List α}, found.Nodup → found ⊆ S →
      stack.length + (S.length - found.length) ≤ n →
      (∀ a ∈ found, a ∈ stack ∨ children a ⊆ found) →
      ∀ a, a ∈ stack ∨ a ∈ collect children n found stack →
        children a ⊆ collect children n found stack
  | 0, found, stack, _, _, hn, hc, a, ha => by
    have : stack = [] := List.length_eq_zero_iff.1 (by omega)
    subst this
    rcases ha with ha | ha
    · cases ha
    · exact (hc a ha).resolve_left (by simp)
  | n + 1, found, [], _, _, _, hc, a, ha => by
    rcases ha with ha | ha
    · cases ha
    · exact (hc a ha).resolve_left (by simp)
  | n + 1, found, last :: stack, hf, hsub, hn, hc, a, ha => by
    set new := (children last).filter (· ∉ found) with hnew
    obtain ⟨hf', hsub'⟩ := found_append hS hnd hf hsub last
    have hlen : (found ++ new).length ≤ S.length := (hf'.subperm hsub').length_le
    have hlast : children last ⊆ found ++ new := fun x hx => by
      by_cases h : x ∈ found
      · exact List.mem_append_left _ h
      · exact List.mem_append_right _ (List.mem_filter.2 ⟨hx, by simpa using h⟩)
    have hpopped : ∀ a, a ∈ new.reverse ++ stack ∨ a ∈ collect children (n + 1) found (last :: stack) →
        children a ⊆ collect children (n + 1) found (last :: stack) := by
      refine fun a ha => collect_closed hS hnd hf' hsub' ?_ (fun y hy => ?_) a ha
      · change (new.reverse ++ stack).length + (S.length - (found ++ new).length) ≤ n
        simp only [List.length_append, List.length_reverse, List.length_cons] at hn hlen ⊢
        omega
      · rcases List.mem_append.1 hy with hy | hy
        · rcases hc y hy with hy | hy
          · rcases List.mem_cons.1 hy with rfl | hy
            · exact Or.inr hlast
            · exact Or.inl (List.mem_append_right _ hy)
          · exact Or.inr fun x hx => List.mem_append_left _ (hy hx)
        · exact Or.inl (List.mem_append_left _ (List.mem_reverse.2 hy))
    rcases ha with ha | ha
    · rcases List.mem_cons.1 ha with rfl | ha
      · exact fun x hx => subset_collect n (hlast hx)
      · exact hpopped a (Or.inl (List.mem_append_right _ ha))
    · exact hpopped a (Or.inr ha)

/-- **Everything below `a` is found**, when there is fuel for every child. -/
theorem mem_collect_of_passes {step : α → β ⊕ α} {a x : α} (hS : ∀ a, children a ⊆ S)
    (hnd : ∀ a, (children a).Nodup) (hstep : ∀ y z, step y = .inr z → y ∈ children z)
    (h : Passes step x a) : x = a ∨ x ∈ collect children (S.length + 1) [] [a] := by
  have hc : ∀ y, y ∈ [a] ∨ y ∈ collect children (S.length + 1) [] [a] →
      children y ⊆ collect children (S.length + 1) [] [a] :=
    collect_closed hS hnd List.nodup_nil (List.nil_subset _) (by simp [Nat.add_comm]) (by simp)
  induction h with
  | refl a => exact Or.inl rfl
  | @next y z a hs _ ih =>
    refine Or.inr ?_
    rcases ih hc with rfl | hz
    · exact hc z (Or.inl (by simp)) (hstep y z hs)
    · exact hc z (Or.inr hz) (hstep y z hs)

end Collect

end Walk
