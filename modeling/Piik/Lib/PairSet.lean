/-
  Pairs grouped by their first part, as a map of sets holds them: no group is
  empty.  And logs of what is opened and closed: what is open is what was not
  closed after it was last opened.
-/
import Piik.Lib.OMap

/-- A map of sets without an empty set. -/
structure PairSet (α β : Type) [DecidableEq α] where
  groups : OMap α (List β)
  proper : ∀ a bs, groups.get a = some bs → bs ≠ [] ∧ bs.Nodup

namespace PairSet

variable {α β : Type} [DecidableEq α]

/-- No pair. -/
def empty : PairSet α β := ⟨.empty, by simp⟩

instance : Inhabited (PairSet α β) := ⟨empty⟩

/-- The number of groups. -/
def len (m : PairSet α β) : ℕ := m.groups.len

/-- The number of pairs. -/
def count (m : PairSet α β) : ℕ := m.groups.total List.length

/-- The pairs, group by group. -/
def pairs (m : PairSet α β) : List (α × β) := m.groups.entries.flatMap fun e => e.2.map (Prod.mk e.1)

/-- There is a pair with this first part. -/
def hasGroup (m : PairSet α β) (a : α) : Bool := m.groups.has a

@[simp] theorem len_empty : (empty : PairSet α β).len = 0 := rfl

@[simp] theorem count_empty : (empty : PairSet α β).count = 0 := rfl

@[simp] theorem pairs_empty : (empty : PairSet α β).pairs = [] := rfl

theorem mem_pairs {m : PairSet α β} {a : α} {b : β} :
    (a, b) ∈ m.pairs ↔ ∃ bs, m.groups.get a = some bs ∧ b ∈ bs := by
  simp only [pairs, List.mem_flatMap, List.mem_map, Prod.mk.injEq, OMap.get_eq_some]
  constructor
  · rintro ⟨⟨a', bs⟩, he, b', hb, rfl, rfl⟩
    exact ⟨bs, he, hb⟩
  · rintro ⟨bs, he, hb⟩
    exact ⟨(a, bs), he, b, hb, rfl, rfl⟩

theorem nodup_pairs (m : PairSet α β) : m.pairs.Nodup := by
  refine List.nodup_flatMap.2 ⟨fun e he => ?_, ?_⟩
  · have hnodup := (m.proper e.1 e.2 (OMap.get_eq_some.2 he)).2
    exact hnodup.map fun b b' h => (Prod.mk.inj h).2
  · refine (List.pairwise_map.1 m.groups.nodup).imp ?_
    rintro e e' hne ⟨a, b⟩ hmem hmem'
    obtain ⟨b₁, -, h₁⟩ := List.mem_map.1 hmem
    obtain ⟨b₂, -, h₂⟩ := List.mem_map.1 hmem'
    exact hne ((Prod.mk.inj h₁).1.trans (Prod.mk.inj h₂).1.symm)

variable [DecidableEq β]

/-- The pair is in the set. -/
def has (m : PairSet α β) (a : α) (b : β) : Bool := (m.groups.get a).any fun bs => b ∈ bs

@[simp] theorem has_empty {a : α} {b : β} : (empty : PairSet α β).has a b = false := rfl

theorem has_iff {m : PairSet α β} {a : α} {b : β} : m.has a b = true ↔ (a, b) ∈ m.pairs := by
  rw [mem_pairs, has, Option.any_eq_true]
  simp

theorem hasGroup_of_has {m : PairSet α β} {a : α} {b : β} (h : m.has a b = true) : m.hasGroup a = true := by
  obtain ⟨bs, hget, -⟩ := mem_pairs.1 (has_iff.1 h)
  rw [hasGroup, OMap.has, hget]
  rfl

/-- The pair enters its group, or a new one. -/
def insert (m : PairSet α β) (a : α) (b : β) : PairSet α β :=
  if h : m.has a b = true then m
  else
    { groups := m.groups.set a ((m.groups.get a).getD [] ++ [b])
      proper := by
        intro a' bs hget
        rw [OMap.get_set] at hget
        split at hget
        · cases hget
          refine ⟨by simp, ?_⟩
          cases hold : m.groups.get a with
          | none => simp
          | some bs =>
            have hnot : b ∉ bs := fun hb => h (has_iff.2 (mem_pairs.2 ⟨bs, hold, hb⟩))
            refine List.nodup_append.2 ⟨(m.proper a bs hold).2, List.nodup_singleton b, ?_⟩
            intro b₁ hb₁ b₂ hb₂ heq
            rw [heq, List.mem_singleton.1 hb₂] at hb₁
            exact hnot hb₁
        · exact m.proper a' bs hget }

/-- The pair leaves its group, and an empty group goes. -/
def erase (m : PairSet α β) (a : α) (b : β) : PairSet α β where
  groups := match m.groups.get a with
    | none => m.groups
    | some bs => if bs.erase b = [] then m.groups.delete a else m.groups.set a (bs.erase b)
  proper := by
    intro a' bs' hget
    cases hold : m.groups.get a with
    | none =>
      rw [hold] at hget
      exact m.proper a' bs' hget
    | some bs =>
      rw [hold] at hget
      dsimp only at hget
      split at hget
      · rw [OMap.get_delete] at hget
        split at hget
        · cases hget
        · exact m.proper a' bs' hget
      · next hne =>
        rw [OMap.get_set] at hget
        split at hget
        · cases hget
          exact ⟨hne, (m.proper a bs hold).2.erase b⟩
        · exact m.proper a' bs' hget

theorem has_insert {m : PairSet α β} {a a' : α} {b b' : β} :
    (m.insert a b).has a' b' = true ↔ a' = a ∧ b' = b ∨ m.has a' b' = true := by
  unfold insert
  split
  · next h =>
    refine ⟨Or.inr, ?_⟩
    rintro (⟨rfl, rfl⟩ | h')
    · exact h
    · exact h'
  · simp only [has_iff, mem_pairs, OMap.get_set]
    by_cases ha : a' = a
    · subst ha
      cases m.groups.get a' <;> simp [or_comm]
    · simp [ha]

theorem has_erase {m : PairSet α β} {a a' : α} {b b' : β} :
    (m.erase a b).has a' b' = true ↔ m.has a' b' = true ∧ ¬(a' = a ∧ b' = b) := by
  simp only [has_iff, mem_pairs, erase]
  cases hold : m.groups.get a with
  | none =>
    refine ⟨fun h => ⟨h, ?_⟩, fun h => h.1⟩
    rintro ⟨rfl, rfl⟩
    simp [hold] at h
  | some bs =>
    have hnodup := (m.proper a bs hold).2
    dsimp only
    split
    · next hempty =>
      rw [OMap.get_delete]
      by_cases ha : a' = a
      · subst ha
        rw [if_pos rfl, hold]
        refine iff_of_false (by simp) ?_
        rintro ⟨⟨bs', hbs', hb⟩, hne⟩
        obtain rfl := Option.some.inj hbs'
        have hmem := (hnodup.mem_erase_iff (a := b')).2 ⟨fun heq => hne ⟨rfl, heq⟩, hb⟩
        rw [hempty] at hmem
        cases hmem
      · simp [ha]
    · rw [OMap.get_set]
      by_cases ha : a' = a
      · subst ha
        simp [hold, hnodup.mem_erase_iff, and_comm]
      · simp [ha]

theorem count_insert {m : PairSet α β} {a : α} {b : β} (h : m.has a b = false) :
    (m.insert a b).count = m.count + 1 := by
  have hset := OMap.total_set m.groups a ((m.groups.get a).getD [] ++ [b]) List.length
  have hlen : ((m.groups.get a).map List.length).getD 0 = ((m.groups.get a).getD []).length := by
    cases m.groups.get a <;> rfl
  rw [hlen, List.length_append, List.length_singleton] at hset
  rw [insert, dif_neg (by simp [h])]
  simp only [count]
  omega

theorem len_insert {m : PairSet α β} {a : α} {b : β} :
    (m.insert a b).len = if m.hasGroup a then m.len else m.len + 1 := by
  unfold insert
  split
  · next h => rw [if_pos (hasGroup_of_has h)]
  · have hset := OMap.total_set m.groups a ((m.groups.get a).getD [] ++ [b]) fun _ => 1
    have hone : ((m.groups.get a).map fun _ => 1).getD 0 = if m.hasGroup a then 1 else 0 := by
      rw [hasGroup, OMap.has]
      cases m.groups.get a <;> rfl
    simp only [OMap.total_one, hone] at hset
    simp only [len]
    split at hset
    · next hgroup =>
      rw [if_pos hgroup]
      omega
    · next hgroup =>
      rw [if_neg hgroup]
      omega

theorem len_erase_le {m : PairSet α β} {a : α} {b : β} : (m.erase a b).len ≤ m.len := by
  simp only [len, erase]
  cases hold : m.groups.get a with
  | none => exact le_rfl
  | some bs =>
    dsimp only
    split
    · exact OMap.len_delete_le m.groups a
    · have hset := OMap.total_set m.groups a (bs.erase b) fun _ => 1
      simp only [OMap.total_one, hold, Option.map_some, Option.getD_some] at hset
      omega

theorem count_erase_le {m : PairSet α β} {a : α} {b : β} : (m.erase a b).count ≤ m.count := by
  simp only [count, erase]
  cases hold : m.groups.get a with
  | none => exact le_rfl
  | some bs =>
    have hlen : (bs.erase b).length ≤ bs.length := List.length_erase_le
    dsimp only
    split
    · have hdelete := OMap.total_delete List.length hold
      omega
    · have hset := OMap.total_set m.groups a (bs.erase b) List.length
      rw [hold] at hset
      simp only [Option.map_some, Option.getD_some] at hset
      omega

end PairSet

/-! ## What a log leaves open -/

namespace Log

variable {κ : Type} [DecidableEq κ]

/-- The last entry of the key opened it. -/
def isOpen (log : List (κ × Bool)) (k : κ) : Bool :=
  log.foldl (fun b e => if e.1 = k then e.2 else b) false

variable {log : List (κ × Bool)} {k k' : κ}

@[simp] theorem isOpen_nil : isOpen [] k = false := rfl

@[simp] theorem isOpen_snoc {b : Bool} : isOpen (log ++ [(k', b)]) k = if k' = k then b else isOpen log k := by
  simp [isOpen]

/-- Closing everything that is open leaves nothing open. -/
theorem isOpen_closes {ks : List κ} :
    isOpen (log ++ ks.map fun k => (k, false)) k = (isOpen log k && decide (k ∉ ks)) := by
  induction ks using List.reverseRecOn with
  | nil => simp
  | append_singleton ks k' ih =>
    rw [List.map_append, ← List.append_assoc, List.map_cons, List.map_nil, isOpen_snoc, ih]
    by_cases h : k' = k
    · simp [h]
    · simp [h, Ne.symm h]

end Log
