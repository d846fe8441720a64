/-
  A counting semaphore with a bounded queue, served in the order of arrival.

  `enter p` takes a free slot, else a place in the queue, else it is refused;
  `leave p` hands the slot of `p` to the head of the queue, or frees it.  A
  caller appears once for each slot it owns.

  A run is *sequential* when nobody enters that owns a slot or waits, and only
  owners leave.  Every state of a sequential run is `Fair`: the owners are
  distinct and within the limit, somebody waits only while all slots are owned,
  and the queue lists the waiting callers as they arrived.
-/
import Mathlib

universe u

variable {ι : Type u}

/-- The owners and the queue of those who wait, both bounded. -/
structure Semaphore (ι : Type u) where
  limit : ℕ
  pendingLimit : ℕ
  owners : List ι := []
  queue : List ι := []

namespace Semaphore

/-- The two actions. -/
inductive Act (ι : Type u)
  | enter (p : ι)
  | leave (p : ι)

/-- The caller that enters. -/
def Act.entering : Act ι → Option ι
  | .enter p => some p
  | .leave _ => none

/-- Own a place, wait for one, or be turned away. -/
def enter (s : Semaphore ι) (p : ι) : Semaphore ι :=
  if s.owners.length < s.limit then { s with owners := p :: s.owners }
  else if s.queue.length < s.pendingLimit then { s with queue := s.queue ++ [p] }
  else s

variable [DecidableEq ι]

/-- The place goes to the first who waits. -/
def leave (s : Semaphore ι) (p : ι) : Semaphore ι :=
  match s.queue with
  | [] => { s with owners := s.owners.erase p }
  | q :: rest => { s with owners := q :: s.owners.erase p, queue := rest }

/-- One action. -/
def act (s : Semaphore ι) : Act ι → Semaphore ι
  | .enter p => s.enter p
  | .leave p => s.leave p

/-- The actions one after the other. -/
def run (s : Semaphore ι) (as : List (Act ι)) : Semaphore ι := as.foldl act s

/-- Nobody enters twice, and only owners leave. -/
def Allows (s : Semaphore ι) : Act ι → Prop
  | .enter p => p ∉ s.owners ∧ p ∉ s.queue
  | .leave p => p ∈ s.owners

/-- Every action is allowed in the state where it happens. -/
inductive Sequential (s : Semaphore ι) : List (Act ι) → Prop
  | nil : Sequential s []
  | snoc {as : List (Act ι)} {a : Act ι} :
      Sequential s as → (s.run as).Allows a → Sequential s (as ++ [a])

/-- The invariant, `arrived` being the callers that entered so far, in order. -/
structure Fair (s : Semaphore ι) (arrived : List ι) : Prop where
  distinct : (s.owners ++ s.queue).Nodup
  bounded : s.owners.length ≤ s.limit
  pending : s.queue.length ≤ s.pendingLimit
  full : s.queue ≠ [] → s.owners.length = s.limit
  inOrder : s.queue.Sublist arrived

variable {s : Semaphore ι} {arrived : List ι}

omit [DecidableEq ι] in
theorem Fair.start (limit pendingLimit : ℕ) : Fair (⟨limit, pendingLimit, [], []⟩ : Semaphore ι) [] where
  distinct := List.nodup_nil
  bounded := Nat.zero_le _
  pending := Nat.zero_le _
  full h := absurd rfl h
  inOrder := List.Sublist.refl []

omit [DecidableEq ι] in
theorem Fair.enter (h : s.Fair arrived) {p : ι} (ho : p ∉ s.owners) (hq : p ∉ s.queue) :
    (s.enter p).Fair (arrived ++ [p]) := by
  have hin : s.queue.Sublist (arrived ++ [p]) := h.inOrder.trans (List.sublist_append_left _ _)
  unfold Semaphore.enter
  split_ifs with hfree hroom
  · constructor
    · show (p :: (s.owners ++ s.queue)).Nodup
      exact List.nodup_cons.2 ⟨by simp [ho, hq], h.distinct⟩
    · exact hfree
    · exact h.pending
    · intro hne
      have := h.full hne
      omega
    · exact hin
  · constructor
    · show (s.owners ++ (s.queue ++ [p])).Nodup
      rw [← List.append_assoc]
      refine List.Nodup.append h.distinct (List.nodup_singleton p) ?_
      simp [ho, hq]
    · exact h.bounded
    · show (s.queue ++ [p]).length ≤ s.pendingLimit
      simp only [List.length_append, List.length_singleton]
      omega
    · intro _
      have := h.bounded
      show s.owners.length = s.limit
      omega
    · exact List.Sublist.append h.inOrder (List.Sublist.refl [p])
  · exact ⟨h.distinct, h.bounded, h.pending, h.full, hin⟩

theorem Fair.leave (h : s.Fair arrived) {p : ι} (ho : p ∈ s.owners) : (s.leave p).Fair arrived := by
  obtain ⟨hso, hsq, hdis⟩ := List.nodup_append'.1 h.distinct
  have hlen : (s.owners.erase p).length + 1 = s.owners.length := by
    have := List.length_erase_of_mem ho
    have := List.length_pos_of_mem ho
    omega
  have hb := h.bounded
  unfold Semaphore.leave
  split
  · next hnil =>
    constructor
    · show (s.owners.erase p ++ s.queue).Nodup
      rw [hnil, List.append_nil]
      exact hso.erase p
    · show (s.owners.erase p).length ≤ s.limit
      omega
    · exact h.pending
    · intro hne
      exact absurd hnil hne
    · exact h.inOrder
  · next q rest hcons =>
    -- the queue was not empty, so every slot is owned and stays so
    have hfull := h.full (by simp [hcons])
    rw [hcons] at hsq hdis
    obtain ⟨hqr, hrest⟩ := List.nodup_cons.1 hsq
    have hq : q ∉ s.owners := fun hm => hdis hm (List.mem_cons_self)
    constructor
    · show (q :: (s.owners.erase p ++ rest)).Nodup
      refine List.nodup_cons.2 ⟨?_, List.Nodup.append (hso.erase p) hrest ?_⟩
      · simp only [List.mem_append, not_or]
        exact ⟨fun hm => hq (List.mem_of_mem_erase hm), hqr⟩
      · intro x hx hx'
        exact hdis (List.mem_of_mem_erase hx) (List.mem_cons_of_mem _ hx')
    · show (s.owners.erase p).length + 1 ≤ s.limit
      omega
    · have := h.pending
      rw [hcons, List.length_cons] at this
      show rest.length ≤ s.pendingLimit
      omega
    · intro _
      show (s.owners.erase p).length + 1 = s.limit
      omega
    · have := h.inOrder
      rw [hcons] at this
      exact (List.sublist_cons_self q rest).trans this

theorem Fair.act (h : s.Fair arrived) {a : Act ι} (ha : s.Allows a) :
    (s.act a).Fair (arrived ++ a.entering.toList) := by
  cases a with
  | enter p => exact h.enter ha.1 ha.2
  | leave p =>
    show (s.leave p).Fair (arrived ++ [])
    rw [List.append_nil]
    exact h.leave ha

/-- **A sequential run is fair throughout.** -/
theorem Sequential.fair {as : List (Act ι)} (h : s.Sequential as) (h₀ : s.Fair []) :
    (s.run as).Fair (as.filterMap Act.entering) := by
  induction h with
  | nil => exact h₀
  | @snoc as a _ ha ih =>
    have hrun : s.run (as ++ [a]) = (s.run as).act a := List.foldl_append
    have hin : (as ++ [a]).filterMap Act.entering =
        as.filterMap Act.entering ++ a.entering.toList := by
      rw [List.filterMap_append]
      cases a <;> rfl
    rw [hrun, hin]
    exact ih.act ha

theorem limits_run (s : Semaphore ι) (as : List (Act ι)) :
    (s.run as).limit = s.limit ∧ (s.run as).pendingLimit = s.pendingLimit := by
  induction as generalizing s with
  | nil => exact ⟨rfl, rfl⟩
  | cons a as ih =>
    have hact : (s.act a).limit = s.limit ∧ (s.act a).pendingLimit = s.pendingLimit := by
      cases a with
      | enter p =>
        simp only [act, enter]
        split_ifs <;> exact ⟨rfl, rfl⟩
      | leave p =>
        simp only [act, leave]
        split <;> exact ⟨rfl, rfl⟩
    obtain ⟨hl, hp⟩ := ih (s.act a)
    exact ⟨hl.trans hact.1, hp.trans hact.2⟩

/-- A freed slot goes to the caller that waited longest. -/
theorem owners_leave {q : ι} {rest : List ι} (h : s.queue = q :: rest) (p : ι) :
    (s.leave p).owners = q :: s.owners.erase p ∧ (s.leave p).queue = rest := by
  unfold leave
  rw [h]
  exact ⟨rfl, rfl⟩

end Semaphore
