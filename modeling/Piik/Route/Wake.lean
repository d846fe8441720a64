/-
  The operation's snapshot names the time at which the operation expires next:
  before it an expiry does nothing, and from it on an expiry retires the
  attempt, moves on to another candidate or ends the operation.
-/
import Piik.Route.Invariant

namespace Piik.Route

variable {v : Licence} {b b' : Bool} {a r : List Resource} {c c' : Core}

/-! ## One candidate -/

namespace Core

/-- The operation is narrow. -/
def Narrowed (c : Core) : Prop := ∀ op, c.operation = some op → c.Narrow op

theorem Narrow.of_active {op op' : Operation} (h : c.Narrow op)
    (hchild : op'.childPeerID = op.childPeerID) (hreason : op'.reason = op.reason)
    (hc : op'.candidates = op.candidates)
    (hedge : ∀ q e', c'.edge q = some e' → e'.physicalActive →
      ∃ e, c.edge q = some e ∧ e.physicalActive) : c'.Narrow op' := by
  intro hr e' he' ha'
  obtain ⟨e, he, ha⟩ := hedge _ e' he' ha'
  rw [hchild] at he
  rw [hreason] at hr
  exact hc ▸ h hr e he ha

theorem rebased_participants (c : Core) : c.rebased.participants = c.participants := rfl

theorem Narrowed.of_none (h : c.operation = none) : c.Narrowed := fun op ho => by
  rw [h] at ho
  cases ho

/-- Removals leave no edge active that was not. -/
theorem Narrowed.of_trim {L : Core → ID → CommittedEdge → Prop} (h : c.Narrowed)
    (ht : Trim L r c c') : c'.rebased.Narrowed := by
  intro op ho
  obtain ⟨op', ho', rfl⟩ := Option.map_eq_some_iff.1 ho
  rw [show c'.operation = c.operation from ht.sameCourse.operation] at ho'
  exact (h op' ho').of_active rfl rfl rfl fun q e' he' ha' => ⟨e', ht.cuts.edge_active he' ha', ha'⟩

end Core

theorem Upkeep.narrowed (h : Upkeep v b b' a r c c') (hs : c.Sound) (hf : c'.fault = none)
    (hn : c.Narrowed) : c'.Narrowed := by
  cases h with
  | @plan _ _ op op' ho _ _ _ hout =>
    intro op₁ h₁
    cases h₁
    exact (hout hs.forest.outward (hs.working.outward op ho)).2 (hn op ho)
  | defers => exact hn
  | @note _ _ op _ _ ho | @begins _ _ op _ _ ho | @attaches _ _ op _ ho | @abandons _ _ op _ ho =>
    intro op₁ h₁
    cases h₁
    exact hn op ho
  | opens _ _ _ _ _ h _ =>
    intro op₁ h₁
    cases h₁
    exact h
  | closes | detaches | unattached => exact .of_none rfl
  | trims _ ht => exact hn.of_trim ht
  | trimsMarked ho ht => exact .of_none (ht.sameCourse.operation.trans ho)
  | halts _ hc =>
    rw [hf] at hc
    simp at hc
  | echoes => exact hn

/-- **Every step keeps the operation narrow.** -/
theorem Step.narrowed (h : Step v b b' a r c c') (hs : c.Sound) (hf : c'.fault = none)
    (hn : c.Narrowed) : c'.Narrowed := by
  cases h with
  | upkeep h => exact h.narrowed hs hf hn
  | gap _ ht => exact hn.of_trim ht
  | accepts _ h =>
    refine .of_none ?_
    cases h with
    | attached => rfl
    | @commits _ c₁ op att _ m =>
      obtain ⟨_, _, _, _, heq⟩ := committed_eq c₁ op att (c.edge op.childPeerID) m
      rw [heq]
  | reshapes h _ =>
    intro op ho
    rw [h.operation] at ho
    refine (hn op ho).of_active rfl rfl rfl fun q e' he' ha' => ?_
    obtain ⟨e, he, hsame⟩ := h.edge_cases he'
    exact ⟨e, he, hsame.physicalActive ▸ ha'⟩
  | moves =>
    refine .of_none ?_
    unfold Core.checkGraph
    split <;> exact aborted_operation c
  | disposes => exact .of_none rfl

theorem Controller.Reachable.narrowed {c : Controller} (h : c.Reachable) : c.Narrowed :=
  h.invariant (fun hd hs hf => hd.narrowed hs hf) fun o latest c hnew => by
    obtain ⟨-, rfl⟩ := Controller.new_eq hnew
    exact .of_none rfl

namespace Controller

variable {c : Controller} {op : Operation}

/-! ## Going on without an attempt -/

/-- The operation goes on with no more candidates and without an attempt. -/
structure Continues (c : Controller) (op : Operation) (c' : Controller) (op' : Operation) : Prop where
  operation : c'.operation = some op'
  current : op'.current = none
  reason : op'.reason = op.reason
  childPeerID : op'.childPeerID = op.childPeerID
  childSessionID : op'.childSessionID = op.childSessionID
  demandPeerID : op'.demandPeerID = op.demandPeerID
  demandSessionID : op'.demandSessionID = op.demandSessionID
  participants : c'.participants = c.participants
  cursor : op.cursor ≤ op'.cursor
  length : op'.candidates.length ≤ op.candidates.length

/-- The plan at the cursor is current, and it may begin. -/
structure Ready (c : Controller) (op : Operation) : Prop where
  current : op.builtAtFactVersion = c.factVersion
  valid : ∃ plan, op.planAt op.cursor = some plan ∧ c.operationCandidateValid op plan none

theorem Continues.refl (ho : c.operation = some op) (hc : op.current = none) : Continues c op c op :=
  ⟨ho, hc, rfl, rfl, rfl, rfl, rfl, rfl, le_rfl, le_rfl⟩

theorem Continues.trans {c₁ c₂ : Controller} {op₁ op₂ : Operation} (h : Continues c op c₁ op₁)
    (h' : Continues c₁ op₁ c₂ op₂) : Continues c op c₂ op₂ :=
  ⟨h'.operation, h'.current, h'.reason.trans h.reason, h'.childPeerID.trans h.childPeerID,
    h'.childSessionID.trans h.childSessionID, h'.demandPeerID.trans h.demandPeerID,
    h'.demandSessionID.trans h.demandSessionID, h'.participants.trans h.participants,
    h.cursor.trans h'.cursor, h'.length.trans h.length⟩

theorem Continues.sessions {c' : Controller} {op' : Operation} (h : Continues c op c' op')
    (hs : c.operationSessionsCurrent op) : c'.operationSessionsCurrent op' := by
  unfold operationSessionsCurrent Core.participant at *
  rwa [h.participants, h.childPeerID, h.childSessionID, h.demandPeerID, h.demandSessionID]

@[simp] theorem consumeDirectContinuationCandidate_factVersion (op : Operation) :
    (c.consumeDirectContinuationCandidate op).factVersion = c.factVersion := by
  unfold consumeDirectContinuationCandidate deleteContinuation
  split
  · split
    · rfl
    · dsimp only
      split <;> rfl
  · rfl

@[simp] theorem consumeDirectContinuationCandidate_participants (op : Operation) :
    (c.consumeDirectContinuationCandidate op).participants = c.participants := by
  obtain ⟨m, -, h⟩ := c.consumeDirectContinuationCandidate_defers op
  rw [h]

theorem modifyOperation_operation (ho : c.operation = some op) (f : Operation → Operation) :
    (c.modifyOperation f).operation = some (f op) := by
  rw [modifyOperation_toCore, ho]
  rfl

theorem replanRemaining_continues (ho : c.operation = some op) (hc : op.current = none) :
    ∃ op', Continues c op (c.replanRemaining none none) op' ∧ op'.cursor = op.cursor ∧
      op'.builtAtFactVersion = c.factVersion := by
  refine ⟨_, ⟨modifyOperation_operation ho _, hc, rfl, rfl, rfl, rfl, rfl, rfl, le_rfl, ?_⟩, rfl, rfl⟩
  have h₁ : (remainingTuples op none none).length ≤ _ := length_remainingTuples none (fun h => by cases h)
  simp only [List.length_append, List.length_take]
  refine (Nat.add_le_add_left (List.length_filterMap_le _ _) _).trans ?_
  omega

/-- What invalid candidates leave: the one at the cursor is valid. -/
theorem dropInvalidCandidates_continues : ∀ (n : ℕ) (c : Controller) {op : Operation},
    c.operation = some op → op.current = none → op.candidates.length ≤ n + op.cursor →
      ∃ op', Continues c op (dropInvalidCandidates n c) op' ∧ op'.cursor = op.cursor ∧
        op'.builtAtFactVersion = op.builtAtFactVersion ∧
        (dropInvalidCandidates n c).factVersion = c.factVersion ∧
        (∀ plan, op'.planAt op'.cursor = some plan →
          (dropInvalidCandidates n c).operationCandidateValid op' plan none) ∧
        (dropInvalidCandidates n c = c ∨ op'.candidates.length < op.candidates.length)
  | 0, c, op, ho, hc, hl => by
    refine ⟨op, .refl ho hc, rfl, rfl, rfl, fun plan hp => ?_, Or.inl rfl⟩
    have := (List.getElem?_eq_some_iff.1 hp).1
    omega
  | n + 1, c, op, ho, hc, hl => by
    unfold dropInvalidCandidates
    simp only [ho]
    split
    · next hp => exact ⟨op, .refl ho hc, rfl, rfl, rfl, fun plan hp' => by simp [hp] at hp', Or.inl rfl⟩
    · next plan hp =>
      split
      · next hv =>
        refine ⟨op, .refl ho hc, rfl, rfl, rfl, fun plan' hp' => ?_, Or.inl rfl⟩
        cases hp.symm.trans hp'
        exact hv
      · have hlt := (List.getElem?_eq_some_iff.1 hp).1
        have herase := List.length_eraseIdx_of_lt hlt
        set c₁ := (c.noteRejection op.demandPeerID .stale).consumeDirectContinuationCandidate op with hc₁
        set op₁ : Operation := { op with candidates := op.candidates.eraseIdx op.cursor } with hop₁
        set c₂ := (c₁.modifyOperation fun op =>
          { op with candidates := op.candidates.eraseIdx op.cursor }).clearCandidateTiming op.demandPeerID
          with hc₂
        have ho₁ : c₁.operation = some op :=
          ((c.noteRejection op.demandPeerID .stale).consumeDirectContinuationCandidate_defers op).operation.trans ho
        have ho₂ : c₂.operation = some op₁ := modifyOperation_operation ho₁ _
        have hp₂ : c₂.participants = c.participants := by
          rw [hc₂, clearCandidateTiming_toCore, modifyOperation_toCore]
          exact consumeDirectContinuationCandidate_participants op
        have h₁ : Continues c op c₂ op₁ :=
          ⟨ho₂, hc, rfl, rfl, rfl, rfl, rfl, hp₂, le_rfl, herase.le.trans (Nat.sub_le _ _)⟩
        have hfv : c₂.factVersion = c.factVersion := consumeDirectContinuationCandidate_factVersion op
        have hlen : op₁.candidates.length = op.candidates.length - 1 := herase
        obtain ⟨op', h, hcur, hb, hfv', hv, hsame⟩ := dropInvalidCandidates_continues n c₂ ho₂ hc
          (by show op₁.candidates.length ≤ n + op.cursor; omega)
        refine ⟨op', h₁.trans h, hcur, hb, hfv'.trans hfv, hv, Or.inr ?_⟩
        have := h.length
        omega

/-- What goes on from here is ready; with one candidate nothing was dropped. -/
theorem advanceCandidates_ready (ho : c.operation = some op) (hc : op.current = none)
    (hb : op.builtAtFactVersion = c.factVersion) {now : Int} {advanced : Bool} {op' : Operation}
    (h : (c.advanceCandidates now advanced).2.operation = some op') :
    Continues c op (c.advanceCandidates now advanced).2 op' ∧ op'.cursor = op.cursor ∧
      Ready (c.advanceCandidates now advanced).2 op' ∧
      (c.advanceCandidates now advanced).1 = {} ∧
      (op.candidates.length ≤ 1 → (c.advanceCandidates now advanced).2 = c) := by
  obtain ⟨op₁, hk, hcur, hb₁, hfv, hv, hsame⟩ :=
    dropInvalidCandidates_continues op.candidates.length c ho hc (Nat.le_add_right _ _)
  unfold advanceCandidates at h ⊢
  simp only [ho, hk.operation] at h ⊢
  split at h
  · next hlt =>
    rw [if_pos hlt]
    cases hk.operation.symm.trans h
    have hp : op'.planAt op'.cursor = some op'.candidates[op'.cursor] := List.getElem?_eq_getElem hlt
    refine ⟨hk, hcur, ⟨?_, _, hp, hv _ hp⟩, rfl, fun hone => ?_⟩
    · rw [hb₁, hb, hfv]
    · rcases hsame with hsame | hlen
      · exact hsame
      · omega
  · simp [exhaustOperation] at h

/-- An idle operation that goes on is ready. -/
theorem advanceOperation_idle_ready (ho : c.operation = some op) (hc : op.current = none)
    {now : Int} {failed : Option CandidateGuard} {start : Int} {op' : Operation}
    (h : (c.advanceOperation op now failed start).2.operation = some op') :
    Continues c op (c.advanceOperation op now failed start).2 op' ∧ op'.cursor = op.cursor ∧
      Ready (c.advanceOperation op now failed start).2 op' ∧
      (op.candidates.length ≤ 1 → (c.advanceOperation op now failed start).2 = c ∨
        (c.advanceOperation op now failed start).2 = c.replanRemaining none none) := by
  unfold advanceOperation at h ⊢
  simp only [hc] at h ⊢
  split at h
  · next hb =>
    rw [if_pos hb]
    obtain ⟨op₁, hk, hcur, hb₁⟩ := replanRemaining_continues ho hc
    obtain ⟨hk', hcur', hr, -, hone⟩ := advanceCandidates_ready hk.operation hk.current hb₁ h
    exact ⟨hk.trans hk', hcur'.trans hcur, hr, fun hl => Or.inr (hone (hk.length.trans hl))⟩
  · next hb =>
    rw [if_neg hb]
    obtain ⟨hk', hcur', hr, -, hone⟩ := advanceCandidates_ready ho hc (not_not.1 hb) h
    exact ⟨hk', hcur', hr, fun hl => Or.inl (hone hl)⟩

/-- A ready operation stays as it is. -/
theorem advanceOperation_ready (ho : c.operation = some op) (hc : op.current = none)
    (hr : Ready c op) (now : Int) (failed : Option CandidateGuard) (start : Int) :
    c.advanceOperation op now failed start = ({}, c) := by
  obtain ⟨plan, hp, hv⟩ := hr.valid
  have hlt := (List.getElem?_eq_some_iff.1 hp).1
  have hdrop : dropInvalidCandidates op.candidates.length c = c := by
    cases hn : op.candidates.length with
    | zero => rfl
    | succ n =>
      unfold dropInvalidCandidates
      simp only [ho, hp, if_pos hv]
  have hadv : ∀ advanced, c.advanceCandidates now advanced = ({}, c) := by
    intro advanced
    unfold advanceCandidates
    simp only [ho, hdrop, if_pos hlt]
  unfold advanceOperation
  simp only [hc]
  rw [if_neg (not_not.2 hr.current), hadv]

@[simp] theorem settleCandidateOpportunity_participants (op : Operation) :
    (c.settleCandidateOpportunity op).participants = c.participants := by
  rcases c.settleCandidateOpportunity_toCore op with h | h <;> rw [h]
  rfl

/-- The live candidate goes, and the rest is planned anew. -/
theorem retireCandidate_continues (ho : c.operation = some op) (failed idle : Bool) :
    ∃ op', Continues c op (c.retireCandidate op failed idle) op' ∧
      op'.builtAtFactVersion = (c.retireCandidate op failed idle).factVersion ∧
      (failed || idle → op.cursor < op'.cursor) ∧
      (op.candidates.length ≤ 1 → op'.candidates.length ≤ op'.cursor) := by
  unfold retireCandidate
  dsimp only
  set c₁ : Controller := if failed then c else
    c.noteRejection op.demandPeerID (if idle then .firstFrameTimeout else .stale) with hc₁
  have h₁ : c₁.operation = some op ∧ c₁.participants = c.participants := by
    rw [hc₁]
    split <;> exact ⟨ho, rfl⟩
  set c₂ : Controller := if (failed || idle) = true then
    ((c₁.settleCandidateOpportunity op).consumeCurrentCandidateOpportunity op)
      |>.consumeQualityCandidateOpportunity op (op.planAt op.cursor) else c₁ with hc₂
  have h₂ : c₂.operation = some op ∧ c₂.participants = c.participants := by
    rw [hc₂]
    split
    · have ht : (((c₁.settleCandidateOpportunity op).consumeCurrentCandidateOpportunity op)
          |>.consumeQualityCandidateOpportunity op (op.planAt op.cursor)).toCore =
          (c₁.settleCandidateOpportunity op).toCore := by simp
      rw [ht]
      exact ⟨(settleCandidateOpportunity_operation c₁ op).trans h₁.1,
        (settleCandidateOpportunity_participants op).trans h₁.2⟩
    · exact h₁
  set c₃ := c₂.consumeDirectContinuationCandidate op with hc₃
  have h₃ : c₃.operation = some op ∧ c₃.participants = c.participants :=
    ⟨(c₂.consumeDirectContinuationCandidate_defers op).operation.trans h₂.1,
      (consumeDirectContinuationCandidate_participants op).trans h₂.2⟩
  set next : Operation → Operation := fun op =>
    if (failed || idle) = true then { op with current := none, cursor := op.cursor + 1 }
    else { op with current := none, candidates := op.candidates.eraseIdx op.cursor } with hnext
  set based : Operation := { op with baseRevision := c₃.toCore.bump.revision } 
  set c₄ := ((c₃.advanceActiveRevision op).modifyOperation next).clearCandidateTiming op.demandPeerID
    with hc₄
  have hbased : (c₃.advanceActiveRevision op).operation = some based := by
    rw [advanceActiveRevision_toCore, Core.rebased, h₃.1]
    rfl
  have ho₄ : c₄.operation = some (next based) := modifyOperation_operation hbased next
  have h₄ : Continues c op c₄ (next based) ∧ (failed || idle → op.cursor < (next based).cursor) ∧
      (op.candidates.length ≤ 1 → (next based).candidates.length ≤ (next based).cursor) := by
    have hp : c₄.participants = c.participants := by
      rw [hc₄, clearCandidateTiming_toCore, modifyOperation_toCore, advanceActiveRevision_toCore,
        Core.rebased_participants]
      exact h₃.2
    simp only [hnext] at ho₄ ⊢
    split at ho₄
    · next hx =>
      rw [if_pos hx]
      refine ⟨⟨ho₄, rfl, rfl, rfl, rfl, rfl, rfl, hp, Nat.le_succ _, le_rfl⟩, fun _ => Nat.lt_succ_self _,
        fun hl => ?_⟩
      exact hl.trans (Nat.le_add_left _ _)
    · next hx =>
      rw [if_neg hx]
      refine ⟨⟨ho₄, rfl, rfl, rfl, rfl, rfl, rfl, hp, le_rfl, List.length_eraseIdx_le _ _⟩,
        fun h => absurd h hx, fun hl => ?_⟩
      show (op.candidates.eraseIdx op.cursor).length ≤ op.cursor
      rw [List.length_eraseIdx]
      split <;> omega
  obtain ⟨op', hk, hcur, hb⟩ := replanRemaining_continues ho₄ h₄.1.current
  refine ⟨op', h₄.1.trans hk, hb, fun h => hcur ▸ h₄.2.1 h, fun hl => ?_⟩
  rw [hcur]
  exact hk.length.trans (h₄.2.2 hl)

/-! ## The direct head start -/

theorem directHeadStartMs_le (h : 0 < c.operationTimeoutMs) :
    c.directHeadStartMs ≤ c.operationTimeoutMs := by
  unfold directHeadStartMs
  omega

theorem operationWakeAt_le (h : 0 < c.operationTimeoutMs) (op : Operation) :
    c.operationWakeAt op ≤ op.deadlineAtMs := by
  have := directHeadStartMs_le h
  unfold operationWakeAt directHeadStartDeadlineAt
  split
  · exact le_rfl
  · split
    · omega
    · split
      · exact le_rfl
      · split
        · exact min_le_left _ _
        · exact le_rfl

theorem retireHeadStart_continues (ho : c.operation = some op) :
    ∃ op', Continues c op (c.retireHeadStart op).2 op' ∧ op'.cursor = op.cursor := by
  unfold retireHeadStart
  cases hc : op.current with
  | none => exact ⟨op, .refl ho hc, rfl⟩
  | some att =>
    dsimp only
    set c₁ := ((c.settleCandidateOpportunity op).noteRejection op.demandPeerID
      .firstFrameTimeout).consumeCurrentCandidateOpportunity op with hc₁
    have ht₁ : c₁.toCore = (c.settleCandidateOpportunity op).toCore := by simp [hc₁]
    have ho₁ : (c₁.advanceActiveRevision op).operation =
        some { op with baseRevision := c₁.toCore.bump.revision } := by
      rw [advanceActiveRevision_toCore]
      rw [Core.rebased, ht₁, settleCandidateOpportunity_operation, ho]
      rfl
    have hp : (c₁.advanceActiveRevision op).participants = c.participants := by
      rw [advanceActiveRevision_toCore, Core.rebased_participants, ht₁,
        settleCandidateOpportunity_participants]
    exact ⟨_, ⟨modifyOperation_operation ho₁ _, rfl, rfl, rfl, rfl, rfl, rfl, hp, le_rfl, le_rfl⟩, rfl⟩

/-- A head start that is over passes the candidates before the SFU's. -/
theorem advanceExpiredDirectHeadStart_due (ho : c.operation = some op) {now : Int}
    (hp : c.headStartPending op) (hn : c.directHeadStartDeadlineAt op ≤ now) :
    (c.advanceExpiredDirectHeadStart op now).1 = true ∧
      ∃ op', Continues c op (c.advanceExpiredDirectHeadStart op now).2.2 op' ∧ op.cursor < op'.cursor := by
  unfold headStartPending at hp
  simp only [Bool.and_eq_true, Bool.not_eq_true', Option.isSome_iff_exists] at hp
  obtain ⟨⟨hk, ht⟩, sfuIndex, hi⟩ := hp
  have hlt : op.cursor < sfuIndex := by
    unfold sfuIndexAfterCursor at hi
    split at hi
    · split at hi
      · cases hi
        assumption
      · cases hi
    · cases hi
  split at hk
  · next tuple htuple =>
    have hg : ¬((decide (tuple.kind ≠ .peer) || transportConnected op ||
        decide (now < c.directHeadStartDeadlineAt op)) = true) := by
      simp only [ht, Bool.or_false, Bool.or_eq_true, decide_eq_true_eq, not_or, not_not, not_lt]
      exact ⟨by simpa using hk, hn⟩
    unfold advanceExpiredDirectHeadStart
    simp only [htuple, hi, if_neg hg]
    obtain ⟨op₁, hk₁, hcur⟩ := retireHeadStart_continues ho
    refine ⟨trivial, _, hk₁.trans ⟨modifyOperation_operation hk₁.operation _, hk₁.current, rfl, rfl, rfl, rfl,
      rfl, rfl, ?_, le_rfl⟩, hlt⟩
    rw [hcur]
    exact hlt.le
  · cases hk

/-- Until then it does nothing. -/
theorem advanceExpiredDirectHeadStart_early {now : Int}
    (h : c.headStartPending op → now < c.directHeadStartDeadlineAt op) :
    c.advanceExpiredDirectHeadStart op now = (false, [], c) := by
  unfold advanceExpiredDirectHeadStart
  split
  · next tuple sfuIndex htuple hi =>
    rw [if_pos]
    by_cases hk : tuple.kind = .peer
    · cases ht : transportConnected op with
      | true => simp
      | false =>
        have := h (by simp [headStartPending, htuple, hi, hk, ht])
        simp [this]
    · simp [hk]
  · rfl

/-! ## What stands after a validation -/

/-- The operation passed every check that does not read the clock. -/
structure Standing (c : Controller) (op : Operation) : Prop where
  operation : c.operation = some op
  route : op.reason ≠ .publicationAttach
  owned : c.bootstrapOperationOwned op
  eligible : c.rootConvergenceOperationStillEligible op
  sessions : c.operationSessionsCurrent op
  live : ∀ att, op.current = some att → c.attemptValid op att
  ready : op.current = none → Ready c op

/-- Only root convergence and bootstrap are checked for their owner. -/
theorem owned_of_reason (hr : op.reason ≠ .rootConvergence) (hb : op.reason ≠ .sfuBootstrap) :
    c.bootstrapOperationOwned op ∧ c.rootConvergenceOperationStillEligible op := by
  constructor
  · simp [bootstrapOperationOwned, hb]
  · simp [rootConvergenceOperationStillEligible, hr]

/-- What a root convergence or bootstrap is checked for needs the child's edge active. -/
theorem length_of_owned (hn : c.Narrow op) (hr : op.reason = .rootConvergence ∨ op.reason = .sfuBootstrap)
    (hb : c.bootstrapOperationOwned op) (hroot : c.rootConvergenceOperationStillEligible op) :
    op.candidates.length ≤ 1 := by
  rcases hr with hr | hr
  · unfold rootConvergenceOperationStillEligible at hroot
    simp only [hr, ne_eq, not_true_eq_false, decide_false, Bool.false_or] at hroot
    split at hroot
    · next tuple e _ he =>
      simp only [Bool.and_eq_true] at hroot
      exact hn (Or.inl hr) e he hroot.1.1.1.1.1.2
    · cases hroot
  · unfold bootstrapOperationOwned at hb
    simp only [hr, ne_eq, not_true_eq_false, decide_false, Bool.false_or] at hb
    split at hb
    · cases hb
    · simp only [Bool.and_eq_true, List.contains_iff_mem] at hb
      have hm := hb.2
      unfold safeSfuBootstrapCarriers at hm
      rw [if_pos hb.1.2] at hm
      have hc := (List.mem_filter.1 (List.mem_sortStable.1 hm)).2
      unfold carrierEligible at hc
      split at hc
      · next current e plan _ he _ =>
        simp only [Bool.and_eq_true] at hc
        exact hn (Or.inr hr) e he hc.1.1.1.2
      · cases hc

/-- A new plan for the same candidate is checked as the old one. -/
theorem owned_replanned (ho : c.operation = some op) (hc : op.current = none)
    (hl : op.candidates.length ≤ 1) {op' : Operation}
    (h : (c.replanRemaining none none).operation = some op') (hlt : op'.cursor < op'.candidates.length)
    (hb : c.bootstrapOperationOwned op) (hroot : c.rootConvergenceOperationStillEligible op) :
    (c.replanRemaining none none).bootstrapOperationOwned op' ∧
      (c.replanRemaining none none).rootConvergenceOperationStillEligible op' := by
  obtain ⟨op₁, hk, hcur, -⟩ := replanRemaining_continues ho hc
  cases hk.operation.symm.trans h
  have hlen := hk.length
  have hzero : op.cursor = 0 := by omega
  obtain ⟨plan, hplan⟩ := List.length_eq_one_iff.1 (show op.candidates.length = 1 by omega)
  have htuple : op'.currentTuple = op.currentTuple := by
    have hop : op' = _ := Option.some.inj (h.symm.trans (modifyOperation_operation ho _))
    have hreplanned : op'.candidates = _ := congrArg Operation.candidates hop
    have hone : remainingTuples op none none = [plan.tuple] := by
      simp [remainingTuples, hplan, hzero]
    simp only [hone, hzero, List.take_zero, List.nil_append, List.filterMap_cons,
      List.filterMap_nil] at hreplanned
    unfold Operation.currentTuple Operation.planAt
    rw [hk.current, hc, hcur, hzero, hplan]
    dsimp only
    split at hreplanned
    · simp [hreplanned] at hlt
    · next plan' hp =>
      rw [hreplanned]
      split at hp
      · next plan₁ hp₁ =>
        split at hp
        · cases hp
          simp [planCandidate_tuple hp₁]
        · cases hp
      · cases hp
  constructor
  · rw [← hb]
    unfold bootstrapOperationOwned
    rw [hk.reason, hk.demandPeerID, hk.demandSessionID, hk.childPeerID]
    rfl
  · rw [← hroot]
    unfold rootConvergenceOperationStillEligible
    rw [hk.reason, hk.childPeerID, htuple]
    rfl

theorem Continues.standing {c' : Controller} {op' : Operation} (h : Continues c op c' op')
    (hready : Ready c' op') (hroute : op.reason ≠ .publicationAttach) (hn : c.Narrow op)
    (hb : c.bootstrapOperationOwned op) (hroot : c.rootConvergenceOperationStillEligible op)
    (hs : c'.operationSessionsCurrent op')
    (hone : op.candidates.length ≤ 1 → c'.bootstrapOperationOwned op' ∧
      c'.rootConvergenceOperationStillEligible op') : Standing c' op' := by
  have hown : c'.bootstrapOperationOwned op' ∧ c'.rootConvergenceOperationStillEligible op' := by
    by_cases hr : op.reason = .rootConvergence ∨ op.reason = .sfuBootstrap
    · exact hone (length_of_owned hn hr hb hroot)
    · rw [not_or] at hr
      exact owned_of_reason (h.reason ▸ hr.1) (h.reason ▸ hr.2)
  refine ⟨h.operation, h.reason ▸ hroute, hown.1, hown.2, hs, fun att hc => ?_, fun _ => hready⟩
  rw [h.current] at hc
  cases hc

/-- No single candidate is ready behind the first one. -/
theorem Ready.off {c' : Controller} {op' : Operation} (h : Ready c' op')
    (hl : op'.candidates.length ≤ op'.cursor) : False := by
  obtain ⟨plan, hp, -⟩ := h.valid
  have := (List.getElem?_eq_some_iff.1 hp).1
  omega

theorem advanceOperation_standing (ho : c.operation = some op) (hroute : op.reason ≠ .publicationAttach)
    (hn : c.Narrow op) (hb : c.bootstrapOperationOwned op)
    (hroot : c.rootConvergenceOperationStillEligible op) (hs : c.operationSessionsCurrent op)
    {now start : Int} {op' : Operation}
    (h : (c.advanceOperation op now none start).2.operation = some op') :
    Standing (c.advanceOperation op now none start).2 op' := by
  cases hc : op.current with
  | none =>
    obtain ⟨hk, -, hready, hone⟩ := advanceOperation_idle_ready ho hc h
    refine hk.standing hready hroute hn hb hroot (hk.sessions hs) fun hl => ?_
    obtain ⟨plan, hp, -⟩ := hready.valid
    rcases hone hl with heq | heq
    · rw [heq] at h ⊢
      cases ho.symm.trans h
      exact ⟨hb, hroot⟩
    · rw [heq] at h ⊢
      exact owned_replanned ho hc hl h (List.getElem?_eq_some_iff.1 hp).1 hb hroot
  | some att =>
    unfold advanceOperation at h ⊢
    simp only [hc] at h ⊢
    split at h
    · next hv =>
      rw [if_pos hv]
      cases ho.symm.trans h
      simp only [Bool.and_eq_true] at hv
      refine ⟨ho, hroute, hb, hroot, hs, fun att' hatt => ?_, fun hnone => ?_⟩
      · cases hc.symm.trans hatt
        exact hv.2
      · rw [hc] at hnone
        cases hnone
    · next hv =>
      rw [if_neg hv]
      obtain ⟨op₁, hk, hb₁, -, hone⟩ := retireCandidate_continues ho (guardFailed op att none)
        (c.noProgress op att now)
      obtain ⟨hk', hcur, hready, -⟩ := advanceCandidates_ready hk.operation hk.current hb₁ h
      have hsame := hk.trans hk'
      refine hsame.standing hready hroute hn hb hroot (hsame.sessions hs) fun hl =>
        (hready.off ?_).elim
      rw [hcur]
      exact hk'.length.trans (hone hl)

/-- An attachment that goes on was left alone. -/
theorem validatePublicationAttach_live {now : Int} {op' : Operation}
    (h : (c.validatePublicationAttach op now none).2.operation = some op') :
    (c.validatePublicationAttach op now none).2 = c ∧ c.publicationAttachOwned op := by
  unfold validatePublicationAttach at h ⊢
  split at h
  · cases h
  · next hown =>
    rw [if_neg hown]
    dsimp only at h ⊢
    split at h
    · simp [failPublicationAttach] at h
    · next hx =>
      rw [if_neg hx]
      exact ⟨rfl, by simpa using hown⟩

/-- **What a validation leaves passes it again.** -/
theorem validateOrAdvance_standing (hn : c.Narrowed) {now : Int} {op' : Operation}
    (h : (c.validateOrAdvance now none).2.operation = some op') :
    Standing (c.validateOrAdvance now none).2 op' ∨
      (c.validateOrAdvance now none).2 = c ∧ op'.reason = .publicationAttach ∧
        c.publicationAttachOwned op' := by
  unfold validateOrAdvance at h ⊢
  cases ho : c.operation with
  | none => simp [ho] at h
  | some op =>
    simp only [ho] at h ⊢
    split at h
    · next hr =>
      rw [if_pos hr]
      right
      obtain ⟨heq, hown⟩ := validatePublicationAttach_live h
      rw [heq] at h
      cases ho.symm.trans h
      exact ⟨heq, hr, hown⟩
    · next hr =>
      rw [if_neg hr]
      left
      split at h
      · simp [dropStaleOperation] at h
      · next hb =>
        rw [if_neg hb]
        split at h
        · simp at h
        · next hx =>
          rw [if_neg hx]
          split at h
          · simp [expireOperation] at h
          · next hd =>
            rw [if_neg hd]
            have hroot : c.rootConvergenceOperationStillEligible op := by
              simp only [Bool.or_eq_true, Bool.and_eq_true, decide_eq_true_eq, not_or] at hx
              by_cases hroot : op.reason = .rootConvergence
              · simpa [hroot] using hx.2
              · simp [rootConvergenceOperationStillEligible, hroot]
            have hb : c.bootstrapOperationOwned op := by simpa using hb
            by_cases hdue : c.headStartPending op = true ∧ c.directHeadStartDeadlineAt op ≤ now
            · obtain ⟨hfired, op₁, hk, hlt⟩ := advanceExpiredDirectHeadStart_due ho hdue.1 hdue.2
              set c₁ := (c.advanceExpiredDirectHeadStart op now).2.2
              simp only [hk.operation] at h ⊢
              split at h
              · simp [dropStaleOperation] at h
              · next hs =>
                rw [if_neg hs]
                obtain ⟨hk', hcur, hready, -⟩ := advanceOperation_idle_ready hk.operation hk.current h
                refine (hk.trans hk').standing hready hr (hn op ho) hb hroot
                  (hk'.sessions (by simpa using hs)) fun hl => (hready.off ?_).elim
                have := hk'.length.trans hk.length
                omega
            · have hearly : c.advanceExpiredDirectHeadStart op now = _ :=
                advanceExpiredDirectHeadStart_early fun hp => not_le.1 fun hle => hdue ⟨hp, hle⟩
              simp only [hearly, ho] at h ⊢
              split at h
              · simp [dropStaleOperation] at h
              · next hs =>
                rw [if_neg hs]
                exact advanceOperation_standing ho hr (hn op ho) hb hroot (by simpa using hs) h

/-! ## Asleep and awake -/

/-- The attempt is retired, the cursor advances, or the operation ends. -/
def Progresses (op : Operation) (c' : Core) : Prop :=
  ∀ op', c'.operation = some op' →
    op.cursor < op'.cursor ∨ op.current.isSome ∧ op'.current = none

/-- The checks before the clock is read. -/
theorem Standing.validate (h : Standing c op) (hq : op.reason ≠ .qualityConvergence) {now : Int}
    (hlt : now < op.deadlineAtMs) : c.validateOrAdvance now none =
      (let x := c.advanceExpiredDirectHeadStart op now
       match x.2.2.operation with
        | none => ({ released := x.2.1, expired := x.1 }, x.2.2)
        | some op₁ =>
          if !x.2.2.operationSessionsCurrent op₁ then
            let y := x.2.2.dropStaleOperation op₁ now .aborted
            ({ released := x.2.1 ++ y.1.released, expired := x.1 }, y.2)
          else
            let y := x.2.2.advanceOperation op₁ now none c.revision
            ({ y.1 with released := x.2.1 ++ y.1.released, expired := x.1 || y.1.expired }, y.2)) := by
  unfold validateOrAdvance
  simp only [h.operation, if_neg h.route, h.owned, h.eligible, hq]
  refine (if_neg (by simp)).trans ((if_neg (by simp)).trans ((if_neg (not_le.2 hlt)).trans ?_))
  rfl

/-- **Before the wake-up an expiry does nothing.** -/
theorem Standing.asleep (h : Standing c op) (hq : op.reason ≠ .qualityConvergence)
    (htime : 0 < c.operationTimeoutMs) {now : Int} (hnow : now < c.operationWakeAt op)
    (hclock : ∀ att, op.current = some att → op.deadlineAtMs - c.operationTimeoutMs ≤ att.startedAtMs) :
    c.validateOrAdvance now none = ({}, c) := by
  have hearly : c.advanceExpiredDirectHeadStart op now = _ :=
    advanceExpiredDirectHeadStart_early fun hp => by
      unfold operationWakeAt at hnow
      rwa [if_neg h.route, if_pos hp] at hnow
  rw [h.validate hq (hnow.trans_le (operationWakeAt_le htime op)), hearly]
  simp only [h.operation]
  rw [if_neg (by simp [h.sessions])]
  have hkeep : c.advanceOperation op now none c.revision = ({}, c) := by
    cases hc : op.current with
    | none => exact advanceOperation_ready h.operation hc (h.ready hc) now none _
    | some att =>
      have hidle : c.noProgress op att now = false := by
        by_contra hidle
        simp only [noProgress, Bool.not_eq_false, Bool.and_eq_true, decide_eq_true_eq] at hidle
        obtain ⟨⟨hpeer, hsucc⟩, hlate⟩ := hidle
        have := hclock att hc
        unfold operationWakeAt at hnow
        rw [if_neg h.route] at hnow
        split at hnow
        · unfold directHeadStartDeadlineAt at hnow
          omega
        · simp only [hc] at hnow
          rw [if_pos (by simp [hpeer, hsucc])] at hnow
          have := (lt_min_iff.1 hnow).2
          omega
      unfold advanceOperation
      simp only [hc, hidle, h.live att hc, guardFailed]
      rfl
  rw [hkeep]
  rfl

/-- **From the wake-up on an expiry goes on.** -/
theorem Standing.awake (h : Standing c op) (hq : op.reason ≠ .qualityConvergence) {now : Int}
    (hnow : c.operationWakeAt op ≤ now) : (c.validateOrAdvance now none).1.expired ∧
      Progresses op (c.validateOrAdvance now none).2.toCore := by
  by_cases hd : op.deadlineAtMs ≤ now
  · unfold validateOrAdvance
    simp only [h.operation, if_neg h.route, h.owned, h.eligible, hq]
    rw [if_neg (by simp), if_neg (by simp), if_pos hd]
    exact ⟨rfl, fun op' ho' => by simp [expireOperation] at ho'⟩
  rw [h.validate hq (not_le.1 hd)]
  by_cases hp : c.headStartPending op
  · -- the head start is over
    unfold operationWakeAt at hnow
    rw [if_neg h.route, if_pos hp] at hnow
    obtain ⟨hfired, op₁, hk, hlt⟩ := advanceExpiredDirectHeadStart_due h.operation hp hnow
    simp only [hk.operation, hfired]
    split
    · exact ⟨rfl, fun op' ho' => by simp [dropStaleOperation] at ho'⟩
    · refine ⟨rfl, fun op' ho' => Or.inl ?_⟩
      obtain ⟨-, hcur, -⟩ := advanceOperation_idle_ready hk.operation hk.current ho'
      rwa [hcur]
  · -- the attempt made no progress
    have hearly : c.advanceExpiredDirectHeadStart op now = _ :=
      advanceExpiredDirectHeadStart_early fun h => absurd h hp
    simp only [hearly, h.operation]
    rw [if_neg (by simp [h.sessions])]
    unfold operationWakeAt at hnow
    rw [if_neg h.route, if_neg hp] at hnow
    cases hc : op.current with
    | none => simp only [hc] at hnow; exact absurd hnow hd
    | some att =>
      simp only [hc] at hnow
      split at hnow
      · next hx =>
        have hlate : att.startedAtMs + c.directHeadStartMs ≤ now :=
          (min_le_iff.1 hnow).resolve_left hd
        have hidle : c.noProgress op att now = true := by
          simp only [noProgress, hx, Bool.true_and, decide_eq_true_eq]
          exact hlate
        unfold advanceOperation
        simp only [hc, hidle, guardFailed, Bool.not_true, Bool.and_false, Bool.false_and]
        refine ⟨rfl, fun op' ho' => Or.inl ?_⟩
        obtain ⟨op₁, hk, hb, hlt, -⟩ := retireCandidate_continues h.operation false true
        obtain ⟨-, hcur, -⟩ := advanceCandidates_ready hk.operation hk.current hb ho'
        rw [hcur]
        exact hlt rfl
      · exact absurd hnow hd

/-! ## No panic but the end of the revisions -/

theorem advanceActiveRevision_spent (op : Operation) :
    Spent c.toCore (c.advanceActiveRevision op).toCore := by
  rw [advanceActiveRevision_toCore]
  exact (Spent.of_eq rfl : Spent c.toCore c.toCore).bump

theorem retireAttempt_spent (op : Operation) : Spent c.toCore (c.retireAttempt op).2.toCore := by
  unfold retireAttempt
  split
  · exact advanceActiveRevision_spent op
  · exact .of_eq rfl

theorem consumeDirectContinuationCandidate_spent (op : Operation) :
    Spent c.toCore (c.consumeDirectContinuationCandidate op).toCore := by
  obtain ⟨m, -, h⟩ := c.consumeDirectContinuationCandidate_defers op
  rw [h]
  exact .of_eq rfl

theorem blockAndClear_spent (op : Operation) (block advanced : Bool) :
    Spent c.toCore (c.blockAndClear op block advanced).2.toCore := by
  unfold blockAndClear
  dsimp only
  split
  · exact .of_eq rfl
  · have hcut : Spent c.toCore
        (retireInvalidOperationEdge { c with operation := none } op.childPeerID).2.2.toCore := by
      cases hr : (retireInvalidOperationEdge { c with operation := none } op.childPeerID).1 with
      | false =>
        rw [retireInvalidOperationEdge_false _ _ hr]
        exact .of_eq rfl
      | true =>
        exact .of_eq (retireInvalidOperationEdge_trim _ _ hr).sameCourse.fault
    rw [updateLedger_toCore]
    split <;> split
    · exact hcut.bump
    · exact hcut
    · exact hcut.bump
    · exact hcut

theorem finishOperation_spent (op : Operation) (now : Int) (bucket : RejectionBucket)
    (advanced : Bool) : Spent c.toCore (c.finishOperation op now bucket advanced).2.2.toCore := by
  unfold finishOperation
  dsimp only
  have h := blockAndClear_spent (c := (c.chargeTerminal op now bucket).2.2) op
    (!isBackgroundConvergence op.reason && !op.reason == .sfuBootstrap) advanced
  rw [chargeTerminal_toCore] at h
  split
  · rwa [rememberUnavailableSfuBootstrap_toCore]
  · exact h

/-- The plan and the child that a live attempt is charged to exist. -/
def Chargeable (c : Core) (op : Operation) : Prop :=
  op.current.isSome → (op.planAt op.cursor).isSome ∧ (c.participant op.childPeerID).isSome

theorem Chargeable.settle (h : Chargeable c.toCore op) :
    (c.settleCandidateOpportunity op).toCore = c.toCore := by
  unfold settleCandidateOpportunity
  cases hc : op.current with
  | none => rfl
  | some att =>
    dsimp only
    split
    · rfl
    · obtain ⟨hp, hq⟩ := h (by simp [hc])
      obtain ⟨plan, hp⟩ := Option.isSome_iff_exists.1 hp
      obtain ⟨child, hq⟩ := Option.isSome_iff_exists.1 hq
      simp [hp, hq]

theorem Standing.chargeable (h : Standing c op) : Chargeable c.toCore op := by
  intro hc
  obtain ⟨att, hc⟩ := Option.isSome_iff_exists.1 hc
  have hv := h.live att hc
  have hs := h.sessions
  unfold attemptValid at hv
  unfold operationSessionsCurrent at hs
  rw [Bool.and_eq_true] at hs
  constructor
  · split at hv
    · next hp => simp [hp]
    · cases hv
  · obtain ⟨hs, -⟩ := hs
    split at hs
    · next hp => simp [hp]
    · cases hs

theorem expireOperation_spent (h : Chargeable c.toCore op) (now : Int) :
    Spent c.toCore (c.expireOperation op now).2.toCore := by
  unfold expireOperation
  dsimp only
  set c₁ := ((c.settleCandidateOpportunity op).consumeCurrentCandidateOpportunity
    op).consumeDirectContinuationCandidate op with hc₁
  have h₁ : Spent c.toCore c₁.toCore := by
    have := consumeDirectContinuationCandidate_spent
      (c := (c.settleCandidateOpportunity op).consumeCurrentCandidateOpportunity op) op
    rwa [consumeCurrentCandidateOpportunity_toCore, h.settle] at this
  set c₂ := if op.reason = .qualityConvergence then c₁.consumeQualityOperationCandidates op else c₁
    with hc₂
  have h₂ : Spent c.toCore c₂.toCore := by
    rw [hc₂]
    split
    · simpa using h₁
    · exact h₁
  exact (h₂.trans (retireAttempt_spent op)).trans (finishOperation_spent op now _ _)

theorem dropStaleOperation_spent (op : Operation) (now : Int) (bucket : RejectionBucket) :
    Spent c.toCore (c.dropStaleOperation op now bucket).2.toCore := by
  unfold dropStaleOperation
  dsimp only
  have h := retireAttempt_spent (c := c) op
  exact h.trans (.of_eq (by simp))

theorem advanceExpiredDirectHeadStart_spent (h : Chargeable c.toCore op) (now : Int) :
    Spent c.toCore (c.advanceExpiredDirectHeadStart op now).2.2.toCore := by
  unfold advanceExpiredDirectHeadStart
  split
  · split
    · exact .of_eq rfl
    · have hretire : Spent c.toCore (c.retireHeadStart op).2.toCore := by
        unfold retireHeadStart
        split
        · exact .of_eq rfl
        · set c₁ := ((c.settleCandidateOpportunity op).noteRejection op.demandPeerID
            .firstFrameTimeout).consumeCurrentCandidateOpportunity op with hc₁
          have ht₁ : c₁.toCore = c.toCore := by
            rw [hc₁, consumeCurrentCandidateOpportunity_toCore]
            exact h.settle
          have h₁ : Spent c₁.toCore _ := advanceActiveRevision_spent op
          rw [ht₁] at h₁
          exact h₁
      exact hretire
  · exact .of_eq rfl

theorem dropInvalidCandidates_fault : ∀ (n : ℕ) (c : Controller),
    (dropInvalidCandidates n c).fault = c.fault
  | 0, _ => rfl
  | n + 1, c => by
    unfold dropInvalidCandidates
    split
    · rfl
    · next op _ =>
      split
      · rfl
      · split
        · rfl
        · refine (dropInvalidCandidates_fault n _).trans ?_
          obtain ⟨m, -, h⟩ :=
            (c.noteRejection op.demandPeerID .stale).consumeDirectContinuationCandidate_defers op
          have hf := congrArg Core.fault h
          exact hf

theorem advanceCandidates_spent (now : Int) (advanced : Bool) :
    Spent c.toCore (c.advanceCandidates now advanced).2.toCore := by
  unfold advanceCandidates
  split
  · exact .of_eq rfl
  · next op _ =>
    have h : Spent c.toCore (dropInvalidCandidates op.candidates.length c).toCore :=
      .of_eq (dropInvalidCandidates_fault _ c)
    dsimp only
    split
    · exact h
    · split
      · exact h
      · exact h.trans (finishOperation_spent _ now _ _)

theorem retireCandidate_spent (h : Chargeable c.toCore op) (failed idle : Bool) :
    Spent c.toCore (c.retireCandidate op failed idle).toCore := by
  unfold retireCandidate
  dsimp only
  set c₁ : Controller := if failed then c else
    c.noteRejection op.demandPeerID (if idle then .firstFrameTimeout else .stale) with hc₁
  have h₁ : c₁.toCore = c.toCore := by
    rw [hc₁]
    split <;> rfl
  set c₂ : Controller := if (failed || idle) = true then
    ((c₁.settleCandidateOpportunity op).consumeCurrentCandidateOpportunity op)
      |>.consumeQualityCandidateOpportunity op (op.planAt op.cursor) else c₁ with hc₂
  have h₂ : c₂.toCore = c.toCore := by
    have hch : Chargeable c₁.toCore op := by rwa [h₁]
    rw [hc₂]
    split
    · simp [hch.settle, h₁]
    · exact h₁
  have h₃ : Spent c₂.toCore (c₂.consumeDirectContinuationCandidate op).toCore :=
    consumeDirectContinuationCandidate_spent op
  rw [h₂] at h₃
  have h₄ := h₃.trans (advanceActiveRevision_spent op)
  exact h₄

theorem advanceOperation_spent (h : Chargeable c.toCore op) (now : Int)
    (failed : Option CandidateGuard) (start : Int) :
    Spent c.toCore (c.advanceOperation op now failed start).2.toCore := by
  unfold advanceOperation
  split
  · have hplan : Spent c.toCore
        (if op.builtAtFactVersion ≠ c.factVersion then c.replanRemaining none none else c).toCore := by
      split <;> exact .of_eq rfl
    exact hplan.trans (advanceCandidates_spent now _)
  · dsimp only
    split
    · exact .of_eq rfl
    · exact (retireCandidate_spent h _ _).trans (advanceCandidates_spent now _)

/-- The expiry of an operation that stands raises nothing of its own. -/
theorem Standing.spent (h : Standing c op) (hq : op.reason ≠ .qualityConvergence) (now : Int) :
    Spent c.toCore (c.validateOrAdvance now none).2.toCore := by
  by_cases hd : op.deadlineAtMs ≤ now
  · unfold validateOrAdvance
    simp only [h.operation, if_neg h.route, h.owned, h.eligible, hq]
    rw [if_neg (by simp), if_neg (by simp), if_pos hd]
    exact expireOperation_spent h.chargeable now
  rw [h.validate hq (not_le.1 hd)]
  dsimp only
  have hhead := advanceExpiredDirectHeadStart_spent h.chargeable now
  by_cases hdue : c.headStartPending op = true ∧ c.directHeadStartDeadlineAt op ≤ now
  · obtain ⟨-, op₁, hk, -⟩ := advanceExpiredDirectHeadStart_due h.operation hdue.1 hdue.2
    simp only [hk.operation]
    split
    · exact hhead.trans (dropStaleOperation_spent op₁ now _)
    · exact hhead.trans (advanceOperation_spent (fun hc => by simp [hk.current] at hc) now none _)
  · have hearly : c.advanceExpiredDirectHeadStart op now = _ :=
      advanceExpiredDirectHeadStart_early fun hp => not_le.1 fun hle => hdue ⟨hp, hle⟩
    simp only [hearly, h.operation]
    split
    · exact dropStaleOperation_spent op now _
    · exact advanceOperation_spent h.chargeable now none _

/-! ## Attachments -/

/-- An attachment expires at its deadline, and not before. -/
theorem validatePublicationAttach_wake (hown : c.publicationAttachOwned op) (now : Int) :
    (now < op.deadlineAtMs → c.validatePublicationAttach op now none = ({}, c)) ∧
      (op.deadlineAtMs ≤ now → (c.validatePublicationAttach op now none).1.expired ∧
        (c.validatePublicationAttach op now none).2.operation = none ∧
        Spent c.toCore (c.validatePublicationAttach op now none).2.toCore) := by
  have hguard : op.guardConsumed none = false := rfl
  constructor
  · intro hlt
    simp only [validatePublicationAttach, hown, hguard, not_le.2 hlt]
    rfl
  · intro hle
    simp only [validatePublicationAttach, hown, hguard, hle]
    refine ⟨rfl, rfl, ?_⟩
    have he : (c.edge op.childPeerID).isSome := by
      unfold publicationAttachOwned at hown
      rw [Bool.and_eq_true] at hown
      obtain ⟨-, hown⟩ := hown
      split at hown
      · next he _ => simp [he]
      · cases hown
    obtain ⟨e, he⟩ := Option.isSome_iff_exists.1 he
    have hset : Spent c.toCore (c.setVideoFacet op.childPeerID op.videoGeneration "" false).toCore := by
      simp only [setVideoFacet, he]
      exact .of_eq rfl
    exact hset.trans (advanceActiveRevision_spent op)

/-! ## The wake-up -/

/-- The call of an expiry, from its validation. -/
theorem call_operationExpired {now : Int} {checked : Validation} {c' : Controller}
    (h : c.validateOrAdvance now none = (checked, c')) (hf : c'.fault = none) :
    c.call (.operationExpired now) =
      .ok ({ accepted := checked.expired, failedPeerIDs := failedPeerIDsFrom [checked]
             released := checked.released }, c') := by
  unfold Controller.call
  simp [run, operationExpired, h, Reply.ofSettle, hf]

/-- What goes on raises nothing but the end of the revisions. -/
theorem call_operationExpired_progresses {now : Int} (hf : c.fault = none)
    (hs : Spent c.toCore (c.validateOrAdvance now none).2.toCore)
    (h : (c.validateOrAdvance now none).1.expired ∧
      Progresses op (c.validateOrAdvance now none).2.toCore) :
    c.call (.operationExpired now) = .error .revisionSpaceExhausted ∨
      ∃ reply c', c.call (.operationExpired now) = .ok (reply, c') ∧ reply.accepted ∧
        Progresses op c'.toCore := by
  rcases hs with hs | hs
  · exact Or.inr ⟨_, _, call_operationExpired rfl (hs.trans hf), h.1, h.2⟩
  · left
    unfold Controller.call
    simp [run, operationExpired, Reply.ofSettle, hs]

/-- **Deadline and wake-up agree.**  Once an expiry left an operation, the time
    that its snapshot names is the time of the next expiry: before it, unless
    the attempt began before its operation, an expiry does nothing; from it on,
    an expiry goes on. -/
theorem wake_agrees {c c₁ : Controller} {t₀ : Int} {reply : Reply} {op : Operation}
    (hc : c.Reachable) (h : c.call (.operationExpired t₀) = .ok (reply, c₁))
    (ho : c₁.operation = some op) (hq : op.reason ≠ .qualityConvergence) :
    ((∀ att, op.current = some att → op.deadlineAtMs - c₁.operationTimeoutMs ≤ att.startedAtMs) →
      ∀ t < c₁.operationWakeAt op, c₁.call (.operationExpired t) = .ok ({}, c₁)) ∧
    ∀ t ≥ c₁.operationWakeAt op, c₁.call (.operationExpired t) = .error .revisionSpaceExhausted ∨
      ∃ reply c₂, c₁.call (.operationExpired t) = .ok (reply, c₂) ∧ reply.accepted ∧
        Progresses op c₂.toCore := by
  obtain ⟨hg, hr⟩ := hc.good.call h
  have hv : (c.validateOrAdvance t₀ none).2 = c₁ := congrArg Prod.snd hr
  have htime : 0 < c₁.operationTimeoutMs := hg.sound.forest.peopled.timeout
  rw [← hv] at ho
  rcases validateOrAdvance_standing hc.narrowed ho with hst | ⟨heq, hattach, hown⟩
  · rw [hv] at hst
    refine ⟨fun hclock t ht => ?_, fun t ht => ?_⟩
    · exact call_operationExpired (hst.asleep hq htime ht hclock) hg.fault
    · exact call_operationExpired_progresses hg.fault (hst.spent hq t) (hst.awake hq ht)
  · rw [hv] at heq ho
    subst heq
    have hwake : c₁.operationWakeAt op = op.deadlineAtMs := by
      unfold operationWakeAt
      rw [if_pos hattach]
    have hval : ∀ t, c₁.validateOrAdvance t none = c₁.validatePublicationAttach op t none := by
      intro t
      unfold validateOrAdvance
      simp only [ho, if_pos hattach]
    refine ⟨fun _ t ht => ?_, fun t ht => ?_⟩
    · rw [hwake] at ht
      exact call_operationExpired ((hval t).trans ((validatePublicationAttach_wake hown t).1 ht)) hg.fault
    · rw [hwake] at ht
      obtain ⟨hexp, hnone, hs⟩ := (validatePublicationAttach_wake hown t).2 ht
      rw [← hval t] at hexp hnone hs
      refine call_operationExpired_progresses hg.fault hs ⟨hexp, fun op' ho' => ?_⟩
      rw [hnone] at ho'
      cases ho'

/-- A viewer's attempt, begun at the given time in an operation opened at another. -/
def viewerBegun (opened begun : Int) : List Call :=
  [.upsertParticipant hostInput (some 0), .upsertParticipant viewerInput (some 1), .reconcile opened,
    .beginCurrentCandidate
      { guard := { childPeerID := "viewer", childSessionID := "v1", baseRevision := 0
                   factVersion := 2, cursor := 0
                   plan := { tuple := { kind := .peer, parentPeerID := "host", transport := .direct }
                             endpointTransition := { kind := .none, producerPeerID := some "host" } } }
        nowMs := begun, connectionID := "c1", reservation := { kind := .direct } }]

theorem wake_agrees_viewerBegun : ∃ c : Controller, c.Reachable ∧ ∃ op, c.operation = some op ∧
    op.current.isSome ∧ c.operationWakeAt op = 5001 ∧
    c.call (.operationExpired 5000) = .ok ({}, c) ∧
    (c.call (.operationExpired 5001) = .error .revisionSpaceExhausted ∨
      ∃ reply c₂, c.call (.operationExpired 5001) = .ok (reply, c₂) ∧ reply.accepted ∧
        Progresses op c₂.toCore) := by
  refine ⟨_, ⟨smallRoom, 0, _, viewerBegun 1 2, rfl, rfl⟩, _, rfl, rfl, by decide, ?_, ?_⟩
  · exact (@wake_agrees _ _ 5 _ _ ⟨smallRoom, 0, _, viewerBegun 1 2, rfl, rfl⟩ rfl rfl (by decide)).1
      (fun att h => by cases h; decide) 5000 (by decide)
  · exact (@wake_agrees _ _ 5 _ _ ⟨smallRoom, 0, _, viewerBegun 1 2, rfl, rfl⟩ rfl rfl (by decide)).2
      5001 (by decide)

/-- The clock went back between the opening of the operation and its attempt:
    the attempt is given up for want of progress before the wake-up. -/
theorem wake_clockBack : ∃ c c₁ : Controller, ∃ reply op, c.Reachable ∧
    c.call (.operationExpired 2000) = .ok (reply, c₁) ∧ c₁.operation = some op ∧
    op.reason ≠ .qualityConvergence ∧ 7000 < c₁.operationWakeAt op ∧
    ∃ reply' c₂, c₁.call (.operationExpired 7000) = .ok (reply', c₂) ∧ reply'.accepted :=
  ⟨_, _, _, _, ⟨smallRoom, 0, _, viewerBegun 10000 1000, rfl, rfl⟩, rfl, rfl, by decide, by decide,
    _, _, rfl, rfl⟩

end Controller

end Piik.Route
