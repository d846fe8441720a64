/-
  The cursor and the live attempt.

  Settling and consuming read the plan at the cursor where they mean the live
  attempt's.  The two are the same candidate: an attempt begins from the plan at
  the cursor, and until it ends nothing in front of it moves.  The suffix is
  replanned and deleted from only when no attempt is live, and a promotion stays
  behind the cursor.
-/
import Piik.Route.Opportunity
import Piik.Route.Wake

namespace Piik.Route

open Piik.Route.Core

variable {v : Licence} {b b' : Bool} {a r : List Resource} {c c' : Core}
variable {op op' : Operation} {att att' : Attempt}

/-! ## The invariant -/

/-- The candidate at the cursor is the one the attempt tries. -/
def Operation.Tries (op : Operation) (att : Attempt) : Prop :=
  ∃ plan, op.planAt op.cursor = some plan ∧ plan.tuple = att.tuple

/-- Only an attachment has an attempt that is not the candidate at the cursor's;
    the child of an attempt is a participant. -/
def Core.Aimed (c : Core) : Prop :=
  ∀ op att, c.operation = some op → op.reason ≠ .publicationAttach → op.current = some att →
    op.Tries att ∧ (c.participant op.childPeerID).isSome

namespace Core

theorem aimed_of_idle (h : c.Idle) : c.Aimed := by
  intro op att ho _ hc
  simp [h op ho] at hc

theorem aimed_of_none (h : c.operation = none) : c.Aimed :=
  aimed_of_idle fun op ho => by simp [h] at ho

/-- Another operation for the same child, with the same plan at its cursor. -/
theorem Aimed.of_operation (ha : c.Aimed) (ho : c.operation = some op)
    (ho' : c'.operation = some op') (hp : c'.participants = c.participants)
    (hchild : op'.childPeerID = op.childPeerID) (hreason : op'.reason = op.reason)
    (hatt : ∀ att', op'.current = some att' → ∃ att, op.current = some att ∧
      att'.tuple = att.tuple ∧ op'.planAt op'.cursor = op.planAt op.cursor) : c'.Aimed := by
  intro op₁ att' h hr hc
  obtain rfl : op₁ = op' := Option.some.inj (h.symm.trans ho')
  obtain ⟨att, hcur, htuple, hplan⟩ := hatt att' hc
  obtain ⟨⟨plan, hat, ht⟩, hin⟩ := ha op att ho (hreason ▸ hr) hcur
  refine ⟨⟨plan, hplan.trans hat, ht.trans htuple.symm⟩, ?_⟩
  rwa [hchild, Core.participant, hp]

end Core

/-- A candidate is valid for a participant only. -/
theorem Core.candidateValid_child {p : ID} {plan : CandidatePlan} {o : Option Attempt}
    (h : c.candidateValid p plan o) : (c.participant p).isSome := by
  unfold candidateValid at h
  cases hp : c.participant p with
  | some q => rfl
  | none => simp [hp] at h

theorem Core.Aimed.of_trim {L : Core → ID → CommittedEdge → Prop} (hi : c.Idle)
    (ht : Trim L r c c') : c'.rebased.Aimed := by
  refine aimed_of_idle fun op ho => ?_
  obtain ⟨op', ho', rfl⟩ := Option.map_eq_some_iff.1 ho
  exact hi op' (ht.sameCourse.operation ▸ ho')

/-- Maintenance keeps the aim. -/
theorem Upkeep.aimed (h : Upkeep v b b' a r c c') (hf : c'.fault = none) (ha : c.Aimed) :
    c'.Aimed := by
  cases h with
  | @plan _ _ op op' ho hsame hcur hplan =>
    refine ha.of_operation ho rfl rfl hsame.childPeerID hsame.reason fun att' hc => ?_
    rw [hcur] at hc
    exact ⟨att', hc, rfl, hplan (by simp [hc])⟩
  | defers => exact ha
  | @note _ _ op att att' ho hc hsame =>
    refine ha.of_operation ho rfl rfl rfl rfl fun att'' hc' => ?_
    cases hc'
    exact ⟨att, hc, hsame.tuple, rfl⟩
  | @opens _ _ op _ hc =>
    refine aimed_of_idle fun op' ho' => ?_
    cases ho'
    exact hc
  | @begins _ _ op plan att _ _ _ _ hp hb =>
    intro op' att' ho' _ hc'
    cases ho'
    cases hc'
    have hin := candidateValid_child hb.valid
    exact ⟨⟨plan, hp, hb.tuple.symm⟩, hin⟩
  | @attaches _ _ op att _ _ _ hreason =>
    intro op' att' ho' hr'
    cases ho'
    exact absurd hreason hr'
  | @abandons _ _ op =>
    refine aimed_of_idle fun op' ho' => ?_
    cases ho'
    rfl
  | closes | detaches | unattached => exact aimed_of_none rfl
  | trims hi ht => exact .of_trim hi ht
  | trimsMarked ho ht => exact aimed_of_none (ht.sameCourse.operation.trans ho)
  | halts _ hc => simp [hc] at hf
  | echoes => exact ha

theorem Accepted.closed (h : Accepted r c c') : c'.operation = none := by
  cases h with
  | attached => rfl
  | @commits _ c₁ op att _ m =>
    obtain ⟨_, _, _, _, heq⟩ := committed_eq c₁ op att (c.edge op.childPeerID) m
    rw [heq]

/-- **Every step keeps the aim.** -/
theorem Step.aimed (h : Step v b b' a r c c') (hf : c'.fault = none) (ha : c.Aimed) : c'.Aimed := by
  cases h with
  | upkeep h => exact h.aimed hf ha
  | gap hi ht => exact .of_trim hi ht
  | accepts _ h => exact aimed_of_none h.closed
  | reshapes h _ =>
    intro op att ho hr hc
    obtain ⟨ht, hin⟩ := ha op att (h.operation ▸ ho) hr hc
    exact ⟨ht, h.kept _ hin⟩
  | moves =>
    refine aimed_of_none ?_
    unfold Core.checkGraph
    split <;> exact aborted_operation c
  | disposes => exact aimed_of_none rfl

/-- A step between two cores that are aimed. -/
def AimedStep (v : Licence) (b b' : Bool) (a r : List Resource) (c c' : Core) : Prop :=
  Step v b b' a r c c' ∧ c.Aimed ∧ c'.Aimed

/-- A run without a panic is aimed at every moment. -/
theorem aimed_of_chain (h : Chain (Step v) b b' a r c c') (hf : c'.fault = none) (ha : c.Aimed) :
    Chain (AimedStep v) b b' a r c c' := by
  induction h with
  | refl b c => exact .refl b c
  | head hd htail ih =>
    have ha' := hd.aimed (fault_before_of_chain htail hf) ha
    exact .head ⟨hd, ha, ha'⟩ (ih hf ha')

theorem Controller.Reachable.aimed {c : Controller} (h : c.Reachable) : c.Aimed :=
  h.invariant (fun hd _ hf => hd.aimed hf) fun o latest c hnew => by
    obtain ⟨-, rfl⟩ := Controller.new_eq hnew
    exact aimed_of_none rfl

/-- **Every core that a call passes is aimed.** -/
theorem Controller.Reachable.call_aimed {c c' : Controller} {k : Call} {reply : Reply}
    (h : c.Reachable) (hk : c.call k = .ok (reply, c')) :
    Runs (AimedStep .all) k.taken reply.released c.toCore c'.toCore := by
  obtain ⟨hg, hrun⟩ := h.good.call hk
  have hr := c.run_runs h.good.sound.working.aligned k .all
  rw [hrun] at hr
  intro b
  obtain ⟨b', hchain⟩ := hr b
  exact ⟨b', aimed_of_chain hchain hg.fault h.aimed⟩

namespace Controller

variable {c c' : Controller} {plan : CandidatePlan}

/-! ## What is charged -/

/-- Of the opportunities, only the child's under these keys change. -/
structure ChargesOnly (p : ID) (keys : Set String) (c c' : Controller) : Prop where
  core : c'.toCore = c.toCore
  others : ∀ q, q ≠ p → c'.ledger q = c.ledger q
  keys : ∀ k ∉ keys, (c'.opportunities p).get k = (c.opportunities p).get k
  qualities : c'.senderQualityObservations = c.senderQualityObservations

namespace ChargesOnly

variable {p : ID} {keys : Set String}

theorem refl (p : ID) (keys : Set String) (c : Controller) : ChargesOnly p keys c c :=
  ⟨rfl, fun _ _ => rfl, fun _ _ => rfl, rfl⟩

theorem trans {c'' : Controller} (h : ChargesOnly p keys c c') (h' : ChargesOnly p keys c' c'') :
    ChargesOnly p keys c c'' :=
  ⟨h'.core.trans h.core, fun q hq => (h'.others q hq).trans (h.others q hq),
    fun k hk => (h'.keys k hk).trans (h.keys k hk), h'.qualities.trans h.qualities⟩

theorem mono {keys' : Set String} (h : ChargesOnly p keys c c') (hk : keys ⊆ keys') :
    ChargesOnly p keys' c c' :=
  ⟨h.core, h.others, fun k hn => h.keys k fun hm => hn (hk hm), h.qualities⟩

/-- One write under one key. -/
theorem update (p : ID) (key : String) (c : Controller)
    (f : ParticipantLedger → CandidateOpportunity) :
    ChargesOnly p {key} c (c.updateLedger p fun l => { l with
      consumedCandidateOpportunities := l.consumedCandidateOpportunities.set key (f l) }) := by
  refine ⟨by simp, fun q hq => ?_, fun k hk => ?_, ?_⟩
  · rw [ledger_updateLedger, if_neg (by simp [hq])]
  · have hk : k ≠ key := hk
    rw [opportunities_updateLedger]
    split
    · simp [hk, opportunities]
    · rfl
  · unfold updateLedger
    split <;> rfl

end ChargesOnly

/-- A candidate is consumed under its own key. -/
theorem consumeCandidateOpportunity_charges (p : ID) (plan : CandidatePlan) (c : Controller) :
    ChargesOnly p {c.candidateOpportunityBase p plan.tuple} c
      (c.consumeCandidateOpportunity p plan) :=
  .update p _ c _

/-- **A settled attempt is charged under its own candidate's key**, and finds the
    plan and the child it reads. -/
theorem settleCandidateOpportunity_charges (hc : op.current = some att) (ht : op.Tries att)
    (hin : (c.participant op.childPeerID).isSome) : ChargesOnly op.childPeerID
      {peerOpportunityKey att.tuple att.childSessionID att.parentSessionID} c
      (c.settleCandidateOpportunity op) := by
  obtain ⟨plan, hp, -⟩ := ht
  obtain ⟨child, hin⟩ := Option.isSome_iff_exists.1 hin
  unfold settleCandidateOpportunity
  rw [hc]
  dsimp only
  split
  · exact .refl _ _ c
  · rw [hp, hin]
    exact .update _ _ c _

theorem consumeCurrentCandidateOpportunity_charges (ht : op.Tries att) : ChargesOnly op.childPeerID
      {c.candidateOpportunityBase op.childPeerID att.tuple} c
      (c.consumeCurrentCandidateOpportunity op) := by
  obtain ⟨plan, hp, ht⟩ := ht
  unfold consumeCurrentCandidateOpportunity
  split
  · exact .refl _ _ c
  · have hplan := consumeCandidateOpportunity_charges op.childPeerID plan c
    rw [hp, ← ht]
    cases op.current with
    | none => exact hplan
    | some live =>
      dsimp only
      split
      · exact .refl _ _ c
      · exact hplan

/-- The keys of the candidates that the operation has come to. -/
def visitedKeys (c : Controller) (op : Operation) : Set String :=
  { key | ∃ plan ∈ op.candidates.take (op.cursor + 1),
      key = c.candidateOpportunityBase op.childPeerID plan.tuple }

/-- **The end of an operation consumes the candidates up to the cursor**, and none
    behind it. -/
theorem consumeAvailabilityOperation_charges (c : Controller) (op : Operation) :
    ChargesOnly op.childPeerID (c.visitedKeys op) c (c.consumeAvailabilityOperation op) := by
  unfold consumeAvailabilityOperation
  split
  · exact .refl _ _ c
  suffices h : ∀ (l : List CandidatePlan) (d : Controller), l ⊆ op.candidates.take (op.cursor + 1) →
      d.toCore = c.toCore → ChargesOnly op.childPeerID (c.visitedKeys op) d
        (l.foldl (fun c plan => if op.peerAttemptStarted && plan.tuple.kind == .peer then c
          else c.consumeCandidateOpportunity op.childPeerID plan) d) from
    h _ c (List.Subset.refl _) rfl
  intro l
  induction l with
  | nil => exact fun d _ _ => .refl _ _ d
  | cons plan l ih =>
    intro d hl hd
    simp only [List.foldl_cons]
    have hrest := List.subset_of_cons_subset hl
    split
    · exact ih d hrest hd
    · have hstep := consumeCandidateOpportunity_charges op.childPeerID plan d
      refine (hstep.mono ?_).trans (ih _ hrest (by simpa using hd))
      rintro key rfl
      exact ⟨plan, hl List.mem_cons_self, by rw [hd]⟩

/-- The candidate of the attempt is the last of those visited. -/
theorem tries_visited (ht : op.Tries att) :
    c.candidateOpportunityBase op.childPeerID att.tuple ∈ c.visitedKeys op := by
  obtain ⟨plan, hp, ht⟩ := ht
  refine ⟨plan, ?_, by rw [ht]⟩
  refine List.mem_of_getElem? (i := op.cursor) ?_
  rw [List.getElem?_take, if_pos (Nat.lt_succ_self _)]
  exact hp

/-- Of the quality observations, only the child's changes, and of its candidates
    only this one is consumed. -/
structure ConsumesOnly (p : ID) (key : String) (c c' : Controller) : Prop where
  core : c'.toCore = c.toCore
  ledgers : c'.ledgers = c.ledgers
  others : ∀ q, q ≠ p → c'.senderQualityObservations.get q = c.senderQualityObservations.get q
  keys : ∀ o', c'.senderQualityObservations.get p = some o' → ∃ o,
    c.senderQualityObservations.get p = some o ∧ ∀ k, k ≠ key →
      o'.consumedQualityCandidates.get k = o.consumedQualityCandidates.get k

theorem ConsumesOnly.refl (p : ID) (key : String) (c : Controller) : ConsumesOnly p key c c :=
  ⟨rfl, rfl, fun _ _ => rfl, fun o ho => ⟨o, ho, fun _ _ => rfl⟩⟩

theorem consumeOpportunity_get (m : OMap String Int) (base : String) (rank : Int) {k : String}
    (hk : k ≠ base) : (consumeOpportunity m base rank).get k = m.get k := by
  unfold consumeOpportunity
  split
  · split
    · simp [hk]
    · rfl
  · simp [hk]

theorem consumeQualityCandidateOpportunity_consumes (c : Controller) (ht : op.Tries att) :
    ConsumesOnly op.childPeerID (c.candidateOpportunityBase op.childPeerID att.tuple) c
      (c.consumeQualityCandidateOpportunity op (op.planAt op.cursor)) := by
  obtain ⟨plan, hp, ht⟩ := ht
  unfold consumeQualityCandidateOpportunity
  rw [hp, ← ht]
  dsimp only
  split
  · exact .refl _ _ c
  · split
    · exact .refl _ _ c
    · refine ⟨rfl, rfl, fun q hq => (OMap.get_modify _ _ _ _).trans (if_neg hq),
        fun o' ho' => ?_⟩
      rw [OMap.get_modify, if_pos rfl] at ho'
      obtain ⟨o, ho, rfl⟩ := Option.map_eq_some_iff.1 ho'
      exact ⟨o, ho, fun k hk => consumeOpportunity_get _ _ _ hk⟩

/-- Of the continuations, only the child's changes, and of its parents only this
    one is given up or put last. -/
structure DefersOnly (p parent : ID) (c c' : Controller) : Prop where
  others : ∀ q, q ≠ p → c'.directContinuations.get q = c.directContinuations.get q
  parents : ∀ d, c.directContinuations.get p = some d → ∀ q ∈ d.parentPeerIDs, q ≠ parent →
    ∃ d', c'.directContinuations.get p = some d' ∧ q ∈ d'.parentPeerIDs

theorem DefersOnly.refl (p parent : ID) (c : Controller) : DefersOnly p parent c c :=
  ⟨fun _ _ => rfl, fun d hd _ hq _ => ⟨d, hd, hq⟩⟩

theorem parentsAfter_keeps {l : List ID} {tried q : ID} (hq : q ∈ l) (hn : q ≠ tried) :
    q ∈ c.parentsAfter op l tried := by
  have he : q ∈ l.erase tried := (List.mem_erase_of_ne hn).2 hq
  have key : ∀ retry : Bool, q ∈ (if retry then l.erase tried ++ [tried] else l.erase tried) := by
    intro retry
    split
    · exact List.mem_append_left _ he
    · exact he
  exact key _

theorem consumeDirectContinuationCandidate_defers_only (hc : op.current = some att) :
    DefersOnly op.childPeerID att.tuple.parentPeerID c (c.consumeDirectContinuationCandidate op) := by
  have htuple : op.currentTuple = some att.tuple := by simp [Operation.currentTuple, hc]
  unfold consumeDirectContinuationCandidate
  rw [htuple]
  cases hd : c.directContinuations.get op.childPeerID with
  | none => exact .refl _ _ c
  | some d =>
    dsimp only
    split
    · exact .refl _ _ c
    · split
      · next hempty =>
        refine ⟨fun q hq => by simp [deleteContinuation, hq], fun d' hd' q hq hn => ?_⟩
        obtain rfl : d = d' := Option.some.inj (hd.symm.trans hd')
        have hm : q ∈ c.parentsAfter op _ _ := parentsAfter_keeps hq hn
        simp [List.isEmpty_iff.1 hempty] at hm
      · refine ⟨fun q hq => by simp [hq], fun d' hd' q hq hn => ?_⟩
        obtain rfl : d = d' := Option.some.inj (hd.symm.trans hd')
        exact ⟨_, (OMap.get_moveToBack _ _ _ _).trans (if_pos rfl), parentsAfter_keeps hq hn⟩

/-! ## Going on -/

/-- A live attempt's helpers find the plan and the child. -/
theorem aimed_chargeable (ha : c.Aimed) (ho : c.operation = some op)
    (hr : op.reason ≠ .publicationAttach) : Chargeable c.toCore op := by
  intro hc
  obtain ⟨att, hc⟩ := Option.isSome_iff_exists.1 hc
  obtain ⟨⟨plan, hp, -⟩, hin⟩ := ha op att ho hr hc
  exact ⟨by simp [hp], hin⟩

/-- **No plan is missing**: the loop of an aimed controller raises nothing but the
    end of the revisions. -/
theorem validateOrAdvance_spent (ha : c.Aimed) (ho : c.operation = some op)
    (hr : op.reason ≠ .publicationAttach) (now : Int) (failed : Option CandidateGuard) :
    Spent c.toCore (c.validateOrAdvance now failed).2.toCore := by
  have hcharge := aimed_chargeable ha ho hr
  unfold validateOrAdvance
  simp only [ho, if_neg hr]
  split
  · exact dropStaleOperation_spent op now _
  · split
    · dsimp only
      rw [abortOperation_toCore]
      exact .aborted _
    · split
      · exact expireOperation_spent hcharge now
      · have hhead := advanceExpiredDirectHeadStart_spent hcharge now
        rcases c.advanceExpiredDirectHeadStart_cases ho now with he | ⟨op₁, ho₁, hcur⟩
        · simp only [he, ho]
          split
          · exact dropStaleOperation_spent op now _
          · exact advanceOperation_spent hcharge now failed _
        · simp only [ho₁]
          have hnone : Chargeable (c.advanceExpiredDirectHeadStart op now).2.2.toCore op₁ :=
            fun hlive => by simp [hcur] at hlive
          split
          · exact hhead.trans (dropStaleOperation_spent op₁ now _)
          · exact hhead.trans (advanceOperation_spent hnone now failed _)

/-- What a live attempt's helpers do: they read and charge its own candidate. -/
structure ChargesOwn (c : Controller) (op : Operation) (att : Attempt) : Prop where
  tries : op.Tries att
  promotes : ∀ now, ∃ op', (c.promoteNextDirectWithinHeadStart op now).toCore =
    { c.toCore with operation := some op' } ∧ op'.current = some att ∧ op'.Tries att
  settles : ChargesOnly op.childPeerID
    {peerOpportunityKey att.tuple att.childSessionID att.parentSessionID} c
    (c.settleCandidateOpportunity op)
  consumes : ChargesOnly op.childPeerID {c.candidateOpportunityBase op.childPeerID att.tuple} c
    (c.consumeCurrentCandidateOpportunity op)
  ends : ChargesOnly op.childPeerID (c.visitedKeys op) c (c.consumeAvailabilityOperation op) ∧
    c.candidateOpportunityBase op.childPeerID att.tuple ∈ c.visitedKeys op
  quality : ConsumesOnly op.childPeerID (c.candidateOpportunityBase op.childPeerID att.tuple) c
    (c.consumeQualityCandidateOpportunity op (op.planAt op.cursor))
  continuation : DefersOnly op.childPeerID att.tuple.parentPeerID c
    (c.consumeDirectContinuationCandidate op)
  validates : ∀ now failed, Spent c.toCore (c.validateOrAdvance now failed).2.toCore ∧
    (¬(c.validateOrAdvance now failed).2.Idle → (c.validateOrAdvance now failed).2 = c)

theorem aimed_chargesOwn (ha : c.Aimed) (ho : c.operation = some op)
    (hr : op.reason ≠ .publicationAttach) (hc : op.current = some att) : c.ChargesOwn op att := by
  obtain ⟨ht, hin⟩ := ha op att ho hr hc
  refine ⟨ht, fun now => ?_, settleCandidateOpportunity_charges hc ht hin,
    consumeCurrentCandidateOpportunity_charges ht,
    ⟨consumeAvailabilityOperation_charges c op, tries_visited ht⟩,
    consumeQualityCandidateOpportunity_consumes c ht,
    consumeDirectContinuationCandidate_defers_only hc, fun now failed => ⟨?_, fun hlive => ?_⟩⟩
  · obtain ⟨op', heq, -, hcur, -, hplan⟩ := c.promoteNextDirectWithinHeadStart_toCore ho now
    obtain ⟨plan, hp, ht⟩ := ht
    exact ⟨op', heq, hcur.trans hc, plan, hplan.trans hp, ht⟩
  · exact validateOrAdvance_spent ha ho hr now failed
  · simp only [Core.Idle, not_forall] at hlive
    obtain ⟨op', ho', hcur⟩ := hlive
    obtain ⟨att', hcur⟩ := Option.ne_none_iff_exists'.1 hcur
    exact (c.validateOrAdvance_live now failed ho' hcur).1

/-- **The cursor and the attempt stay aligned.**  In every reachable state, and at
    every moment of every call from it, the candidate at the cursor is the live
    attempt's; wherever that holds, settling, consuming and going on find that
    plan and charge that candidate. -/
theorem cursor_and_attempt_aligned (h : c.Reachable) :
    c.Aimed ∧
    (∀ k reply c', c.call k = .ok (reply, c') →
      Runs (AimedStep .all) k.taken reply.released c.toCore c'.toCore) ∧
    ∀ d : Controller, d.Aimed → ∀ op att, d.operation = some op → op.reason ≠ .publicationAttach →
      op.current = some att → d.ChargesOwn op att :=
  ⟨h.aimed, fun _ _ _ hk => h.call_aimed hk, fun _ ha _ _ ho hr hc => aimed_chargesOwn ha ho hr hc⟩

/-- The viewer's first attempt is live, and is the candidate at the cursor. -/
theorem cursor_and_attempt_aligned_viewerBegun : ∃ c : Controller, c.Reachable ∧
    ∃ op att, c.operation = some op ∧ op.current = some att ∧ att.tuple.kind = .peer ∧
      op.Tries att ∧ c.ChargesOwn op att := by
  have hc : ∃ c : Controller, c.Reachable ∧ ∃ op att, c.operation = some op ∧
      op.reason ≠ .publicationAttach ∧ op.current = some att ∧ att.tuple.kind = .peer :=
    ⟨_, ⟨smallRoom, 0, _, viewerBegun 1 2, rfl, rfl⟩, _, _, rfl, by decide, rfl, rfl⟩
  obtain ⟨c, hc, op, att, ho, hr, hcur, hk⟩ := hc
  obtain ⟨ha, -, hown⟩ := cursor_and_attempt_aligned hc
  exact ⟨c, hc, op, att, ho, hcur, hk, (ha op att ho hr hcur).1, hown c ha op att ho hr hcur⟩

end Controller

end Piik.Route
