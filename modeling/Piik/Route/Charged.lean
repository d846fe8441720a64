/-
  No exported call charges a regeneration.

  The operation keeps its reason from its opening to its end, the candidates of
  an availability operation are never those of a regeneration, and a replanned
  suffix has the tuples that were planned before.
-/
import Piik.Route.Commit
import Piik.Route.Keys

namespace Piik.Route

open Piik.Route.Core

namespace Controller

namespace Plain

variable {c c' : Controller} {op : Operation}

/-! ## The head start -/

theorem insertIdx_subset {α : Type} {l : List α} {i j : ℕ} {a : α} (ha : a ∈ l) :
    (l.eraseIdx i).insertIdx j a ⊆ l := by
  intro b hb
  rcases List.eq_or_mem_of_mem_insertIdx hb with rfl | hb
  · exact ha
  · exact List.mem_of_mem_eraseIdx hb

theorem promoteNextDirect (h : c.Plain) (ho : c.operation = some op) (now : Int) :
    (c.promoteNextDirectWithinHeadStart op now).Plain := by
  unfold promoteNextDirectWithinHeadStart
  split
  · exact h
  · split
    · exact h
    · split
      · exact h
      · dsimp only
        split
        · exact h
        · next plan hplan =>
          refine h.of_books rfl fun op' ho' => ?_
          simp only [modifyOperation, ho, Option.map_some, Option.some.injEq] at ho'
          subst ho'
          exact (h.operation op ho).sub rfl (insertIdx_subset (List.mem_of_getElem? hplan)) (Or.inl rfl)

theorem retireHeadStart (h : c.Plain) (ho : op.Plain) : (c.retireHeadStart op).2.Plain := by
  unfold Controller.retireHeadStart
  split
  · exact h
  · dsimp only
    have hcharged := ((h.settleCandidate ho).noteRejection op.demandPeerID
      .firstFrameTimeout).consumeCurrent ho
    exact ((hcharged.advanceActiveRevision op).modify (f := fun op => { op with current := none })
      fun _ ho => ho.sub rfl (List.Subset.refl _) (Or.inr rfl)).clearTiming _

theorem advanceExpiredDirectHeadStart (h : c.Plain) (ho : op.Plain) (now : Int) :
    (c.advanceExpiredDirectHeadStart op now).2.2.Plain := by
  unfold Controller.advanceExpiredDirectHeadStart
  split
  · split
    · exact h
    · exact (h.retireHeadStart ho).modify fun _ ho => ho.sub rfl (List.Subset.refl _) (Or.inl rfl)
  · exact h

/-! ## Replanning -/

/-- A tuple that is forced or restored is plain, unless quality converges. -/
def Offered (c : Controller) (tuple : Option CandidateTuple) : Prop :=
  ∀ op t, c.operation = some op → op.reason ≠ .qualityConvergence → tuple = some t → t.Plain

theorem offered_none (c : Controller) : Offered c none := by
  intro op t _ _ ht
  cases ht

theorem mem_restored {l : List CandidateTuple} {restore : Option CandidateTuple} {t : CandidateTuple}
    (ht : t ∈ (match restore with
      | some r => if l.any fun t => tupleKey t == tupleKey r then l else l ++ [r]
      | none => l)) : restore = some t ∨ t ∈ l := by
  cases restore with
  | none => exact Or.inr ht
  | some r =>
    dsimp only at ht
    split at ht
    · exact Or.inr ht
    · rcases List.mem_append.1 ht with hm | hm
      · exact Or.inr hm
      · exact Or.inl (congrArg some (List.mem_singleton.1 hm).symm)

theorem mem_remainingTuples {first restore : Option CandidateTuple} {t : CandidateTuple}
    (ht : t ∈ remainingTuples op first restore) :
    first = some t ∨ restore = some t ∨ ∃ plan ∈ op.candidates, plan.tuple = t := by
  have hmap : t ∈ (op.candidates.drop op.cursor).map CandidatePlan.tuple →
      ∃ plan ∈ op.candidates, plan.tuple = t := by
    intro hm
    obtain ⟨plan, hp, heq⟩ := List.mem_map.1 hm
    exact ⟨plan, List.mem_of_mem_drop hp, heq⟩
  rcases mem_restored ht with hr | hm
  · exact Or.inr (Or.inl hr)
  · cases first with
    | none => exact Or.inr (Or.inr (hmap hm))
    | some u =>
      rcases List.mem_cons.1 hm with rfl | hm
      · exact Or.inl rfl
      · exact Or.inr (Or.inr (hmap (List.mem_of_mem_tail hm)))

theorem replanRemaining (h : c.Plain) {first restore : Option CandidateTuple}
    (hf : Offered c first) (hr : Offered c restore) : (c.replanRemaining first restore).Plain := by
  refine h.of_books rfl fun op' ho' => ?_
  obtain ⟨op, ho, rfl⟩ := Option.map_eq_some_iff.1 ho'
  have hplain := h.operation op ho
  refine ⟨fun hq plan hp => ?_, hplain.counted⟩
  rcases List.mem_append.1 hp with hm | hm
  · exact hplain.candidates hq plan (List.mem_of_mem_take hm)
  · obtain ⟨t, ht, hplan⟩ := List.mem_filterMap.1 hm
    have heq : plan.tuple = t := by
      split at hplan
      · next p hpt =>
        split at hplan
        · cases hplan
          exact planCandidate_tuple hpt
        · cases hplan
      · cases hplan
    rw [heq]
    rcases mem_remainingTuples ht with h₁ | h₁ | ⟨plan', hp', h₁⟩
    · exact hf op t ho hq h₁
    · exact hr op t ho hq h₁
    · exact h₁ ▸ hplain.candidates hq plan' hp'

theorem dropInvalidCandidates : ∀ (n : ℕ) {c : Controller}, c.Plain → (dropInvalidCandidates n c).Plain
  | 0, _, h => h
  | n + 1, c, h => by
    unfold Controller.dropInvalidCandidates
    split
    · exact h
    · next op _ =>
      split
      · exact h
      · split
        · exact h
        · have hpassed := (h.noteRejection op.demandPeerID .stale).consumeContinuation op
          have hcut := hpassed.modify (f := fun op => { op with candidates := op.candidates.eraseIdx op.cursor })
            fun _ ho => ho.sub rfl List.eraseIdx_subset (Or.inl rfl)
          exact dropInvalidCandidates n (hcut.clearTiming _)

/-! ## The end of an operation -/

theorem dropStale (h : c.Plain) (op : Operation) (now : Int) (b : RejectionBucket) :
    (c.dropStaleOperation op now b).2.Plain :=
  (h.retireAttempt op).ended rfl rfl

theorem chargeTerminal (h : c.Plain) (ho : op.Plain) (now : Int) (b : RejectionBucket) :
    (c.chargeTerminal op now b).2.2.Plain := by
  unfold Controller.chargeTerminal
  dsimp only
  split
  · next hb =>
    have hq : op.reason ≠ .qualityConvergence := by
      intro hq
      rw [hq] at hb
      cases hb
    refine (h.completeCarrier (fun p hp => ?_) op.childPeerID now b).consumeAvailability ho
    exact ho.planAt hq hp
  · refine Plain.finishTiming ?_ _ _ _ _ _
    split
    · exact h.stageBootstrap op
    · exact h.consumeAvailability ho

theorem finish (h : c.Plain) (ho : op.Plain) (now : Int) (b : RejectionBucket) (advanced : Bool) :
    (c.finishOperation op now b advanced).2.2.Plain := by
  unfold finishOperation
  dsimp only
  have hcharged := (h.chargeTerminal ho now b).blockAndClear op
    (!isBackgroundConvergence op.reason && !(op.reason == .sfuBootstrap)) advanced
  split
  · exact hcharged.rememberUnavailable op.demandPeerID
  · exact hcharged

theorem expire (h : c.Plain) (ho : op.Plain) (now : Int) : (c.expireOperation op now).2.Plain := by
  have hcharged := ((h.settleCandidate ho).consumeCurrent ho).consumeContinuation op
  unfold expireOperation
  dsimp only
  split
  · exact ((hcharged.consumeQualityOperation op).retireAttempt op).finish ho now _ _
  · exact (hcharged.retireAttempt op).finish ho now _ _

theorem exhaust (h : c.Plain) (ho : op.Plain) (now : Int) (advanced : Bool) :
    (c.exhaustOperation op now advanced).2.Plain :=
  h.finish ho now _ advanced

theorem retireCandidate (h : c.Plain) (ho : op.Plain) (failed idle : Bool) :
    (c.retireCandidate op failed idle).Plain := by
  unfold Controller.retireCandidate
  dsimp only
  have hnoted : (if failed then c else c.noteRejection op.demandPeerID
      (if idle then .firstFrameTimeout else .stale)).Plain := by
    split
    · exact h
    · exact h.noteRejection _ _
  generalize (if failed then c else c.noteRejection op.demandPeerID
      (if idle then .firstFrameTimeout else .stale)) = d at hnoted
  have hcharged : (if failed || idle then
      ((d.settleCandidateOpportunity op).consumeCurrentCandidateOpportunity op)
        |>.consumeQualityCandidateOpportunity op (op.planAt op.cursor)
      else d).Plain := by
    split
    · exact ((hnoted.settleCandidate ho).consumeCurrent ho).consumeQualityCandidate op _
    · exact hnoted
  have hretired := ((hcharged.consumeContinuation op).advanceActiveRevision op).modify
    (f := fun op => if failed || idle then { op with current := none, cursor := op.cursor + 1 }
      else { op with current := none, candidates := op.candidates.eraseIdx op.cursor }) fun _ ho => by
        split
        · exact ho.sub rfl (List.Subset.refl _) (Or.inr rfl)
        · exact ho.sub rfl List.eraseIdx_subset (Or.inr rfl)
  exact (hretired.clearTiming op.demandPeerID).replanRemaining (offered_none _) (offered_none _)

theorem advanceCandidates (h : c.Plain) (now : Int) (advanced : Bool) :
    (c.advanceCandidates now advanced).2.Plain := by
  unfold Controller.advanceCandidates
  split
  · exact h
  · next op _ =>
    have hdropped := dropInvalidCandidates op.candidates.length h
    dsimp only
    split
    · exact hdropped
    · next op' ho' =>
      split
      · exact hdropped
      · exact hdropped.exhaust (hdropped.operation op' ho') now advanced

theorem advance (h : c.Plain) (ho : op.Plain) (now : Int) (failed : Option CandidateGuard)
    (startRevision : Int) : (c.advanceOperation op now failed startRevision).2.Plain := by
  unfold advanceOperation
  split
  · dsimp only
    split
    · exact (h.replanRemaining (offered_none c) (offered_none c)).advanceCandidates now _
    · exact h.advanceCandidates now _
  · dsimp only
    split
    · exact h
    · exact (h.retireCandidate ho _ _).advanceCandidates now _

theorem setVideoFacet (h : c.Plain) (p g id : ID) (ready : Bool) : (c.setVideoFacet p g id ready).Plain := by
  unfold Controller.setVideoFacet
  split <;> exact h.same rfl rfl

theorem failAttach (h : c.Plain) (op : Operation) : (c.failPublicationAttach op).2.Plain :=
  ((h.setVideoFacet op.childPeerID op.videoGeneration "" false).advanceActiveRevision op).ended rfl rfl

theorem validateAttach (h : c.Plain) (op : Operation) (now : Int) (failed : Option CandidateGuard) :
    (c.validatePublicationAttach op now failed).2.Plain := by
  unfold validatePublicationAttach
  split
  · exact (h.advanceActiveRevision op).ended rfl rfl
  · dsimp only
    split
    · exact h.failAttach op
    · exact h

/-- **The turn of an operation.** -/
theorem validateOrAdvance (h : c.Plain) (now : Int) (failed : Option CandidateGuard) :
    (c.validateOrAdvance now failed).2.Plain := by
  unfold Controller.validateOrAdvance
  split
  · exact h
  · next op ho =>
    have hop := h.operation op ho
    split
    · exact h.validateAttach op now failed
    · split
      · exact h.dropStale op now _
      · split
        · exact h.abort (some now) .aborted
        · split
          · exact h.expire hop now
          · have hhead := h.advanceExpiredDirectHeadStart hop now
            dsimp only
            split
            · exact hhead
            · next op' ho' =>
              split
              · exact hhead.dropStale op' now _
              · exact hhead.advance (hhead.operation op' ho') now failed _

/-! ## Beginning and passing -/

theorem startAttach (h : c.Plain) (now : Int) : (c.startPublicationAttach now).2.Plain := by
  unfold startPublicationAttach
  split
  · exact h
  · split
    · exact h
    · next childID e tuple hfind =>
      refine h.of_books rfl fun op ho => ?_
      cases ho
      refine ⟨fun _ plan hp => ?_, fun _ hc => by cases hc⟩
      obtain ⟨x, -, hx⟩ := List.exists_of_findSome?_eq_some hfind
      obtain ⟨t, ht, heq⟩ := Option.map_eq_some_iff.1 hx
      cases heq
      obtain rfl := List.mem_singleton.1 hp
      unfold attachTuple at ht
      split at ht
      · cases ht
      · split at ht
        · cases ht
        · split at ht
          · split at ht
            · cases ht
              exact fun _ => rfl
            · cases ht
          · split at ht
            · cases ht
              exact fun _ => rfl
            · cases ht

/-- Another attempt, which is not counted or is that of a peer. -/
theorem setCurrent (h : op.Plain) {att : Attempt} (ha : att.connectionAttempt.isSome →
    att.tuple.kind = .peer ∧ att.tuple.regenerate = false) (started : Bool) :
    ({ op with current := some att, peerAttemptStarted := started } : Operation).Plain := by
  refine ⟨h.candidates, fun att' hc => ?_⟩
  cases hc
  exact ha

theorem beginAttach (h : c.Plain) (ho : op.Plain) (input : BeginInput) (checked : Validation) :
    (c.beginPublicationAttach input op checked).2.Plain := by
  unfold beginPublicationAttach
  split
  · split
    · exact h
    · refine h.of_books rfl fun op' ho' => ?_
      cases ho'
      exact setCurrent ho (fun hs => by cases hs) op.peerAttemptStarted
  · exact h

/-- What is counted is a direct attempt that regenerates nothing. -/
theorem counted_start {c : Controller} (ho : op.Plain) {plan : CandidatePlan}
    (hp : op.planAt op.cursor = some plan) (hs : (c.startCandidateOpportunity op plan).isSome) :
    plan.tuple.kind = .peer ∧ plan.tuple.regenerate = false := by
  unfold startCandidateOpportunity at hs
  split at hs
  · cases hs
  · next hn =>
    simp only [Bool.or_eq_true, Bool.not_eq_true', decide_eq_true_eq, Bool.and_eq_true, not_or,
      not_and, Bool.not_eq_false, not_not, ne_eq] at hn
    have hq : op.reason ≠ .qualityConvergence := not_quality (by
      by_cases ha : isAvailabilityOperation op.reason
      · exact Or.inl ha
      · exact Or.inr (hn.2 (by simpa using ha)))
    exact ⟨hn.1.2, ho.planAt hq hp hn.1.2⟩

theorem beginCurrent (h : c.Plain) (input : BeginInput) : (c.beginCurrentCandidate input).2.Plain := by
  have hv := h.validateOrAdvance input.nowMs none
  unfold beginCurrentCandidate
  dsimp only
  split
  · exact hv
  · next op hop =>
    have ho := hv.operation op hop
    split
    · exact hv
    · split
      · exact hv.beginAttach ho input _
      · split
        · exact hv
        · next plan hplan =>
          split
          · exact hv
          · split
            · exact hv
            · split
              · exact hv
              · split
                · exact hv.raise _
                · refine hv.of_books rfl fun op' ho' => ?_
                  cases ho'
                  exact setCurrent ho (counted_start ho hplan) _

theorem pass (h : c.Plain) (ho : c.operation = some op) (now : Int) (b : RejectionBucket) :
    (c.passCandidate op now b).Plain := by
  have hop := h.operation op ho
  unfold passCandidate
  dsimp only
  refine clearTiming (modify (f := fun op => { op with cursor := op.cursor + 1 })
    (noteRejection (consumeContinuation (consumeQualityCandidate ?_ op _) op) _ _)
    fun _ ho => ho.sub rfl (List.Subset.refl _) (Or.inl rfl)) _
  split
  · split
    · next plan hplan =>
      split
      · next hr =>
        refine (h.consumeCandidate (hop.planAt (not_quality ?_) hplan) op.childPeerID).promoteNextDirect
          (by simpa using ho) now
        simpa using hr
      · exact h.promoteNextDirect ho now
    · exact h.promoteNextDirect ho now
  · exact h

theorem skip (h : c.Plain) (guard : CandidateCursorGuard) (now : Int) (b : RejectionBucket) :
    (c.skipCurrentCandidate guard now b).2.Plain := by
  have hv := h.validateOrAdvance now none
  unfold skipCurrentCandidate
  dsimp only
  split
  · exact hv
  · next op hop =>
    split
    · exact hv
    · split
      · exact hv.failAttach op
      · exact (hv.pass hop now b).validateOrAdvance now none

/-- The producer's retirement keeps the operation. -/
theorem retireProducer (h : c.Plain) {retire : EndpointRetirement} {restore : Option CandidateTuple}
    {released : List Resource} (hr : c.retireProducer retire = some (restore, released, c')) :
    c'.Plain ∧ c'.operation = c.operation ∧ ∀ t, restore = some t → t.Plain := by
  unfold Controller.retireProducer at hr
  split at hr
  · obtain ⟨e, -, heq⟩ := Option.map_eq_some_iff.1 hr
    cases heq
    refine ⟨h.deactivateEdge _, rfl, fun t ht => ?_⟩
    split at ht
    · cases ht
      exact fun _ => rfl
    · cases ht
  · split at hr
    · next hpub =>
      cases hr
      refine ⟨h.removePublicationGeneration _, ?_, fun _ ht => by cases ht⟩
      unfold retirementPublication at hpub
      split at hpub
      · cases hpub
      · next p hp =>
        have hg : p.generation = retire.generation := by
          simp only [Bool.and_eq_true, beq_iff_eq] at hpub
          exact hpub.1.2
        rw [← hg]
        exact (c.removePublicationGeneration_trim hp).1.sameCourse.operation
    · cases hr

theorem retireCurrentProducer (h : c.Plain) (guard : CandidateCursorGuard) (now : Int) :
    (c.retireCurrentCandidateProducer guard now).2.Plain := by
  have hv := h.validateOrAdvance now none
  unfold retireCurrentCandidateProducer
  dsimp only
  split
  · exact hv
  · next op hop =>
    split
    · exact hv
    · split
      · exact hv
      · next plan hplan =>
        split
        · exact hv
        · split
          · exact hv.raise _
          · next retire _ =>
            split
            · exact hv
            · next restore retired d hd =>
              obtain ⟨hp, hsame, hrestore⟩ := hv.retireProducer hd
              have hreason : ∀ op', (d.advanceActiveRevision op).touchFacts.operation = some op' →
                  op'.reason = op.reason := by
                intro op' ho'
                have hmap : (d.advanceActiveRevision op).touchFacts.operation =
                    d.operation.map fun op => { op with
                      baseRevision := ((d.resetProducerBaselines op).bump).revision } := by
                  show ((d.resetProducerBaselines op).operation).map _ = _
                  simp
                rw [hmap, hsame, hop] at ho'
                cases ho'
                rfl
              have hfirst : Offered (d.advanceActiveRevision op).touchFacts (some (nextTuple plan retire)) := by
                intro op' t ho' hq ht
                cases ht
                have hplain := (hv.operation op hop).planAt (hreason op' ho' ▸ hq) hplan
                unfold nextTuple
                split
                · exact hplain
                · exact hplain
              have hreplanned := ((hp.advanceActiveRevision op).touchFacts).replanRemaining hfirst
                fun _ t _ _ ht => hrestore t ht
              split
              · exact hreplanned.validateOrAdvance now none
              · exact hreplanned

/-! ## Committing -/

theorem install_operation (c : Core) (op : Operation) (att : Attempt) :
    (c.install op att).operation = c.operation := by
  unfold Core.install Core.installPeer Core.installSfu Core.installPublication
  split
  · split
    · rfl
    · split <;> rfl
  · dsimp only
    split_ifs <;> rfl

theorem rebaseline (h : c.Plain) (op : Operation) (att : Attempt) (old : Option CommittedEdge) :
    (c.rebaseline op att old).Plain := by
  have hrequire : ∀ {d : Controller}, d.Plain → ∀ p suppress,
      (d.requireSenderQualityBaseline p suppress).Plain := by
    intro d hd p suppress
    refine foldl (fun d hd child _ => ?_) hd
    split
    · exact hd.same rfl rfl
    · exact hd
  unfold Controller.rebaseline
  dsimp only
  refine same (c := Controller.requireSenderQualityBaseline (List.foldl _ c _) op.childPeerID true)
    (hrequire (foldl ?_ h) op.childPeerID true) rfl rfl
  exact fun d hd producer _ => hd.resetSenderBaselines _

theorem stageRoot (h : c.Plain) (p : ID) : (c.stageRootConvergence p).Plain := by
  unfold stageRootConvergence
  split
  · exact h
  · exact h.same rfl rfl

theorem settleBootstrap (h : c.Plain) (op : Operation) (att : Attempt) : (c.settleBootstrap op att).Plain := by
  unfold Controller.settleBootstrap
  dsimp only
  have hfirst : ∀ b : Bool, (if b then c.updateLedger op.demandPeerID fun l =>
      { l with sfuFirstAtNextRoute := true } else c).Plain := by
    intro b
    split
    · exact h.flag (fun l => { l with sfuFirstAtNextRoute := true }) (fun _ => rfl) _
    · exact h
  split
  · exact (hfirst _).same rfl rfl
  · split
    · exact h.clearDemand _
    · exact h

theorem removeReplaced (h : c.Plain) (att : Attempt) : (c.removeReplaced att).Plain := by
  unfold Controller.removeReplaced
  split
  · split
    · exact h.removePublicationGeneration _
    · exact h.raise _
  · exact h

theorem installContinuation (h : c.Plain) (op : Operation) (att : Attempt) (old : Option CommittedEdge) :
    (c.installContinuation op att old).Plain := by
  unfold Controller.installContinuation
  dsimp only
  generalize (if att.tuple.kind = .peer then [] else c.remainingParents op old) = parents
  split <;> exact h.same rfl rfl

theorem installAttempt (h : c.Plain) (op : Operation) (att : Attempt) (old : Option CommittedEdge) :
    (c.installAttempt op att old).Plain :=
  installContinuation (c := { c with toCore := c.toCore.install op att })
    (h.same rfl (install_operation _ op att)) op att old

theorem commit (h : c.Plain) (ho : op.Plain) (att : Attempt) : (c.commitAttempt op att).2.Plain := by
  unfold commitAttempt
  dsimp only
  have hinstalled := (((h.settleCandidate ho).clearQuality op.childPeerID).removeReplaced att).installAttempt
    op att ((c.settleCandidateOpportunity op).edge op.childPeerID)
  generalize (c.settleCandidateOpportunity op).edge op.childPeerID = old at hinstalled ⊢
  generalize (((c.settleCandidateOpportunity op).clearQualityForParticipant op.childPeerID).removeReplaced
    att).installAttempt op att old = d at hinstalled ⊢
  have hpublished : (d.publishAttempt op att old).Plain := (hinstalled.rebaseline op att old).ended rfl rfl
  generalize d.publishAttempt op att old = d at hpublished ⊢
  have hstaged : ∀ b : Bool, (if b then d.stageRootConvergence op.childPeerID else d).Plain := by
    intro b
    split
    · exact hpublished.stageRoot _
    · exact hpublished
  have hrooted : (d.convergeCreatedRoot op att old).Plain := hstaged _
  generalize d.convergeCreatedRoot op att old = d at hrooted ⊢
  have hserved := hrooted.flag (fun l => { l with
    availabilityExhausted := false, bootstrapFailureReported := false }) (fun _ => rfl) op.childPeerID
  generalize d.updateLedger op.childPeerID (fun l => { l with
    availabilityExhausted := false, bootstrapFailureReported := false }) = d at hserved ⊢
  have hdropped : ({ d with toCore := d.toCore.dropReplacedPublication old } : Controller).Plain := by
    refine hserved.same rfl ?_
    unfold Core.dropReplacedPublication
    split
    · split <;> rfl
    · rfl
  exact (hdropped.settleBootstrap op att).checkGraph

/-! ## Settling -/

theorem noteFailed (h : c.Plain) (guard : CandidateGuard) (now : Int) :
    (c.noteFailedCandidate guard now).Plain := by
  unfold noteFailedCandidate
  split
  · exact h
  · next op ho =>
    split
    · exact h
    · split
      · exact (h.promoteNextDirect ho now).noteRejection _ _
      · exact h

theorem fail (h : c.Plain) (guard : CandidateGuard) (now : Int) : (c.candidateFailed guard now).2.Plain :=
  (h.noteFailed guard now).validateOrAdvance now (some guard)

/-- The live attempt with other evidence. -/
theorem setAttempt (h : c.Plain) (ho : c.operation = some op) {att att' : Attempt}
    (hc : op.current = some att) (ht : att'.tuple = att.tuple)
    (hn : att'.connectionAttempt = att.connectionAttempt) : (c.setAttempt op att').Plain := by
  refine h.of_books rfl fun op' ho' => ?_
  cases ho'
  refine (h.operation op ho).less rfl (fun plan hp => ⟨plan, hp, rfl⟩) fun att'' hc' => ?_
  cases hc'
  exact ⟨att, hc, ht, hn⟩

theorem approveAttempt_same (op : Operation) (att : Attempt) (now : Int) (proof : CandidateProof) :
    (approveAttempt op att now proof).tuple = att.tuple ∧
      (approveAttempt op att now proof).connectionAttempt = att.connectionAttempt := by
  unfold approveAttempt
  dsimp only
  split_ifs <;> exact ⟨rfl, rfl⟩

theorem settleReady {σ : Type} (h : c.Plain) (ho : c.operation = some op) (att : Attempt)
    (guard : CandidateGuard) (now : Int) (commit : CandidateReservation → σ → Bool × σ) (s : σ)
    (checked : Validation) : (c.settleReady op att guard now commit s checked).2.2.Plain := by
  have hop := h.operation op ho
  unfold Controller.settleReady
  dsimp only
  split
  · exact ((h.promoteNextDirect ho now).noteRejection _ _).validateOrAdvance now (some guard)
  · refine foldl (fun d hd child _ => hd.ensureDemand child now _) ?_
    refine Plain.commit ?_ hop att
    split
    · exact h.finishTiming _ _ _ _ _
    · exact h

theorem commitAttach (h : c.Plain) (op : Operation) (att : Attempt) :
    (c.commitPublicationAttach op att).Plain :=
  (h.setVideoFacet op.childPeerID op.videoGeneration att.connectionID true).ended rfl rfl

theorem ready {σ : Type} (h : c.Plain) (guard : CandidateGuard) (now : Int)
    (commit : CandidateReservation → σ → Bool × σ) (s : σ) (proof : CandidateProof) :
    (c.candidateReady guard now commit s proof).2.2.Plain := by
  have hv := h.validateOrAdvance now none
  unfold candidateReady
  dsimp only
  split
  · exact hv
  · next op ho =>
    split
    · exact hv
    · next att hc =>
      split
      · exact hv
      · split
        · exact hv
        · split
          · exact hv
          · split
            · exact hv.commitAttach op att
            · obtain ⟨ht, hn⟩ := approveAttempt_same op att now proof
              have happroved := hv.setAttempt ho hc ht hn
              split
              · exact happroved.fail guard now
              · exact happroved
              · exact happroved.settleReady rfl _ guard now commit s _

theorem connected (h : c.Plain) (guard : CandidateGuard) (now : Int) :
    (c.candidateTransportConnected guard now).2.Plain := by
  have hv := h.validateOrAdvance now none
  unfold candidateTransportConnected
  dsimp only
  split
  · exact hv
  · next op ho =>
    split
    · exact hv
    · next att hc =>
      split
      · exact hv
      · exact hv.setAttempt ho hc rfl rfl

/-! ## Scheduling -/

theorem plan_plain {c : Core} {p : ID} {t : CandidateTuple} {plan : CandidatePlan}
    (h : c.planCandidate p t = some plan) (ht : t.Plain) : plan.tuple.Plain := by
  rw [planCandidate_tuple h]
  exact ht

theorem direct_plain (parentPeerID : ID) :
    ({ kind := .peer, parentPeerID, transport := .direct } : CandidateTuple).Plain := fun _ => rfl

theorem sfuCandidate_plain {c : Controller} {p : ID} {t : CandidateTuple} (h : c.sfuCandidate p = some t) :
    t.Plain := by
  intro hk
  rw [c.sfuCandidate_kind h] at hk
  cases hk

/-- The candidate lists regenerate nothing. -/
theorem buildCandidatePlans_plain {c : Controller} {p : ID} {sfuOnly untried : Bool} {plan : CandidatePlan}
    (h : plan ∈ c.buildCandidatePlans p sfuOnly untried) : plan.tuple.Plain := by
  unfold buildCandidatePlans at h
  obtain ⟨t, ht, hplan⟩ := List.mem_filterMap.1 h
  have ht := mem_dedupeTuples ht
  split at hplan
  · next q hq =>
    split at hplan
    · cases hplan
      refine plan_plain hq ?_
      have hdirect : ∀ l : List Participant, ∀ t ∈ l.map fun parent : Participant =>
          ({ kind := .peer, parentPeerID := parent.peerID, transport := .direct } : CandidateTuple),
          t.Plain := by
        intro l t hm
        obtain ⟨q, -, rfl⟩ := List.mem_map.1 hm
        exact direct_plain _
      generalize hl : (c.participants.values.filter (c.parentEligible p)).sortStable
        (c.parentLess p untried) = parents at ht
      have hparents := hdirect parents
      split at ht
      · exact sfuCandidate_plain (Option.mem_toList.1 ht)
      · split at ht
        · next sfu first rest hsfu heq =>
          rw [heq] at hparents
          simp only [List.mem_cons] at ht
          rcases ht with rfl | rfl | ht
          · exact hparents _ List.mem_cons_self
          · exact sfuCandidate_plain hsfu
          · exact hparents _ (List.mem_cons_of_mem _ ht)
        · next hsfu _ =>
          obtain rfl := List.mem_singleton.1 ht
          exact sfuCandidate_plain hsfu
        · exact hparents _ ht
    · cases hplan
  · cases hplan

theorem buildCandidates_plain {c : Controller} {p : ID} {sfuOnly : Bool} {plan : CandidatePlan}
    (h : plan ∈ c.buildCandidates p sfuOnly) : plan.tuple.Plain := by
  unfold buildCandidates at h
  dsimp only at h
  have hout : ∀ plan ∈ (c.buildCandidatePlans p sfuOnly true).filter (c.candidateOpportunityAvailable p),
      plan.tuple.Plain := fun plan hm => buildCandidatePlans_plain (List.mem_filter.1 hm).1
  generalize (c.buildCandidatePlans p sfuOnly true).filter (c.candidateOpportunityAvailable p) = out at h hout
  split at h
  · split at h
    · exact hout plan (mem_moveToFront h)
    · exact hout plan h
  · exact hout plan h

theorem continuationPlan_plain {c : Controller} {p : ID} {d : DirectContinuation} {plan : CandidatePlan}
    (h : c.continuationPlan p d = some plan) : plan.tuple.Plain := by
  unfold continuationPlan at h
  obtain ⟨parent, -, h⟩ := List.exists_of_findSome?_eq_some h
  split at h
  · cases h
  · next hplan =>
    split at h
    · cases h
      exact plan_plain hplan (direct_plain parent)
    · cases h

theorem rootConvergencePlan_plain {c : Controller} {root : ID} {convergence : RootConvergence}
    (h : c.rootConvergencePlan root = some convergence) : convergence.plan.tuple.Plain := by
  unfold rootConvergencePlan at h
  split at h
  · cases h
  · split at h
    · cases h
    · dsimp only at h
      split at h
      · cases h
      · split at h
        · cases h
        · split at h
          · cases h
          · next hplan =>
            split at h
            · cases h
              exact plan_plain hplan (direct_plain root)
            · cases h

theorem selectContinuationLoop_plain : ∀ {l : List (ID × DirectContinuation)} {c : Controller} {p : ID}
    {plan : CandidatePlan}, (selectContinuationLoop l c).1 = some (p, plan) → plan.tuple.Plain
  | [], _, _, _, h => by cases h
  | (q, d) :: rest, c, p, plan, h => by
    unfold selectContinuationLoop at h
    split at h
    · exact selectContinuationLoop_plain h
    · split at h
      · next hplan =>
        simp only [Option.some.injEq, Prod.mk.injEq] at h
        exact h.2 ▸ continuationPlan_plain hplan
      · exact selectContinuationLoop_plain h

/-- Work whose own plan regenerates nothing. -/
def OfPick : Pick → Prop
  | .continuation _ plan => plan.tuple.Plain
  | .root convergence => convergence.plan.tuple.Plain
  | _ => True

theorem pickBackground (h : c.Plain) (now : Int) : (c.pickBackground now).2.Plain ∧
    ∀ pick, (c.pickBackground now).1 = some pick → OfPick pick := by
  have hs : c.selectDirectContinuation.2.Plain := selectContinuation _ h
  have hplan : ∀ {p plan}, c.selectDirectContinuation.1 = some (p, plan) → plan.tuple.Plain :=
    selectContinuationLoop_plain
  unfold Controller.pickBackground
  split
  · next child plan d heq =>
    rw [heq] at hs hplan
    refine ⟨hs, fun pick hp => ?_⟩
    cases hp
    exact hplan rfl
  · next d heq =>
    rw [heq] at hs
    split
    · exact ⟨hs, fun _ hp => by cases hp⟩
    · have hq := hs.selectQualityChild now
      split
      · next child d' heq' =>
        rw [heq'] at hq
        refine ⟨hq, fun pick hp => ?_⟩
        cases hp
        trivial
      · next d' heq' =>
        rw [heq'] at hq
        refine ⟨hq.takeRoot, fun pick hp => ?_⟩
        obtain ⟨convergence, hc, rfl⟩ := Option.map_eq_some_iff.1 hp
        unfold takeRootConvergenceIntent at hc
        dsimp only at hc
        split at hc
        · cases hc
        · exact rootConvergencePlan_plain hc

theorem pickWork (h : c.Plain) (now : Int) : (c.pickWork now).2.2.Plain ∧
    ∀ pick, (c.pickWork now).1 = some pick → OfPick pick := by
  have ht := h.takeCarrier now
  unfold Controller.pickWork
  split
  · next heq =>
    rw [heq] at ht
    refine ⟨ht, fun pick hp => ?_⟩
    cases hp
    trivial
  · next heq =>
    rw [heq] at ht
    dsimp only
    split
    · refine ⟨ht, fun pick hp => ?_⟩
      cases hp
      trivial
    · exact ht.pickBackground now

theorem pickCandidates (h : c.Plain) {pick : Pick} (hp : OfPick pick) (now : Int) :
    (c.pickCandidates pick now).2.Plain ∧
    (c.pickReason pick ≠ .qualityConvergence →
      ∀ plan ∈ (c.pickCandidates pick now).1, plan.tuple.Plain) := by
  cases pick with
  | bootstrap carrier => exact ⟨h, fun _ _ hm => buildCandidates_plain hm⟩
  | route child => exact ⟨h, fun _ _ hm => buildCandidates_plain hm⟩
  | continuation child plan => exact ⟨h, fun _ _ hm => List.mem_singleton.1 hm ▸ hp⟩
  | quality child => exact ⟨h.buildQualityCandidates child now, fun hq => absurd rfl hq⟩
  | root convergence => exact ⟨h, fun _ _ hm => List.mem_singleton.1 hm ▸ hp⟩

theorem orderCandidates_subset (c : Controller) (pick : Pick) (l : List CandidatePlan) :
    c.orderCandidates pick l ⊆ l := by
  have hfront : ∀ b : Bool, (if b then moveToFront (fun plan => plan.tuple.kind == .sfu) l else l) ⊆ l := by
    intro b plan hm
    split at hm
    · exact mem_moveToFront hm
    · exact hm
  cases pick with
  | continuation child plan => exact List.Subset.refl l
  | bootstrap carrier => exact List.filter_subset_self l
  | _ => exact hfront _

theorem unavailable (h : c.Plain) (pick : Pick) (now : Int) : (c.pickUnavailable pick now).2.2.Plain := by
  unfold pickUnavailable
  cases pick with
  | bootstrap carrier => exact h.completeCarrier (fun _ hp => by cases hp) _ now _
  | route child =>
    dsimp only
    have hcut := h.retireInvalidOperationEdge (Pick.route child).childPeerID
    generalize c.retireInvalidOperationEdge (Pick.route child).childPeerID = cut at hcut ⊢
    have htouched : (if cut.1 then cut.2.2.bump.touchFacts else cut.2.2).Plain := by
      split
      · exact hcut.bump.touchFacts
      · exact hcut
    generalize (if cut.1 then cut.2.2.bump.touchFacts else cut.2.2) = d at htouched ⊢
    generalize (if c.pickReason (.route child) = .capacityReduction then RejectionBucket.endpointCapacity
      else .candidateFailed) = bucket
    have hfinished := (htouched.flag (fun l => { l with availabilityExhausted := true }) (fun _ => rfl)
      (Pick.route child).childPeerID).finishTiming (Pick.route child).demandPeerID now .failed bucket false
    split
    · exact hfinished
    · exact hfinished.rememberUnavailable _
  | continuation child plan =>
    exact (h.deleteContinuation _).finishTiming _ _ _ _ _
  | quality child => exact h.finishTiming _ _ _ _ _
  | root convergence => exact h.finishTiming _ _ _ _ _

theorem opens (h : c.Plain) {pick : Pick} {l : List CandidatePlan}
    (hl : c.pickReason pick ≠ .qualityConvergence → ∀ plan ∈ l, plan.tuple.Plain) (now : Int) :
    (c.openOperation pick l now).Plain := by
  refine h.of_books rfl fun op ho => ?_
  cases ho
  exact ⟨hl, fun _ hc => by cases hc⟩

/-- What a pick is tried for does not depend on the evidence. -/
theorem pickReason_candidates (c : Controller) (pick : Pick) (now : Int) :
    (c.pickCandidates pick now).2.pickReason pick = c.pickReason pick := by
  cases pick with
  | route child => rfl
  | _ => rfl

theorem reconcileLoop : ∀ (now : Int) (n : ℕ) {c : Controller}, c.Plain →
    (reconcileLoop now n c).2.2.Plain
  | _, 0, _, h => h
  | now, n + 1, c, h => by
    obtain ⟨hwork, hpick⟩ := h.pickWork now
    unfold Controller.reconcileLoop
    dsimp only
    split
    · exact hwork
    · next pick heq =>
      split
      · exact hwork
      · split
        · exact hwork.raise _
        · have hdemand := hwork.ensureDemand pick.demandPeerID now ((c.pickWork now).2.2.pickReason pick)
          obtain ⟨hlisted, hplain⟩ := hdemand.pickCandidates (hpick pick heq) now
          split
          · exact reconcileLoop now n (hlisted.unavailable pick now)
          · refine hlisted.opens (fun hr plan hm => hplain ?_ plan (orderCandidates_subset _ _ _ hm)) now
            rwa [pickReason_candidates] at hr

theorem preempt (h : c.Plain) (now : Int) : (c.preemptBackground now).2.Plain := by
  unfold preemptBackground
  split
  · exact h
  · split
    · exact h
    · dsimp only
      split
      · exact h.hasBootstrapWork.abort (some now) .aborted
      · exact h.hasBootstrapWork

theorem schedule (h : c.Plain) (now : Int) : (c.schedule now).2.2.Plain := by
  have ha := h.startAttach now
  unfold Controller.schedule
  dsimp only
  split
  · exact ha
  · exact reconcileLoop now _ (foldl (fun d hd p _ => hd.restoreContinuation p) ha)

theorem reconcile (h : c.Plain) (now : Int) : (c.reconcile now).2.Plain := by
  have hvalid := ((h.retireDepartedEdges now).validateOrAdvance now none).preempt now
  have hpruned : ∀ {d : Controller}, d.Plain → d.pruneWhenIdle.2.2.Plain := by
    intro d hd
    unfold pruneWhenIdle
    split
    · exact hd.pruneDepartedLeaves
    · exact hd
  unfold Controller.reconcile
  dsimp only
  split
  · exact hpruned hvalid
  · exact (hpruned hvalid).schedule now

/-! ## Evidence -/

theorem settleQuality {σ : Type} (h : c.Plain) (ho : c.operation = some op) {att : Attempt}
    (hc : op.current = some att) (state : SenderQualityState) (now : Int) (sender : ID)
    (sample : Option Int) (commit : CandidateReservation → σ → Bool × σ) (s : σ) :
    (c.settleCandidateQuality op att state now sender sample commit s).2.2.Plain := by
  unfold settleCandidateQuality
  dsimp only
  split
  · exact h.setAttempt ho hc rfl rfl
  · split
    · exact h
    · split
      · exact h
      · split
        · exact h.fail _ now
        · split
          · exact h
          · next sample _ _ _ =>
            have hfolded : (c.setAttempt op (foldSample att state now sender sample)).Plain :=
              h.setAttempt ho hc rfl rfl
            split
            · exact hfolded.fail _ now
            · split
              · exact hfolded.ready _ now commit s _
              · exact hfolded

theorem observeWindow (h : c.Plain) (input : RouteQualityEvidenceInput) :
    (c.observeQualityEvidence input).2.Plain := by
  have hproved : ∀ p e, (c.proveVideo p e).Plain := by
    intro p e
    unfold proveVideo
    split
    · exact h
    · exact h.same rfl rfl
  have hwindow : ∀ {d : Controller}, d.Plain → ∀ o, (d.recordWindow input o).2.Plain := by
    intro d hd o
    unfold recordWindow
    split
    · dsimp only
      split <;> exact hd.same rfl rfl
    · exact hd.same rfl rfl
  unfold observeQualityEvidence
  split
  · exact h
  · split
    · exact h
    · split
      · exact h.same rfl rfl
      · dsimp only
        split
        · exact hwindow (hproved _ _).touchFacts _
        · exact hwindow (hproved _ _) _

theorem recordSample (h : c.Plain) (input : SenderQualityEvidenceInput) (child sender : ID) (sample : Int)
    (previous : Option SenderQualityObservation) : (c.recordSample input child sender sample previous).Plain := by
  have hlatch : (c.releaseLatch input child sender).Plain := by
    unfold releaseLatch
    split
    · exact h
    · dsimp only
      split
      · exact h.same rfl rfl
      · exact h
  unfold Controller.recordSample
  dsimp only
  split <;> exact hlatch.same rfl rfl

theorem observeEdge (h : c.Plain) (input : SenderQualityEvidenceInput) (child : ID) :
    (c.observeEdgeSample input child).2.Plain := by
  unfold observeEdgeSample
  split
  · unfold recordUnknownSample
    split
    · exact h
    · split <;> exact h.same rfl rfl
  · split
    · split
      · exact h
      · split
        · exact h
        · dsimp only
          split
          · exact (h.recordSample input child _ _ _).abort _ _
          · exact h.recordSample input child _ _ _
    · exact h

theorem observeSender {σ : Type} (h : c.Plain) (input : SenderQualityEvidenceInput)
    (commit : CandidateReservation → σ → Bool × σ) (s : σ) :
    (c.observeSenderQualityEvidence input commit s).2.2.Plain := by
  unfold observeSenderQualityEvidence
  split
  · exact h
  · split
    · next child _ _ =>
      split
      · exact h
      · split
        · next op att hsample =>
          unfold sampledCandidate at hsample
          split at hsample
          · cases hsample
          · next op' ho =>
            split at hsample
            · cases hsample
            · next att' hc =>
              split at hsample
              · cases hsample
                exact h.settleQuality ho hc _ _ _ _ commit s
              · cases hsample
        · split
          · exact h
          · exact h.observeEdge input child.sessionID
    · exact h

theorem observePublication {σ : Type} (h : c.Plain) (input : SfuPublisherQualityEvidenceInput)
    (sample : Int) (commit : CandidateReservation → σ → Bool × σ) (s : σ) :
    (c.observePublication input sample commit s).2.2.Plain := by
  have hrecorded : (c.recordPublisherSample input sample).Plain := by
    unfold recordPublisherSample
    dsimp only
    split <;> exact h.same rfl rfl
  unfold Controller.observePublication
  split
  · exact h
  · dsimp only
    split
    · exact hrecorded
    · split
      · exact hrecorded
      · split
        · exact hrecorded.fail _ _
        · split
          · exact hrecorded.ready _ _ commit s _
          · exact hrecorded

theorem observePublisher {σ : Type} (h : c.Plain) (input : SfuPublisherQualityEvidenceInput)
    (commit : CandidateReservation → σ → Bool × σ) (s : σ) :
    (c.observeSfuPublisherQualityEvidence input commit s).2.2.Plain := by
  unfold observeSfuPublisherQualityEvidence
  split
  · exact h
  · split
    · next op att hsample =>
      have hsample := (Option.filter_eq_some_iff.1 hsample).1
      unfold publisherCandidate at hsample
      split at hsample
      · cases hsample
      · next op' ho =>
        split at hsample
        · cases hsample
        · next att' hc =>
          split at hsample
          · cases hsample
            exact h.settleQuality ho hc _ _ _ _ commit s
          · cases hsample
    · split
      · exact h
      · split
        · exact h.same rfl rfl
        · split
          · exact h
          · exact h.observePublication input _ commit s

theorem resetSender (h : c.Plain) (p s : ID) (now : Int) : (c.resetSenderQuality p s now).2.Plain := by
  have hforgot : (c.forgetSenderSamples p s).Plain := by
    have hfold : ∀ l : List ID, (l.foldl (fun c child => { c with
        senderQualityObservations := c.senderQualityObservations.delete child
        senderQualityBaselines := c.senderQualityBaselines.delete child
        senderQualityRegenerationBlocks := c.senderQualityRegenerationBlocks.delete child }) c).Plain :=
      fun l => foldl (fun d hd child _ => hd.same rfl rfl) h
    unfold forgetSenderSamples
    dsimp only
    split
    · exact (hfold _).same rfl rfl
    · exact hfold _
  unfold resetSenderQuality
  split
  · exact h
  · split
    · exact h
    · dsimp only
      split
      · exact hforgot.abort _ _
      · exact hforgot

/-! ## Participants -/

theorem preference (h : c.Plain) (p s : ID) (pref : ViewerRoutePreference) (now : Option Int) :
    (c.setViewerRoutePreference p s pref now).2.Plain := by
  unfold setViewerRoutePreference
  split
  · exact h
  · split
    · exact h
    · have ha := h.abortIf (c.operationOwnedBy p) now .aborted
      dsimp only
      generalize (if c.operationOwnedBy p then c.abortOperation now .aborted else ([], c)) = x at ha ⊢
      have hcleared := (ha.modifyParticipant p fun q => { q with routePreference := pref }).update
        (f := fun l => { l with
          consumedCandidateOpportunities := .empty, availabilityExhausted := false
          bootstrapFailureReported := false }) (fun _ _ _ => rfl) p
      exact (((hcleared.deleteContinuation p).clearDemand
        p).touchFacts).recordDemands _ now _

theorem clearForSession (h : c.Plain) (p : ID) (role : Role) :
    (c.clearOpportunitiesForSessionChange p role).Plain := by
  have hown := h.update (f := fun l => { l with
    consumedCandidateOpportunities := .empty, availabilityExhausted := false
    bootstrapFailureReported := false }) (fun _ _ _ => rfl) p
  refine hown.fewer ⟨fun q key hn => ?_, fun key hn => ?_⟩ hown.operation
  · unfold clearOpportunitiesForSessionChange
    simp only [opportunities, ledger, OMap.get_mapValues] at hn ⊢
    generalize (c.updateLedger p fun l => { l with
      consumedCandidateOpportunities := .empty, availabilityExhausted := false
      bootstrapFailureReported := false }).ledgers.get q = o at hn ⊢
    cases o with
    | none => exact hn
    | some l =>
      simp only [Option.getD_some, Option.map_some, OMap.get_filter] at hn ⊢
      simp [hn]
  · unfold clearOpportunitiesForSessionChange
    dsimp only
    cases role with
    | host => rfl
    | viewer =>
      simp only [OMap.get_filter]
      simp [hn]

theorem replaceSession (h : c.Plain) (input : ParticipantInput) (now : Option Int) :
    (c.replaceSession input now).2.Plain := by
  have hcleared := ((h.modifyParticipant input.peerID fun p => { p with relayVolunteer := false }).clearForSession
    input.peerID input.role).clearQuality input.peerID
  unfold Controller.replaceSession
  dsimp only
  generalize ((c.modifyParticipant input.peerID fun p => { p with relayVolunteer := false
    }).clearOpportunitiesForSessionChange input.peerID input.role).clearQualityForParticipant
      input.peerID = d at hcleared ⊢
  have ha := hcleared.abortIf (d.operationUsesParticipantSession input.peerID) now .stale
  exact ((ha.deleteContinuation input.peerID).clearDemand
    input.peerID).same rfl rfl

theorem returned (h : c.Plain) (input : ParticipantInput) (x : Participant) (capacity : Int)
    (now : Option Int) : (c.demandReturned input x capacity now).Plain :=
  h.same (demandReturned_books _ _ _ _ _) (by
    unfold demandReturned
    dsimp only
    split_ifs <;> simp [recordCapacityReduction])

theorem upsert (h : c.Plain) (input : ParticipantInput) (now : Option Int) :
    (c.upsertParticipant input now).2.Plain := by
  unfold upsertParticipant
  split
  · exact h.raise _
  · split
    · exact h.raise _
    · split
      · unfold addParticipant
        dsimp only
        refine touchFacts ?_
        have hadded : ∀ x : Participant, ({ c with
            participants := c.participants.set input.peerID x, nextJoinOrder := c.nextJoinOrder + 1
            ledgers := c.ledgers.set input.peerID {} } : Controller).Plain := by
          intro x
          refine h.fewer ⟨fun q key hn => ?_, fun _ hn => hn⟩ h.operation
          simp only [opportunities, ledger, OMap.get_set] at hn ⊢
          split
          · exact OMap.get_empty _
          · exact hn
        split
        · exact (hadded _).recordDemands _ _ _
        · exact hadded _
      · next x _ =>
        split
        · exact h.raise _
        · unfold updateParticipant
          dsimp only
          have hs : (if x.sessionID ≠ input.sessionID then c.replaceSession input now else ([], c)).2.Plain := by
            split
            · exact h.replaceSession input now
            · exact h
          generalize (if x.sessionID ≠ input.sessionID then c.replaceSession input now else ([], c)) = y at hs ⊢
          have hreturned := fun capacity => (hs.modifyParticipant input.peerID fun p => { p with
            departureConfirmed := false
            reportedDownstreamCapacity := input.effectiveDownstreamCapacity
            effectiveDownstreamCapacity := capacity }).returned input x capacity now
          split
          · exact (hreturned _).preference _ _ _ _
          · exact hreturned _

/-- No key at all. -/
theorem blank (hc : ∀ q, c.opportunities q = .empty) (hs : c.consumedSfuBootstrapOpportunities = .empty)
    (ho : c.operation = none) : c.Plain := by
  refine ⟨fun q key hk => ?_, fun key hk => ?_, fun op hop => ?_⟩
  · simp [hc q] at hk
  · simp [hs] at hk
  · simp [ho] at hop

theorem moveHost (c : Controller) (host : Participant) (p s : ID) (now : Option Int) :
    (c.moveHost host p s now).2.Plain := by
  refine blank (c.moveHost_opportunities host p s now) (c.moveHost_carriers host p s now) ?_
  rw [moveHost_toCore]
  unfold Core.checkGraph
  split <;> exact aborted_operation c.toCore

theorem rebindHost (h : c.Plain) (p s : ID) (now : Option Int) : (c.rebindHostIdentity p s now).2.Plain := by
  unfold rebindHostIdentity
  split
  · exact h.upsert _ now
  · split
    · exact h.raise _
    · split
      · exact h.raise _
      · split
        · exact h.raise _
        · split
          · exact h.raise _
          · exact moveHost c _ p s now

theorem disconnect (h : c.Plain) (p s : ID) : (c.disconnectSession p s).2.Plain := by
  unfold disconnectSession
  split
  · exact h
  · split
    · exact h
    · next x _ _ =>
      have hcleared := ((h.clearForSession p x.role).modifyParticipant p fun q =>
        { q with sessionID := "" }).clearQuality p
      exact ((hcleared.deleteContinuation p).clearDemand p).touchFacts

theorem departure (h : c.Plain) (p : ID) (now : Option Int) : (c.confirmDeparture p now).2.Plain := by
  unfold confirmDeparture
  split
  · exact h
  · next x _ =>
    split
    · exact h
    · have htimed : ({ c with routeTimings := c.routeTimings.delete p } : Controller).Plain := h.same rfl rfl
      dsimp only
      split
      · exact htimed
      · have hcleared := (((htimed.clearForSession p x.role).modifyParticipant p fun q =>
          { q with sessionID := "" }).clearQuality p).modifyParticipant p fun q =>
            { q with departureConfirmed := true, effectiveDownstreamCapacity := 0 }
        exact (((hcleared.deleteContinuation p).clearDemand
          p).recordDemands _ now _).touchFacts

theorem reduced (h : c.Plain) (p : ID) (now : Option Int) : (c.recordCapacityReduction p now).Plain :=
  h.recordDemands _ now _

theorem setCapacity (h : c.Plain) (p s : ID) (value : Int) (now : Option Int) :
    (c.setEffectiveCapacity p s value now).2.Plain := by
  unfold setEffectiveCapacity
  split
  · exact h
  · split
    · exact h
    · split
      · exact h.raise _
      · dsimp only
        split
        · exact h.modifyParticipant _ _
        · exact ((h.modifyParticipant _ _).reduced p now).touchFacts

theorem volunteer (h : c.Plain) (p s : ID) (enabled : Bool) (now : Option Int) :
    (c.setRelayVolunteer p s enabled now).2.Plain := by
  unfold setRelayVolunteer
  split
  · exact h
  · split
    · exact h
    · split
      · exact h
      · split
        · exact h.raise _
        · exact ((h.modifyParticipant _ _).reduced p now).touchFacts

theorem roomCapacity (h : c.Plain) (capacity : Int) (now : Option Int) :
    (c.setDefaultCapacity capacity now).Plain := by
  unfold setDefaultCapacity
  split
  · exact h.raise _
  · split
    · exact h
    · have hroom : ({ c with endpointMediaCopyCapacity := capacity } : Controller).Plain := h.same rfl rfl
      dsimp only
      split
      · exact hroom.raise _
      · exact (foldl (fun d hd x _ => (hd.modifyParticipant _ _).reduced _ now) hroom).touchFacts

/-! ## Failures and policies -/

theorem external (h : c.Plain) : c.touchExternalFacts.Plain := by
  refine h.fewer ⟨fun q key hn => ?_, fun key _ => OMap.get_empty _⟩ h.operation
  show OMap.get (((c.ledgers.mapValues fun _ l => { l with
    consumedCandidateOpportunities := l.consumedCandidateOpportunities.filter fun key _ =>
      !hasPrefix key sfuOpportunityPrefix
    bootstrapFailureReported := false }).get q).getD {}).consumedCandidateOpportunities key = none
  rw [OMap.get_mapValues]
  simp only [opportunities, ledger] at hn
  cases hl : c.ledgers.get q with
  | none => simp
  | some l =>
    rw [hl, Option.getD_some] at hn
    simp [OMap.get_filter, hn]

theorem invalidate (h : c.Plain) (guard : EdgeGuard) (now : Option Int) : (c.invalidateEdge guard now).2.Plain := by
  unfold invalidateEdge
  split
  · next child e _ _ =>
    split
    · exact h
    · split
      · exact h
      · have hcharged := (h.consumeActiveEdge guard.childPeerID e).clearQuality guard.childPeerID
        have hcut : ∀ d : Controller, d.Plain → ({ d with
            upstreamByViewer := d.upstreamByViewer.modify guard.childPeerID fun e =>
              { e with usable := false } } : Controller).Plain := fun d hd => hd.same rfl rfl
        have hflag := ((hcut _ hcharged).deleteContinuation guard.childPeerID).flag
          (fun l => { l with availabilityExhausted := false, bootstrapFailureReported := false })
          (fun _ => rfl) guard.childPeerID
        exact hflag.touchFacts.recordDemands _ now _
  · exact h

theorem invalidateFromParent (h : c.Plain) (input : ParentEdgeGuard) (now : Option Int) :
    (c.invalidateDirectEdgeFromParent input now).2.Plain := by
  unfold invalidateDirectEdgeFromParent
  split
  · exact h
  · exact h.invalidate _ now

theorem invalidatePublication (h : c.Plain) (guard : PublicationGuard) (now : Option Int) :
    (c.invalidateHostPublication guard now).2.Plain := by
  unfold invalidateHostPublication
  split
  · exact h
  · split
    · exact h
    · split
      · exact h
      · next p _ _ _ =>
        have hcut : Plain { c.clearSfuQuality with
            hostPublication := some { p with usable := false }
            directContinuations := .empty, sfuBootstrapIntent := none } :=
          h.clearSfuQuality.same rfl rfl
        exact (hcut.recordDemands _ now _).touchFacts

theorem adopt (h : c.Plain) (guard : EdgeGuard) (id : ID) (now : Int) :
    (c.adoptDirectConnection guard id now).2.Plain := by
  unfold adoptDirectConnection
  dsimp only
  split
  · exact h
  · split
    · exact h
    · split
      · exact h
      · have ha := (h.abortIf (c.routesChild guard.childPeerID) (some now) .aborted).clearQuality
          guard.childPeerID
        have hadopted : ∀ d : Controller, d.Plain → (d.adoptConnection guard.childPeerID id).Plain :=
          fun d hd => hd.same rfl rfl
        exact ((hadopted _ ha).flag (fun l => { l with availabilityExhausted := false }) (fun _ => rfl)
          _).touchFacts

theorem retirePublication (h : c.Plain) (guard : PublicationGuard) :
    (c.retireHostPublication guard).2.Plain := by
  unfold retireHostPublication
  split
  · exact h
  · next p _ =>
    split
    · exact h
    · have hretired := h.retireSubscribers (c.upstreamByViewer.entries.filter fun e =>
        e.2.kind == .sfu && e.2.publicationGeneration == p.generation)
      have hdropped : ∀ d : Controller, d.Plain → ({ d with hostPublication := none } : Controller).Plain :=
        fun d hd => hd.same rfl rfl
      have hbumped := ((hdropped _ hretired).clearSfuQuality).bump
      exact (hbumped.rebase _).touchFacts.prune

theorem video (h : c.Plain) (g : ID) (paused : Bool) (now : Int) :
    (c.setVideoPublication g paused now).2.Plain := by
  unfold setVideoPublication
  dsimp only
  split
  · exact h
  · exact (h.abort (some now) .aborted).same rfl rfl

theorem pause (h : c.Plain) (paused : Bool) (now : Option Int) : (c.setPaused paused now).2.Plain := by
  unfold setPaused
  split
  · exact h.video _ _ _
  · split
    · exact h
    · dsimp only
      split
      · have hpaused : ({ c with paused } : Controller).clearAllQuality.touchFacts.Plain := h.same rfl rfl
        exact hpaused.abort now _
      · exact h.same rfl rfl

theorem policy (h : c.Plain) (peerOnly topology nat : Bool) (now : Int) :
    (c.setRoutePolicy peerOnly topology nat now).2.Plain := by
  unfold setRoutePolicy
  split
  · exact h
  · have ha := h.abort (some now) .aborted
    dsimp only
    generalize c.abortOperation (some now) .aborted = x at ha ⊢
    refine ha.fewer ⟨fun q key hn => ?_, fun key _ => OMap.get_empty _⟩ ha.operation
    simp only [opportunities, ledger] at hn ⊢
    dsimp only [clearAllQuality, Controller.touchFacts]
    rw [OMap.get_mapValues]
    cases hl : x.2.ledgers.get q with
    | none => simp
    | some l =>
      rw [hl, Option.getD_some] at hn
      simp only [Option.map_some, Option.getD_some]
      split
      · split
        · exact OMap.get_empty _
        · exact hn
      · exact hn

theorem listeners (h : c.Plain) (l : List ID) (now : Int) : (c.setVoiceListeners l now).2.Plain := by
  unfold setVoiceListeners
  split
  · exact h
  · dsimp only
    refine touchFacts (foldl (fun d hd x _ => ?_) (h.same rfl rfl))
    have hcleared := hd.update (f := fun l => { l with
      consumedCandidateOpportunities := .empty, availabilityExhausted := false
      bootstrapFailureReported := false }) (fun _ _ _ => rfl) x.peerID
    have hdemand := (hcleared.deleteContinuation x.peerID).clearDemand
      x.peerID
    split
    · exact hdemand.recordDemands _ _ _
    · exact hdemand

end Plain

/-! ## Calls -/

/-- **Every exported call keeps the keys plain.** -/
theorem run_plain {c : Controller} (h : c.Plain) (k : Call) : (c.run k).2.Plain := by
  cases k with
  | upsertParticipant input now => exact h.upsert input now
  | setViewerRoutePreference p s pref now => exact h.preference p s pref now
  | rebindHostIdentity p s now => exact h.rebindHost p s now
  | disconnectSession p s => exact h.disconnect p s
  | confirmDeparture p now => exact h.departure p now
  | setEffectiveCapacity p s value now => exact h.setCapacity p s value now
  | setRelayVolunteer p s enabled now => exact h.volunteer p s enabled now
  | setDefaultCapacity capacity now => exact h.roomCapacity capacity now
  | touchExternalFacts => exact h.external
  | invalidateEdge guard now => exact h.invalidate guard now
  | invalidateDirectEdgeFromParent input now => exact h.invalidateFromParent input now
  | invalidateHostPublication guard now => exact h.invalidatePublication guard now
  | adoptDirectConnection guard id now => exact h.adopt guard id now
  | retireHostPublication guard => exact h.retirePublication guard
  | setPaused paused now => exact h.pause paused now
  | dispose => exact .blank (fun _ => rfl) rfl rfl
  | setRoutePolicy peerOnly topology nat now => exact h.policy peerOnly topology nat now
  | setVoiceListeners l now => exact h.listeners l now
  | setHostVideoConnectionID id =>
    show (c.setHostVideoConnectionID id).2.Plain
    unfold setHostVideoConnectionID
    split
    · exact h
    · split_ifs <;> first | exact h | exact h.same rfl rfl
  | setVideoPublication g paused now => exact h.video g paused now
  | observeQualityEvidence input => exact h.observeWindow input
  | observeSenderQualityEvidence input commit => exact h.observeSender input (answer commit) ()
  | observeSfuPublisherQualityEvidence input commit => exact h.observePublisher input (answer commit) ()
  | resetSenderQuality p s now => exact h.resetSender p s now
  | reconcile now => exact h.reconcile now
  | beginCurrentCandidate input => exact h.beginCurrent input
  | noteCurrentCandidateRejection guard b =>
    show (c.noteCurrentCandidateRejection guard b).2.Plain
    unfold noteCurrentCandidateRejection
    split
    · exact h
    · split
      · exact h
      · exact h.noteRejection _ _
  | skipCurrentCandidate guard now b => exact h.skip guard now b
  | retireCurrentCandidateProducer guard now => exact h.retireCurrentProducer guard now
  | candidateReady guard now proof commit => exact h.ready guard now (answer commit) () proof
  | candidateTransportConnected guard now => exact h.connected guard now
  | candidateFailed guard now => exact h.fail guard now
  | operationExpired now => exact h.validateOrAdvance now none

theorem calls_plain {c c' : Controller} {ks : List Call} (h : c.Plain) (hk : c.calls ks = .ok c') :
    c'.Plain := by
  induction ks generalizing c with
  | nil =>
    cases hk
    exact h
  | cons k ks ih =>
    unfold Controller.calls at hk
    split at hk
    · cases hk
    · next reply c₁ h₁ =>
      have hrun : (c.run k).2 = c₁ := by
        unfold Controller.call at h₁
        split at h₁
        · cases h₁
        · exact congrArg Prod.snd (Except.ok.inj h₁)
      exact ih (hrun ▸ run_plain h k) hk

theorem new_plain {o : Options} {latest : Int} {c : Controller} (h : new o latest = .ok c) : c.Plain := by
  obtain ⟨-, rfl⟩ := new_eq h
  exact .blank (fun _ => rfl) rfl rfl

end Controller

end Piik.Route
