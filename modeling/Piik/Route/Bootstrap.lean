/-
  SFU bootstrap (`route/sfu_bootstrap.go`), root convergence
  (`route/root_convergence.go`) and the retained direct continuations: the
  demands that are served by an operation on another peer's edge.  Only ledgers
  are written here.
-/
import Piik.Route.Quality

namespace Piik.Route

namespace Controller

variable (c : Controller)

/-! ## SFU bootstrap -/

/-- There is no publication, and no slot of the host for one. -/
def sfuBootstrapGloballyNeeded : Bool :=
  c.sfuEnabled && c.hostPublication.isNone && !c.hostHasPublicationSlot

/-- The viewer has not tried the publication that is there. -/
def sfuOpportunityAvailable (demandPeerID : ID) : Bool :=
  c.candidateOpportunityAvailable demandPeerID
    { tuple := { kind := .sfu, publication := .reuse }, endpointTransition := { kind := .none } }

/-- The viewer could only be served over a new publication. -/
def sfuBootstrapNeeded (demandPeerID : ID) : Bool :=
  c.sfuBootstrapGloballyNeeded && c.allowsIncoming demandPeerID .sfu &&
    match c.participant demandPeerID with
    | none => false
    | some demand => demand.sessionID ≠ "" &&
        (!c.usableRoute demandPeerID || c.voiceRouteMissing demandPeerID) &&
        c.sfuOpportunityAvailable demandPeerID

/-- The key under which a carrier's move is remembered. -/
def sfuBootstrapOpportunityBase (carrierPeerID : ID) (plan : CandidatePlan) : String :=
  carrierPeerID ++ "\x00" ++ c.candidateOpportunityBase carrierPeerID plan.tuple

/-- The move was not tried, or only with a larger change of the endpoints. -/
def sfuBootstrapOpportunityAvailable (carrierPeerID : ID) (plan : CandidatePlan) : Bool :=
  match c.consumedSfuBootstrapOpportunities.get (c.sfuBootstrapOpportunityBase carrierPeerID plan) with
  | none => true
  | some consumed => endpointTransitionRank plan.endpointTransition < consumed

/-- The move counts as tried. -/
def consumeSfuBootstrapOpportunity (carrierPeerID : ID) (plan : CandidatePlan) : Controller :=
  { c with
    consumedSfuBootstrapOpportunities := consumeOpportunity c.consumedSfuBootstrapOpportunities
      (c.sfuBootstrapOpportunityBase carrierPeerID plan)
      (endpointTransitionRank plan.endpointTransition) }

/-- A usable direct child of the Host that can create a publication. -/
def carrierEligible (peerID : ID) : Bool :=
  match c.participant peerID, c.edge peerID,
      c.planCandidate peerID { kind := .sfu, publication := .create } with
  | some current, some e, some plan => current.sessionID ≠ "" && e.kind == .peer &&
      e.transport == .direct && e.usable && e.physicalActive && c.candidateValid peerID plan none &&
      plan.endpointTransition.kind ≠ .boundedGap && c.sfuBootstrapOpportunityAvailable peerID plan
  | _, _, _ => false

/-- The eligible carriers, newest first. -/
def sfuBootstrapCarriers : List ID :=
  ((c.childrenOf c.hostPeerID).filter c.carrierEligible).sortStable fun left right =>
    c.peerLess right left

/-- The viewers that can be moved without anybody losing the picture. -/
def safeSfuBootstrapCarriers (demandPeerID : ID) : List ID :=
  if c.sfuBootstrapNeeded demandPeerID then c.sfuBootstrapCarriers else []

/-- Somebody can be moved. -/
def bootstrapCandidateAvailable (demandPeerID : ID) : Bool :=
  !(c.safeSfuBootstrapCarriers demandPeerID).isEmpty

/-- The sticky intent is revalidated on every access, and otherwise re-derived
    from the first exhausted viewer. -/
def currentSfuBootstrapIntent : Option SfuBootstrapIntent × Controller :=
  let kept := match c.sfuBootstrapIntent with
    | none => none
    | some current =>
      if c.sfuBootstrapNeeded current.demandPeerID && (match c.participant current.demandPeerID with
          | some demand => demand.sessionIs current.demandSessionID
          | none => false) &&
          !(c.safeSfuBootstrapCarriers current.demandPeerID).isEmpty
      then some current else none
  match kept with
  | some current => (some current, c)
  | none =>
    let c := { c with sfuBootstrapIntent := none }
    match (c.availableViewers true).find? fun viewer =>
        (c.ledger viewer.peerID).availabilityExhausted && c.sfuBootstrapNeeded viewer.peerID &&
          !(c.safeSfuBootstrapCarriers viewer.peerID).isEmpty with
    | none => (none, c)
    | some viewer =>
      if viewer.sessionID = "" then (none, c)
      else
        let created := { demandPeerID := viewer.peerID, demandSessionID := viewer.sessionID }
        (some created, { c with sfuBootstrapIntent := some created })

/-- The first carrier of the intent that stands. -/
def peekSfuBootstrapCarrier : Option SfuBootstrapCarrier × Controller :=
  match c.currentSfuBootstrapIntent with
  | (none, c) => (none, c)
  | (some intent, c) =>
    ((c.safeSfuBootstrapCarriers intent.demandPeerID).head?.map fun carrierPeerID =>
      { demandPeerID := intent.demandPeerID, demandSessionID := intent.demandSessionID
        carrierPeerID }, c)

/-- There is an intent that stands. -/
def hasSfuBootstrapWork : Bool × Controller :=
  match c.currentSfuBootstrapIntent with
  | (some _, c) => (true, c)
  | (none, c) =>
    ((c.availableViewers true).any fun viewer =>
      (c.ledger viewer.peerID).availabilityExhausted && c.sfuBootstrapNeeded viewer.peerID &&
        (!(c.safeSfuBootstrapCarriers viewer.peerID).isEmpty ||
          !(c.ledger viewer.peerID).bootstrapFailureReported), c)

/-- In `availableViewers` order. -/
def reportSfuBootstrapFailures (nowMs : Int) : List ID × Controller :=
  (c.availableViewers true).foldl (fun (failed, c) demand =>
    let l := c.ledger demand.peerID
    if !l.availabilityExhausted || !c.sfuBootstrapNeeded demand.peerID ||
        c.usableRoute demand.peerID || l.bootstrapFailureReported then (failed, c)
    else
      let c := c.updateLedger demand.peerID fun l => { l with bootstrapFailureReported := true }
      (failed ++ [demand.peerID],
        c.finishTiming demand.peerID nowMs .failed .candidateFailed false)) (([] : List ID), c)

/-- The carrier, and the demands reported as failed when there is none. -/
def takeSfuBootstrapCarrier (nowMs : Int) : Option SfuBootstrapCarrier × List ID × Controller :=
  if !c.sfuBootstrapGloballyNeeded then (none, [], c)
  else match c.peekSfuBootstrapCarrier with
    | (some carrier, c) => (some carrier, [], c)
    | (none, c) =>
      let (failed, c) := { c with sfuBootstrapIntent := none }.reportSfuBootstrapFailures nowMs
      (none, failed, c)

/-- A bootstrap operation evaporates with its intent. -/
def bootstrapOperationOwned (op : Operation) : Bool :=
  op.reason ≠ .sfuBootstrap ||
    match c.sfuBootstrapIntent with
    | none => false
    | some intent => intent.demandPeerID == op.demandPeerID &&
        intent.demandSessionID == op.demandSessionID && c.sfuBootstrapNeeded op.demandPeerID &&
        (c.safeSfuBootstrapCarriers op.demandPeerID).contains op.childPeerID

/-- Charge both ledgers of a carrier with the attempted plan. -/
def consumeCarrierAttempt (carrierPeerID : ID) (plan : Option CandidatePlan) : Controller :=
  match plan with
  | none => c
  | some plan =>
    (c.consumeSfuBootstrapOpportunity carrierPeerID plan).consumeCandidateOpportunity carrierPeerID plan

/-- Consume the carrier's attempt; the demand fails once no carrier is left. -/
def completeSfuBootstrapCarrier (carrierPeerID : ID) (nowMs : Int) (bucket : RejectionBucket)
    (attemptedPlan : Option CandidatePlan) : Option ID × Controller :=
  match c.sfuBootstrapIntent with
  | none => (none, c)
  | some intent =>
    let c := c.consumeCarrierAttempt carrierPeerID (attemptedPlan <|>
      c.planCandidate carrierPeerID { kind := .sfu, publication := .create })
    if !(c.safeSfuBootstrapCarriers intent.demandPeerID).isEmpty then (none, c)
    else
      let c := c.updateLedger intent.demandPeerID fun l => { l with availabilityExhausted := true }
      let c := c.finishTiming intent.demandPeerID nowMs .failed bucket false
      let c := c.updateLedger intent.demandPeerID fun l =>
        { l with bootstrapFailureReported := true }
      (some intent.demandPeerID, { c with sfuBootstrapIntent := none })

/-- Nobody can be moved for the viewer: that is noted, and the intent is over. -/
def rememberUnavailableSfuBootstrap (demandPeerID : ID) : Controller :=
  if !c.sfuBootstrapNeeded demandPeerID then c
  else if c.sessionOf demandPeerID = "" then c
  else
    let c := c.updateLedger demandPeerID fun l => { l with bootstrapFailureReported := true }
    { c with sfuBootstrapIntent := none }

/-- The demand of an operation becomes the intent. -/
def stageSfuBootstrap (op : Operation) : Controller :=
  match c.participant op.demandPeerID with
  | none => c
  | some demand =>
    if demand.sessionID = "" || !c.sfuBootstrapNeeded demand.peerID ||
        (c.safeSfuBootstrapCarriers demand.peerID).isEmpty then c
    else
      let intent := { demandPeerID := demand.peerID, demandSessionID := demand.sessionID }
      { c with sfuBootstrapIntent := some intent }

/-- The viewer needs no publication any more. -/
def clearSfuBootstrapForDemand (demandPeerID : ID) : Controller :=
  let c := c.updateLedger demandPeerID fun l => { l with sfuFirstAtNextRoute := false }
  match c.sfuBootstrapIntent with
  | some intent => if intent.demandPeerID = demandPeerID then { c with sfuBootstrapIntent := none }
      else c
  | none => c

/-! ## Root convergence -/

/-- The move of a viewer from one child of the host to another. -/
structure RootConvergence where
  donorPeerID : ID
  childPeerID : ID
  plan : CandidatePlan

/-- The busiest other Host root donates its newest active direct child to the
    fresh root. -/
def rootConvergencePlan (rootPeerID : ID) : Option RootConvergence :=
  match c.participant rootPeerID with
  | none => none
  | some root =>
    if root.sessionID = "" || root.departureConfirmed || !c.isActiveHostRoot rootPeerID ||
        !(c.activeDirectChildren rootPeerID).isEmpty then none
    else
      let donors := ((c.childrenOf c.hostPeerID).filter fun peerID =>
        peerID ≠ rootPeerID && c.isActiveHostRoot peerID &&
          (c.activeDirectChildren peerID).length ≥ 2).sortStable fun left right =>
        let d : Int := (c.activeDirectChildren right).length - (c.activeDirectChildren left).length
        if d ≠ 0 then d < 0 else c.peerLess left right
      match donors with
      | [] => none
      | donorPeerID :: _ =>
        match (c.activeDirectChildren donorPeerID).sortStable fun left right => c.peerLess right left with
        | [] => none
        | childPeerID :: _ =>
          match c.planCandidate childPeerID
              { kind := .peer, parentPeerID := rootPeerID, transport := .direct } with
          | none => none
          | some plan =>
            if plan.endpointTransition.kind ≠ .boundedGap && c.candidateValid childPeerID plan none
            then some { donorPeerID, childPeerID, plan } else none

/-- A child newly became a direct child of the Host. -/
def stageRootConvergence (rootPeerID : ID) : Controller :=
  if !c.qualityConvergenceEnabled || (c.rootConvergencePlan rootPeerID).isNone then c
  else { c with rootConvergenceRootPeerID := rootPeerID }

/-- Consume the intent by clearing it. -/
def takeRootConvergenceIntent : Option RootConvergence × Controller :=
  let rootPeerID := c.rootConvergenceRootPeerID
  let c := { c with rootConvergenceRootPeerID := "" }
  if rootPeerID = "" || !c.qualityConvergenceEnabled then (none, c)
  else (c.rootConvergencePlan rootPeerID, c)

/-- The reason that a convergence was begun for still holds. -/
def rootConvergenceOperationStillEligible (op : Operation) : Bool :=
  op.reason ≠ .rootConvergence ||
    match op.currentTuple, c.edge op.childPeerID with
    | some tuple, some current => tuple.kind == .peer && current.kind == .peer && current.usable &&
        current.physicalActive && current.parentPeerID ≠ tuple.parentPeerID &&
        c.isActiveHostRoot tuple.parentPeerID && c.isActiveHostRoot current.parentPeerID &&
        (c.activeDirectChildren tuple.parentPeerID).isEmpty &&
        (c.activeDirectChildren current.parentPeerID).length ≥ 2
    | _, _ => false

/-! ## Direct continuations -/

/-- Keep the first occurrence of each value. -/
def dedupeStrings : List ID → List ID
  | [] => []
  | a :: l => a :: (dedupeStrings l).filter (· ≠ a)

/-- No direct candidate waits for the viewer. -/
def deleteContinuation (peerID : ID) : Controller :=
  { c with directContinuations := c.directContinuations.delete peerID }

@[simp] theorem deleteContinuation_toCore (p : ID) : (c.deleteContinuation p).toCore =
    { c.toCore with directContinuations := c.directContinuations.delete p } := rfl

/-- The parents still to be retried for a child. -/
def retainedParents (peerID : ID) : List ID :=
  match c.directContinuations.get peerID with
  | some d => d.parentPeerIDs
  | none => []

/-- Restore newly available session opportunities behind a healthy SFU edge. -/
def restoreDirectContinuation (peerID : ID) : Controller :=
  match c.participant peerID, c.edge peerID with
  | some child, some e =>
    if child.sessionID = "" || !c.allowsIncoming peerID .peer || e.kind ≠ .sfu || !e.usable ||
        !e.physicalActive || !c.usableRoute peerID then c
    else
      let parents := c.retainedParents peerID ++ ((c.buildCandidates peerID false).filter fun plan =>
        plan.tuple.kind == .peer && plan.endpointTransition.kind ≠ .boundedGap).map
          fun plan => plan.tuple.parentPeerID
      if parents.isEmpty then c
      else
        let continuation : DirectContinuation :=
          { childSessionID := child.sessionID, sfuConnectionID := e.connectionID
            publicationGeneration := e.publicationGeneration, parentPeerIDs := dedupeStrings parents }
        { c with directContinuations := c.directContinuations.set peerID continuation }
  | _, _ => c

/-- The continuation still describes the child's healthy SFU edge. -/
def continuationCurrent (childPeerID : ID) (continuation : DirectContinuation) : Bool :=
  match c.participant childPeerID, c.edge childPeerID with
  | some child, some e => child.sessionID ≠ "" && !child.departureConfirmed &&
      child.sessionIs continuation.childSessionID && e.kind == .sfu && e.usable &&
      e.physicalActive && e.connectionID == continuation.sfuConnectionID &&
      e.publicationGeneration == continuation.publicationGeneration &&
      c.publicationServes continuation.publicationGeneration
  | _, _ => false

/-- The first valid parent of one continuation, in retry order. -/
def continuationPlan (childPeerID : ID) (continuation : DirectContinuation) :
    Option CandidatePlan :=
  let parents := continuation.parentPeerIDs.sortStable fun left right =>
    c.peerAttemptsStarted childPeerID left < c.peerAttemptsStarted childPeerID right
  parents.findSome? fun parentPeerID =>
    match c.planCandidate childPeerID { kind := .peer, parentPeerID, transport := .direct } with
    | none => none
    | some plan =>
      if plan.endpointTransition.kind ≠ .boundedGap && c.candidateValid childPeerID plan none &&
          (!c.natPredictionEnabled || c.candidateOpportunityAvailable childPeerID plan)
      then some plan else none

/-- The first continuation that can go on; the ones that cannot are dropped. -/
def selectContinuationLoop :
    List (ID × DirectContinuation) → Controller → Option (ID × CandidatePlan) × Controller
  | [], c => (none, c)
  | (childPeerID, continuation) :: rest, c =>
    if !c.continuationCurrent childPeerID continuation then
      selectContinuationLoop rest (c.deleteContinuation childPeerID)
    else match c.continuationPlan childPeerID continuation with
      | some plan => (some (childPeerID, plan), c)
      | none => selectContinuationLoop rest
          (if continuation.parentPeerIDs.isEmpty then c.deleteContinuation childPeerID else c)

/-- A stable sort over the round-robin order, then the first valid parent. -/
def selectDirectContinuation : Option (ID × CandidatePlan) × Controller :=
  selectContinuationLoop (c.directContinuations.entries.sortStable fun left right =>
    c.viewerAttemptsStarted left.1 < c.viewerAttemptsStarted right.1) c

/-- The retry order without the tried parent, which is appended again while NAT
    attempts remain. -/
def parentsAfter (op : Operation) (parentPeerIDs : List ID) (tried : ID) : List ID :=
  let retry := match op.current, op.planAt op.cursor with
    | some att, some plan =>
      att.connectionAttempt.isSome && c.candidateOpportunityAvailable op.childPeerID plan
    | _, _ => false
  let remaining := parentPeerIDs.erase tried
  if retry then remaining ++ [tried] else remaining

/-- Consume the tried parent and give the next continuation a turn. -/
def consumeDirectContinuationCandidate (op : Operation) : Controller :=
  match op.currentTuple, c.directContinuations.get op.childPeerID with
  | some tuple, some continuation =>
    if op.reason ≠ .directConvergence || tuple.kind ≠ .peer ||
        !continuation.parentPeerIDs.contains tuple.parentPeerID then c
    else
      let remaining := c.parentsAfter op continuation.parentPeerIDs tuple.parentPeerID
      if remaining.isEmpty then c.deleteContinuation op.childPeerID
      else
        let continuation := { continuation with parentPeerIDs := remaining }
        { c with
          directContinuations := c.directContinuations.moveToBack op.childPeerID continuation }
  | _, _ => c

/-! ## The core is left alone -/

@[simp] theorem currentSfuBootstrapIntent_toCore :
    c.currentSfuBootstrapIntent.2.toCore = c.toCore := by
  unfold currentSfuBootstrapIntent
  dsimp only
  generalize (match c.sfuBootstrapIntent with | none => none | some _ => _) = kept
  cases kept with
  | some _ => rfl
  | none =>
    dsimp only
    split
    · rfl
    · split <;> rfl

@[simp] theorem hasSfuBootstrapWork_toCore : c.hasSfuBootstrapWork.2.toCore = c.toCore := by
  have h := c.currentSfuBootstrapIntent_toCore
  unfold hasSfuBootstrapWork
  split <;> simp_all

@[simp] theorem peekSfuBootstrapCarrier_toCore : c.peekSfuBootstrapCarrier.2.toCore = c.toCore := by
  have h := c.currentSfuBootstrapIntent_toCore
  unfold peekSfuBootstrapCarrier
  split <;> simp_all

/-- A fold with an accumulator keeps the core if every step does. -/
theorem foldl_snd_toCore {α β : Type} {f : β × Controller → α → β × Controller}
    (h : ∀ s a, (f s a).2.toCore = s.2.toCore) (l : List α) (s : β × Controller) :
    (l.foldl f s).2.toCore = s.2.toCore := by
  induction l generalizing s with
  | nil => rfl
  | cons a l ih => exact (ih _).trans (h s a)

@[simp] theorem reportSfuBootstrapFailures_toCore (now : Int) :
    (c.reportSfuBootstrapFailures now).2.toCore = c.toCore := by
  unfold reportSfuBootstrapFailures
  refine foldl_snd_toCore (fun s a => ?_) _ _
  dsimp only
  split <;> simp

@[simp] theorem takeSfuBootstrapCarrier_toCore (now : Int) :
    (c.takeSfuBootstrapCarrier now).2.2.toCore = c.toCore := by
  have h := c.peekSfuBootstrapCarrier_toCore
  unfold takeSfuBootstrapCarrier
  split
  · rfl
  · split <;> simp_all

@[simp] theorem consumeCarrierAttempt_toCore (p : ID) (plan : Option CandidatePlan) :
    (c.consumeCarrierAttempt p plan).toCore = c.toCore := by
  unfold consumeCarrierAttempt
  split <;> simp [consumeSfuBootstrapOpportunity]

@[simp] theorem completeSfuBootstrapCarrier_toCore (p : ID) (now : Int) (b : RejectionBucket)
    (plan : Option CandidatePlan) :
    (c.completeSfuBootstrapCarrier p now b plan).2.toCore = c.toCore := by
  unfold completeSfuBootstrapCarrier
  split
  · rfl
  · dsimp only
    split <;> simp

@[simp] theorem rememberUnavailableSfuBootstrap_toCore (p : ID) :
    (c.rememberUnavailableSfuBootstrap p).toCore = c.toCore := by
  unfold rememberUnavailableSfuBootstrap
  split_ifs <;> simp

@[simp] theorem stageSfuBootstrap_toCore (op : Operation) :
    (c.stageSfuBootstrap op).toCore = c.toCore := by
  unfold stageSfuBootstrap
  split
  · rfl
  · split <;> rfl

@[simp] theorem clearSfuBootstrapForDemand_toCore (p : ID) :
    (c.clearSfuBootstrapForDemand p).toCore = c.toCore := by
  unfold clearSfuBootstrapForDemand
  dsimp only
  split
  · split <;> simp
  · simp

@[simp] theorem stageRootConvergence_toCore (p : ID) :
    (c.stageRootConvergence p).toCore = c.toCore := by
  unfold stageRootConvergence
  split <;> rfl

@[simp] theorem takeRootConvergenceIntent_toCore :
    c.takeRootConvergenceIntent.2.toCore = c.toCore := by
  unfold takeRootConvergenceIntent
  dsimp only
  split <;> rfl

end Controller

end Piik.Route
