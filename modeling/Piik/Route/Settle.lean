/-
  The guarded calls on a candidate (`route/operation.go`): begin, skip, retire
  its producer, and settle it by evidence or failure.

  `commitReservation` is the caller's: it is asked once before a commit and may
  change the caller's own state `σ`.
-/
import Piik.Route.Operation

namespace Piik.Route

namespace Controller

variable (c : Controller)

/-! ## Beginning a candidate -/

/-- The kind of reservation that a tuple takes. -/
def expectedKind (tuple : CandidateTuple) : ReservationKind :=
  match tuple.kind with
  | .peer => .direct
  | .sfu => if tuple.publication == .reuse then .sfuReuse else .sfuCreate

/-- `assertReservation`: the reservation's kind follows from the tuple, and an
    overlap transition needs an overlap. -/
def assertReservation (tuple : CandidateTuple) (reservation : CandidateReservation)
    (overlap : Bool) : Option Fault :=
  if reservation.kind ≠ expectedKind tuple then some .reservationKindMismatch
  else if overlap && reservation.overlap.isNone then some .overlapRequired
  else none

/-- The generation an SFU attempt will carry. -/
def attemptGeneration (tuple : CandidateTuple) (input : BeginInput) : ID :=
  match tuple.kind with
  | .peer => ""
  | .sfu => if tuple.publication == .reuse then (match c.hostPublication with
      | some p => p.generation
      | none => "")
    else input.publicationGeneration

/-- The panics of `beginCurrentCandidate`. -/
def beginFault (plan : CandidatePlan) (input : BeginInput) : Option Fault :=
  assertReservation plan.tuple input.reservation (plan.endpointTransition.kind == .overlap) <|>
    (if plan.tuple.kind == .sfu && c.attemptGeneration plan.tuple input = "" then
      some .generationRequired else none) <|>
    (if plan.tuple.kind == .sfu && plan.tuple.publication ≠ .reuse &&
        input.publicationConnectionID = "" then some .ingressRequired else none)

/-- The attempt that `beginCurrentCandidate` makes live. -/
def newAttempt (op : Operation) (plan : CandidatePlan) (input : BeginInput) (revision : Int) :
    Attempt :=
  { tuple := plan.tuple, revision, connectionID := input.connectionID
    childSessionID := op.childSessionID
    parentSessionID := if plan.tuple.kind == .peer then c.sessionOf plan.tuple.parentPeerID else ""
    hostSessionID := if plan.tuple.kind == .sfu then input.hostSessionID else ""
    publicationGeneration := c.attemptGeneration plan.tuple input
    publicationConnectionID := input.publicationConnectionID
    reservation := input.reservation, startedAtMs := input.nowMs
    connectionAttempt := c.startCandidateOpportunity op plan }

/-- A rejection echoes the reservation back. -/
def rejectBegin (checked : Validation) (input : BeginInput) (operation : Option Operation) :
    BeginResult :=
  { operation, failedPeerIDs := failedPeerIDsFrom [checked]
    released := checked.released ++ reservationResources input.reservation }

/-- Start the candidate at the guarded cursor with the caller's reservation.
    The committed revision does not move. -/
def beginCurrentCandidate (input : BeginInput) : BeginResult × Controller :=
  let (checked, c) := c.validateOrAdvance input.nowMs none
  match c.operation with
  | none => (rejectBegin checked input none, c)
  | some op =>
    if op.current.isSome || op.baseRevision ≠ c.revision || !op.cursorGuardMatches input.guard then
      (rejectBegin checked input none, c)
    else if op.reason = .publicationAttach then c.beginPublicationAttach input op checked
    else match op.planAt op.cursor with
      | none => (rejectBegin checked input none, c)
      | some plan =>
        if !c.operationCandidateValid op plan none then (rejectBegin checked input none, c)
        else if plan.endpointTransition.kind = .boundedGap then
          (rejectBegin checked input (some op), c)
        else if plan.tuple.kind == .sfu &&
            (input.hostSessionID = "" || input.hostSessionID ≠ c.sessionOf c.hostPeerID) then
          (rejectBegin checked input (some op), c)
        else match c.beginFault plan input with
          | some f => (rejectBegin checked input none, c.raise f)
          | none =>
            let c := { c with toCore := c.allocateRevision }
            let att := c.newAttempt op plan input c.latest
            let op := { op with
              current := some att
              peerAttemptStarted := op.peerAttemptStarted || att.connectionAttempt.isSome }
            let c := { c with operation := some op }.startCandidateTiming op.demandPeerID input.nowMs
            ({ accepted := true, operation := some op, failedPeerIDs := failedPeerIDsFrom [checked]
               released := checked.released }, c)

/-! ## Passing over a candidate -/

/-- Record a rejection bucket for the guarded cursor while no attempt is live. -/
def noteCurrentCandidateRejection (guard : CandidateCursorGuard) (bucket : RejectionBucket) :
    Bool × Controller :=
  match c.operation with
  | none => (false, c)
  | some op =>
    if op.current.isSome || !op.cursorGuardMatches guard then (false, c)
    else (true, c.noteRejection op.demandPeerID bucket)

/-- Consume the candidate at the cursor and move on. -/
def passCandidate (op : Operation) (nowMs : Int) (bucket : RejectionBucket) : Controller :=
  let c : Controller := if bucket = .candidateFailed then
      let c : Controller := match op.planAt op.cursor with
        | some plan => if isAvailabilityOperation op.reason || op.reason == .directConvergence then
            c.consumeCandidateOpportunity op.childPeerID plan else c
        | none => c
      c.promoteNextDirectWithinHeadStart op nowMs
    else c
  let c := c.consumeQualityCandidateOpportunity op (op.planAt op.cursor)
  let c := c.consumeDirectContinuationCandidate op
  let c := c.noteRejection op.demandPeerID bucket
  let c := c.modifyOperation fun op => { op with cursor := op.cursor + 1 }
  c.clearCandidateTiming op.demandPeerID

/-- Consume the guarded candidate, recording the caller's reason. -/
def skipCurrentCandidate (guard : CandidateCursorGuard) (nowMs : Int) (bucket : RejectionBucket) :
    BeginResult × Controller :=
  let (checked, c) := c.validateOrAdvance nowMs none
  let rejected : BeginResult :=
    { failedPeerIDs := failedPeerIDsFrom [checked], released := checked.released }
  match c.operation with
  | none => (rejected, c)
  | some op =>
    if op.current.isSome || !op.cursorGuardMatches guard then (rejected, c)
    else if op.reason = .publicationAttach then
      let (failedPeerIDs, c) := c.failPublicationAttach op
      ({ accepted := true, failedPeerIDs, released := checked.released }, c)
    else
      let (advanced, c) := (c.passCandidate op nowMs bucket).validateOrAdvance nowMs none
      ({ accepted := true, operation := c.operation
         failedPeerIDs := failedPeerIDsFrom [checked, advanced]
         released := checked.released ++ advanced.released }, c)

/-! ## The bounded gap -/

/-- The edge still is the one whose retirement was planned. -/
def retirementEdge (retire : EndpointRetirement) : Option CommittedEdge :=
  match c.edge retire.childPeerID with
  | none => none
  | some e => if e.kind == .peer && e.physicalActive && e.childSessionID == retire.childSessionID &&
      e.parentPeerID == retire.parentPeerID && e.parentSessionID == retire.parentSessionID &&
      e.transport == retire.transport && e.connectionID == retire.connectionID
    then some e else none

/-- The publication still is the one whose retirement was planned. -/
def retirementPublication (retire : EndpointRetirement) : Bool :=
  match c.hostPublication with
  | none => false
  | some p => p.physicalActive && p.hostSessionID == retire.hostSessionID &&
      p.generation == retire.generation && p.connectionID == retire.connectionID

/-- Retire the producer's old copy: what is restored as a candidate, what is
    released, and the new state; nothing when the guard does not hold. -/
def retireProducer (retire : EndpointRetirement) :
    Option (Option CandidateTuple × List Resource × Controller) :=
  match retire.kind with
  | .edge => (c.retirementEdge retire).map fun e =>
      let restore : CandidateTuple :=
        { kind := .peer, parentPeerID := e.parentPeerID, transport := e.transport }
      (if e.usable then some restore else none, [], c.deactivateEdge retire.childPeerID)
  | .publication => if c.retirementPublication retire then
      let (released, c) := c.removePublicationGeneration retire.generation
      some (none, released, c) else none

/-- The tuple whose producer is free now. -/
def nextTuple (plan : CandidatePlan) (retire : EndpointRetirement) : CandidateTuple :=
  if retire.kind = .publication ∧ plan.tuple.kind = .sfu ∧ plan.tuple.publication = .replace then
    { plan.tuple with publication := .create }
  else plan.tuple

/-- The operation has no candidate left. -/
def candidatesSpent : Bool :=
  match c.operation with
  | some op => op.candidates.length ≤ op.cursor
  | none => false

/-- Retire the producer of a bounded-gap candidate, advance the revision and
    replan the tail. -/
def retireCurrentCandidateProducer (guard : CandidateCursorGuard) (nowMs : Int) :
    BeginResult × Controller :=
  let (checked, c) := c.validateOrAdvance nowMs none
  let rejected (operation : Option Operation) : BeginResult :=
    { operation, failedPeerIDs := failedPeerIDsFrom [checked], released := checked.released }
  match c.operation with
  | none => (rejected none, c)
  | some op =>
    if op.current.isSome || !op.cursorGuardMatches guard then (rejected none, c)
    else match op.planAt op.cursor with
      | none => (rejected (some op), c)
      | some plan =>
        if plan.endpointTransition.kind ≠ .boundedGap then (rejected (some op), c)
        else match plan.endpointTransition.retire with
          | none => (rejected (some op), c.raise .nilDereference)
          | some retire =>
            match c.retireProducer retire with
            | none => (rejected (some op), c)
            | some (restoreTuple, retired, c) =>
              let c := (c.advanceActiveRevision op).touchFacts
              let c := c.replanRemaining (some (nextTuple plan retire)) restoreTuple
              if c.candidatesSpent then
                let (advanced, c) := c.validateOrAdvance nowMs none
                ({ accepted := true, operation := c.operation
                   failedPeerIDs := failedPeerIDsFrom [checked, advanced]
                   released := checked.released ++ retired ++ advanced.released }, c)
              else
                ({ accepted := true, operation := c.operation
                   failedPeerIDs := failedPeerIDsFrom [checked]
                   released := checked.released ++ retired }, c)

/-! ## Committing -/

end Controller

namespace Core

variable (c : Core)

/-- The session of the host. -/
def hostSessionID : ID := c.sessionOf c.hostPeerID

/-- The edge a peer attempt becomes. -/
def committedPeerEdge (op : Operation) (att : Attempt) (parentSessionID : ID) : CommittedEdge :=
  let carriesVideo := c.roomMedia && op.videoGeneration ≠ ""
  { kind := .peer, childSessionID := op.childSessionID, parentPeerID := att.tuple.parentPeerID
    parentSessionID, transport := .direct, connectionID := att.connectionID
    usable := true, physicalActive := true
    videoGeneration := if carriesVideo then op.videoGeneration else ""
    videoConnectionID := if carriesVideo then att.connectionID else ""
    videoReady := !c.roomMedia || op.videoGeneration ≠ ""
    opportunityKey := c.candidateOpportunityBase op.childPeerID
      { kind := .peer, parentPeerID := att.tuple.parentPeerID } }

/-- The edge an SFU attempt becomes. -/
def committedSfuEdge (op : Operation) (att : Attempt) : CommittedEdge :=
  let carriesVideo := c.roomMedia && op.videoGeneration ≠ ""
  { kind := .sfu, childSessionID := op.childSessionID
    publicationGeneration := att.publicationGeneration, transport := .sfu
    connectionID := att.connectionID, usable := true, physicalActive := true
    videoGeneration := if carriesVideo then op.videoGeneration else ""
    videoConnectionID := if carriesVideo then att.connectionID else ""
    videoReady := !c.roomMedia || op.videoGeneration ≠ "", resource := att.reservation.edge
    opportunityKey := c.candidateOpportunityBase op.childPeerID att.tuple }

/-- The graph with another upstream of a viewer. -/
def setEdge (peerID : ID) (e : CommittedEdge) : Core :=
  { c with upstreamByViewer := c.upstreamByViewer.set peerID e }

/-- Install a peer attempt as the child's edge, in the child's place. -/
def installPeer (op : Operation) (att : Attempt) : Core :=
  match c.participant att.tuple.parentPeerID with
  | none => c.raise .parentSessionUnavailable
  | some parent =>
    if parent.sessionID = "" then c.raise .parentSessionUnavailable
    else c.setEdge op.childPeerID (c.committedPeerEdge op att parent.sessionID)

/-- The ingress of an SFU attempt. -/
def newPublication (att : Attempt) : HostPublication :=
  { generation := att.publicationGeneration, hostSessionID := c.hostSessionID
    connectionID := att.publicationConnectionID, usable := true, physicalActive := true
    resource := att.reservation.publication }

/-- Make the attempt's ingress the publication, unless it is reused. -/
def installPublication (att : Attempt) : Core :=
  if att.tuple.publication = .reuse then c
  else if c.hostSessionID = "" || att.publicationConnectionID = "" then c.raise .publicationIdentity
  else if att.hostSessionID ≠ c.hostSessionID then c.raise .publicationHostStale
  else { c with hostPublication := some (c.newPublication att) }

/-- Install an SFU attempt as the child's edge, behind its publication. -/
def installSfu (op : Operation) (att : Attempt) : Core :=
  let c := c.installPublication att
  c.setEdge op.childPeerID (c.committedSfuEdge op att)

/-- The edge of an attempt, in the graph. -/
def install (op : Operation) (att : Attempt) : Core :=
  if att.tuple.kind = .peer then c.installPeer op att else c.installSfu op att

/-- The attempt's revision is the committed one now, and the operation is over. -/
def publish (att : Attempt) : Core :=
  { c with revision := att.revision, operation := none }.pruneRetiringSfuAnchors

/-- Drop the publication that lost its last subscriber to the commit. -/
def dropReplacedPublication (old : Option CommittedEdge) : Core :=
  match old with
  | some e => if e.kind = .sfu ∧ !c.hasSfuSubscribers then { c with hostPublication := none } else c
  | none => c

end Core

namespace Controller

variable (c : Controller)

/-- The direct parents still to be retried behind the committed SFU edge. -/
def remainingParents (op : Operation) (old : Option CommittedEdge) : List ID :=
  let bootstrapParent : Option ID := match old with
    | some e => if op.reason == .sfuBootstrap && e.kind == .peer && e.usable && e.physicalActive then
        some e.parentPeerID else none
    | none => none
  match bootstrapParent with
  | some parent => [parent]
  | none =>
    if op.reason = .directConvergence then []
    else
      let start := if c.natPredictionEnabled then 0 else op.cursor + 1
      let untried := (op.candidates.drop start).filter fun plan =>
        plan.tuple.kind == .peer &&
          (!c.natPredictionEnabled || c.candidateOpportunityAvailable op.childPeerID plan)
      untried.map (fun plan => plan.tuple.parentPeerID) ++ op.deferredParentPeerIDs

/-- The parents to be retried behind the child's new edge. -/
def installContinuation (op : Operation) (att : Attempt) (old : Option CommittedEdge) : Controller :=
  let parents := if att.tuple.kind = .peer then [] else c.remainingParents op old
  if parents.isEmpty || !c.allowsIncoming op.childPeerID .peer then c.deleteContinuation op.childPeerID
  else
    let continuation : DirectContinuation :=
      { childSessionID := op.childSessionID, sfuConnectionID := att.connectionID
        publicationGeneration := att.publicationGeneration, parentPeerIDs := dedupeStrings parents }
    { c with directContinuations := c.directContinuations.set op.childPeerID continuation }

/-- New sender baselines for the producers the commit touches, and the latch of
    a same-edge regeneration. -/
def rebaseline (op : Operation) (att : Attempt) (old : Option CommittedEdge) : Controller :=
  let oldParent := match old with
    | some e => if e.kind == .peer then some e.parentPeerID else none
    | none => none
  let sameParentRegeneration := op.reason == .qualityConvergence && att.tuple.kind == .peer &&
    att.tuple.regenerate && oldParent == some att.tuple.parentPeerID
  let producer := if att.tuple.kind == .peer then att.tuple.parentPeerID else c.hostPeerID
  let c := (dedupeStrings (oldParent.toList ++ [producer])).foldl
    (fun c producer => c.resetSenderBaselines (c.childrenOf producer)) c
  let c := c.requireSenderQualityBaseline op.childPeerID true
  let rearm := !sameParentRegeneration &&
    (op.reason == .qualityConvergence || op.reason == .rootConvergence)
  let c := { c with senderQualityBaselines := c.senderQualityBaselines.set op.childPeerID rearm }
  let block : SenderQualityIdentity :=
    { childSessionID := op.childSessionID, parentPeerID := att.tuple.parentPeerID
      parentSessionID := att.parentSessionID, connectionID := att.connectionID
      senderIdentity := att.senderQualityIdentity }
  let blocks := if sameParentRegeneration && att.parentSessionID ≠ "" && att.senderQualityIdentity ≠ ""
    then c.senderQualityRegenerationBlocks.set op.childPeerID block
    else c.senderQualityRegenerationBlocks.delete op.childPeerID
  { c with senderQualityRegenerationBlocks := blocks }

/-- The bootstrap ledgers after a commit. -/
def settleBootstrap (op : Operation) (att : Attempt) : Controller :=
  if op.reason == .sfuBootstrap && att.tuple.kind == .sfu then
    let current := match c.participant op.demandPeerID with
      | some demand => demand.sessionIs op.demandSessionID
      | none => false
    let c := if current then
        c.updateLedger op.demandPeerID fun l => { l with sfuFirstAtNextRoute := true }
      else c
    { c with sfuBootstrapIntent := none }
  else if c.usableRoute op.demandPeerID then c.clearSfuBootstrapForDemand op.demandPeerID
  else c

/-- A publication replacement first retires the generation it replaces. -/
def removeReplaced (att : Attempt) : Controller :=
  if att.tuple.kind = .sfu ∧ att.tuple.publication = .replace then
    match c.hostPublication with
    | some p => (c.removePublicationGeneration p.generation).2
    | none => c.raise .nilDereference
  else c

/-- The edge of an attempt, and the continuation of a direct candidate. -/
def installAttempt (op : Operation) (att : Attempt) (old : Option CommittedEdge) : Controller :=
  { c with toCore := c.toCore.install op att }.installContinuation op att old

/-- The attempt's revision becomes the graph's. -/
def publishAttempt (op : Operation) (att : Attempt) (old : Option CommittedEdge) : Controller :=
  { c.rebaseline op att old with toCore := c.toCore.publish att }.touchFacts

/-- A child that newly hangs off the Host is a root to converge on. -/
def convergeCreatedRoot (op : Operation) (att : Attempt) (old : Option CommittedEdge) : Controller :=
  let createsHostRoot := att.tuple.kind == .peer && att.tuple.parentPeerID == c.hostPeerID &&
    !(match old with
      | some e => e.kind == .peer && e.parentPeerID == c.hostPeerID
      | none => false)
  if createsHostRoot then c.stageRootConvergence op.childPeerID else c

/-- Pointer identity. -/
def resourceIn (r : Resource) (l : List Resource) : Bool := l.any fun s => s.ptr == r.ptr

/-- Keep the first occurrence of each pointer. -/
def dedupeResources : List Resource → List Resource
  | [] => []
  | r :: l => r :: (dedupeResources l).filter fun s => s.ptr ≠ r.ptr

/-- Install the attempt as the child's committed edge and return the resources
    committed before but not after, plus the overlap. -/
def commitAttempt (op : Operation) (att : Attempt) : List Resource × Controller :=
  let c := c.settleCandidateOpportunity op
  let before := dedupeResources c.committedResources
  let old := c.edge op.childPeerID
  let c := (c.clearQualityForParticipant op.childPeerID).removeReplaced att
  let c := (c.installAttempt op att old).publishAttempt op att old
  let c := c.convergeCreatedRoot op att old
  let c := c.updateLedger op.childPeerID fun l =>
    { l with availabilityExhausted := false, bootstrapFailureReported := false }
  let c := { c with toCore := c.toCore.dropReplacedPublication old }.settleBootstrap op att
  let c := { c with toCore := c.checkGraph }
  let after := c.committedResources
  ((before.filter fun r => !resourceIn r after) ++ att.reservation.overlap.toList, c)

/-! ## Settling a candidate -/

/-- Before the guarded live attempt is failed: the next direct candidate moves
    up within the head start. -/
def noteFailedCandidate (guard : CandidateGuard) (nowMs : Int) : Controller :=
  match c.operation with
  | none => c
  | some op => match op.current with
    | none => c
    | some att =>
      if op.reason ≠ .publicationAttach && op.guardMatches att guard then
        (c.promoteNextDirectWithinHeadStart op nowMs).noteRejection op.demandPeerID .candidateFailed
      else c

/-- Fail the guarded live attempt, releasing its reservation and advancing the
    cursor; `accepted` reports whether the guard was consumed. -/
def candidateFailed (guard : CandidateGuard) (nowMs : Int) : SettleResult × Controller :=
  let (checked, c) := (c.noteFailedCandidate guard nowMs).validateOrAdvance nowMs (some guard)
  ({ accepted := checked.consumedGuard, failedPeerIDs := failedPeerIDsFrom [checked]
     activeRevision := c.revision, released := checked.released }, c)

/-- What the evidence at hand says about the live candidate. -/
inductive Verdict | fail | wait | commit
  deriving DecidableEq

/-- The report counts still. -/
def fresh (acceptedAtMs : Option Int) (nowMs : Int) : Bool :=
  match acceptedAtMs with
  | some at_ => nowMs < at_ + qualityEvidenceExpiryMs
  | none => false

/-- The proof a convergence candidate needs from its own transport. -/
def nativeVerdict (att : Attempt) (nowMs : Int) : Verdict :=
  let sfuReuse := att.tuple.kind == .sfu && att.tuple.publication == .reuse
  let state := if sfuReuse then c.sfuPublisherQualityState att.publicationGeneration nowMs
    else if att.senderQualityState = .unset then .unknown else att.senderQualityState
  let ready := state == .healthy && (att.tuple.kind ≠ .sfu || att.tuple.publication == .reuse ||
    att.senderQualityConsecutiveHealthyWindows ≥ persistentDegradedWindows)
  if !ready && state ≠ .degraded then .wait
  else if !sfuReuse && !fresh att.senderQualityAcceptedAtMs nowMs then .fail
  else if state = .degraded then .fail
  else .commit

/-- The proof gate of `candidateReady`, after the approval was recorded. -/
def readyVerdict (op : Operation) (att : Attempt) (nowMs : Int) : Verdict :=
  if op.reason == .qualityConvergence && att.tuple.kind == .peer then
    if fresh att.relativeQualityApprovedAtMs nowMs then
      if candidateSenderPersistentlyDegraded att nowMs then .fail
      else if att.senderQualityState ≠ .healthy || !fresh att.senderQualityAcceptedAtMs nowMs then
        .wait
      else .commit
    else if att.relativeQualityApprovedAtMs.isSome then .fail
    else .wait
  else if operationRequiresNativeCandidateProof op then c.nativeVerdict att nowMs
  else .commit

/-- Record the client's approval and the decoded frame on the live attempt. -/
def approveAttempt (op : Operation) (att : Attempt) (nowMs : Int) (proof : CandidateProof) :
    Attempt :=
  let qualityPeer := op.reason == .qualityConvergence && att.tuple.kind == .peer
  let approvedAt := if qualityPeer && proof.relativeQualityApproved &&
      att.relativeQualityApprovedAtMs.isNone then some nowMs else att.relativeQualityApprovedAtMs
  let att := { att with relativeQualityApprovedAtMs := approvedAt }
  let degraded := qualityPeer && fresh approvedAt nowMs &&
    candidateSenderPersistentlyDegraded att nowMs
  if !degraded && (qualityPeer || operationRequiresNativeCandidateProof op) then
    { att with mediaReady := true }
  else att

/-- The SFU children a publication replacement displaces. -/
def displacedSfuChildren (op : Operation) (att : Attempt) : List ID :=
  if att.tuple.kind = .sfu ∧ att.tuple.publication = .replace then
    (c.upstreamByViewer.entries.filter fun e =>
      e.1 ≠ op.childPeerID && e.2.kind == .sfu && e.2.physicalActive).map Prod.fst
  else []

/-- The commit gate's last step: the reservation is committed by the caller. -/
def settleReady {σ : Type} (op : Operation) (att : Attempt) (guard : CandidateGuard) (nowMs : Int)
    (commitReservation : CandidateReservation → σ → Bool × σ) (s : σ) (checked : Validation) :
    SettleResult × σ × Controller :=
  let (committed, s) := commitReservation att.reservation s
  if !committed then
    let c := (c.promoteNextDirectWithinHeadStart op nowMs).noteRejection op.demandPeerID .candidateFailed
    let (failed, c) := c.validateOrAdvance nowMs (some guard)
    ({ failedPeerIDs := failedPeerIDsFrom [checked, failed], activeRevision := c.revision
       released := checked.released ++ failed.released }, s, c)
  else
    let route : FinalRoute := if att.tuple.kind = .peer then .direct else .sfu
    let c := if op.reason ≠ .sfuBootstrap then
        c.finishTiming op.demandPeerID nowMs route .none true else c
    let displaced := c.displacedSfuChildren op att
    let (released, c) := c.commitAttempt op att
    let c := displaced.foldl (fun c child => c.ensureDemand child nowMs .edgeUnavailable) c
    ({ accepted := true, committed := true, failedPeerIDs := failedPeerIDsFrom [checked]
       activeRevision := c.revision, released := checked.released ++ released }, s, c)

/-- The commit gate of the guarded live attempt. -/
def candidateReady {σ : Type} (guard : CandidateGuard) (nowMs : Int)
    (commitReservation : CandidateReservation → σ → Bool × σ) (s : σ) (proof : CandidateProof) :
    SettleResult × σ × Controller :=
  let (checked, c) := c.validateOrAdvance nowMs none
  let failedPeerIDs := failedPeerIDsFrom [checked]
  let rejected (failedPeerIDs : List ID) : SettleResult × σ × Controller :=
    ({ failedPeerIDs, activeRevision := c.revision, released := checked.released }, s, c)
  match c.operation with
  | none => rejected failedPeerIDs
  | some op => match op.current with
    | none => rejected failedPeerIDs
    | some att =>
      if !op.guardMatches att guard then rejected failedPeerIDs
      else if c.roomMedia && op.videoGeneration ≠ "" && proof.videoGeneration ≠ op.videoGeneration then
        rejected []
      else if c.roomMedia && op.videoGeneration == "" && !att.transportConnected then rejected []
      else if op.reason = .publicationAttach then
        let c := c.commitPublicationAttach op att
        ({ accepted := true, committed := true, activeRevision := c.revision
           released := checked.released }, s, c)
      else
        let att := approveAttempt op att nowMs proof
        let op := { op with current := some att }
        let c := { c with operation := some op }
        match c.readyVerdict op att nowMs with
        | .fail =>
          let (result, c) := c.candidateFailed guard nowMs
          (result, s, c)
        | .wait => ({ accepted := true, failedPeerIDs, activeRevision := c.revision
                      released := checked.released }, s, c)
        | .commit => c.settleReady op att guard nowMs commitReservation s checked

/-- Record actual transport establishment. -/
def candidateTransportConnected (guard : CandidateGuard) (nowMs : Int) :
    SettleResult × Controller :=
  let (checked, c) := c.validateOrAdvance nowMs none
  let result : SettleResult := { failedPeerIDs := failedPeerIDsFrom [checked]
                                 activeRevision := c.revision, released := checked.released }
  match c.operation with
  | none => (result, c)
  | some op => match op.current with
    | none => (result, c)
    | some att =>
      if (att.tuple.kind ≠ .peer && !c.roomMedia) || !op.guardMatches att guard then (result, c)
      else
        let att := { att with transportConnected := true }
        ({ result with accepted := true }, { c with operation := some { op with current := some att } })

/-- Apply head-start and deadline expiry. -/
def operationExpired (nowMs : Int) : SettleResult × Controller :=
  let (checked, c) := c.validateOrAdvance nowMs none
  ({ accepted := checked.expired, failedPeerIDs := failedPeerIDsFrom [checked]
     activeRevision := c.revision, released := checked.released }, c)

end Controller

end Piik.Route
