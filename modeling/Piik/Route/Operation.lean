/-
  The operation (`route/operation.go`): one candidate after another, each begun
  with the caller's reservation, proved, and committed or retired.

  `validateOrAdvance` is the single place that expires, replans and clears the
  operation.  Its loop in the source runs its body at most once, since the body
  either returns or clears the operation.
-/
import Piik.Route.Publication

namespace Piik.Route

/-- A nil operation requires no proof. -/
def operationRequiresNativeCandidateProof (op : Operation) : Bool :=
  op.reason == .rootConvergence || (op.reason == .qualityConvergence && match op.current with
    | some att => att.tuple.kind == .sfu
    | none => false)

namespace Controller

variable (c : Controller)

/-! ## The direct head start -/

/-- Half the operation timeout, within 1..5000 ms. -/
def directHeadStartMs : Int := min maxDirectHeadStartMs (max 1 (c.operationTimeoutMs / 2))

/-- When the head start of an operation's direct candidates ends. -/
def directHeadStartDeadlineAt (op : Operation) : Int :=
  op.deadlineAtMs - c.operationTimeoutMs + c.directHeadStartMs

/-- The first SFU candidate at or after the cursor, the candidate count when a
    bootstrap carrier exists, nothing otherwise. -/
def foregroundSfuIndex (op : Operation) : Option ℕ :=
  if isBackgroundConvergence op.reason then none
  else match (op.candidates.drop op.cursor).findIdx? fun plan => plan.tuple.kind == .sfu with
    | some offset => some (op.cursor + offset)
    | none => if c.bootstrapCandidateAvailable op.demandPeerID then some op.candidates.length else none

/-- An SFU candidate, or a bootstrap carrier, comes after the cursor. -/
def sfuIndexAfterCursor (op : Operation) : Option ℕ :=
  match c.foregroundSfuIndex op with
  | some i => if op.cursor < i then some i else none
  | none => none

/-- There is another candidate to go on with. -/
def peerCandidateHasSuccessor (op : Operation) : Bool :=
  op.cursor + 1 < op.candidates.length || (c.sfuIndexAfterCursor op).isSome

/-- While the direct head start lasts, the next direct candidate is tried before
    the SFU candidate that follows the cursor. -/
def promoteNextDirectWithinHeadStart (op : Operation) (nowMs : Int) : Controller :=
  match c.foregroundSfuIndex op with
  | none => c
  | some sfuIndex =>
    if sfuIndex ≠ op.cursor + 1 || nowMs ≥ c.directHeadStartDeadlineAt op then c
    else match (op.candidates.drop (sfuIndex + 1)).findIdx? fun plan => plan.tuple.kind == .peer with
      | none => c
      | some offset =>
        let index := sfuIndex + 1 + offset
        match op.planAt index with
        | none => c
        | some nextDirect => c.modifyOperation fun op =>
            { op with candidates := (op.candidates.eraseIdx index).insertIdx sfuIndex nextDirect }

/-- The transport of the live attempt is established. -/
def transportConnected (op : Operation) : Bool :=
  match op.current with
  | some att => att.transportConnected
  | none => false

/-- Give up the live peer candidate of an expired head start. -/
def retireHeadStart (op : Operation) : List Resource × Controller :=
  match op.current with
  | none => ([], c)
  | some att =>
    let c := c.settleCandidateOpportunity op
    let c := c.noteRejection op.demandPeerID .firstFrameTimeout
    let c := c.consumeCurrentCandidateOpportunity op
    let c := (c.advanceActiveRevision op).modifyOperation fun op => { op with current := none }
    (reservationResources att.reservation, c.clearCandidateTiming op.demandPeerID)

/-- An unconnected peer candidate yields to the SFU candidate once its head
    start is over; the parents in between are deferred. -/
def advanceExpiredDirectHeadStart (op : Operation) (nowMs : Int) :
    Bool × List Resource × Controller :=
  match op.currentTuple, c.sfuIndexAfterCursor op with
  | some tuple, some sfuIndex =>
    if tuple.kind ≠ .peer || transportConnected op || nowMs < c.directHeadStartDeadlineAt op then
      (false, [], c)
    else
      let (released, c) := c.retireHeadStart op
      let passed := (op.candidates.take sfuIndex).drop op.cursor
      let deferred := (passed.filter fun plan => plan.tuple.kind == .peer).map
        fun plan => plan.tuple.parentPeerID
      (true, released, c.modifyOperation fun op => { op with
        deferredParentPeerIDs := op.deferredParentPeerIDs ++ deferred, cursor := sfuIndex })
  | _, _ => (false, [], c)

/-- An unconnected peer candidate, before an SFU candidate or a bootstrap carrier. -/
def headStartPending (op : Operation) : Bool :=
  (match op.currentTuple with
    | some tuple => tuple.kind == .peer
    | none => false) && !transportConnected op && (c.sfuIndexAfterCursor op).isSome

/-- The time of the next expiry, as the operation's snapshot names it. -/
def operationWakeAt (op : Operation) : Int :=
  if op.reason = .publicationAttach then op.deadlineAtMs
  else if c.headStartPending op then c.directHeadStartDeadlineAt op
  else match op.current with
    | none => op.deadlineAtMs
    | some att =>
      if att.tuple.kind == .peer && !att.transportConnected && c.peerCandidateHasSuccessor op then
        min op.deadlineAtMs (att.startedAtMs + c.directHeadStartMs)
      else op.deadlineAtMs

/-! ## Replanning -/

/-- The tuples from the cursor on, the first one forced, the last one restored
    when absent. -/
def remainingTuples (op : Operation) (firstTuple restoreTuple : Option CandidateTuple) :
    List CandidateTuple :=
  let tuples := (op.candidates.drop op.cursor).map CandidatePlan.tuple
  let tuples := match firstTuple with
    | some first => first :: tuples.tail
    | none => tuples
  match restoreTuple with
  | some restore => if tuples.any fun t => tupleKey t == tupleKey restore then tuples
      else tuples ++ [restore]
  | none => tuples

/-- Replan the suffix from the cursor. -/
def replanRemaining (firstTuple restoreTuple : Option CandidateTuple) : Controller :=
  c.modifyOperation fun op =>
    let replanned := (remainingTuples op firstTuple restoreTuple).filterMap fun tuple =>
      match c.planCandidate op.childPeerID tuple with
      | some plan => if c.operationCandidateValid op plan none then some plan else none
      | none => none
    { op with candidates := op.candidates.take op.cursor ++ replanned
              builtAtFactVersion := c.factVersion }

/-- Delete invalid candidates at the cursor until one is valid. -/
def dropInvalidCandidates : ℕ → Controller → Controller
  | 0, c => c
  | n + 1, c =>
    match c.operation with
    | none => c
    | some op => match op.planAt op.cursor with
      | none => c
      | some plan =>
        if c.operationCandidateValid op plan none then c
        else
          let c := (c.noteRejection op.demandPeerID .stale).consumeDirectContinuationCandidate op
          let c := c.modifyOperation fun op =>
            { op with candidates := op.candidates.eraseIdx op.cursor }
          dropInvalidCandidates n (c.clearCandidateTiming op.demandPeerID)

/-! ## Ending the operation -/

/-- The final route of an operation without a successor. -/
def expiredFinalRoute (op : Operation) (backgroundConvergence exhausted : Bool) : FinalRoute :=
  if backgroundConvergence then c.currentFinalRoute op.demandPeerID
  else if exhausted then .failed else .waiting

/-- The owner of the operation is gone: drop it without blame. -/
def dropStaleOperation (op : Operation) (nowMs : Int) (bucket : RejectionBucket) :
    Validation × Controller :=
  let (released, c) := c.retireAttempt op
  let c := c.finishTiming op.demandPeerID nowMs (c.currentFinalRoute op.demandPeerID) bucket false
  ({ released }, { c with operation := none })

/-- Charge the ledgers of an operation that ends without a commit: the bootstrap
    demand that failed with its last carrier, and whether nothing is left for
    the operation's demand. -/
def chargeTerminal (op : Operation) (nowMs : Int) (bucket : RejectionBucket) :
    Option ID × Bool × Controller :=
  let sfuBootstrap := op.reason == .sfuBootstrap
  let backgroundConvergence := isBackgroundConvergence op.reason
  if sfuBootstrap then
    let (failed, c) := c.completeSfuBootstrapCarrier op.childPeerID nowMs bucket op.planAtOrLast
    (failed, failed.isSome, c.consumeAvailabilityOperation op)
  else
    let bootstrapAvailable := !backgroundConvergence && c.bootstrapCandidateAvailable op.demandPeerID
    let c := if bootstrapAvailable then c else c.consumeAvailabilityOperation op
    let exhausted := !backgroundConvergence && !bootstrapAvailable &&
      !c.hasRemainingAvailabilityOpportunity op
    let c := if bootstrapAvailable then c.stageSfuBootstrap op else c
    (none, exhausted, c.finishTiming op.demandPeerID nowMs
      (c.expiredFinalRoute op backgroundConvergence exhausted) bucket false)

/-- Both terminal branches of `validateOrAdvance`: charge the ledgers, clear the
    operation, and report the demand when nothing is left for it. -/
def finishOperation (op : Operation) (nowMs : Int) (bucket : RejectionBucket)
    (revisionAdvanced : Bool) : List ID × List Resource × Controller :=
  let sfuBootstrap := op.reason == .sfuBootstrap
  let block := !isBackgroundConvergence op.reason && !sfuBootstrap
  let (failedBootstrapDemand, exhausted, c) := c.chargeTerminal op nowMs bucket
  let (released, c) := c.blockAndClear op block revisionAdvanced
  let c := if exhausted && !sfuBootstrap then c.rememberUnavailableSfuBootstrap op.demandPeerID else c
  let exhaustedPeerIDs := match failedBootstrapDemand with
    | some demand => [demand]
    | none => if exhausted then [op.demandPeerID] else []
  (exhaustedPeerIDs, released, c)

/-- The deadline passed. -/
def expireOperation (op : Operation) (nowMs : Int) : Validation × Controller :=
  let c := (c.settleCandidateOpportunity op).consumeCurrentCandidateOpportunity op
  let c := c.consumeDirectContinuationCandidate op
  let c := if op.reason = .qualityConvergence then c.consumeQualityOperationCandidates op else c
  let (released, c) := c.retireAttempt op
  let bucket : RejectionBucket :=
    if op.builtAtFactVersion ≠ c.factVersion then .stale else .operationDeadline
  let (exhaustedPeerIDs, more, c) := c.finishOperation op nowMs bucket op.current.isSome
  ({ released := released ++ more, exhaustedPeerIDs, expired := true }, c)

/-- No candidate is left. -/
def exhaustOperation (op : Operation) (nowMs : Int) (revisionAdvanced : Bool) :
    Validation × Controller :=
  let bucket : RejectionBucket :=
    if op.builtAtFactVersion ≠ c.factVersion then .stale
    else match c.routeTimings.get op.demandPeerID with
      | some record => if record.rejectionBucket ≠ .none then record.rejectionBucket else .candidateFailed
      | none => .candidateFailed
  let (exhaustedPeerIDs, released, c) := c.finishOperation op nowMs bucket revisionAdvanced
  ({ released, exhaustedPeerIDs }, c)

/-- The live candidate failed, made no progress, or is no longer valid. -/
def retireCandidate (op : Operation) (guardFailed noProgress : Bool) : Controller :=
  let bucket : RejectionBucket := if noProgress then .firstFrameTimeout else .stale
  let c := if guardFailed then c else c.noteRejection op.demandPeerID bucket
  let c := if guardFailed || noProgress then
      ((c.settleCandidateOpportunity op).consumeCurrentCandidateOpportunity op)
        |>.consumeQualityCandidateOpportunity op (op.planAt op.cursor)
    else c
  let c := c.consumeDirectContinuationCandidate op
  let c := (c.advanceActiveRevision op).modifyOperation fun op =>
    if guardFailed || noProgress then { op with current := none, cursor := op.cursor + 1 }
    else { op with current := none, candidates := op.candidates.eraseIdx op.cursor }
  (c.clearCandidateTiming op.demandPeerID).replanRemaining none none

/-- The candidates from the cursor on, once no attempt is live. -/
def advanceCandidates (nowMs : Int) (revisionAdvanced : Bool) : Validation × Controller :=
  match c.operation with
  | none => ({}, c)
  | some op =>
    let c := dropInvalidCandidates op.candidates.length c
    match c.operation with
    | none => ({}, c)
    | some op =>
      if op.cursor < op.candidates.length then ({}, c) else c.exhaustOperation op nowMs revisionAdvanced

/-- The caller failed this attempt. -/
def guardFailed (op : Operation) (att : Attempt) (failed : Option CandidateGuard) : Bool :=
  match failed with
  | some guard => op.guardMatches att guard
  | none => false

/-- An unconnected peer candidate with a successor used up its head start. -/
def noProgress (op : Operation) (att : Attempt) (nowMs : Int) : Bool :=
  att.tuple.kind == .peer && !att.transportConnected && c.peerCandidateHasSuccessor op &&
    nowMs ≥ att.startedAtMs + c.directHeadStartMs

/-- The plan of the live attempt still holds. -/
def attemptValid (op : Operation) (att : Attempt) : Bool :=
  match op.planAt op.cursor with
  | some plan => c.operationCandidateValid op plan (some att)
  | none => false

/-- Keep a valid live candidate, or go on to the next one. -/
def advanceOperation (op : Operation) (nowMs : Int) (failed : Option CandidateGuard)
    (startRevision : Int) : Validation × Controller :=
  match op.current with
  | none =>
    let c := if op.builtAtFactVersion ≠ c.factVersion then c.replanRemaining none none else c
    c.advanceCandidates nowMs (c.revision ≠ startRevision)
  | some att =>
    let failed := guardFailed op att failed
    let idle := c.noProgress op att nowMs
    if !failed && !idle && c.attemptValid op att then ({}, c)
    else
      let c := c.retireCandidate op failed idle
      let (advanced, c) := c.advanceCandidates nowMs (c.revision ≠ startRevision)
      ({ advanced with
          released := reservationResources att.reservation ++ advanced.released
          expired := idle, consumedGuard := failed }, c)

/-- Both sessions of the operation are the current ones. -/
def operationSessionsCurrent (op : Operation) : Bool :=
  (match c.participant op.childPeerID with
    | some child => child.sessionIs op.childSessionID
    | none => false) &&
  match c.participant op.demandPeerID with
  | some demand => demand.sessionIs op.demandSessionID
  | none => false

/-- `failed` names an attempt the caller failed. -/
def validateOrAdvance (nowMs : Int) (failed : Option CandidateGuard) : Validation × Controller :=
  match c.operation with
  | none => ({}, c)
  | some op =>
    if op.reason = .publicationAttach then c.validatePublicationAttach op nowMs failed
    else if !c.bootstrapOperationOwned op then c.dropStaleOperation op nowMs .stale
    else if op.reason = .qualityConvergence && !c.qualityOperationStillEligible op nowMs ||
        op.reason = .rootConvergence && !c.rootConvergenceOperationStillEligible op then
      let (released, c) := c.abortOperation (some nowMs) .aborted
      ({ released }, c)
    else if nowMs ≥ op.deadlineAtMs then c.expireOperation op nowMs
    else
      let startRevision := c.revision
      let (expired, released, c) := c.advanceExpiredDirectHeadStart op nowMs
      match c.operation with
      | none => ({ released, expired }, c)
      | some op =>
        if !c.operationSessionsCurrent op then
          let (stale, c) := c.dropStaleOperation op nowMs .aborted
          ({ released := released ++ stale.released, expired }, c)
        else
          let (advanced, c) := c.advanceOperation op nowMs failed startRevision
          ({ advanced with
              released := released ++ advanced.released, expired := expired || advanced.expired }, c)

end Controller

end Piik.Route
