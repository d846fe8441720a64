/-
  Quality evidence from outside (`route/quality.go`): receiver windows, sender
  samples and publisher samples.  A sample that names the live candidate settles
  it; any other one is recorded.
-/
import Piik.Route.Scheduler

namespace Piik.Route

/-- The metrics of a receiver window that the controller reads. -/
structure EvidenceMetrics where
  framesDecodedDelta : Option Int := none
  freezeCountDelta : Option Int := none
  freezeDurationMsDelta : Option Rat := none
  pauseCountDelta : Option Int := none
  pauseDurationMsDelta : Option Rat := none

/-- The window saw a new frame. -/
def EvidenceMetrics.decoded (m : EvidenceMetrics) : Bool :=
  match m.framesDecodedDelta with
  | some frames => frames > 0
  | none => false

/-- A viewer's report on its pictures. -/
structure RouteQualityEvidenceInput where
  childPeerID : ID
  childSessionID : ID
  routeRevision : Int
  connectionID : ID
  upstream : QualityUpstream
  presentationEpoch : Int
  windowMs : Int
  metrics : EvidenceMetrics
  acceptedAtMs : Int

/-- A parent's report on sending to a viewer. -/
structure SenderQualityEvidenceInput where
  parentPeerID : ID
  parentSessionID : ID
  childPeerID : ID
  routeRevision : Int
  connectionID : ID
  senderIdentity : Option ID
  sampleTimestampMs : Option Int
  state : SenderQualityState
  acceptedAtMs : Int

/-- The host's report on its publication. -/
structure SfuPublisherQualityEvidenceInput where
  hostPeerID : ID
  hostSessionID : ID
  publicationGeneration : ID
  routeRevision : Int
  state : SenderQualityState
  sampleTimestampMs : Option Int
  acceptedAtMs : Int

/-- An integer that a browser has exactly. -/
def isSafeInteger (value : Int) : Bool := -maxSafeInteger ≤ value && value ≤ maxSafeInteger

namespace Controller

variable (c : Controller)

/-! ## Receiver windows -/

/-- The window fits the child's committed edge. -/
def evidenceEdge (input : RouteQualityEvidenceInput) : Option CommittedEdge :=
  if c.paused || !c.videoWorkEnabled || input.routeRevision ≠ c.revision ||
      !isSafeInteger input.presentationEpoch || input.presentationEpoch < 0 ||
      !isSafeInteger input.windowMs || input.windowMs ≤ 0 ||
      !isSafeInteger input.acceptedAtMs || input.acceptedAtMs < 0 then none
  else match c.participant input.childPeerID, c.edge input.childPeerID with
    | some child, some e =>
      if child.sessionIs input.childSessionID && e.usable && e.physicalActive &&
          e.childSessionID == input.childSessionID &&
          c.qualityConnectionID e == input.connectionID && qualityUpstreamMatches e input.upstream &&
          c.sourceUsableForQuality e
      then some e else none
    | _, _ => none

/-- The observation the window belongs to: the previous one of the same edge and
    presentation epoch, or a new one. -/
def windowObservation (input : RouteQualityEvidenceInput) : Option RouteQualityObservation :=
  let upstreamPeerID := if input.upstream.kind = .peer then input.upstream.peerID else ""
  let created : RouteQualityObservation :=
    { childSessionID := input.childSessionID, upstreamKind := input.upstream.kind
      upstreamPeerID, connectionID := input.connectionID
      presentationEpoch := input.presentationEpoch, lastAcceptedAtMs := input.acceptedAtMs }
  match c.qualityObservations.get input.childPeerID with
  | none => some created
  | some o =>
    if o.childSessionID == input.childSessionID && o.upstreamKind == input.upstream.kind &&
        o.upstreamPeerID == upstreamPeerID && o.connectionID == input.connectionID then
      if input.presentationEpoch < o.presentationEpoch then none
      else if o.presentationEpoch ≠ input.presentationEpoch then some created else some o
    else some created

/-- Add a complete window. -/
def aggregateWindow (o : RouteQualityObservation) (windowMs freezeCount pauseCount : Int)
    (freezeDurationMs pauseDurationMs : Rat) : RouteQualityObservation :=
  { o with
    eligibleWindows := safeAdd o.eligibleWindows 1
    eligibleDurationMs := safeAdd o.eligibleDurationMs windowMs
    freezeWindows := if freezeCount > 0 then safeAdd o.freezeWindows 1 else o.freezeWindows
    freezeCount := safeAdd o.freezeCount freezeCount
    freezeDurationMs := safeAdd o.freezeDurationMs freezeDurationMs
    pauseCount := safeAdd o.pauseCount pauseCount
    pauseDurationMs := safeAdd o.pauseDurationMs pauseDurationMs }

/-- Keep the report of a viewer. -/
def setObservation (childPeerID : ID) (o : RouteQualityObservation) : Controller :=
  { c with qualityObservations := c.qualityObservations.set childPeerID o }

/-- A decoded frame proves the picture of the edge. -/
def proveVideo (childPeerID : ID) (e : CommittedEdge) : Controller :=
  if e.videoReady then c
  else { c with upstreamByViewer := c.upstreamByViewer.modify childPeerID fun e =>
      { e with videoReady := true } }.touchFacts

/-- A complete window counts, unless it is the baseline that was pending. -/
def recordWindow (input : RouteQualityEvidenceInput) (o : RouteQualityObservation) :
    QualityEvidenceResult × Controller :=
  match input.metrics.freezeCountDelta, input.metrics.freezeDurationMsDelta,
      input.metrics.pauseCountDelta, input.metrics.pauseDurationMsDelta with
  | some freezeCount, some freezeMs, some pauseCount, some pauseMs =>
    let o := { o with lastAcceptedAtMs := input.acceptedAtMs }
    if c.qualityBaselinesPending.has input.childPeerID then
      (.accepted, { c.setObservation input.childPeerID o with
        qualityBaselinesPending := c.qualityBaselinesPending.delete input.childPeerID })
    else
      (.observed, c.setObservation input.childPeerID
        (aggregateWindow o input.windowMs freezeCount pauseCount freezeMs pauseMs))
  | _, _, _, _ => (.accepted, c.setObservation input.childPeerID o)

/-- Aggregate one receiver window onto the child's committed edge. -/
def observeQualityEvidence (input : RouteQualityEvidenceInput) :
    QualityEvidenceResult × Controller :=
  match c.evidenceEdge input with
  | none => (.rejected, c)
  | some e => match c.windowObservation input with
    | none => (.rejected, c)
    | some o =>
      if !input.metrics.decoded then (.accepted, c.setObservation input.childPeerID o)
      else
        let c := c.proveVideo input.childPeerID e
        let hadProgress := fresh o.lastDecodedProgressAtMs input.acceptedAtMs
        let c := if !hadProgress && e.kind == .sfu then c.touchFacts else c
        c.recordWindow input { o with lastDecodedProgressAtMs := some input.acceptedAtMs }

/-! ## Samples of the live candidate -/

/-- The answer to a report that counted. -/
def senderAccepted (released : List Resource) : SettleResult :=
  { accepted := true, activeRevision := c.revision, released }

/-- The answer to a report that did not. -/
def senderRejected : SettleResult := { activeRevision := c.revision }

/-- Forget the candidate's samples. -/
def resetSample (att : Attempt) : Attempt :=
  { att with
    senderQualityState := .unset, senderQualityAcceptedAtMs := none
    senderQualityConsecutiveHealthyWindows := 0, senderQualityConsecutiveDegradedWindows := 0
    senderQualitySampleTimestampMs := none }

/-- Fold a newer sample into the candidate. -/
def foldSample (att : Attempt) (state : SenderQualityState) (acceptedAtMs : Int)
    (senderIdentity : ID) (sampleTimestampMs : Int) : Attempt :=
  let sameFreshState := fresh att.senderQualityAcceptedAtMs acceptedAtMs
  let healthyWindows : Int :=
    if state ≠ .healthy then 0
    else if att.tuple.kind == .sfu && att.senderQualityState == .healthy && sameFreshState then
      safeAdd att.senderQualityConsecutiveHealthyWindows 1
    else 1
  let degradedWindows : Int :=
    if state ≠ .degraded then 0
    else if att.senderQualityState == .degraded && sameFreshState then
      safeAdd att.senderQualityConsecutiveDegradedWindows 1
    else 1
  { att with
    senderQualityState := state, senderQualityAcceptedAtMs := some acceptedAtMs
    senderQualityConsecutiveHealthyWindows := healthyWindows
    senderQualityConsecutiveDegradedWindows := degradedWindows
    senderQualitySampleTimestampMs := some sampleTimestampMs
    senderQualityIdentity := senderIdentity }

/-- The sample is newer than the last one of the attempt. -/
def newerSample (att : Attempt) (sample : Int) : Bool :=
  match att.senderQualitySampleTimestampMs with
  | some last => last < sample
  | none => true

/-- The guard that names an attempt. -/
def attemptGuard (op : Operation) (att : Attempt) : CandidateGuard :=
  { childPeerID := op.childPeerID, childSessionID := op.childSessionID
    revision := att.revision, connectionID := att.connectionID }

/-- The operation with another state of its attempt. -/
def setAttempt (op : Operation) (att : Attempt) : Controller :=
  { c with operation := some { op with current := some att } }

/-- Fold a sample into the live candidate and fail or commit it.  An empty
    identity is unknown. -/
def settleCandidateQuality {σ : Type} (op : Operation) (att : Attempt) (state : SenderQualityState)
    (acceptedAtMs : Int) (senderIdentity : ID) (sampleTimestampMs : Option Int)
    (commitReservation : CandidateReservation → σ → Bool × σ) (s : σ) :
    SettleResult × σ × Controller :=
  let guard := attemptGuard op att
  if state = .unknown then (c.senderAccepted [], s, c.setAttempt op (resetSample att))
  else match sampleTimestampMs with
    | none => (c.senderRejected, s, c)
    | some sample =>
      if senderIdentity = "" then (c.senderRejected, s, c)
      else if att.senderQualityIdentity ≠ "" && att.senderQualityIdentity ≠ senderIdentity then
        let (failed, c) := c.candidateFailed guard acceptedAtMs
        (failed, s, c)
      else if !newerSample att sample then (c.senderAccepted [], s, c)
      else
        let att := foldSample att state acceptedAtMs senderIdentity sample
        let c := c.setAttempt op att
        let persistentQualityPeerDegradation := op.reason == .qualityConvergence &&
          att.tuple.kind == .peer &&
          att.senderQualityConsecutiveDegradedWindows ≥ persistentDegradedWindows
        if state == .degraded && (att.tuple.kind ≠ .peer || op.reason ≠ .qualityConvergence ||
            persistentQualityPeerDegradation) then
          let (failed, c) := c.candidateFailed guard acceptedAtMs
          ({ failed with accepted := true }, s, c)
        else if att.mediaReady && (att.tuple.kind ≠ .sfu ||
            att.senderQualityConsecutiveHealthyWindows ≥ persistentDegradedWindows) then
          let (ready, s, c) := c.candidateReady guard acceptedAtMs commitReservation s
            { videoGeneration := op.videoGeneration }
          ({ ready with accepted := true }, s, c)
        else (c.senderAccepted [], s, c)

/-! ## Sender samples -/

/-- The sample names the live convergence candidate. -/
def sampledCandidate (input : SenderQualityEvidenceInput) (childSessionID : ID) :
    Option (Operation × Attempt) :=
  match c.operation with
  | none => none
  | some op => match op.current with
    | none => none
    | some att =>
      if (op.reason == .rootConvergence || op.reason == .qualityConvergence) &&
          att.tuple.kind == .peer && op.childPeerID == input.childPeerID &&
          op.childSessionID == childSessionID && att.tuple.parentPeerID == input.parentPeerID &&
          att.parentSessionID == input.parentSessionID && att.connectionID == input.connectionID &&
          att.revision == input.routeRevision
      then some (op, att) else none

/-- The sample describes the child's committed edge. -/
def sampledEdge (input : SenderQualityEvidenceInput) (childSessionID : ID) : Bool :=
  match c.edge input.childPeerID with
  | none => false
  | some e => input.routeRevision == c.revision && e.kind == .peer && e.usable &&
      e.physicalActive && e.parentPeerID == input.parentPeerID &&
      e.parentSessionID == input.parentSessionID && e.childSessionID == childSessionID &&
      c.qualityConnectionID e == input.connectionID

/-- The two reports are on one connection. -/
def sameSenderConnection (o : SenderQualityObservation) (input : SenderQualityEvidenceInput)
    (childSessionID : ID) : Bool :=
  o.childSessionID == childSessionID && o.parentPeerID == input.parentPeerID &&
    o.parentSessionID == input.parentSessionID && o.connectionID == input.connectionID

/-- Keep the report of a parent. -/
def setSenderObservation (childPeerID : ID) (o : SenderQualityObservation) : Controller :=
  { c with senderQualityObservations := c.senderQualityObservations.set childPeerID o }

/-- A sender that knows nothing about its stream. -/
def recordUnknownSample (input : SenderQualityEvidenceInput) (childSessionID : ID) : Controller :=
  match c.senderQualityObservations.get input.childPeerID with
  | none => c
  | some o =>
    if sameSenderConnection o input childSessionID then
      c.setSenderObservation input.childPeerID
        { o with state := .unknown, consecutiveDegradedWindows := 0
                 lastAcceptedAtMs := input.acceptedAtMs }
    else { c with
      senderQualityObservations := c.senderQualityObservations.delete input.childPeerID }

/-- A new connection or sender identity is a new generation, and a healthy one
    needs no latch: neither keeps a regeneration latch. -/
def releaseLatch (input : SenderQualityEvidenceInput) (childSessionID senderIdentity : ID) :
    Controller :=
  match c.senderQualityRegenerationBlocks.get input.childPeerID with
  | none => c
  | some block =>
    let matched := block.childSessionID == childSessionID &&
      block.parentPeerID == input.parentPeerID && block.parentSessionID == input.parentSessionID &&
      block.connectionID == input.connectionID && block.senderIdentity == senderIdentity
    if !matched || input.state == .healthy then { c with
      senderQualityRegenerationBlocks := c.senderQualityRegenerationBlocks.delete input.childPeerID }
    else c

/-- Record a sample of a known sender. -/
def recordSample (input : SenderQualityEvidenceInput) (childSessionID senderIdentity : ID)
    (sampleTimestampMs : Int) (previous : Option SenderQualityObservation) : Controller :=
  let sameSender := previous.filter fun o =>
    sameSenderConnection o input childSessionID && o.senderIdentity == senderIdentity
  let c := c.releaseLatch input childSessionID senderIdentity
  let c := if input.state = .healthy then
      { c with senderQualityBaselines := c.senderQualityBaselines.delete input.childPeerID } else c
  let degradedWindows : Int :=
    if input.state ≠ .degraded then 0
    else match sameSender with
      | some o => if fresh (some o.lastAcceptedAtMs) input.acceptedAtMs && o.state == .degraded then
          safeAdd o.consecutiveDegradedWindows 1 else 1
      | none => 1
  let consumed := match sameSender with
    | some o => if input.state ≠ .healthy then o.consumedQualityCandidates else .empty
    | none => .empty
  c.setSenderObservation input.childPeerID
    { childSessionID, parentPeerID := input.parentPeerID, parentSessionID := input.parentSessionID
      connectionID := input.connectionID, senderIdentity, state := input.state
      consecutiveDegradedWindows := degradedWindows, lastSampleTimestampMs := sampleTimestampMs
      lastAcceptedAtMs := input.acceptedAtMs, consumedQualityCandidates := consumed }

/-- The sample is not newer than the recorded one of the same sender. -/
def staleSample (input : SenderQualityEvidenceInput) (childSessionID senderIdentity : ID)
    (sampleTimestampMs : Int) : Bool :=
  match c.senderQualityObservations.get input.childPeerID with
  | some o => sameSenderConnection o input childSessionID &&
      o.senderIdentity == senderIdentity && sampleTimestampMs ≤ o.lastSampleTimestampMs
  | none => false

/-- The quality of the child is being converged. -/
def convergesQuality (childPeerID : ID) : Bool :=
  match c.operation with
  | some op => op.reason == .qualityConvergence && op.childPeerID == childPeerID
  | none => false

/-- A sample of the committed edge.  A healthy sender ends the convergence of
    its child. -/
def observeEdgeSample (input : SenderQualityEvidenceInput) (childSessionID : ID) :
    SettleResult × Controller :=
  if input.state = .unknown then (c.senderAccepted [], c.recordUnknownSample input childSessionID)
  else match input.senderIdentity, input.sampleTimestampMs with
    | some senderIdentity, some sampleTimestampMs =>
      if senderIdentity = "" then (c.senderRejected, c)
      else if c.staleSample input childSessionID senderIdentity sampleTimestampMs then
        (c.senderAccepted [], c)
      else
        let previous := c.senderQualityObservations.get input.childPeerID
        let c := c.recordSample input childSessionID senderIdentity sampleTimestampMs previous
        if input.state == .healthy && c.convergesQuality input.childPeerID then
          let (released, c) := c.abortOperation (some input.acceptedAtMs) .aborted
          (c.senderAccepted released, c)
        else (c.senderAccepted [], c)
    | _, _ => (c.senderRejected, c)

/-- Record a parent's health sample for a child, settling the live convergence
    candidate when the sample names it. -/
def observeSenderQualityEvidence {σ : Type} (input : SenderQualityEvidenceInput)
    (commitReservation : CandidateReservation → σ → Bool × σ) (s : σ) :
    SettleResult × σ × Controller :=
  if !c.qualityConvergenceEnabled || c.paused || !c.videoWorkEnabled ||
      !isSafeInteger input.acceptedAtMs || input.acceptedAtMs < 0 then (c.senderRejected, s, c)
  else match c.participant input.parentPeerID, c.participant input.childPeerID with
    | some parent, some child =>
      if !parent.sessionIs input.parentSessionID || child.sessionID = "" ||
          child.departureConfirmed || parent.departureConfirmed then (c.senderRejected, s, c)
      else match c.sampledCandidate input child.sessionID with
        | some (op, att) => c.settleCandidateQuality op att input.state input.acceptedAtMs
            (input.senderIdentity.getD "") input.sampleTimestampMs commitReservation s
        | none =>
          if !c.sampledEdge input child.sessionID then (c.senderRejected, s, c)
          else
            let (result, c) := c.observeEdgeSample input child.sessionID
            (result, s, c)
    | _, _ => (c.senderRejected, s, c)

/-! ## Publisher samples -/

/-- The live quality candidate is an SFU edge of this publication. -/
def publisherCandidate (input : SfuPublisherQualityEvidenceInput) : Option (Operation × Attempt) :=
  match c.operation with
  | none => none
  | some op => match op.current with
    | none => none
    | some att =>
      if op.reason == .qualityConvergence && att.tuple.kind == .sfu &&
          att.hostSessionID == input.hostSessionID &&
          att.publicationGeneration == input.publicationGeneration
      then some (op, att) else none

/-- The recorded samples of this publication. -/
def previousPublisherSample (input : SfuPublisherQualityEvidenceInput) :
    Option SfuPublisherQualityObservation :=
  c.sfuPublisherQualityObservation.filter fun o =>
    o.hostSessionID == input.hostSessionID &&
      o.publicationGeneration == input.publicationGeneration

/-- The sample is no newer than the last one. -/
def stalePublisherSample (input : SfuPublisherQualityEvidenceInput) (sampleTimestampMs : Int) : Bool :=
  match c.previousPublisherSample input with
  | some o => sampleTimestampMs ≤ o.lastSampleTimestampMs
  | none => false

/-- The recorded healthy samples that this one comes in time for. -/
def freshHealthySample (input : SfuPublisherQualityEvidenceInput) :
    Option SfuPublisherQualityObservation :=
  (c.previousPublisherSample input).filter fun o =>
    fresh (some o.lastAcceptedAtMs) input.acceptedAtMs && o.state == .healthy

/-- The run of healthy windows that ends with the report. -/
def consecutiveHealthyWindows (input : SfuPublisherQualityEvidenceInput) : Int :=
  if input.state ≠ .healthy then 0
  else match c.freshHealthySample input with
    | some o => safeAdd o.consecutiveHealthyWindows 1
    | none => 1

/-- The run before the report was long enough. -/
def wasPersistentlyHealthy (input : SfuPublisherQualityEvidenceInput) : Bool :=
  match c.freshHealthySample input with
  | some o => o.consecutiveHealthyWindows ≥ persistentDegradedWindows
  | none => false

/-- Record the sample.  A publication that turns persistently healthy is a new
    fact. -/
def recordPublisherSample (input : SfuPublisherQualityEvidenceInput) (sampleTimestampMs : Int) :
    Controller :=
  let observation : SfuPublisherQualityObservation :=
    { hostSessionID := input.hostSessionID, publicationGeneration := input.publicationGeneration
      state := input.state, consecutiveHealthyWindows := c.consecutiveHealthyWindows input
      lastSampleTimestampMs := sampleTimestampMs, lastAcceptedAtMs := input.acceptedAtMs }
  let turned := input.state == .healthy &&
    c.consecutiveHealthyWindows input ≥ persistentDegradedWindows && !c.wasPersistentlyHealthy input
  let c := { c with sfuPublisherQualityObservation := some observation }
  if turned then c.touchFacts else c

/-- A sample of the committed publication. -/
def observePublication {σ : Type} (input : SfuPublisherQualityEvidenceInput) (sampleTimestampMs : Int)
    (commitReservation : CandidateReservation → σ → Bool × σ) (s : σ) :
    SettleResult × σ × Controller :=
  if c.stalePublisherSample input sampleTimestampMs then (c.senderAccepted [], s, c)
  else
    let persistentlyHealthy := decide (c.consecutiveHealthyWindows input ≥ persistentDegradedWindows)
    let c := c.recordPublisherSample input sampleTimestampMs
    match c.publisherCandidate input with
    | none => (c.senderAccepted [], s, c)
    | some (op, att) =>
      if att.tuple.publication ≠ .reuse || !att.mediaReady then (c.senderAccepted [], s, c)
      else if input.state = .degraded then
        let (failed, c) := c.candidateFailed (attemptGuard op att) input.acceptedAtMs
        (failed, s, c)
      else if persistentlyHealthy then
        c.candidateReady (attemptGuard op att) input.acceptedAtMs commitReservation s
          { videoGeneration := op.videoGeneration }
      else (c.senderAccepted [], s, c)

/-- The Host is connected by this session. -/
def hostSessionIs (sessionID : ID) : Bool :=
  match c.participant c.hostPeerID with
  | some host => host.sessionIs sessionID
  | none => false

/-- The sample describes the committed publication. -/
def sampledPublication (input : SfuPublisherQualityEvidenceInput) : Bool :=
  match c.hostPublication with
  | some p => p.usable && p.physicalActive && p.hostSessionID == input.hostSessionID &&
      p.generation == input.publicationGeneration
  | none => false

/-- Record a Host-to-SFU ingress sample, settling a live SFU candidate. -/
def observeSfuPublisherQualityEvidence {σ : Type} (input : SfuPublisherQualityEvidenceInput)
    (commitReservation : CandidateReservation → σ → Bool × σ) (s : σ) :
    SettleResult × σ × Controller :=
  if !c.qualityConvergenceEnabled || c.paused || !c.videoWorkEnabled ||
      input.hostPeerID ≠ c.hostPeerID || !c.hostSessionIs input.hostSessionID then
    (c.senderRejected, s, c)
  else match (c.publisherCandidate input).filter fun p => p.2.revision == input.routeRevision with
    | some (op, att) => c.settleCandidateQuality op att input.state input.acceptedAtMs
        input.publicationGeneration input.sampleTimestampMs commitReservation s
    | none =>
      if input.routeRevision ≠ c.revision || !c.sampledPublication input then
        (c.senderRejected, s, c)
      else if input.state = .unknown then
        (c.senderAccepted [], s, { c with sfuPublisherQualityObservation := none })
      else match input.sampleTimestampMs with
        | none => (c.senderRejected, s, c)
        | some sample => c.observePublication input sample commitReservation s

/-! ## Resetting -/

/-- Drop the parent's sender samples, baselines and latches. -/
def forgetSenderSamples (parentPeerID parentSessionID : ID) : Controller :=
  let observed := (c.senderQualityObservations.entries.filter fun e =>
    e.2.parentPeerID == parentPeerID && e.2.parentSessionID == parentSessionID).map Prod.fst
  let c := (c.childrenOf parentPeerID ++ observed).foldl (fun c child => { c with
    senderQualityObservations := c.senderQualityObservations.delete child
    senderQualityBaselines := c.senderQualityBaselines.delete child
    senderQualityRegenerationBlocks := c.senderQualityRegenerationBlocks.delete child }) c
  if parentPeerID = c.hostPeerID then { c with sfuPublisherQualityObservation := none } else c

/-- The live candidate is proved by this parent's samples. -/
def ownsCandidate (parentPeerID parentSessionID : ID) : Bool :=
  match c.operation with
  | none => false
  | some op => match op.current with
    | none => false
    | some att => match att.tuple.kind with
      | .peer => (op.reason == .rootConvergence || op.reason == .qualityConvergence) &&
          att.tuple.parentPeerID == parentPeerID && att.parentSessionID == parentSessionID
      | .sfu => operationRequiresNativeCandidateProof op && parentPeerID == c.hostPeerID &&
          att.hostSessionID == parentSessionID

/-- Forget the parent's samples, and abort an operation whose live candidate
    that parent owns. -/
def resetSenderQuality (parentPeerID parentSessionID : ID) (nowMs : Int) :
    List Resource × Controller :=
  match c.participant parentPeerID with
  | none => ([], c)
  | some parent =>
    if !parent.sessionIs parentSessionID then ([], c)
    else
      let c := c.forgetSenderSamples parentPeerID parentSessionID
      if c.ownsCandidate parentPeerID parentSessionID then c.abortOperation (some nowMs) .aborted
      else ([], c)

end Controller

end Piik.Route
