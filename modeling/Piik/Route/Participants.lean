/-
  What the room tells the controller (`route/controller.go`, `route/policy.go`,
  `route/voice.go`, `route/relay_volunteer.go`): participants come, reconnect and
  leave, edges fail, policies change.
-/
import Piik.Route.Evidence

namespace Piik.Route

/-- `Options`, without the debug fields. -/
structure Options where
  hostPeerID : ID
  endpointMediaCopyCapacity : Int
  operationTimeoutMs : Int
  sfuEnabled : Bool
  sfuOnly : Bool
  qualityConvergenceEnabled : Bool
  natPredictionEnabled : Bool

namespace Controller

/-- `New`: the panics, and the controller over the room's revision sequence. -/
def new (o : Options) (latest : Int) : Except Fault Controller :=
  if o.endpointMediaCopyCapacity < 1 || o.endpointMediaCopyCapacity > maxEndpointMediaCopyCapacity then
    throw .capacityPolicy
  else if o.operationTimeoutMs > maxSafeInteger || o.operationTimeoutMs ≤ 0 then
    throw .operationTimeout
  else if o.sfuOnly && !o.sfuEnabled then throw .sfuOnlyWithoutSfu
  else pure
    { hostPeerID := o.hostPeerID, endpointMediaCopyCapacity := o.endpointMediaCopyCapacity
      operationTimeoutMs := o.operationTimeoutMs, sfuEnabled := o.sfuEnabled, sfuOnly := o.sfuOnly
      qualityConvergenceEnabled := o.qualityConvergenceEnabled && !o.sfuOnly
      natPredictionEnabled := o.natPredictionEnabled && !o.sfuOnly, latest }

variable (c : Controller)

/-! ## Participants -/

/-- The controller with another state of a participant. -/
def modifyParticipant (peerID : ID) (f : Participant → Participant) : Controller :=
  { c with participants := c.participants.modify peerID f }

/-- The operation depends on the participant's session. -/
def operationUsesParticipantSession (peerID : ID) : Bool :=
  match c.operation with
  | none => false
  | some op => op.childPeerID == peerID || op.demandPeerID == peerID ||
      match op.currentTuple with
      | some tuple => if tuple.kind = .peer then tuple.parentPeerID == peerID else peerID == c.hostPeerID
      | none => peerID == c.hostPeerID

/-- The children that a parent has no capacity for need another route. -/
def recordCapacityReduction (peerID : ID) (nowMs : Option Int) : Controller :=
  c.recordDemands (c.overflowPeerChildren peerID) nowMs .capacityReduction

/-- The operation routes the peer or is demanded by it. -/
def operationOwnedBy (peerID : ID) : Bool :=
  match c.operation with
  | some op => op.childPeerID == peerID || op.demandPeerID == peerID
  | none => false

/-- Eligibility, not physical edge health: the handoff keeps current media until
    commit or strict-policy exhaustion. -/
def setViewerRoutePreference (peerID sessionID : ID) (preference : ViewerRoutePreference)
    (nowMs : Option Int) : List Resource × Controller :=
  match c.participant peerID with
  | none => ([], c)
  | some current =>
    if current.role ≠ .viewer || !current.sessionIs sessionID || current.routePreference == preference then
      ([], c)
    else
      let (released, c) := if c.operationOwnedBy peerID then c.abortOperation nowMs .aborted else ([], c)
      let c := c.modifyParticipant peerID fun p => { p with routePreference := preference }
      let c := c.updateLedger peerID fun l => { l with
        consumedCandidateOpportunities := .empty, availabilityExhausted := false
        bootstrapFailureReported := false }
      let c := ((c.deleteContinuation peerID).clearSfuBootstrapForDemand peerID).touchFacts
      (released, c.recordDemands [peerID] nowMs (c.routeDemandReason peerID))

/-- The committed edges and the publication take the participant's new session;
    an operation that used the replaced one is aborted. -/
def replaceSession (input : ParticipantInput) (nowMs : Option Int) : List Resource × Controller :=
  let peerID := input.peerID
  let c := c.modifyParticipant peerID fun p => { p with relayVolunteer := false }
  let c := (c.clearOpportunitiesForSessionChange peerID input.role).clearQualityForParticipant peerID
  let (released, c) := if c.operationUsesParticipantSession peerID then
      c.abortOperation nowMs .stale else ([], c)
  let c := (c.deleteContinuation peerID).clearSfuBootstrapForDemand peerID
  let c := c.modifyParticipant peerID fun p => { p with sessionID := input.sessionID }
  (released, { c with toCore := c.rebindCommittedSession peerID input.sessionID })

/-- The demands that follow from a known participant's new facts. -/
def demandReturned (input : ParticipantInput) (current : Participant) (capacity : Int)
    (nowMs : Option Int) : Controller :=
  let capacityChanged := current.effectiveDownstreamCapacity ≠ capacity
  let c := if capacityChanged then c.recordCapacityReduction input.peerID nowMs else c
  let c := if current.sessionID ≠ input.sessionID || current.departureConfirmed || capacityChanged then
      c.touchFacts else c
  if input.role = .viewer && !c.usableRoute input.peerID then
    c.recordDemands [input.peerID] nowMs .join else c

/-- A known participant. -/
def updateParticipant (input : ParticipantInput) (current : Participant) (nowMs : Option Int) :
    List Resource × Controller :=
  let peerID := input.peerID
  let capacity := c.effectiveCapacity input.effectiveDownstreamCapacity
    (current.sessionID == input.sessionID && current.relayVolunteer)
  let (released, c) := if current.sessionID ≠ input.sessionID then c.replaceSession input nowMs
    else ([], c)
  let c := c.modifyParticipant peerID fun p => { p with
    departureConfirmed := false
    reportedDownstreamCapacity := input.effectiveDownstreamCapacity
    effectiveDownstreamCapacity := capacity }
  let c := c.demandReturned input current capacity nowMs
  if input.role = .viewer then
    let (more, c) := c.setViewerRoutePreference peerID input.sessionID input.routePreference nowMs
    (released ++ more, c)
  else (released, c)

/-- New participants append to the scheduling order. -/
def addParticipant (input : ParticipantInput) (nowMs : Option Int) : Controller :=
  let p : Participant :=
    { peerID := input.peerID, role := input.role, sessionID := input.sessionID
      effectiveDownstreamCapacity := c.effectiveCapacity input.effectiveDownstreamCapacity false
      reportedDownstreamCapacity := input.effectiveDownstreamCapacity
      routePreference := input.routePreference, joinOrder := c.nextJoinOrder }
  let c := { c with
    participants := c.participants.set input.peerID p, nextJoinOrder := c.nextJoinOrder + 1
    ledgers := c.ledgers.set input.peerID {} }
  (if input.role = .viewer then c.recordDemands [input.peerID] nowMs .join else c).touchFacts

/-- Add or update a participant. -/
def upsertParticipant (input : ParticipantInput) (nowMs : Option Int) : List Resource × Controller :=
  if (input.peerID == c.hostPeerID) ≠ (input.role == .host) then
    ([], c.raise .hostIdentityInconsistent)
  else if Core.capacityInvalid input.effectiveDownstreamCapacity then
    ([], c.raise .effectiveCapacityInvalid)
  else match c.participant input.peerID with
    | none => ([], c.addParticipant input nowMs)
    | some current =>
      if current.role ≠ input.role then ([], c.raise .roleCannotChange)
      else c.updateParticipant input current nowMs

/-- Everything the graph held under the old Host identity goes. -/
def clearGraphState : Controller :=
  { c.clearAllQuality with
    upstreamByViewer := .empty, hostPublication := none, routeTimings := .empty
    directContinuations := .empty, retiringPublicationGenerations := .empty
    sfuBootstrapIntent := none, consumedSfuBootstrapOpportunities := .empty
    rootConvergenceRootPeerID := "" }

/-- Move the Host to a new peer ID, tearing down the whole graph. -/
def moveHost (host : Participant) (peerID sessionID : ID) (nowMs : Option Int) :
    List Resource × Controller :=
  let previousPeerID := c.hostPeerID
  let (aborted, c) := c.abortOperation nowMs .stale
  let released := dedupeResources (aborted ++ c.committedResources)
  let c := { c.clearGraphState with ledgers := c.ledgers.mapValues fun _ _ => {} }
  let orphans := (c.participants.values.filter fun p => p.role == .viewer && p.sessionID ≠ "").map
    Participant.peerID
  let c := c.recordDemands orphans nowMs .edgeUnavailable
  let host := { host with
    peerID, sessionID, relayVolunteer := false, departureConfirmed := false
    effectiveDownstreamCapacity := c.effectiveCapacity host.reportedDownstreamCapacity false }
  let c := { c with
    participants := (c.participants.delete previousPeerID).set peerID host
    ledgers := (c.ledgers.delete previousPeerID).set peerID {}, hostPeerID := peerID }
  let c := c.bump.touchFacts
  (released, { c with toCore := c.checkGraph })

/-- The same ID only rebinds the Host's session. -/
def rebindHostIdentity (peerID sessionID : ID) (nowMs : Option Int) : List Resource × Controller :=
  if peerID = c.hostPeerID then
    c.upsertParticipant { peerID, role := .host, sessionID
                          effectiveDownstreamCapacity := c.endpointMediaCopyCapacity } nowMs
  else if c.participants.has peerID then ([], c.raise .hostIdentityCollides)
  else match c.participant c.hostPeerID with
    | none => ([], c.raise .hostIdentityUnavailable)
    | some host =>
      if host.role ≠ .host then ([], c.raise .hostIdentityUnavailable)
      else if Core.capacityInvalid host.reportedDownstreamCapacity then
        ([], c.raise .effectiveCapacityInvalid)
      else c.moveHost host peerID sessionID nowMs

/-- The participant's exact session is gone: grace, no revision change. -/
def disconnectSession (peerID sessionID : ID) : Bool × Controller :=
  match c.participant peerID with
  | none => (false, c)
  | some current =>
    if !current.sessionIs sessionID then (false, c)
    else
      let c := (c.clearOpportunitiesForSessionChange peerID current.role).modifyParticipant peerID
        fun p => { p with sessionID := "" }
      let c := (c.clearQualityForParticipant peerID).deleteContinuation peerID
      (true, (c.clearSfuBootstrapForDemand peerID).touchFacts)

/-- Finalise a viewer's departure. -/
def confirmDeparture (peerID : ID) (nowMs : Option Int) : Bool × Controller :=
  match c.participant peerID with
  | none => (false, c)
  | some current =>
    if current.role = .host then (false, c)
    else
      let c := { c with routeTimings := c.routeTimings.delete peerID }
      if current.departureConfirmed && current.sessionID = "" &&
          current.effectiveDownstreamCapacity = 0 then (true, c)
      else
        let c := c.clearOpportunitiesForSessionChange peerID current.role
        let c := c.modifyParticipant peerID fun p => { p with sessionID := "" }
        let c := c.clearQualityForParticipant peerID
        let c := c.modifyParticipant peerID fun p =>
          { p with departureConfirmed := true, effectiveDownstreamCapacity := 0 }
        let c := (c.deleteContinuation peerID).clearSfuBootstrapForDemand peerID
        (true, (c.recordDemands (c.childrenOf peerID) nowMs .parentDeparted).touchFacts)

/-! ## Capacity -/

/-- Clamp and store the downstream capacity of the matching session. -/
def setEffectiveCapacity (peerID sessionID : ID) (value : Int) (nowMs : Option Int) :
    Bool × Controller :=
  match c.participant peerID with
  | none => (false, c)
  | some current =>
    if !current.sessionIs sessionID then (false, c)
    else if Core.capacityInvalid value then (false, c.raise .effectiveCapacityInvalid)
    else
      let capacity := c.effectiveCapacity value current.relayVolunteer
      let c := c.modifyParticipant peerID fun p =>
        { p with reportedDownstreamCapacity := value, effectiveDownstreamCapacity := capacity }
      if current.effectiveDownstreamCapacity = capacity then (true, c)
      else (true, (c.recordCapacityReduction peerID nowMs).touchFacts)

/-- Policy for this exact session; the reported capacity stays the ceiling. -/
def setRelayVolunteer (peerID sessionID : ID) (enabled : Bool) (nowMs : Option Int) :
    Bool × Controller :=
  match c.participant peerID with
  | none => (false, c)
  | some current =>
    if !current.sessionIs sessionID then (false, c)
    else if current.relayVolunteer == enabled then (true, c)
    else if Core.capacityInvalid current.reportedDownstreamCapacity then
      (false, c.raise .effectiveCapacityInvalid)
    else
      let capacity := c.effectiveCapacity current.reportedDownstreamCapacity enabled
      let c := c.modifyParticipant peerID fun p =>
        { p with relayVolunteer := enabled, effectiveDownstreamCapacity := capacity }
      (true, (c.recordCapacityReduction peerID nowMs).touchFacts)

/-- Room policy, without replacing endpoint capability or a personal override. -/
def setDefaultCapacity (capacity : Int) (nowMs : Option Int) : Controller :=
  if capacity < 1 || capacity > maxViewersPerRoomLimit then c.raise .roomCapacityInvalid
  else if capacity = c.endpointMediaCopyCapacity then c
  else
    let c := { c with endpointMediaCopyCapacity := capacity }
    let present := c.participants.values.filter fun p => !p.departureConfirmed
    if present.any fun p => Core.capacityInvalid p.reportedDownstreamCapacity then
      c.raise .effectiveCapacityInvalid
    else
      (present.foldl (fun c p =>
        let c := c.modifyParticipant p.peerID fun p => { p with
          effectiveDownstreamCapacity :=
            c.effectiveCapacity p.reportedDownstreamCapacity p.relayVolunteer }
        c.recordCapacityReduction p.peerID nowMs) c).touchFacts

/-! ## Failures -/

/-- Something outside changed: what failed before may work now. -/
def touchExternalFacts : Controller :=
  { c.clearSfuCandidateOpportunities with sfuBootstrapIntent := none }.touchFacts

/-- Mark the exactly identified edge unusable. -/
def invalidateEdge (guard : EdgeGuard) (nowMs : Option Int) : Bool × Controller :=
  match c.participant guard.childPeerID, c.edge guard.childPeerID with
  | some child, some e =>
    if !child.sessionIs guard.childSessionID || c.revision ≠ guard.routeRevision ||
        e.connectionID ≠ guard.connectionID || e.childSessionID ≠ guard.childSessionID ||
        (e.kind == .peer && e.parentSessionID ≠ guard.parentSessionID) then (false, c)
    else if !e.usable then (true, c)
    else
      let peerID := guard.childPeerID
      let c := (c.consumeActiveEdgeOpportunity peerID e).clearQualityForParticipant peerID
      let c := { c with upstreamByViewer := c.upstreamByViewer.modify peerID fun e =>
        { e with usable := false } }
      let c := (c.deleteContinuation peerID).updateLedger peerID fun l =>
        { l with availabilityExhausted := false, bootstrapFailureReported := false }
      (true, c.touchFacts.recordDemands [peerID] nowMs .edgeUnavailable)
  | _, _ => (false, c)

/-- Invalidate the first committed direct edge that matches from the parent's
    side. -/
def invalidateDirectEdgeFromParent (input : ParentEdgeGuard) (nowMs : Option Int) :
    Bool × Controller :=
  match c.upstreamByViewer.entries.find? fun e => e.2.kind == .peer &&
      e.2.parentPeerID == input.parentPeerID && e.2.parentSessionID == input.parentSessionID &&
      e.2.connectionID == input.connectionID with
  | none => (false, c)
  | some (childPeerID, e) => c.invalidateEdge
      { childPeerID, childSessionID := e.childSessionID, parentSessionID := input.parentSessionID
        routeRevision := input.routeRevision, connectionID := input.connectionID } nowMs

/-- The guard names the publication exactly. -/
def publicationMatches (p : HostPublication) (guard : PublicationGuard) : Bool :=
  c.revision == guard.routeRevision && p.hostSessionID == guard.hostSessionID &&
    p.generation == guard.generation && p.connectionID == guard.connectionID

/-- Mark the identified publication unusable, with a demand for every SFU child. -/
def invalidateHostPublication (guard : PublicationGuard) (nowMs : Option Int) : Bool × Controller :=
  match c.hostPublication with
  | none => (false, c)
  | some p =>
    if !c.publicationMatches p guard then (false, c)
    else if !p.usable then (true, c)
    else
      let c := { c.clearSfuQuality with
        hostPublication := some { p with usable := false }
        directContinuations := .empty, sfuBootstrapIntent := none }
      let subscribers := (c.upstreamByViewer.entries.filter fun e => e.2.kind == .sfu).map Prod.fst
      (true, (c.recordDemands subscribers nowMs .edgeUnavailable).touchFacts)

/-- The active edge that a replacement connection names. -/
def adoptableEdge (guard : EdgeGuard) (newConnectionID : ID) : Option CommittedEdge :=
  match c.edge guard.childPeerID with
  | none => none
  | some e =>
    if c.revision ≠ guard.routeRevision || e.kind ≠ .peer || e.transport ≠ .direct || !e.usable ||
        !e.physicalActive || e.childSessionID ≠ guard.childSessionID ||
        e.parentSessionID ≠ guard.parentSessionID || e.connectionID ≠ guard.connectionID ||
        newConnectionID = "" ||
        (c.roomMedia && (e.videoConnectionID == "" || e.videoGeneration ≠ c.videoGeneration ||
          c.videoGeneration == "")) then none
    else some e

/-- The edge after the adoption; its picture has to be proved again. -/
def adoptConnection (childPeerID newConnectionID : ID) : Controller :=
  { c with upstreamByViewer := c.upstreamByViewer.modify childPeerID fun e =>
      if c.roomMedia then { e with videoConnectionID := newConnectionID, videoReady := false }
      else { e with
        connectionID := newConnectionID, videoReady := false
        opportunityKey := c.candidateOpportunityBase childPeerID
          { kind := e.kind, parentPeerID := e.parentPeerID } } }

/-- The connection that carries the edge's picture. -/
def activeConnectionID (e : CommittedEdge) : ID :=
  if c.roomMedia then e.videoConnectionID else e.connectionID

/-- The operation works on the child's availability. -/
def repairsChild (childPeerID : ID) : Bool :=
  match c.operation with
  | some op => op.childPeerID == childPeerID && isAvailabilityOperation op.reason
  | none => false

/-- The operation works on the child. -/
def routesChild (childPeerID : ID) : Bool :=
  match c.operation with
  | some op => op.childPeerID == childPeerID
  | none => false

/-- Accept a replacement for the exact active edge.  Recovery supersedes
    optional preparation for that child; required availability work keeps
    priority. -/
def adoptDirectConnection (guard : EdgeGuard) (newConnectionID : ID) (nowMs : Int) :
    SettleResult × Controller :=
  let rejected : SettleResult := { activeRevision := c.revision }
  let childPeerID := guard.childPeerID
  match c.adoptableEdge guard newConnectionID with
  | none => (rejected, c)
  | some e =>
    if newConnectionID = c.activeConnectionID e then ({ rejected with accepted := true }, c)
    else if c.repairsChild childPeerID then (rejected, c)
    else
      let (released, c) := if c.routesChild childPeerID then c.abortOperation (some nowMs) .aborted
        else ([], c)
      let c := (c.clearQualityForParticipant childPeerID).adoptConnection childPeerID newConnectionID
      let c := (c.updateLedger childPeerID fun l => { l with availabilityExhausted := false }).touchFacts
      ({ accepted := true, activeRevision := c.revision, released }, c)

/-- An attempt is under way. -/
def attemptLive : Bool :=
  match c.operation with
  | some op => op.current.isSome
  | none => false

/-- Retire the physically active publication and its subscriptions when no
    attempt is live: the subscriptions, then the publication. -/
def retireHostPublication (guard : PublicationGuard) : List Resource × Controller :=
  match c.hostPublication with
  | none => ([], c)
  | some p =>
    if c.attemptLive || !p.physicalActive || !c.publicationMatches p guard then ([], c)
    else
      let subscribers := c.upstreamByViewer.entries.filter fun e =>
        e.2.kind == .sfu && e.2.publicationGeneration == p.generation
      let (retired, c) :=
        releaseEach (fun c p e => c.retireSfuEdge p e (c.retainsAnchor p)) subscribers c
      let c := { c with hostPublication := none }.clearSfuQuality.bump
      let c := (c.modifyOperation fun op => { op with baseRevision := c.revision }).touchFacts
      (retired ++ p.held, c.pruneRetiringSfuAnchors)

/-! ## Room state -/

/-- Pausing aborts the operation and clears the quality state. -/
def setPaused (paused : Bool) (nowMs : Option Int) : List Resource × Controller :=
  if c.roomMedia then c.setVideoPublication c.videoGeneration paused (nowMs.getD 0)
  else if c.paused == paused then ([], c)
  else
    let c := { c with paused }
    if paused then c.clearAllQuality.touchFacts.abortOperation nowMs .aborted else ([], c.touchFacts)

/-- Clear all state and pause; the live reservation's resources, then every
    committed one.  The revision and its sequence survive. -/
def dispose : List Resource × Controller :=
  let live := match c.operation with
    | some op => attemptResources op
    | none => []
  let released := dedupeResources (live ++ c.committedResources)
  (released, { c.clearGraphState with
    operation := none, participants := .empty, ledgers := .empty, paused := true })

/-- The policy of a new share. -/
def setRoutePolicy (peerOnly topologyOptimization natPrediction : Bool) (nowMs : Int) :
    List Resource × Controller :=
  if c.sfuEnabled == !peerOnly && c.qualityConvergenceEnabled == topologyOptimization &&
      c.natPredictionEnabled == natPrediction then ([], c)
  else
    let (released, c) := c.abortOperation (some nowMs) .aborted
    let c := { c with
      sfuEnabled := !peerOnly, qualityConvergenceEnabled := topologyOptimization
      natPredictionEnabled := natPrediction }
    let participants := c.participants.mapValues fun _ p =>
      if p.role = .viewer && !c.allowsViewerRoutePreference p.routePreference then
        { p with routePreference := .auto } else p
    let ledgers := c.ledgers.mapValues fun peerID l =>
      match c.participant peerID with
      | some p => if p.role = .viewer then {} else l
      | none => l
    let c := { c with participants, ledgers, directContinuations := .empty
                      sfuBootstrapIntent := none, consumedSfuBootstrapOpportunities := .empty
                      rootConvergenceRootPeerID := "" }
    (released, c.clearAllQuality.touchFacts)

/-- Both lists name the same peers. -/
def sameMembers (left right : List ID) : Bool :=
  left.all (right.contains ·) && right.all (left.contains ·)

/-- Current room permission, not a second topology: a change reopens the
    opportunities of the listeners whose route needs repair. -/
def setVoiceListeners (peerIDs : List ID) (nowMs : Int) : Bool × Controller :=
  if !c.roomMedia || sameMembers c.voiceListeners peerIDs then (false, c)
  else
    let previous := c.voiceListeners
    let c := { c with voiceListeners := peerIDs }
    let affected := c.participants.values.filter fun p => p.role == .viewer &&
      (previous.contains p.peerID ≠ peerIDs.contains p.peerID || c.voiceRouteMissing p.peerID)
    let c := affected.foldl (fun c p =>
      let c := c.updateLedger p.peerID fun l => { l with
        consumedCandidateOpportunities := .empty, availabilityExhausted := false
        bootstrapFailureReported := false }
      let c := (c.deleteContinuation p.peerID).clearSfuBootstrapForDemand p.peerID
      if c.voiceRouteMissing p.peerID then c.recordDemands [p.peerID] (some nowMs) .edgeUnavailable
      else c) c
    (true, c.touchFacts)

end Controller

end Piik.Route
