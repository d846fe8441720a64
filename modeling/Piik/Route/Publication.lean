/-
  Room media (`route/publication.go`): the picture is attached to edges that
  outlive it.  An attachment is an operation on a committed edge that changes
  its video facet only.
-/
import Piik.Route.Graph

namespace Piik.Route

namespace Operation

/-- `guardMatches`. -/
def guardMatches (op : Operation) (att : Attempt) (guard : CandidateGuard) : Bool :=
  guard.childPeerID == op.childPeerID && guard.childSessionID == op.childSessionID &&
    guard.revision == att.revision && guard.connectionID == att.connectionID

/-- The caller's failure names the live attempt. -/
def guardConsumed (op : Operation) (failed : Option CandidateGuard) : Bool :=
  match failed, op.current with
  | some guard, some att => op.guardMatches att guard
  | _, _ => false

/-- The guard names the candidate under the cursor. -/
def cursorGuardMatches (op : Operation) (guard : CandidateCursorGuard) : Bool :=
  match op.planAt op.cursor with
  | none => false
  | some plan => guard.childPeerID == op.childPeerID && guard.childSessionID == op.childSessionID &&
      guard.baseRevision == op.baseRevision && guard.factVersion == op.builtAtFactVersion &&
      guard.cursor == op.cursor && candidatePlanEquals guard.plan plan

end Operation

namespace Controller

variable (c : Controller)

/-- Replace only the physical video facet; the logical publication keeps its
    generation and resource. -/
def setHostVideoConnectionID (id : ID) : Bool × Controller :=
  match c.hostPublication with
  | none => (false, c)
  | some p =>
    if !c.roomMedia || id = "" then (false, c)
    else if p.connectionID = id then (true, c)
    else (true, { c with hostPublication := some { p with connectionID := id } }.touchFacts)

/-- What happens to an edge when the publication changes: enabling voice
    preserves the current picture connection and its proof. -/
def publicationEdge (first : Bool) (generation : ID) (e : CommittedEdge) : CommittedEdge :=
  if first && generation ≠ "" && e.usable && e.physicalActive then
    { e with videoGeneration := generation, videoConnectionID := e.connectionID }
  else { e with videoGeneration := "", videoConnectionID := "", videoReady := false }

/-- Opt into room media.  Room edges survive replacement, stop and pause of the
    publication; the released resources are those of the canceled operation. -/
def setVideoPublication (generation : ID) (paused : Bool) (nowMs : Int) :
    List Resource × Controller :=
  let paused := generation ≠ "" && paused
  if c.roomMedia && c.videoGeneration == generation && c.videoPaused == paused then ([], c)
  else
    let (released, c) := c.abortOperation (some nowMs) .aborted
    let first := !c.roomMedia
    let changed := first || c.videoGeneration ≠ generation
    let upstreamByViewer := if changed then
        c.upstreamByViewer.mapValues fun _ e => publicationEdge first generation e
      else c.upstreamByViewer
    let c := { c with
      roomMedia := true, videoGeneration := generation, videoPaused := paused, paused := false
      upstreamByViewer }
    (released, { c.clearAllQuality with rootConvergenceRootPeerID := "" }.touchFacts)

/-- The tuple that attaches the picture to a committed edge. -/
def attachTuple (childID : ID) (e : CommittedEdge) : Option CandidateTuple :=
  match c.participant childID with
  | none => none
  | some child =>
    if !child.sessionIs e.childSessionID || child.departureConfirmed || !e.usable ||
        !e.physicalActive || !c.allowsIncoming childID e.kind ||
        e.videoGeneration == c.videoGeneration then none
    else match e.kind with
      | .peer => if c.sourceUsable e.parentPeerID && c.sourceVideoReady e.parentPeerID then
          some { kind := .peer, transport := e.transport, parentPeerID := e.parentPeerID } else none
      | .sfu => if c.publicationServes e.publicationGeneration then
          some { kind := .sfu, transport := e.transport, publication := .reuse } else none

/-- Open the first attachment in edge order; `false` when there is none. -/
def startPublicationAttach (nowMs : Int) : Bool × Controller :=
  if !c.roomMedia || !c.videoWorkEnabled then (false, c)
  else match c.upstreamByViewer.entries.findSome? fun e =>
      (c.attachTuple e.1 e.2).map fun tuple => (e.1, e.2, tuple) with
    | none => (false, c)
    | some (childID, e, tuple) =>
      let sessionID := c.sessionOf childID
      let op : Operation :=
        { childPeerID := childID, childSessionID := sessionID
          demandPeerID := childID, demandSessionID := sessionID
          reason := .publicationAttach, baseRevision := c.revision
          builtAtFactVersion := c.factVersion, deadlineAtMs := nowMs + c.operationTimeoutMs
          videoGeneration := c.videoGeneration, attachConnectionID := e.connectionID
          candidates := [{ tuple, endpointTransition := { kind := .none } }] }
      (true, { c with operation := some op })

/-- The attachment still describes the child's edge. -/
def publicationAttachOwned (op : Operation) : Bool :=
  c.roomMedia && c.videoWorkEnabled && op.videoGeneration == c.videoGeneration &&
    match c.participant op.childPeerID, c.edge op.childPeerID, op.planAt 0 with
    | some child, some e, some plan =>
      child.sessionIs op.childSessionID && !child.departureConfirmed &&
        e.childSessionID == op.childSessionID && e.connectionID == op.attachConnectionID &&
        e.usable && e.physicalActive && c.allowsIncoming op.childPeerID e.kind &&
        (match plan.tuple.kind with
          | .peer => e.kind == .peer && e.parentPeerID == plan.tuple.parentPeerID &&
              (match c.participant plan.tuple.parentPeerID with
                | some parent => parent.sessionIs e.parentSessionID
                | none => false) &&
              c.sourceUsable plan.tuple.parentPeerID && c.sourceVideoReady plan.tuple.parentPeerID
          | .sfu => e.kind == .sfu && c.publicationServes e.publicationGeneration)
    | _, _, _ => false

/-- The viewers that several checks found to have tried everything, each once. -/
def failedPeerIDsFrom (results : List Validation) : List ID :=
  dedupeStrings (results.flatMap Validation.exhaustedPeerIDs)

/-- An empty reservation, as an attachment takes. -/
def emptyReservation (r : CandidateReservation) : Bool :=
  r.kind == .unset && r.edge.isNone && r.publication.isNone && r.overlap.isNone

/-- Begin the new picture's connection on an edge that stays. No copy is charged for it. -/
def beginPublicationAttach (input : BeginInput) (op : Operation) (checked : Validation) :
    BeginResult × Controller :=
  match c.edge op.childPeerID, op.planAt 0 with
  | some e, some plan =>
    if input.connectionID = "" || !emptyReservation input.reservation ||
        !c.publicationAttachOwned op then
      ({ released := checked.released ++ reservationResources input.reservation }, c)
    else
      let c := { c with toCore := c.allocateRevision }
      let current : Attempt :=
        { tuple := plan.tuple, revision := c.latest, connectionID := input.connectionID
          childSessionID := op.childSessionID, parentSessionID := e.parentSessionID
          publicationGeneration := e.publicationGeneration, startedAtMs := input.nowMs
          reservation := { kind := .direct } }
      let op := { op with current := some current }
      ({ accepted := true, operation := some op, released := checked.released },
        { c with operation := some op })
  | _, _ => ({ released := checked.released ++ reservationResources input.reservation }, c)

/-- Dependents whose picture path is unproven now. -/
def attachDependents (peerID : ID) : List ID :=
  (c.childrenOf peerID).filter fun child =>
    match c.participant child, c.edge child with
    | some p, some e => p.sessionIs e.childSessionID && !p.departureConfirmed && e.usable &&
        e.physicalActive && !c.sourceVideoReady child
    | _, _ => false

/-- The breadth-first list of the affected branch. -/
def attachFailures : ℕ → List ID → List ID
  | _, [] => []
  | 0, queue => queue
  | n + 1, peerID :: queue => peerID :: attachFailures n (queue ++ c.attachDependents peerID)

/-- Set the video facet of the attached edge. -/
def setVideoFacet (peerID generation connectionID : ID) (ready : Bool) : Controller :=
  match c.edge peerID with
  | none => c.raise .nilDereference
  | some _ => { c with upstreamByViewer := c.upstreamByViewer.modify peerID fun e =>
      { e with videoGeneration := generation, videoConnectionID := connectionID
               videoReady := ready } }

/-- An optional attachment gets one attempt per edge, publication and endpoint
    sessions: a failure is recorded as an unavailable publication. -/
def failPublicationAttach (op : Operation) : List ID × Controller :=
  let c := (c.setVideoFacet op.childPeerID op.videoGeneration "" false).advanceActiveRevision op
  let c := { c with operation := none }.touchFacts
  (c.attachFailures (c.upstreamByViewer.len + 1) [op.childPeerID], c)

/-- The edge carries the new picture. -/
def commitPublicationAttach (op : Operation) (att : Attempt) : Controller :=
  let c := c.setVideoFacet op.childPeerID op.videoGeneration att.connectionID true
  { c with revision := att.revision, operation := none }.touchFacts

/-- The attachment goes on, or it is given up at its deadline or with its guard. -/
def validatePublicationAttach (op : Operation) (nowMs : Int) (failed : Option CandidateGuard) :
    Validation × Controller :=
  if !c.publicationAttachOwned op then
    ({}, { c.advanceActiveRevision op with operation := none })
  else
    let consumedGuard := op.guardConsumed failed
    let expired : Bool := nowMs ≥ op.deadlineAtMs
    if expired || consumedGuard then
      let (exhaustedPeerIDs, c) := c.failPublicationAttach op
      ({ consumedGuard, expired, exhaustedPeerIDs }, c)
    else ({ consumedGuard, expired }, c)

end Controller

end Piik.Route
