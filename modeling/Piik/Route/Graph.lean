/-
  The changes of the committed graph and of the revision (`route/graph.go`, and
  `allocateRevision`, `abortOperation`, `advanceActiveRevision` and
  `blockAndClear` of `route/controller.go` and `route/operation.go`).

  A function that releases resources returns them, in order, before the new
  state.  A nil resource is not listed.
-/
import Piik.Route.Bootstrap

namespace Piik.Route

/-- The subscription an active SFU edge holds. -/
def CommittedEdge.held (e : CommittedEdge) : List Resource :=
  if e.physicalActive then e.resource.toList else []

/-- The ingress an active publication holds. -/
def HostPublication.held (p : HostPublication) : List Resource :=
  if p.physicalActive then p.resource.toList else []

namespace Core

variable (c : Core)

/-! ## Revisions -/

/-- The allocated revision is the new `latest`; the revision space is bounded
    by the safe integers. -/
def allocateRevision : Core :=
  { c with
    latest := c.latest + 1
    fault := if c.latest ≥ maxMediaRouteRevision then c.fault <|> some .revisionSpaceExhausted
      else c.fault }

/-- `c.revision = c.allocateRevision()`. -/
def bump : Core := { c.allocateRevision with revision := c.latest + 1 }

/-! ## The graph -/

/-- Take an edge out of service in place. -/
def deactivateEdge (peerID : ID) : Core :=
  { c with upstreamByViewer := c.upstreamByViewer.modify peerID fun e =>
      { e with usable := false, physicalActive := false } }

/-- The viewer has no upstream. -/
def deleteEdge (peerID : ID) : Core :=
  { c with upstreamByViewer := c.upstreamByViewer.delete peerID }

/-- A retiring SFU edge is kept while it still has peer children. -/
def retainsAnchor (viewerPeerID : ID) : Bool := !(c.childrenOf viewerPeerID).isEmpty

/-- The graph part of `retireSfuEdge`. -/
def dropSfuEdge (viewerPeerID : ID) (e : CommittedEdge) (retainAnchor : Bool) : Core :=
  if retainAnchor then
    { c.deactivateEdge viewerPeerID with
      retiringPublicationGenerations :=
        c.retiringPublicationGenerations.set e.publicationGeneration () }
  else c.deleteEdge viewerPeerID

/-- An inactive SFU edge still references the generation. -/
def hasRetiringAnchor (generation : ID) : Bool :=
  c.upstreamByViewer.entries.any fun e =>
    e.2.kind == .sfu && !e.2.physicalActive && e.2.publicationGeneration == generation

/-- An anchor without children of a retiring generation. -/
def spentAnchor (viewerPeerID : ID) (e : CommittedEdge) : Bool :=
  e.kind == .sfu && !e.physicalActive &&
    c.retiringPublicationGenerations.has e.publicationGeneration &&
    (c.childrenOf viewerPeerID).isEmpty

/-- One pass is a fixpoint: an anchor is nobody's peer child, so deleting it
    spends no other one. -/
def pruneRetiringSfuAnchors : Core :=
  let c := { c with upstreamByViewer := c.upstreamByViewer.filter fun p e => !c.spentAnchor p e }
  { c with retiringPublicationGenerations :=
      c.retiringPublicationGenerations.filter fun generation _ => c.hasRetiringAnchor generation }

/-- The subscriptions in map order, then the publication. -/
def committedResources : List Resource :=
  ((c.upstreamByViewer.entries.filter fun e => e.2.kind == .sfu).flatMap fun e => e.2.held) ++
    match c.hostPublication with
    | some p => p.held
    | none => []

/-! ## Assertions -/

/-- The publication is not the one the edge subscribes to. -/
def publicationDiffers (e : CommittedEdge) : Bool :=
  match c.hostPublication with
  | some p => p.generation ≠ e.publicationGeneration
  | none => true

/-- The generation is neither published nor retiring. -/
def unknownPublication (e : CommittedEdge) : Bool :=
  if e.physicalActive then c.publicationDiffers e
  else !c.retiringPublicationGenerations.has e.publicationGeneration

/-- What a walk up from one edge finds wrong. -/
def assertPathLoop : ℕ → List ID → ID → Option Fault
  | 0, _, _ => some .cycle
  | n + 1, seen, current =>
    if current = c.hostPeerID then none
    else if current ∈ seen then some .cycle
    else match c.edge current with
      | none => some .notSourceReachable
      | some e =>
        if e.kind == .sfu then
          if c.unknownPublication e then some .unknownPublication else none
        else assertPathLoop n (current :: seen) e.parentPeerID

/-- The panic of a child that is no viewer. -/
def assertViewer (peerID : ID) : Option Fault :=
  match c.participant peerID with
  | some p => if p.role ≠ .viewer then some .childNotViewer else none
  | none => some .childNotViewer

/-- The panics of an edge that does not fit the graph. -/
def assertEdge (child : ID) (e : CommittedEdge) : Option Fault :=
  c.assertViewer child <|>
    (if e.kind == .peer && !c.participants.has e.parentPeerID then some .parentMissing else none) <|>
    (if e.kind == .sfu && e.physicalActive && c.publicationDiffers e then some .publicationStale
      else none) <|>
    (if e.kind == .sfu && !e.physicalActive &&
        !c.retiringPublicationGenerations.has e.publicationGeneration then some .retiringUnknown
      else none) <|>
    c.assertPathLoop (c.upstreamByViewer.len + 2) [] child

/-- The first violation in edge order, then participant order, then in the
    order of the retiring generations. -/
def assertGraph : Option Fault :=
  (match c.participant c.hostPeerID with
    | some host => if host.role ≠ .host then some .hostMissing else none
    | none => some .hostMissing) <|>
  c.upstreamByViewer.entries.findSome? (fun e => c.assertEdge e.1 e.2) <|>
  c.participants.values.findSome? (fun p =>
    if c.usedSlots p.peerID > maxRelayVolunteerChildren then some .endpointCapacity else none) <|>
  c.retiringPublicationGenerations.keys.findSome? fun generation =>
    if c.hasRetiringAnchor generation then none else some .retiringWithoutAnchor

/-- Panic when the graph is broken. -/
def checkGraph : Core :=
  match c.assertGraph with
  | some f => c.raise f
  | none => c

/-! ## Sessions -/

/-- The peer's session takes part in the child's edge. -/
def sessionInvolved (peerID childPeerID : ID) (e : CommittedEdge) : Bool :=
  childPeerID == peerID || (e.kind == .peer && e.parentPeerID == peerID) ||
    (e.kind == .sfu && peerID == c.hostPeerID && match c.hostPublication with
      | some p => e.publicationGeneration == p.generation
      | none => false)

/-- The edges keep their place and take the new session.  A failed optional
    attachment belongs to its endpoint sessions; proven video and the retained
    room transport survive reauthentication. -/
def rebindEdge (peerID sessionID : ID) (childPeerID : ID) (e : CommittedEdge) : CommittedEdge :=
  { e with
    childSessionID := if childPeerID == peerID then sessionID else e.childSessionID
    parentSessionID := if e.kind == .peer && e.parentPeerID == peerID then sessionID
      else e.parentSessionID
    videoGeneration := if c.sessionInvolved peerID childPeerID e && !e.videoReady then ""
      else e.videoGeneration }

/-- A participant's edges go over to its new session. -/
def rebindCommittedSession (peerID sessionID : ID) : Core :=
  { c with
    upstreamByViewer := c.upstreamByViewer.mapValues (c.rebindEdge peerID sessionID)
    hostPublication := if peerID = c.hostPeerID then
        c.hostPublication.map fun p => { p with hostSessionID := sessionID }
      else c.hostPublication }

end Core

namespace Controller

variable (c : Controller)

/-- The panic, for the controller. -/
def raise (f : Fault) : Controller := { c with toCore := c.toCore.raise f }

/-- The next revision, for the controller. -/
def bump : Controller := { c with toCore := c.toCore.bump }

/-- The pruning, for the controller. -/
def pruneRetiringSfuAnchors : Controller := { c with toCore := c.toCore.pruneRetiringSfuAnchors }

/-- The deactivation, for the controller. -/
def deactivateEdge (peerID : ID) : Controller := { c with toCore := c.toCore.deactivateEdge peerID }

/-- Rewrite the operation in place. -/
def modifyOperation (f : Operation → Operation) : Controller :=
  { c with operation := c.operation.map f }

/-! ## Ending an attempt -/

/-- The children of the failed quality candidate's producer start a new sender
    baseline.  A failed same-edge trial must not turn the retained sender into a
    global baseline block. -/
def resetProducerBaselines (op : Operation) : Controller :=
  match op.current with
  | none => c
  | some att =>
    if op.reason ≠ .qualityConvergence then c
    else
      let producerPeerID := if att.tuple.kind == .peer then att.tuple.parentPeerID else c.hostPeerID
      let regeneratingChild := att.tuple.kind == .peer && att.tuple.regenerate
      c.resetSenderBaselines ((c.childrenOf producerPeerID).filter fun childPeerID =>
        !(regeneratingChild && childPeerID == op.childPeerID))

/-- `op` is the controller's operation. -/
def advanceActiveRevision (op : Operation) : Controller :=
  let c := (c.resetProducerBaselines op).bump
  c.modifyOperation fun op => { op with baseRevision := c.revision }

/-- The live attempt's resources. -/
def attemptResources (op : Operation) : List Resource :=
  match op.current with
  | some att => reservationResources att.reservation
  | none => []

/-- Release the live attempt, if there is one, and retire its revision. -/
def retireAttempt (op : Operation) : List Resource × Controller :=
  match op.current with
  | some att => (reservationResources att.reservation, c.advanceActiveRevision op)
  | none => ([], c)

/-- Finish the demand's timing when `nowMs` is given, release the live
    reservation and clear the operation. -/
def abortOperation (nowMs : Option Int) (bucket : RejectionBucket) : List Resource × Controller :=
  match c.operation with
  | none => ([], c)
  | some op =>
    let c := match nowMs with
      | some now => c.finishTiming op.demandPeerID now (c.currentFinalRoute op.demandPeerID) bucket false
      | none => c
    let (released, c) := c.retireAttempt op
    (released, { c with operation := none })

/-! ## Retiring edges -/

/-- Release the subscription only while it is still physically active, then
    keep the edge as an anchor for attached descendants or delete it. -/
def retireSfuEdge (viewerPeerID : ID) (e : CommittedEdge) (retainAnchor : Bool) :
    List Resource × Controller :=
  let c := c.clearQualityForParticipant viewerPeerID
  (e.held, { c with toCore := c.toCore.dropSfuEdge viewerPeerID e retainAnchor })

/-- Drop the publication and release its ingress. -/
def dropPublication : List Resource × Controller :=
  match c.hostPublication with
  | none => ([], c)
  | some p => (p.held, { c with hostPublication := none })

/-- Drop the publication once nobody subscribes to it. -/
def dropOrphanedPublication : List Resource × Controller :=
  if c.hasSfuSubscribers || c.hostPublication.isNone then ([], c)
  else c.clearSfuQuality.dropPublication

/-- One edge of `retireDepartedEdges`. -/
def retireDepartedEdge (peerID : ID) (e : CommittedEdge) : List Resource × Controller :=
  if e.kind == .sfu then c.retireSfuEdge peerID e (c.retainsAnchor peerID)
  else ([], c.deactivateEdge peerID)

/-- An active edge whose child's departure is confirmed. -/
def departedEdge (peerID : ID) (e : CommittedEdge) : Bool :=
  match c.participant peerID with
  | some p => p.departureConfirmed && e.physicalActive
  | none => false

/-- Run `f` over a list of edges, collecting what it releases. -/
def releaseEach (f : Controller → ID → CommittedEdge → List Resource × Controller) :
    List (ID × CommittedEdge) → Controller → List Resource × Controller
  | [], c => ([], c)
  | (p, e) :: rest, c =>
    let (first, c) := f c p e
    let (released, c) := releaseEach f rest c
    (first ++ released, c)

/-- A confirmed departure ends media authority even while acquisition is paused
    or descendants still need the old graph anchor to find a replacement.  The
    candidate is retired before a newer active graph is published: its late
    ready report must not commit an older revision. -/
def retireDepartedEdges (nowMs : Int) : List Resource × Controller :=
  let departed := c.upstreamByViewer.entries.filter fun e => c.departedEdge e.1 e.2
  if departed.isEmpty then ([], c)
  else
    let (aborted, c) := c.abortOperation (some nowMs) .aborted
    let (retired, c) := releaseEach retireDepartedEdge departed c
    let (dropped, c) := c.dropOrphanedPublication
    (aborted ++ retired ++ dropped, c.pruneRetiringSfuAnchors.bump.touchFacts)

/-- A departed viewer without children. -/
def departedLeaf (peerID : ID) : Bool :=
  match c.participant peerID with
  | some p => p.role == .viewer && p.departureConfirmed && (c.childrenOf peerID).isEmpty
  | none => false

/-- A leaf's own edge, its subscription released. -/
def dropLeafEdge (peerID : ID) : List Resource × Controller :=
  match c.edge peerID with
  | none => ([], c)
  | some e =>
    if e.kind = .sfu then c.retireSfuEdge peerID e false
    else ([], { c with toCore := c.toCore.deleteEdge peerID })

/-- Forget a departed viewer without children. -/
def removeLeaf (peerID : ID) : List Resource × Controller :=
  let (released, c) := c.dropLeafEdge peerID
  let c := c.clearQualityForParticipant peerID
  let c := { c with
    participants := c.participants.delete peerID, ledgers := c.ledgers.delete peerID
    routeTimings := c.routeTimings.delete peerID
    directContinuations := c.directContinuations.delete peerID }
  (released, c.clearSfuBootstrapForDemand peerID)

/-- One pass over the participants, each stored under its own peer ID. -/
def pruneLeafPass : List ID → Controller → List ID × List Resource × Controller
  | [], c => ([], [], c)
  | peerID :: rest, c =>
    if !c.departedLeaf peerID then pruneLeafPass rest c
    else
      let (released, c) := c.removeLeaf peerID
      let (removed, more, c) := pruneLeafPass rest c
      (peerID :: removed, released ++ more, c)

/-- Passes until one removes nobody; each one but the last removes somebody. -/
def pruneLeafLoop : ℕ → Controller → List ID × List Resource × Controller
  | 0, c => ([], [], c)
  | n + 1, c =>
    let (removed, released, c) := pruneLeafPass c.participants.keys c
    if removed.isEmpty then ([], released, c)
    else
      let (moreRemoved, moreReleased, c) := pruneLeafLoop n c
      (removed ++ moreRemoved, released ++ moreReleased, c)

/-- Remove departed viewers without children to a fixpoint, in participant
    order, and drop an orphaned publication. -/
def pruneDepartedLeaves : List ID × List Resource × Controller :=
  let (removed, released, c) := pruneLeafLoop (c.participants.len + 1) c
  if removed.isEmpty then (removed, released, c)
  else
    let (dropped, c) := c.dropOrphanedPublication
    (removed, released ++ dropped, c.bump.touchFacts.pruneRetiringSfuAnchors)

/-- Cut the edge of a failed operation's child when it may not stay; `true`
    when it was cut. -/
def retireInvalidOperationEdge (childPeerID : ID) : Bool × List Resource × Controller :=
  match c.edge childPeerID with
  | none => (false, [], c)
  | some e =>
    if !c.edgeRequiresMove childPeerID e then (false, [], c)
    else if e.kind == .sfu then
      let (retired, c) := c.retireSfuEdge childPeerID e (c.retainsAnchor childPeerID)
      let c := c.pruneRetiringSfuAnchors
      if c.hasSfuSubscribers then (true, retired, c)
      else
        let (dropped, c) := c.dropPublication
        (true, retired ++ dropped, c)
    else (true, [], c.deactivateEdge childPeerID)

/-- Nobody is sent the generation any more, and the host stops sending it. -/
def removePublicationGeneration (generation : ID) : List Resource × Controller :=
  let subscribers := c.upstreamByViewer.entries.filter fun e =>
    e.2.kind == .sfu && e.2.publicationGeneration == generation
  let (retired, c) := releaseEach (fun c p e => c.retireSfuEdge p e (c.retainsAnchor p)) subscribers c
  let (dropped, c) : List Resource × Controller := match c.hostPublication with
    | some p => if p.generation = generation then c.dropPublication else ([], c)
    | none => ([], c)
  (retired ++ dropped, c.pruneRetiringSfuAnchors)

/-- Clear the operation; with `block`, the child's edge is cut when it may not
    stay, and its availability is exhausted. -/
def blockAndClear (op : Operation) (block revisionAdvanced : Bool) : List Resource × Controller :=
  let c := { c with operation := none }
  if !block || (c.participant op.childPeerID).isNone then ([], c)
  else
    let (retiredInvalid, released, c) := c.retireInvalidOperationEdge op.childPeerID
    let c := if retiredInvalid && !revisionAdvanced then c.bump else c
    let c := if retiredInvalid then c.touchFacts else c
    (released, c.updateLedger op.childPeerID fun l => { l with availabilityExhausted := true })

end Controller

end Piik.Route
