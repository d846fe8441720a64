/-
  The scheduler (`Reconcile` of `route/operation.go`): validate or advance the
  current operation, prune departed leaves, and open at most one new operation.
-/
import Piik.Route.Settle

namespace Piik.Route

namespace Controller

variable (c : Controller)

/-! ## Choosing the next work -/

/-- The viewer's parent has left for good. -/
def viewerParentDeparted (viewer : Participant) : Bool :=
  match c.edge viewer.peerID with
  | some e => e.kind == .peer && c.parentDeparted e
  | none => false

/-- The viewer's upstream cannot stay. -/
def viewerUnusable (viewer : Participant) : Bool :=
  match c.edge viewer.peerID with
  | some e => !e.usable || !c.allowsIncoming viewer.peerID e.kind || c.parentRouteRetired e ||
      c.voiceRouteMissing viewer.peerID
  | none => false

/-- The viewer's upstream is a publication that is gone. -/
def viewerStaleSfu (viewer : Participant) : Bool :=
  match c.edge viewer.peerID with
  | some e => e.kind == .sfu && match c.hostPublication with
    | some p => !p.usable || p.generation ≠ e.publicationGeneration
    | none => true
  | none => false

/-- Five priority buckets, then a stable sort by started attempts; `""` when
    nobody needs a route. -/
def selectNextChild : ID :=
  let viewers := c.availableViewers false
  let bucket (p : Participant → Bool) : List ID := (viewers.filter p).map Participant.peerID
  let candidates := dedupeStrings (bucket c.viewerParentDeparted ++ c.overflowChildren ++
    bucket c.viewerUnusable ++ bucket c.viewerStaleSfu ++
    bucket fun viewer => (c.edge viewer.peerID).isNone)
  match candidates.sortStable fun left right =>
      c.viewerAttemptsStarted left < c.viewerAttemptsStarted right with
  | [] => ""
  | childPeerID :: _ => childPeerID

/-- The work an operation is opened for. -/
inductive Pick
  | bootstrap (carrier : SfuBootstrapCarrier)
  | route (childPeerID : ID)
  | continuation (childPeerID : ID) (plan : CandidatePlan)
  | quality (childPeerID : ID)
  | root (convergence : RootConvergence)

namespace Pick

/-- The viewer that is moved. -/
def childPeerID : Pick → ID
  | bootstrap carrier => carrier.carrierPeerID
  | route child => child
  | continuation child _ => child
  | quality child => child
  | root convergence => convergence.childPeerID

/-- The viewer that it is done for. -/
def demandPeerID : Pick → ID
  | bootstrap carrier => carrier.demandPeerID
  | pick => pick.childPeerID

end Pick

/-- Why the viewer was picked. -/
def pickReason : Pick → DemandReason
  | .continuation _ _ => .directConvergence
  | .bootstrap _ => .sfuBootstrap
  | .quality _ => .qualityConvergence
  | .root _ => .rootConvergence
  | .route child => c.routeDemandReason child

/-- Background work, in its own order. -/
def pickBackground (nowMs : Int) : Option Pick × Controller :=
  match c.selectDirectContinuation with
  | (some (child, plan), c) => (some (.continuation child plan), c)
  | (none, c) =>
    if !c.videoWorkEnabled then (none, c)
    else match c.selectQualityChild nowMs with
      | (some child, c) => (some (.quality child), c)
      | (none, c) =>
        let (convergence, c) := c.takeRootConvergenceIntent
        (convergence.map .root, c)

/-- The strict priority of the scheduler, with the demands a missing carrier
    leaves failed. -/
def pickWork (nowMs : Int) : Option Pick × List ID × Controller :=
  match c.takeSfuBootstrapCarrier nowMs with
  | (some carrier, failed, c) => (some (.bootstrap carrier), failed, c)
  | (none, failed, c) =>
    let child := c.selectNextChild
    if child ≠ "" then (some (.route child), failed, c)
    else
      let (pick, c) := c.pickBackground nowMs
      (pick, failed, c)

/-! ## Opening an operation -/

/-- The candidates of a pick, before the demand's own order. -/
def pickCandidates (pick : Pick) (nowMs : Int) : List CandidatePlan × Controller :=
  match pick with
  | .continuation _ plan => ([plan], c)
  | .quality child => c.buildQualityCandidates child nowMs
  | .root convergence => ([convergence.plan], c)
  | .route child => (c.buildCandidates child false, c)
  | .bootstrap carrier => (c.buildCandidates carrier.carrierPeerID true, c)

/-- A demand served by bootstrap tries its SFU candidate first, and a bootstrap
    set drops bounded-gap candidates. -/
def orderCandidates (pick : Pick) (candidates : List CandidatePlan) : List CandidatePlan :=
  match pick with
  | .continuation _ _ => candidates
  | .bootstrap _ => candidates.filter fun plan => plan.endpointTransition.kind ≠ .boundedGap
  | pick => if (c.ledger pick.demandPeerID).sfuFirstAtNextRoute then
      moveToFront (fun plan => plan.tuple.kind == .sfu) candidates else candidates

/-- A pick without candidates: who failed, what was released. -/
def pickUnavailable (pick : Pick) (nowMs : Int) : List ID × List Resource × Controller :=
  let child := pick.childPeerID
  let demand := pick.demandPeerID
  match pick with
  | .bootstrap _ =>
    let (failed, c) := c.completeSfuBootstrapCarrier child nowMs .candidateFailed none
    (failed.toList, [], c)
  | .route _ =>
    let reason := c.pickReason pick
    let (retired, released, c) := c.retireInvalidOperationEdge child
    let c := if retired then c.bump.touchFacts else c
    let c := c.updateLedger child fun l => { l with availabilityExhausted := true }
    let bucket : RejectionBucket :=
      if reason = .capacityReduction then .endpointCapacity else .candidateFailed
    let c := c.finishTiming demand nowMs .failed bucket false
    if c.bootstrapCandidateAvailable demand then ([], released, c)
    else ([demand], released, c.rememberUnavailableSfuBootstrap demand)
  | pick =>
    let c := match pick with
      | .continuation _ _ => c.deleteContinuation child
      | _ => c
    ([], [], c.finishTiming child nowMs (c.currentFinalRoute child) .candidateFailed false)

/-- Open the operation of a pick. -/
def openOperation (pick : Pick) (candidates : List CandidatePlan) (nowMs : Int) : Controller :=
  let reason := c.pickReason pick
  let c := c.startOperationTiming pick.demandPeerID nowMs
  let op : Operation :=
    { videoGeneration := c.requiredVideoGeneration
      childPeerID := pick.childPeerID, childSessionID := c.sessionOf pick.childPeerID
      demandPeerID := pick.demandPeerID, demandSessionID := c.sessionOf pick.demandPeerID
      reason, baseRevision := c.revision, candidates
      deadlineAtMs := nowMs + c.operationTimeoutMs, builtAtFactVersion := c.factVersion
      qualitySource := if reason = .qualityConvergence then
        c.currentQualityOperationSource pick.childPeerID else none }
  { c with operation := some op }

/-- Turns until an operation is open or nothing is left to do; the bound is the
    number of participants. -/
def reconcileLoop (nowMs : Int) : ℕ → Controller → List ID × List Resource × Controller
  | 0, c => ([], [], c)
  | n + 1, c =>
    let (pick, failed, c) := c.pickWork nowMs
    match pick with
    | none => (failed, [], c)
    | some pick =>
      if pick.childPeerID = "" then (failed, [], c)
      else if (c.participant pick.childPeerID).isNone || (c.participant pick.demandPeerID).isNone then
        (failed, [], c.raise .nilDereference)
      else
        let c := c.ensureDemand pick.demandPeerID nowMs (c.pickReason pick)
        let (candidates, c) := c.pickCandidates pick nowMs
        let candidates := c.orderCandidates pick candidates
        if candidates.isEmpty then
          let (unavailable, released, c) := c.pickUnavailable pick nowMs
          let (moreFailed, moreReleased, c) := reconcileLoop nowMs n c
          (failed ++ unavailable ++ moreFailed, released ++ moreReleased, c)
        else (failed, [], c.openOperation pick candidates nowMs)

/-! ## Reconcile -/

/-- Background convergence yields to availability and bootstrap work. -/
def preemptBackground (nowMs : Int) : List Resource × Controller :=
  match c.operation with
  | none => ([], c)
  | some op =>
    if !isBackgroundConvergence op.reason then ([], c)
    else
      let (bootstrap, c) := c.hasSfuBootstrapWork
      if bootstrap || c.selectNextChild ≠ "" then c.abortOperation (some nowMs) .aborted else ([], c)

/-- Leaves are pruned only while no operation is in flight. -/
def pruneWhenIdle : List ID × List Resource × Controller :=
  if c.operation.isNone then c.pruneDepartedLeaves else ([], [], c)

/-- Attach existing upstreams before asking them to supply a new video child,
    then schedule. -/
def schedule (nowMs : Int) : List ID × List Resource × Controller :=
  let (attached, c) := c.startPublicationAttach nowMs
  if attached then ([], [], c)
  else
    let c := c.upstreamByViewer.keys.foldl (fun c peerID => c.restoreDirectContinuation peerID) c
    reconcileLoop nowMs c.participants.len c

/-- Drop what is gone, check the operation under way, and begin another one if there is none. -/
def reconcile (nowMs : Int) : ReconcileResult × Controller :=
  let (departed, c) := c.retireDepartedEdges nowMs
  let (checked, c) := c.validateOrAdvance nowMs none
  let (preempted, c) := c.preemptBackground nowMs
  let (removedPeerIDs, pruned, c) := c.pruneWhenIdle
  let failedPeerIDs := failedPeerIDsFrom [checked]
  let released := departed ++ checked.released ++ preempted ++ pruned
  if c.paused || c.operation.isSome then
    ({ operation := c.operation, removedPeerIDs, failedPeerIDs, released }, c)
  else
    let (moreFailed, moreReleased, c) := c.schedule nowMs
    ({ operation := c.operation, removedPeerIDs, failedPeerIDs := failedPeerIDs ++ moreFailed
       released := released ++ moreReleased }, c)

end Controller

end Piik.Route
