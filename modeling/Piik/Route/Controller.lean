/-
  The controller: the core and the scheduler's ledgers, with route timing
  (`route/timing.go`), the opportunity ledger (`route/opportunities.go`) and the
  candidate lists built from them (`route/candidates.go`).

  A definition that only writes ledgers leaves the core alone, and says so in a
  `toCore` lemma next to it.
-/
import Piik.Route.Core
import Piik.Lib.Sha256

namespace Piik.Route

/-- The graph with what the scheduler keeps beside it. -/
structure Controller extends Core where
  factVersion : Int := 0
  nextJoinOrder : Int := 0
  ledgers : OMap ID ParticipantLedger := .empty
  routeTimings : OMap ID RouteTimingRecord := .empty
  qualityObservations : OMap ID RouteQualityObservation := .empty
  senderQualityObservations : OMap ID SenderQualityObservation := .empty
  /-- Tri-state: absent, `false`, `true`. -/
  senderQualityBaselines : OMap ID Bool := .empty
  senderQualityRegenerationBlocks : OMap ID SenderQualityIdentity := .empty
  sfuPublisherQualityObservation : Option SfuPublisherQualityObservation := none
  qualityBaselinesPending : OMap ID Unit := .empty
  sfuBootstrapIntent : Option SfuBootstrapIntent := none
  consumedSfuBootstrapOpportunities : OMap String Int := .empty
  rootConvergenceRootPeerID : ID := ""

namespace Controller

variable (c : Controller)

/-- The plans that were made before are out of date. -/
def touchFacts : Controller := { c with factVersion := c.factVersion + 1 }

@[simp] theorem touchFacts_toCore : c.touchFacts.toCore = c.toCore := rfl

/-- What a participant has tried, nothing where it has no ledger. -/
def ledger (peerID : ID) : ParticipantLedger := (c.ledgers.get peerID).getD {}

/-- Write to the scheduler's fields of a known participant. -/
def updateLedger (peerID : ID) (f : ParticipantLedger → ParticipantLedger) : Controller :=
  match c.participant peerID with
  | none => c
  | some _ => { c with ledgers := c.ledgers.set peerID (f (c.ledger peerID)) }

@[simp] theorem updateLedger_toCore (peerID : ID) (f : ParticipantLedger → ParticipantLedger) :
    (c.updateLedger peerID f).toCore = c.toCore := by
  unfold updateLedger; split <;> rfl

/-! ## Timing -/

/-- The viewer needs a route from now on. -/
def recordDemand (childPeerID : ID) (nowMs : Int) (reason : DemandReason) : Controller :=
  { c with routeTimings := c.routeTimings.set childPeerID { demandAtMs := nowMs, reason } }

/-- The viewer needs a route, if it did not already. -/
def ensureDemand (childPeerID : ID) (nowMs : Int) (reason : DemandReason) : Controller :=
  if c.routeTimings.has childPeerID then c else c.recordDemand childPeerID nowMs reason

/-- Change a viewer's record, if it has one. -/
def updateTiming (childPeerID : ID) (f : RouteTimingRecord → RouteTimingRecord) : Controller :=
  { c with routeTimings := c.routeTimings.modify childPeerID f }

/-- An operation begins. -/
def startOperationTiming (childPeerID : ID) (nowMs : Int) : Controller :=
  c.updateTiming childPeerID fun r => { r with
    operationStartedAtMs := nowMs, candidateStartedAtMs := none, firstDecodedFrameAtMs := none
    finalAtMs := none, finalRoute := .waiting, rejectionBucket := .none }

/-- A candidate begins. -/
def startCandidateTiming (childPeerID : ID) (nowMs : Int) : Controller :=
  c.updateTiming childPeerID fun r => { r with
    candidateStartedAtMs := nowMs, firstDecodedFrameAtMs := none, finalAtMs := none
    finalRoute := .waiting, rejectionBucket := .none }

/-- Why a candidate came to nothing. -/
def noteRejection (childPeerID : ID) (bucket : RejectionBucket) : Controller :=
  c.updateTiming childPeerID fun r => { r with rejectionBucket := bucket }

/-- The candidate is over without an end of the operation. -/
def clearCandidateTiming (childPeerID : ID) : Controller :=
  c.updateTiming childPeerID fun r => { r with
    candidateStartedAtMs := none, firstDecodedFrameAtMs := none, finalAtMs := none
    finalRoute := .waiting }

/-- The search is over. -/
def finishTiming (childPeerID : ID) (nowMs : Int) (finalRoute : FinalRoute)
    (rejectionBucket : RejectionBucket) (firstDecodedFrame : Bool) : Controller :=
  c.updateTiming childPeerID fun r => { r with
    firstDecodedFrameAtMs := if firstDecodedFrame then some nowMs else r.firstDecodedFrameAtMs
    finalAtMs := nowMs, finalRoute, rejectionBucket }

@[simp] theorem recordDemand_toCore (p : ID) (now : Int) (r : DemandReason) :
    (c.recordDemand p now r).toCore = c.toCore := rfl

@[simp] theorem ensureDemand_toCore (p : ID) (now : Int) (r : DemandReason) :
    (c.ensureDemand p now r).toCore = c.toCore := by
  unfold ensureDemand; split <;> rfl

@[simp] theorem startOperationTiming_toCore (p : ID) (now : Int) :
    (c.startOperationTiming p now).toCore = c.toCore := rfl

@[simp] theorem startCandidateTiming_toCore (p : ID) (now : Int) :
    (c.startCandidateTiming p now).toCore = c.toCore := rfl

@[simp] theorem noteRejection_toCore (p : ID) (b : RejectionBucket) :
    (c.noteRejection p b).toCore = c.toCore := rfl

@[simp] theorem clearCandidateTiming_toCore (p : ID) :
    (c.clearCandidateTiming p).toCore = c.toCore := rfl

@[simp] theorem finishTiming_toCore (p : ID) (now : Int) (r : FinalRoute) (b : RejectionBucket)
    (d : Bool) : (c.finishTiming p now r b d).toCore = c.toCore := rfl

/-- `recordDemand` for each of a list of children. -/
def recordDemands (children : List ID) (nowMs : Option Int) (reason : DemandReason) : Controller :=
  match nowMs with
  | none => c
  | some now => children.foldl (fun c child => c.recordDemand child now reason) c

@[simp] theorem recordDemands_toCore (l : List ID) (now : Option Int) (r : DemandReason) :
    (c.recordDemands l now r).toCore = c.toCore := by
  unfold recordDemands
  cases now with
  | none => rfl
  | some now =>
    induction l generalizing c with
    | nil => rfl
    | cons a l ih => exact (ih _).trans rfl

/-! ## Opportunities -/

/-- The candidate was not tried, or only with a larger change of the endpoints. -/
def candidateOpportunityAvailable (childPeerID : ID) (plan : CandidatePlan) : Bool :=
  match c.participant childPeerID with
  | none => true
  | some _ =>
    match (c.ledger childPeerID).consumedCandidateOpportunities.get
        (c.candidateOpportunityBase childPeerID plan.tuple) with
    | none => true
    | some consumed => endpointTransitionRank plan.endpointTransition < consumed.rank ||
        (c.natPredictionEnabled && plan.tuple.kind == .peer && !consumed.exhausted &&
          consumed.chargedAttempts < maxNatConnectionAttempts)

/-- An operation that only improves a route. -/
def isBackgroundConvergence (reason : DemandReason) : Bool :=
  reason == .directConvergence || reason == .qualityConvergence || reason == .rootConvergence

/-- An operation for a viewer without a route. -/
def isAvailabilityOperation (reason : DemandReason) : Bool :=
  reason ≠ .publicationAttach && reason ≠ .sfuBootstrap && !isBackgroundConvergence reason

/-- The candidate is valid still, for the operation it belongs to. -/
def operationCandidateValid (op : Operation) (plan : CandidatePlan) (att : Option Attempt) : Bool :=
  c.candidateValid op.childPeerID plan att &&
    ((match att with
      | some a => a.connectionAttempt.isSome
      | none => false) ||
      !isAvailabilityOperation op.reason || c.candidateOpportunityAvailable op.childPeerID plan)

/-- Exhaust the key at its best rank. -/
def consumeCandidateOpportunity (childPeerID : ID) (plan : CandidatePlan) : Controller :=
  c.updateLedger childPeerID fun l =>
    let key := c.candidateOpportunityBase childPeerID plan.tuple
    let rank := endpointTransitionRank plan.endpointTransition
    let entry : CandidateOpportunity := match l.consumedCandidateOpportunities.get key with
      | some previous => { rank := min previous.rank rank, exhausted := true
                           chargedAttempts := previous.chargedAttempts }
      | none => { rank, exhausted := true }
    { l with consumedCandidateOpportunities := l.consumedCandidateOpportunities.set key entry }

@[simp] theorem consumeCandidateOpportunity_toCore (p : ID) (plan : CandidatePlan) :
    (c.consumeCandidateOpportunity p plan).toCore = c.toCore := by
  simp [consumeCandidateOpportunity]

/-- The progress of a new attempt, counted without charging it. -/
def startCandidateOpportunity (op : Operation) (plan : CandidatePlan) :
    Option ConnectionAttemptProgress :=
  if !c.natPredictionEnabled || plan.tuple.kind ≠ .peer ||
      (!isAvailabilityOperation op.reason && op.reason ≠ .directConvergence) then none
  else
    let rank := endpointTransitionRank plan.endpointTransition
    let startedAttempts :=
      match (c.ledger op.childPeerID).consumedCandidateOpportunities.get
          (c.candidateOpportunityBase op.childPeerID plan.tuple) with
      | some previous => if previous.rank ≤ rank then previous.chargedAttempts + 1 else 1
      | none => 1
    some { current := startedAttempts, total := maxNatConnectionAttempts }

/-- Charge a success, a failure or a timeout of the live attempt. -/
def settleCandidateOpportunity (op : Operation) : Controller :=
  match op.current with
  | none => c
  | some att =>
    match att.connectionAttempt with
    | none => c
    | some progress =>
      match op.planAt op.cursor, c.participant op.childPeerID with
      | some plan, some _ =>
        c.updateLedger op.childPeerID fun l =>
          let key := peerOpportunityKey att.tuple att.childSessionID att.parentSessionID
          let rank := endpointTransitionRank plan.endpointTransition
          let rank := match l.consumedCandidateOpportunities.get key with
            | some previous => min previous.rank rank
            | none => rank
          let entry : CandidateOpportunity := { rank, chargedAttempts := progress.current }
          { l with
            consumedCandidateOpportunities := l.consumedCandidateOpportunities.set key entry }
      | _, _ => { c with toCore := c.raise .nilDereference }

/-- The live attempt's NAT key and progress, when it belongs to the child. -/
def currentPeerOpportunity (childPeerID : ID) : Option (String × ConnectionAttemptProgress) :=
  match c.operation with
  | none => none
  | some op =>
    if op.childPeerID ≠ childPeerID then none
    else match op.current with
      | none => none
      | some att => att.connectionAttempt.map fun progress =>
          (peerOpportunityKey att.tuple att.childSessionID att.parentSessionID, progress)

/-- How often a direct connection was tried. -/
def peerAttemptsStarted (childPeerID parentPeerID : ID) : Int :=
  if !c.natPredictionEnabled then 0
  else match c.planCandidate childPeerID { kind := .peer, parentPeerID, transport := .direct } with
    | none => 0
    | some plan =>
      match c.participant childPeerID with
      | none => 0
      | some _ =>
        let key := c.candidateOpportunityBase childPeerID plan.tuple
        let charged := match (c.ledger childPeerID).consumedCandidateOpportunities.get key with
          | some opportunity =>
            if opportunity.rank ≤ endpointTransitionRank plan.endpointTransition then
              opportunity.chargedAttempts else 0
          | none => 0
        match c.currentPeerOpportunity childPeerID with
        | some (currentKey, progress) => if currentKey = key then progress.current else charged
        | none => charged

/-- The attempts over every peer key. -/
def viewerAttemptsStarted (peerID : ID) : Int :=
  if !c.natPredictionEnabled then 0
  else match c.participant peerID with
    | none => 0
    | some _ =>
      let consumed := (c.ledger peerID).consumedCandidateOpportunities
      let current := c.currentPeerOpportunity peerID
      let started := (consumed.entries.filter fun e => hasPrefix e.1 "peer:").map fun e =>
        match current with
        | some (key, progress) => if e.1 = key then progress.current else e.2.chargedAttempts
        | none => e.2.chargedAttempts
      started.sum + match current with
        | some (key, progress) => if consumed.has key then 0 else progress.current
        | none => 0

/-- `stablePairRank`: the first six bytes of the digest of both IDs. -/
def stablePairRank (childPeerID parentPeerID : ID) : ℕ :=
  Sha256.ofBytes ((Sha256.sum256
    ((childPeerID ++ "\x00" ++ parentPeerID).toUTF8.toList.map UInt8.toNat)).take 6)

/-! ## Candidate lists -/

/-- A parent that may be offered to the child. -/
def parentEligible (childPeerID : ID) (parent : Participant) : Bool :=
  parent.sessionID ≠ "" && !parent.departureConfirmed && parent.peerID ≠ childPeerID &&
    parent.peerID ∉ c.descendantsOf childPeerID && c.sourceUsable parent.peerID &&
    (!c.videoWorkEnabled || c.sourceVideoReady parent.peerID) &&
    c.voiceParentAllowed childPeerID parent.peerID && c.targetFits parent.peerID childPeerID

/-- The order of the eligible parents: untried attempts (when asked for), depth,
    remaining capacity descending, `stablePairRank`, participant order. -/
def parentLess (childPeerID : ID) (preferUntried : Bool) (left right : Participant) : Bool :=
  let attempts := if preferUntried then
    c.peerAttemptsStarted childPeerID left.peerID - c.peerAttemptsStarted childPeerID right.peerID
    else 0
  if attempts ≠ 0 then attempts < 0
  else
    let depth := c.depth left.peerID - c.depth right.peerID
    if depth ≠ 0 then depth < 0
    else
      let remaining := c.remaining right.peerID childPeerID - c.remaining left.peerID childPeerID
      if remaining ≠ 0 then remaining < 0
      else
        let rank : Int :=
          stablePairRank childPeerID left.peerID - stablePairRank childPeerID right.peerID
        if rank ≠ 0 then rank < 0 else Core.participantLess left right

/-- The candidate through the SFU, if there can be one. -/
def sfuCandidate (childPeerID : ID) : Option CandidateTuple :=
  if !c.allowsIncoming childPeerID .sfu then none
  else if c.publicationReady then some { kind := .sfu, publication := .reuse }
  else if c.hostPublication.isSome then some { kind := .sfu, publication := .replace }
  else if c.publicationFits childPeerID false then some { kind := .sfu, publication := .create }
  else none

/-- Keep the first tuple of each key. -/
def dedupeTuples : List String → List CandidateTuple → List CandidateTuple
  | _, [] => []
  | seen, t :: ts =>
    if tupleKey t ∈ seen then dedupeTuples seen ts
    else t :: dedupeTuples (tupleKey t :: seen) ts

/-- The candidates of a viewer in the order in which they are tried. -/
def buildCandidatePlans (childPeerID : ID) (sfuOnly preferUntried : Bool) : List CandidatePlan :=
  let parents := (c.participants.values.filter (c.parentEligible childPeerID)).sortStable
    (c.parentLess childPeerID preferUntried)
  let directCandidates : List CandidateTuple :=
    parents.map fun parent => { kind := .peer, parentPeerID := parent.peerID, transport := .direct }
  let candidates : List CandidateTuple :=
    if sfuOnly || !c.allowsIncoming childPeerID .peer then (c.sfuCandidate childPeerID).toList
    else match c.sfuCandidate childPeerID, directCandidates with
      | some sfu, first :: rest => first :: sfu :: rest
      | some sfu, [] => [sfu]
      | none, direct => direct
  (dedupeTuples [] candidates).filterMap fun tuple =>
    match c.planCandidate childPeerID tuple with
    | some plan => if c.candidateValid childPeerID plan none then some plan else none
    | none => none

/-- Move the first element that satisfies `p` to the front. -/
def moveToFront {α : Type} (p : α → Bool) (l : List α) : List α :=
  match l.find? p with
  | none => l
  | some a => a :: l.eraseP p

/-- The plan list filtered by the availability ledger.  Once every eligible
    peer has been tried, an unconsumed SFU opportunity precedes another retry. -/
def buildCandidates (childPeerID : ID) (sfuOnly : Bool) : List CandidatePlan :=
  let out := (c.buildCandidatePlans childPeerID sfuOnly true).filter
    (c.candidateOpportunityAvailable childPeerID)
  match out with
  | first :: _ :: _ =>
    if first.tuple.kind == .peer && c.peerAttemptsStarted childPeerID first.tuple.parentPeerID > 0
    then moveToFront (fun plan => plan.tuple.kind == .sfu) out
    else out
  | _ => out

/-- The viewer has tried everything. -/
def participantBlocked (current : Participant) : Bool :=
  (c.ledger current.peerID).availabilityExhausted && (c.buildCandidates current.peerID false).isEmpty

/-- The viewers that can be served, in order. -/
def availableViewers (includeBlocked : Bool) : List Participant :=
  (c.participants.values.filter fun current =>
    current.role == .viewer && current.sessionID ≠ "" && !current.departureConfirmed &&
      (includeBlocked || !c.participantBlocked current)).sortStable Core.participantLess

/-- Parents in participant order, each one's overflowing children newest first. -/
def overflowChildren : List ID :=
  c.participants.values.flatMap fun parent =>
    ((c.overflowPeerChildren parent.peerID).filter fun id =>
      match c.participant id with
      | some child => child.sessionID ≠ "" && !child.departureConfirmed &&
          !c.participantBlocked child
      | none => false).reverse

/-- There is something left to try. -/
def hasRemainingAvailabilityOpportunity (op : Operation) : Bool :=
  isAvailabilityOperation op.reason && !(c.buildCandidates op.childPeerID false).isEmpty

/-! ## Consuming opportunities -/

/-- Exhaust the invalidated edge's exact tuple at rank 0.  A retained
    connection can fail after reauthentication: its old acquisition must not
    exhaust the replacement session's opportunity. -/
def consumeActiveEdgeOpportunity (childPeerID : ID) (e : CommittedEdge) : Controller :=
  let key := c.candidateOpportunityBase childPeerID { kind := e.kind, parentPeerID := e.parentPeerID }
  if e.opportunityKey ≠ key then c
  else c.updateLedger childPeerID fun l =>
    let charged := match l.consumedCandidateOpportunities.get key with
      | some previous => previous.chargedAttempts
      | none => 0
    let entry : CandidateOpportunity := { rank := 0, chargedAttempts := charged, exhausted := true }
    { l with consumedCandidateOpportunities := l.consumedCandidateOpportunities.set key entry }

/-- Consume only the visited prefix. -/
def consumeAvailabilityOperation (op : Operation) : Controller :=
  if !isAvailabilityOperation op.reason then c
  else (op.candidates.take (op.cursor + 1)).foldl (fun c plan =>
    if op.peerAttemptStarted && plan.tuple.kind == .peer then c
    else c.consumeCandidateOpportunity op.childPeerID plan) c

/-- The candidate under the cursor counts as tried. -/
def consumeCurrentCandidateOpportunity (op : Operation) : Controller :=
  if !isAvailabilityOperation op.reason && op.reason ≠ .directConvergence then c
  else match op.planAt op.cursor with
    | none => c
    | some plan =>
      let live := match op.current with
        | some att => att.connectionAttempt.isSome
        | none => false
      if live && plan.tuple.kind == .peer then c
      else c.consumeCandidateOpportunity op.childPeerID plan

/-- Keep the best (lowest) rank. -/
def consumeOpportunity (consumed : OMap String Int) (base : String) (rank : Int) :
    OMap String Int :=
  match consumed.get base with
  | some previous => if rank < previous then consumed.set base rank else consumed
  | none => consumed.set base rank

/-- The session of a peer changed: its own ledger and every key that names its
    old session are erased. -/
def clearOpportunitiesForSessionChange (peerID : ID) (role : Role) : Controller :=
  let c := c.updateLedger peerID fun l => { l with
    consumedCandidateOpportunities := .empty, availabilityExhausted := false
    bootstrapFailureReported := false }
  let parentPrefix := "peer:" ++ peerID ++ "\x00"
  let ledgers := c.ledgers.mapValues fun _ l => { l with
    consumedCandidateOpportunities := l.consumedCandidateOpportunities.filter fun key _ =>
      !(hasPrefix key parentPrefix || (role == .host && hasPrefix key sfuOpportunityPrefix))
    bootstrapFailureReported := if role == .host then false else l.bootstrapFailureReported }
  let consumed := match role with
    | .host => .empty
    | .viewer => c.consumedSfuBootstrapOpportunities.filter fun key _ =>
        !hasPrefix key (peerID ++ "\x00")
  { c with ledgers, consumedSfuBootstrapOpportunities := consumed }

/-- Nothing through the SFU counts as tried any more. -/
def clearSfuCandidateOpportunities : Controller :=
  { c with
    ledgers := c.ledgers.mapValues fun _ l => { l with
      consumedCandidateOpportunities := l.consumedCandidateOpportunities.filter fun key _ =>
        !hasPrefix key sfuOpportunityPrefix
      bootstrapFailureReported := false }
    consumedSfuBootstrapOpportunities := .empty }

@[simp] theorem consumeActiveEdgeOpportunity_toCore (p : ID) (e : CommittedEdge) :
    (c.consumeActiveEdgeOpportunity p e).toCore = c.toCore := by
  unfold consumeActiveEdgeOpportunity
  dsimp only
  split <;> simp

/-- A fold of steps that keep the core keeps it. -/
theorem foldl_toCore {α : Type} {f : Controller → α → Controller}
    (h : ∀ c a, (f c a).toCore = c.toCore) (l : List α) (c : Controller) :
    (l.foldl f c).toCore = c.toCore := by
  induction l generalizing c with
  | nil => rfl
  | cons a l ih => exact (ih _).trans (h c a)

@[simp] theorem consumeAvailabilityOperation_toCore (op : Operation) :
    (c.consumeAvailabilityOperation op).toCore = c.toCore := by
  unfold consumeAvailabilityOperation
  split
  · rfl
  · exact foldl_toCore (fun c a => by split <;> simp) _ _

@[simp] theorem consumeCurrentCandidateOpportunity_toCore (op : Operation) :
    (c.consumeCurrentCandidateOpportunity op).toCore = c.toCore := by
  unfold consumeCurrentCandidateOpportunity
  split
  · rfl
  · split
    · rfl
    · dsimp only
      split <;> split <;> simp

@[simp] theorem clearOpportunitiesForSessionChange_toCore (p : ID) (role : Role) :
    (c.clearOpportunitiesForSessionChange p role).toCore = c.toCore := by
  simp [clearOpportunitiesForSessionChange]

@[simp] theorem clearSfuCandidateOpportunities_toCore :
    c.clearSfuCandidateOpportunities.toCore = c.toCore := rfl

end Controller

end Piik.Route
