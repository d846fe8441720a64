/-
  Quality evidence (`route/quality.go`): the observations of receivers and
  senders, the states derived from them, and the candidates of a quality
  operation.  The evidence calls that settle a live candidate are with the
  operation (`Evidence`).
-/
import Piik.Route.Controller

namespace Piik.Route

namespace Core

variable (c : Core)

/-- The connection whose media is judged. -/
def qualityConnectionID (e : CommittedEdge) : ID :=
  if c.roomMedia then
    if c.videoGeneration ≠ "" ∧ e.videoGeneration = c.videoGeneration then e.videoConnectionID
    else ""
  else e.connectionID

/-- The upstream of an edge is there to be judged. -/
def sourceUsableForQuality (e : CommittedEdge) : Bool :=
  match e.kind with
  | .peer => (match c.participant e.parentPeerID with
    | some parent => parent.sessionIs e.parentSessionID && c.sourceUsable e.parentPeerID
    | none => false)
  | .sfu => c.publicationServes e.publicationGeneration

end Core

/-- The upstream a receiver-side window was measured on. -/
structure QualityUpstream where
  kind : UpstreamKind
  peerID : ID := ""
  deriving DecidableEq, Repr

/-- The evidence is about the upstream of this edge. -/
def qualityUpstreamMatches (e : CommittedEdge) (upstream : QualityUpstream) : Bool :=
  match e.kind with
  | .peer => upstream.kind == .peer && upstream.peerID == e.parentPeerID
  | .sfu => upstream.kind == .sfu

/-- The observation is about the upstream of this edge. -/
def qualityObservationMatchesEdge (o : RouteQualityObservation) (e : CommittedEdge) : Bool :=
  match e.kind with
  | .peer => o.upstreamKind == .peer && o.upstreamPeerID == e.parentPeerID
  | .sfu => o.upstreamKind == .sfu && o.upstreamPeerID == ""

/-- Ignore invalid rounded deltas and saturate at the wire integer bound. -/
def safeAdd (total : Int) (delta : Rat) : Int :=
  let value := Rat.floor (delta + 1 / 2)
  if value < 0 || value > maxSafeInteger then total
  else if value > maxSafeInteger - total then maxSafeInteger
  else total + value

namespace Controller

variable (c : Controller)

/-! ## Clearing -/

/-- Forget one child's evidence; a child with an edge must prove a new baseline. -/
def clearQualityOf (childPeerID : ID) : Controller :=
  let has := c.upstreamByViewer.has childPeerID
  { c with
    qualityObservations := c.qualityObservations.delete childPeerID
    senderQualityObservations := c.senderQualityObservations.delete childPeerID
    senderQualityRegenerationBlocks := c.senderQualityRegenerationBlocks.delete childPeerID
    qualityBaselinesPending := if has then c.qualityBaselinesPending.set childPeerID ()
      else c.qualityBaselinesPending.delete childPeerID
    senderQualityBaselines := if has then c.senderQualityBaselines.set childPeerID true
      else c.senderQualityBaselines.delete childPeerID }

/-- Every child for the Host; a viewer's subtree and itself otherwise. -/
def clearQualityForParticipant (peerID : ID) : Controller :=
  let affected := if peerID = c.hostPeerID then c.upstreamByViewer.keys
    else withSelf (c.descendantsOf peerID) peerID
  affected.foldl clearQualityOf c

/-- A participant and all below it must be observed anew. -/
def requireSenderQualityBaseline (peerID : ID) (suppressFact : Bool) : Controller :=
  (withSelf (c.descendantsOf peerID) peerID).foldl (fun c childPeerID =>
    if c.upstreamByViewer.has childPeerID then
      { c with
        senderQualityObservations := c.senderQualityObservations.delete childPeerID
        senderQualityBaselines := c.senderQualityBaselines.set childPeerID
          (suppressFact || c.senderQualityBaselines.get childPeerID == some true) }
    else c) c

/-- Nothing that was observed through the SFU counts any more. -/
def clearSfuQuality : Controller :=
  let c := { c with sfuPublisherQualityObservation := none }
  (c.upstreamByViewer.entries.filter fun e => e.2.kind == .sfu).foldl
    (fun c e => c.clearQualityForParticipant e.1) c

/-- Drop every observation, baseline and latch. -/
def clearAllQuality : Controller :=
  { c with
    qualityObservations := .empty, qualityBaselinesPending := .empty
    senderQualityObservations := .empty, senderQualityBaselines := .empty
    senderQualityRegenerationBlocks := .empty, sfuPublisherQualityObservation := none }

/-- The children of a producer lose their sender samples and must prove a new
    baseline. -/
def resetSenderBaselines (children : List ID) : Controller :=
  children.foldl (fun c childPeerID => { c with
    senderQualityObservations := c.senderQualityObservations.delete childPeerID
    senderQualityBaselines := c.senderQualityBaselines.set childPeerID true }) c

@[simp] theorem clearQualityForParticipant_toCore (p : ID) :
    (c.clearQualityForParticipant p).toCore = c.toCore := by
  unfold clearQualityForParticipant
  apply foldl_toCore
  intro d a
  rfl

@[simp] theorem requireSenderQualityBaseline_toCore (p : ID) (b : Bool) :
    (c.requireSenderQualityBaseline p b).toCore = c.toCore := by
  unfold requireSenderQualityBaseline; exact foldl_toCore (fun _ _ => by split <;> rfl) _ _

@[simp] theorem clearSfuQuality_toCore : c.clearSfuQuality.toCore = c.toCore := by
  unfold clearSfuQuality; exact (foldl_toCore (fun _ _ => by simp) _ _).trans rfl

@[simp] theorem clearAllQuality_toCore : c.clearAllQuality.toCore = c.toCore := rfl

@[simp] theorem resetSenderBaselines_toCore (l : List ID) :
    (c.resetSenderBaselines l).toCore = c.toCore := by
  unfold resetSenderBaselines
  apply foldl_toCore
  intro d a
  rfl

/-! ## Derived states -/

/-- What is known of the sender on an edge. A healthy state needs a fresh observation. -/
def senderQualityState (childPeerID : ID) (e : CommittedEdge) (nowMs : Int) : SenderQualityState :=
  match e.kind with
  | .sfu => if c.sourceUsableForQuality e then .healthy else .unknown
  | .peer =>
    match c.senderQualityObservations.get childPeerID, c.participant childPeerID with
    | some o, some child =>
      if nowMs < o.lastAcceptedAtMs + qualityEvidenceExpiryMs && child.sessionIs o.childSessionID &&
          e.childSessionID == o.childSessionID && e.parentPeerID == o.parentPeerID &&
          e.parentSessionID == o.parentSessionID && c.qualityConnectionID e == o.connectionID &&
          c.sourceUsableForQuality e
      then o.state else .unknown
    | _, _ => .unknown

/-- The sender that an observation of a child is about, while it is the present one. -/
def currentQualityOperationSource (childPeerID : ID) : Option SenderQualityIdentity :=
  match c.participant childPeerID, c.edge childPeerID, c.senderQualityObservations.get childPeerID with
  | some child, some e, some o =>
    if child.sessionID = "" || e.kind ≠ .peer || o.childSessionID ≠ child.sessionID ||
        o.childSessionID ≠ e.childSessionID || o.parentPeerID ≠ e.parentPeerID ||
        o.parentSessionID ≠ e.parentSessionID || o.connectionID ≠ c.qualityConnectionID e
    then none
    else some { childSessionID := o.childSessionID, parentPeerID := o.parentPeerID
                parentSessionID := o.parentSessionID, connectionID := o.connectionID
                senderIdentity := o.senderIdentity }
  | _, _, _ => none

/-- The observation of an operation's source, while that is the present one. -/
def currentQualityOperationObservation (op : Operation) : Option SenderQualityObservation :=
  match op.qualitySource, c.currentQualityOperationSource op.childPeerID with
  | some source, some current =>
    if source = current then c.senderQualityObservations.get op.childPeerID else none
  | _, _ => none

/-- A latch of another sender, connection or edge is dropped on sight. -/
def senderQualityRegenerationBlocked (childPeerID : ID) (e : CommittedEdge) : Bool × Controller :=
  match c.senderQualityRegenerationBlocks.get childPeerID with
  | none => (false, c)
  | some block =>
    let dropped := { c with
      senderQualityRegenerationBlocks := c.senderQualityRegenerationBlocks.delete childPeerID }
    let otherSender : Bool := match c.senderQualityObservations.get childPeerID with
      | some o => o.senderIdentity ≠ block.senderIdentity
      | none => false
    if otherSender then (false, dropped)
    else if block.childSessionID ≠ e.childSessionID || block.parentPeerID ≠ e.parentPeerID ||
        block.parentSessionID ≠ e.parentSessionID || block.connectionID ≠ c.qualityConnectionID e
    then (false, dropped)
    else (true, c)

/-- The candidate has been degraded for enough windows, and that is fresh. -/
def candidateSenderPersistentlyDegraded (att : Attempt) (nowMs : Int) : Bool :=
  att.senderQualityState == .degraded && (match att.senderQualityAcceptedAtMs with
    | some accepted => nowMs < accepted + qualityEvidenceExpiryMs
    | none => false) &&
    att.senderQualityConsecutiveDegradedWindows ≥ persistentDegradedWindows

/-- What is known of the host's publication at the SFU. -/
def sfuPublisherQualityState (publicationGeneration : ID) (nowMs : Int) : SenderQualityState :=
  match c.sfuPublisherQualityObservation, c.hostPublication with
  | some o, some p =>
    if o.publicationGeneration == publicationGeneration && o.hostSessionID == p.hostSessionID &&
        nowMs < o.lastAcceptedAtMs + qualityEvidenceExpiryMs then
      if o.state == .healthy && o.consecutiveHealthyWindows < persistentDegradedWindows then .unknown
      else o.state
    else .unknown
  | _, _ => .unknown

/-- The child has decoded pictures lately. -/
def decodedProgressFresh (childPeerID : ID) (e : CommittedEdge) (nowMs : Int) : Bool :=
  match c.qualityObservations.get childPeerID, c.participant childPeerID with
  | some o, some current => (match o.lastDecodedProgressAtMs with
      | some at' => nowMs < at' + qualityEvidenceExpiryMs
      | none => false) &&
      current.sessionIs o.childSessionID && e.childSessionID == o.childSessionID &&
      c.qualityConnectionID e == o.connectionID && qualityObservationMatchesEdge o e &&
      c.sourceUsableForQuality e
  | _, _ => false

/-- One edge of the way to the host: an answer, or the parent to go on with. -/
def qualityPathStep (nowMs : Int) (peerID : ID) : Bool ⊕ ID :=
  match c.edge peerID with
  | none => .inl false
  | some e =>
    if !e.usable || !e.physicalActive then .inl false
    else if e.kind == .sfu then .inl (c.sourceUsableForQuality e &&
      c.decodedProgressFresh peerID e nowMs &&
      c.sfuPublisherQualityState e.publicationGeneration nowMs == .healthy)
    else if c.senderQualityState peerID e nowMs ≠ .healthy then .inl false
    else if e.parentPeerID = c.hostPeerID then .inl true
    else .inr e.parentPeerID

/-- Every edge between the host and the peer is healthy. -/
def qualitySourcePathHealthy (peerID : ID) (nowMs : Int) : Bool :=
  peerID = c.hostPeerID || Walk.walk (c.qualityPathStep nowMs) false c.pathFuel [] peerID

/-- The sender on an edge has been degraded for enough windows. -/
def senderQualityPersistentlyDegraded (childPeerID : ID) (e : CommittedEdge) (nowMs : Int) : Bool :=
  c.senderQualityState childPeerID e nowMs == .degraded &&
    match c.senderQualityObservations.get childPeerID with
    | some o => o.consecutiveDegradedWindows ≥ persistentDegradedWindows
    | none => false

/-- At least two active direct children of the Host, all persistently degraded. -/
def hostFanoutNeedsSfuRelief (nowMs : Int) : Bool :=
  let fanout := c.upstreamByViewer.entries.filter fun e =>
    e.2.kind == .peer && e.2.parentPeerID == c.hostPeerID && e.2.usable && e.2.physicalActive
  fanout.all (fun e => c.senderQualityPersistentlyDegraded e.1 e.2 nowMs) && fanout.length ≥ 2

/-- The reason that a quality operation was begun for still holds. -/
def qualityOperationStillEligible (op : Operation) (nowMs : Int) : Bool :=
  match c.edge op.childPeerID, op.currentTuple, c.currentQualityOperationObservation op with
  | some currentEdge, some tuple, some _ =>
    if currentEdge.kind ≠ .peer then false
    else
      let state := c.senderQualityState op.childPeerID currentEdge nowMs
      if state == .healthy then false
      else tuple.kind == .peer || (state == .degraded && c.hostFanoutNeedsSfuRelief nowMs)
  | _, _, _ => false

/-! ## Candidates -/

/-- The candidate was not tried yet under the present observation. -/
def qualityCandidateOpportunityAvailable (childPeerID : ID) (plan : CandidatePlan) : Bool :=
  match c.senderQualityObservations.get childPeerID with
  | none => true
  | some o =>
    match o.consumedQualityCandidates.get (c.candidateOpportunityBase childPeerID plan.tuple) with
    | none => true
    | some consumed => endpointTransitionRank plan.endpointTransition < consumed

/-- The candidate counts as tried under the present observation. -/
def consumeQualityCandidateOpportunity (op : Operation) (plan : Option CandidatePlan) : Controller :=
  match plan with
  | none => c
  | some plan =>
    if op.reason ≠ .qualityConvergence then c
    else match c.currentQualityOperationObservation op with
      | none => c
      | some _ =>
        let base := c.candidateOpportunityBase op.childPeerID plan.tuple
        let rank := endpointTransitionRank plan.endpointTransition
        let consume (o : SenderQualityObservation) := { o with
          consumedQualityCandidates := consumeOpportunity o.consumedQualityCandidates base rank }
        { c with
          senderQualityObservations := c.senderQualityObservations.modify op.childPeerID consume }

/-- All candidates of an operation count as tried. -/
def consumeQualityOperationCandidates (op : Operation) : Controller :=
  op.candidates.foldl (fun c plan => c.consumeQualityCandidateOpportunity op (some plan)) c

/-- Clear peers, remaining peers, SFU (only under Host fanout relief),
    same-parent regeneration, filtered by the per-observation ledger. -/
def buildQualityCandidates (childPeerID : ID) (nowMs : Int) : List CandidatePlan × Controller :=
  match c.edge childPeerID with
  | none => ([], c)
  | some current =>
    if current.kind ≠ .peer then ([], c)
    else
      let candidates := (c.buildCandidatePlans childPeerID false false).filter fun candidate =>
        !(candidate.endpointTransition.kind == .boundedGap ||
          tupleKey candidate.tuple == edgeTupleKey current) &&
        (candidate.tuple.kind == .peer || candidate.tuple.publication ≠ .reuse ||
          match c.hostPublication with
          | some p => c.sfuPublisherQualityState p.generation nowMs == .healthy
          | none => false)
      let peers := candidates.filter fun candidate => candidate.tuple.kind == .peer
      let clearPeers := peers.filter fun candidate =>
        c.qualitySourcePathHealthy candidate.tuple.parentPeerID nowMs
      let remainingPeers := peers.filter fun candidate =>
        !c.qualitySourcePathHealthy candidate.tuple.parentPeerID nowMs
      let sfu := if current.parentPeerID == c.hostPeerID && c.hostFanoutNeedsSfuRelief nowMs then
        candidates.filter fun candidate => candidate.tuple.kind ≠ .peer else []
      let (blocked, c) := c.senderQualityRegenerationBlocked childPeerID current
      let regeneration := if blocked then [] else
        match c.planCandidate childPeerID { kind := .peer, parentPeerID := current.parentPeerID
                                            transport := .direct, regenerate := true } with
        | some plan =>
          if plan.endpointTransition.kind ≠ .boundedGap && c.candidateValid childPeerID plan none
          then [plan] else []
        | none => []
      ((clearPeers ++ remainingPeers ++ sfu ++ regeneration).filter
        (c.qualityCandidateOpportunityAvailable childPeerID), c)

/-- The shallowest persistently degraded viewer with a quality candidate. -/
def selectQualityChild (nowMs : Int) : Option ID × Controller :=
  if !c.qualityConvergenceEnabled then (none, c)
  else
    let (targets, c) := (c.availableViewers false).foldl (fun (targets, c) viewer =>
      match c.edge viewer.peerID with
      | none => (targets, c)
      | some e =>
        if e.kind == .peer && c.senderQualityBaselines.get viewer.peerID ≠ some true &&
            c.senderQualityPersistentlyDegraded viewer.peerID e nowMs then
          let (candidates, c) := c.buildQualityCandidates viewer.peerID nowMs
          (if candidates.isEmpty then targets else targets ++ [viewer], c)
        else (targets, c)) (([] : List Participant), c)
    let sorted := targets.sortStable fun left right =>
      let d := c.depth left.peerID - c.depth right.peerID
      if d ≠ 0 then d < 0 else Core.participantLess left right
    (sorted.head?.map Participant.peerID, c)

@[simp] theorem senderQualityRegenerationBlocked_toCore (p : ID) (e : CommittedEdge) :
    (c.senderQualityRegenerationBlocked p e).2.toCore = c.toCore := by
  unfold senderQualityRegenerationBlocked
  split
  · rfl
  · dsimp only
    split <;> split <;> first | rfl | (split <;> rfl)

@[simp] theorem consumeQualityCandidateOpportunity_toCore (op : Operation)
    (plan : Option CandidatePlan) :
    (c.consumeQualityCandidateOpportunity op plan).toCore = c.toCore := by
  unfold consumeQualityCandidateOpportunity
  split
  · rfl
  · split
    · rfl
    · split <;> rfl

@[simp] theorem consumeQualityOperationCandidates_toCore (op : Operation) :
    (c.consumeQualityOperationCandidates op).toCore = c.toCore := by
  unfold consumeQualityOperationCandidates; exact foldl_toCore (fun _ _ => by simp) _ _

@[simp] theorem buildQualityCandidates_toCore (p : ID) (now : Int) :
    (c.buildQualityCandidates p now).2.toCore = c.toCore := by
  unfold buildQualityCandidates
  split
  · rfl
  · split
    · rfl
    · exact c.senderQualityRegenerationBlocked_toCore _ _

@[simp] theorem selectQualityChild_toCore (now : Int) :
    (c.selectQualityChild now).2.toCore = c.toCore := by
  unfold selectQualityChild
  split
  · rfl
  · dsimp only
    generalize c.availableViewers false = viewers
    suffices h : ∀ (l : List Participant) (s : List Participant × Controller), s.2.toCore = c.toCore →
        (l.foldl _ s).2.toCore = c.toCore from h viewers ([], c) rfl
    intro l
    induction l with
    | nil => exact fun s h => h
    | cons viewer l ih =>
      intro s h
      refine ih _ ?_
      obtain ⟨targets, d⟩ := s
      dsimp only at h ⊢
      split
      · exact h
      · split
        · simpa using h
        · exact h

end Controller

end Piik.Route
