/-
  The core of the controller's state: the policy, the participants, the
  committed graph, the live operation, the retained direct parents and the
  revisions, and what is read off them (`route/graph.go`, `route/candidates.go`,
  `route/publication.go`, `route/voice.go`, `route/relay_volunteer.go`).

  The source's flat `Controller` is split in two: `Core` here, and the ledgers
  of the scheduler (`Controller`), which no decision of this file reads.

  A Go panic unwinds the call that raises it.  Here it is recorded in `fault`,
  the first one wins, and an exported call that leaves one behind has no other
  result: see `Call.run`.
-/
import Piik.Route.Api
import Piik.Lib.Walk

namespace Piik.Route

/-- The graph that is committed, with the operation under way and what it may charge. -/
structure Core where
  hostPeerID : ID
  endpointMediaCopyCapacity : Int
  operationTimeoutMs : Int
  sfuEnabled : Bool
  sfuOnly : Bool
  qualityConvergenceEnabled : Bool
  natPredictionEnabled : Bool
  participants : OMap ID Participant := .empty
  upstreamByViewer : OMap ID CommittedEdge := .empty
  hostPublication : Option HostPublication := none
  retiringPublicationGenerations : OMap ID Unit := .empty
  directContinuations : OMap ID DirectContinuation := .empty
  operation : Option Operation := none
  revision : Int := 0
  /-- The room's `RevisionSequence`, shared by its successive controllers. -/
  latest : Int := 0
  paused : Bool := false
  roomMedia : Bool := false
  voiceListeners : List ID := []
  videoGeneration : ID := ""
  videoPaused : Bool := false
  fault : Option Fault := none

/-- `withSelf` appends the peer itself unless the walk already reached it. -/
def withSelf (descendants : List ID) (peerID : ID) : List ID :=
  if peerID ∈ descendants then descendants else descendants ++ [peerID]

namespace Core

variable (c : Core)

/-- Record a panic; the first one unwinds the call. -/
def raise (f : Fault) : Core := { c with fault := c.fault <|> some f }

/-- The participant with this peer ID. -/
def participant (peerID : ID) : Option Participant := c.participants.get peerID

/-- The committed upstream of a viewer. -/
def edge (peerID : ID) : Option CommittedEdge := c.upstreamByViewer.get peerID

/-! ## Children -/

/-- Direct peer children in `upstreamByViewer` order. -/
def childrenOf (parentPeerID : ID) : List ID :=
  (c.upstreamByViewer.entries.filter fun e =>
    e.2.kind == .peer && e.2.parentPeerID == parentPeerID).map Prod.fst

/-- Depth-first, in visit order without duplicates.  Every node is pushed at
    most once, and only a child of an edge is pushed. -/
def descendantsOf (peerID : ID) : List ID :=
  Walk.collect c.childrenOf (c.upstreamByViewer.len + 1) [] [peerID]

/-- The children that a parent sends to. -/
def activeDirectChildren (parentPeerID : ID) : List ID :=
  (c.childrenOf parentPeerID).filter fun childPeerID =>
    match c.edge childPeerID with
    | some e => e.kind == .peer && e.usable && e.physicalActive
    | none => false

/-! ## Copies -/

/-- The viewers that the SFU sends to. -/
def sfuSubscriberCount : ℕ :=
  (c.upstreamByViewer.entries.filter fun e => e.2.kind == .sfu && e.2.physicalActive).length

/-- The SFU sends to somebody. -/
def hasSfuSubscribers : Bool := c.sfuSubscriberCount > 0

/-- The host sends to the SFU. -/
def publicationActive : Bool :=
  match c.hostPublication with
  | some p => p.physicalActive
  | none => false

/-- There is a publication that viewers can use. -/
def publicationReady : Bool :=
  match c.hostPublication with
  | some p => p.usable && p.physicalActive
  | none => false

/-- The publication is usable, active and of this generation. -/
def publicationServes (generation : ID) : Bool :=
  match c.hostPublication with
  | some p => p.usable && p.physicalActive && p.generation == generation
  | none => false

/-- The copies that an endpoint sends, that of the publication included. -/
def physicalCopies (peerID : ID) : Int :=
  let peers : ℕ := (c.upstreamByViewer.entries.filter fun e =>
    e.2.kind == .peer && e.2.parentPeerID == peerID && e.2.physicalActive).length
  peers + if peerID = c.hostPeerID ∧ c.publicationActive then 1 else 0

/-- The slots that are in use, reservations apart. -/
def usedSlots (peerID : ID) : Int := c.physicalCopies peerID

/-- The child's active peer edge already comes from this parent. -/
def alreadyChild (parentPeerID childPeerID : ID) : Bool :=
  match c.edge childPeerID with
  | some e => e.kind == .peer && e.parentPeerID == parentPeerID && e.physicalActive
  | none => false

/-- The child's active SFU edge is the publication's last subscription. -/
def lastSubscriber (childPeerID : ID) : Bool :=
  match c.edge childPeerID with
  | some e => e.kind == .sfu && e.physicalActive && c.sfuSubscriberCount == 1
  | none => false

/-- The source requires an existing parent. -/
def targetFits (parentPeerID childPeerID : ID) : Bool :=
  match c.participant parentPeerID with
  | none => false
  | some parent =>
    let slots := c.usedSlots parentPeerID
    let slots := if parent.role == .host && c.lastSubscriber childPeerID then slots - 1 else slots
    let slots := if c.alreadyChild parentPeerID childPeerID then slots else slots + 1
    slots ≤ parent.effectiveDownstreamCapacity

/-- The host has a slot for a publication, once the child has left it. -/
def publicationFits (childPeerID : ID) (replacing : Bool) : Bool :=
  let releasesHost := c.alreadyChild c.hostPeerID childPeerID
  let replacesPhysicalPublication := replacing && c.publicationActive
  let nextSlots := c.usedSlots c.hostPeerID
  let nextSlots := if releasesHost then nextSlots - 1 else nextSlots
  let nextSlots := if replacesPhysicalPublication then nextSlots else nextSlots + 1
  match c.participant c.hostPeerID with
  | none => false
  | some host => host.sessionID ≠ "" && !host.departureConfirmed &&
      nextSlots ≤ host.effectiveDownstreamCapacity

/-- The host has a slot for a publication as things are. -/
def hostHasPublicationSlot : Bool :=
  match c.participant c.hostPeerID with
  | none => false
  | some host => c.usedSlots c.hostPeerID + 1 ≤ host.effectiveDownstreamCapacity

/-- May be negative; the parent must exist. -/
def remaining (parentPeerID childPeerID : ID) : Int :=
  match c.participant parentPeerID with
  | none => 0
  | some parent =>
    let value := parent.effectiveDownstreamCapacity - c.usedSlots parentPeerID
    if c.alreadyChild parentPeerID childPeerID then value else value - 1

/-! ## Paths -/

/-- The fuel of a walk along the parents: only a child of an edge is left. -/
def pathFuel : ℕ := c.upstreamByViewer.len + 1

/-- The depth above a peer, out of range on a cycle. -/
def depthFrom : ℕ → List ID → Int → ID → Int
  | 0, _, _, _ => maxSafeInteger
  | n + 1, seen, depth, peerID =>
    if peerID ∈ seen then maxSafeInteger
    else match c.edge peerID with
      | none => depth + 1
      | some e =>
        if e.kind == .sfu then depth + 1
        else if e.parentPeerID = c.hostPeerID then depth + 1
        else depthFrom n (peerID :: seen) (depth + 1) e.parentPeerID

/-- `depth` yields `maxSafeInteger` on a cycle. -/
def depth (peerID : ID) : Int :=
  if peerID = c.hostPeerID then 1 else c.depthFrom c.pathFuel [] 1 peerID

/-- One hop of `sourceUsable`. -/
def sourceStep (peerID : ID) : Bool ⊕ ID :=
  match c.edge peerID with
  | none => .inl false
  | some e =>
    if !e.usable || !e.physicalActive then .inl false
    else if e.kind == .sfu then .inl (c.publicationServes e.publicationGeneration)
    else if e.parentPeerID = c.hostPeerID then .inl true
    else .inr e.parentPeerID

/-- The whole upstream path is usable and active. -/
def sourceUsable (peerID : ID) : Bool :=
  peerID = c.hostPeerID || Walk.walk c.sourceStep false c.pathFuel [] peerID

/-- There is a picture to be routed. -/
def videoWorkEnabled : Bool := !c.roomMedia || (c.videoGeneration ≠ "" && !c.videoPaused)

/-- The picture that an edge must carry, if any. -/
def requiredVideoGeneration : ID :=
  if c.roomMedia && c.videoWorkEnabled then c.videoGeneration else ""

/-- The walk of `SourceVideoReady`, which has no visited set of its own: it
    runs below `sourceUsable`, so every node but the Host has an edge. -/
def videoStep (peerID : ID) : Bool ⊕ ID :=
  if peerID = c.hostPeerID then .inl true
  else match c.edge peerID with
    | none => .inl false
    | some e =>
      if !e.videoReady || (c.roomMedia && e.videoGeneration ≠ c.videoGeneration) then .inl false
      else if e.kind == .sfu then .inl true
      else .inr e.parentPeerID

/-- `SourceVideoReady` proves the current picture path. -/
def sourceVideoReady (peerID : ID) : Bool :=
  c.sourceUsable peerID && !(c.roomMedia && c.videoGeneration == "") &&
    Walk.walk c.videoStep false c.pathFuel [] peerID

/-- One hop of `voiceSourceUsable`. -/
def voiceStep (peerID : ID) : Bool ⊕ ID :=
  if peerID ∉ c.voiceListeners then .inl false
  else match c.participant peerID with
    | none => .inl false
    | some p =>
      if p.sessionID = "" || p.departureConfirmed then .inl false
      else if peerID = c.hostPeerID then .inl true
      else match c.edge peerID with
        | none => .inl false
        | some e =>
          if !e.usable || !e.physicalActive then .inl false
          else if e.kind == .sfu then .inl (c.publicationServes e.publicationGeneration)
          else .inr e.parentPeerID

/-- The permitted path ends at the listening Host or the admitted SFU junction. -/
def voiceSourceUsable (peerID : ID) : Bool := Walk.walk c.voiceStep false c.pathFuel [] peerID

/-- The parent can hand on voice, where the child listens. -/
def voiceParentAllowed (childPeerID parentPeerID : ID) : Bool :=
  childPeerID ∉ c.voiceListeners || c.voiceSourceUsable parentPeerID

/-- The viewer listens and its upstream has no voice. -/
def voiceRouteMissing (peerID : ID) : Bool :=
  peerID ∈ c.voiceListeners && !c.voiceSourceUsable peerID

/-! ## Policy -/

/-- `AllowsViewerRoutePreference`. -/
def allowsViewerRoutePreference (preference : ViewerRoutePreference) : Bool :=
  (preference ≠ .sfu || c.sfuEnabled) && (preference ≠ .peer || !c.sfuOnly)

/-- The viewer's preference admits an upstream of the kind. -/
def allowsIncoming (childPeerID : ID) (kind : UpstreamKind) : Bool :=
  let preference := (c.participant childPeerID).map Participant.routePreference
  match kind with
  | .sfu => c.sfuEnabled && preference ≠ some .peer
  | .peer => !c.sfuOnly && preference ≠ some .sfu

/-- The limit of copies during a transition. -/
def transitionCopyLimit (producer : Participant) : Int :=
  let limit := c.endpointMediaCopyCapacity + 1
  let limit := if producer.relayVolunteer then
    max limit (producer.effectiveDownstreamCapacity + 1) else limit
  -- Published backends reporting at most three copies cannot reserve a fourth.
  let physicalLimit := if producer.reportedDownstreamCapacity > maxEndpointMediaCopyCapacity then
    producer.reportedDownstreamCapacity + 1 else maxEndpointMediaCopyCapacity
  min limit physicalLimit

/-- `effectiveCapacity` clamps a reported value; a negative or unsafe one
    panics. -/
def effectiveCapacity (value : Int) (volunteer : Bool) : Int :=
  min value (if volunteer then maxRelayVolunteerChildren else c.endpointMediaCopyCapacity)

/-- Out of the range of a capacity. -/
def capacityInvalid (value : Int) : Bool := value < 0 || value > maxSafeInteger

/-- `compareParticipant(left, right) < 0`. -/
def participantLess (left right : Participant) : Bool :=
  if left.joinOrder ≠ right.joinOrder then left.joinOrder < right.joinOrder
  else left.peerID < right.peerID

/-- `compareParticipant` on the peers' records. -/
def peerLess (left right : ID) : Bool :=
  match c.participant left, c.participant right with
  | some l, some r => participantLess l r
  | _, _ => false

/-- The oldest physically active direct children stay within the parent's
    capacity; this is the overflow. -/
def overflowPeerChildren (parentPeerID : ID) : List ID :=
  match c.participant parentPeerID with
  | none => []
  | some parent =>
    let publicationCopies := if parent.role == .host && c.publicationActive then 1 else 0
    let capacity := max 0 (parent.effectiveDownstreamCapacity - publicationCopies)
    let children := ((c.childrenOf parentPeerID).filter fun id =>
      match c.edge id with
      | some e => e.kind == .peer && e.physicalActive
      | none => false).sortStable c.peerLess
    children.drop capacity.toNat

/-- A relay's subtree is kept while it repairs its ingress; once that ingress
    is retired, its direct children need their own handoff. -/
def parentRouteRetired (e : CommittedEdge) : Bool :=
  if e.kind ≠ .peer || e.parentPeerID == c.hostPeerID then false
  else match c.edge e.parentPeerID with
    | some parentEdge => !parentEdge.physicalActive
    | none => false

/-- The parent of the edge has left for good. -/
def parentDeparted (e : CommittedEdge) : Bool :=
  match c.participant e.parentPeerID with
  | some parent => parent.departureConfirmed
  | none => false

/-- The edge cannot stay. -/
def edgeRequiresMove (childPeerID : ID) (e : CommittedEdge) : Bool :=
  if !e.usable || !e.physicalActive || !c.allowsIncoming childPeerID e.kind ||
      c.parentRouteRetired e then true
  else if e.kind == .sfu then !c.publicationServes e.publicationGeneration
  else c.parentDeparted e || (c.overflowPeerChildren e.parentPeerID).contains childPeerID

/-- The host sends to this viewer. -/
def isActiveHostRoot (peerID : ID) : Bool :=
  match c.edge peerID with
  | some e => e.kind == .peer && e.parentPeerID == c.hostPeerID && e.usable && e.physicalActive
  | none => false

/-! ## Plans -/

/-- What the producer gives up to have a slot. -/
def retirementFor (childPeerID producerPeerID : ID) (tuple : CandidateTuple) :
    Option EndpointRetirement :=
  match c.edge childPeerID with
  | some old =>
    if old.kind == .peer && old.parentPeerID == producerPeerID && old.physicalActive then
      some { kind := .edge, childPeerID, childSessionID := old.childSessionID
             parentPeerID := old.parentPeerID, parentSessionID := old.parentSessionID
             transport := old.transport, connectionID := old.connectionID }
    else publicationRetirement (tuple.kind == .peer && old.kind == .sfu && old.physicalActive &&
      c.sfuSubscriberCount == 1)
  | none => publicationRetirement false
where
  publicationRetirement (releasesLastPublication : Bool) : Option EndpointRetirement :=
    match c.hostPublication with
    | none => none
    | some p =>
      if producerPeerID ≠ c.hostPeerID || !p.physicalActive then none
      else if !(tuple.kind == .sfu && tuple.publication == .replace) && !releasesLastPublication
      then none
      else some { kind := .publication, hostSessionID := p.hostSessionID
                  generation := p.generation, connectionID := p.connectionID }

/-- None, overlap or bounded gap, from the producer's copy budget; nothing when
    the producer is gone or over budget. -/
def planCandidate (childPeerID : ID) (tuple : CandidateTuple) : Option CandidatePlan :=
  if tuple.kind == .sfu && tuple.publication == .reuse then
    some { tuple, endpointTransition := { kind := .none } }
  else
    let producerPeerID := if tuple.kind == .peer then tuple.parentPeerID else c.hostPeerID
    match c.participant producerPeerID with
    | none => none
    | some producer =>
      if producer.sessionID = "" || producer.departureConfirmed then none
      else
        let copies := c.physicalCopies producerPeerID
        if copies + 1 ≤ producer.effectiveDownstreamCapacity then
          some { tuple, endpointTransition := { kind := .none, producerPeerID } }
        else if copies + 1 ≤ c.transitionCopyLimit producer then
          some { tuple, endpointTransition := { kind := .overlap, producerPeerID } }
        else match c.retirementFor childPeerID producerPeerID tuple with
          | none => none
          | some retire =>
            if copies > producer.effectiveDownstreamCapacity then none
            else some { tuple, endpointTransition :=
              { kind := .boundedGap, producerPeerID, retire } }

end Core

/-- The text that a candidate is remembered by. -/
def tupleKey (tuple : CandidateTuple) : String :=
  match tuple.kind with
  | .peer => "peer:" ++ tuple.parentPeerID ++ if tuple.regenerate then ":regenerate" else ""
  | .sfu => "sfu:" ++ match tuple.publication with
    | .unset => "" | .reuse => "reuse" | .create => "create" | .replace => "replace"

/-- The candidate that an edge came from, by its key. -/
def edgeTupleKey (e : CommittedEdge) : String :=
  match e.kind with
  | .peer => "peer:" ++ e.parentPeerID
  | .sfu => "sfu:reuse"

/-- The larger the rank, the more a change of the endpoints disturbs. -/
def endpointTransitionRank (transition : EndpointTransition) : Int :=
  match transition.kind with
  | .none => 0
  | .overlap => 1
  | .boundedGap => 2

/-- An absent producer is distinct from every peer. -/
def endpointTransitionEquals (left right : EndpointTransition) : Bool :=
  left.kind == right.kind && left.producerPeerID == right.producerPeerID &&
    (left.kind ≠ .boundedGap ||
      match left.retire, right.retire with
      | some l, some r => l.kind == r.kind && match l.kind with
        | .publication => l.hostSessionID == r.hostSessionID && l.generation == r.generation &&
            l.connectionID == r.connectionID
        | .edge => l.childPeerID == r.childPeerID && l.childSessionID == r.childSessionID &&
            l.parentPeerID == r.parentPeerID && l.parentSessionID == r.parentSessionID &&
            l.transport == r.transport && l.connectionID == r.connectionID
      | _, _ => false)

/-- The same candidate with the same change of the endpoints. -/
def candidatePlanEquals (left right : CandidatePlan) : Bool :=
  tupleKey left.tuple == tupleKey right.tuple &&
    endpointTransitionEquals left.endpointTransition right.endpointTransition

namespace Core

variable (c : Core)

/-- The peer half of `candidateValid`. -/
def peerCandidateValid (childPeerID : ID) (tuple : CandidateTuple) (att : Option Attempt) : Bool :=
  match c.participant tuple.parentPeerID with
  | none => false
  | some parent =>
    !c.sfuOnly && parent.sessionID ≠ "" && !parent.departureConfirmed &&
      (match att with
        | some a => parent.sessionID == a.parentSessionID
        | none => true) &&
      parent.peerID ∉ c.descendantsOf childPeerID && c.sourceUsable parent.peerID &&
      !(c.videoWorkEnabled && !c.sourceVideoReady parent.peerID) &&
      c.voiceParentAllowed childPeerID parent.peerID && c.targetFits parent.peerID childPeerID

/-- The SFU half of `candidateValid`. -/
def sfuCandidateValid (childPeerID : ID) (tuple : CandidateTuple) (att : Option Attempt) : Bool :=
  c.sfuEnabled &&
    (match att with
      | some a => a.hostSessionID == "" || match c.participant c.hostPeerID with
        | some host => host.sessionIs a.hostSessionID
        | none => false
      | none => true) &&
    match tuple.publication with
    | .reuse => (match c.hostPublication with
      | some p => p.usable && p.physicalActive && (match att with
        | some a => a.publicationGeneration == p.generation
        | none => true)
      | none => false)
    | .replace => (match c.hostPublication with
      | some p => !p.usable && c.publicationFits childPeerID true
      | none => false)
    | _ => c.hostPublication.isNone && c.publicationFits childPeerID false

/-- `candidateValid` receives `att` when validating a live attempt. -/
def candidateValid (childPeerID : ID) (plan : CandidatePlan) (att : Option Attempt) : Bool :=
  c.allowsIncoming childPeerID plan.tuple.kind &&
    (match c.participant childPeerID with
      | some child => child.sessionID ≠ "" && !child.departureConfirmed && (match att with
        | some a => a.childSessionID == child.sessionID
        | none => true)
      | none => false) &&
    (match plan.tuple.kind with
      | .peer => c.peerCandidateValid childPeerID plan.tuple att
      | .sfu => c.sfuCandidateValid childPeerID plan.tuple att) &&
    match c.planCandidate childPeerID plan.tuple with
    | some currentPlan => endpointTransitionEquals currentPlan.endpointTransition plan.endpointTransition
    | none => false

/-! ## The final route -/

/-- The route that a viewer has. -/
def currentFinalRoute (childPeerID : ID) : FinalRoute :=
  match c.edge childPeerID with
  | none => .waiting
  | some e =>
    if !e.usable || !e.physicalActive then .waiting
    else match e.kind with
      | .peer => if c.sourceUsable e.parentPeerID then .direct else .waiting
      | .sfu => if c.publicationServes e.publicationGeneration then .sfu else .waiting

/-- The viewer has a route. -/
def usableRoute (childPeerID : ID) : Bool := c.currentFinalRoute childPeerID ≠ .waiting

/-- Why a viewer needs a route. -/
def routeDemandReason (childPeerID : ID) : DemandReason :=
  match c.edge childPeerID with
  | none => .join
  | some e =>
    if e.kind == .peer && c.parentDeparted e then .parentDeparted
    else if e.kind == .peer && (c.overflowPeerChildren e.parentPeerID).contains childPeerID then
      .capacityReduction
    else .edgeUnavailable

end Core

/-! ## Opportunity keys -/

/-- `strings.HasPrefix`. -/
def hasPrefix (s p : String) : Bool := p.toList.isPrefixOf s.toList

/-- The keys of candidates through the SFU start with this. -/
def sfuOpportunityPrefix : String := "sfu\x00"

/-- The key under which a direct candidate is remembered: it dies with either session. -/
def peerOpportunityKey (tuple : CandidateTuple) (childSessionID parentSessionID : ID) : String :=
  tupleKey tuple ++ "\x00" ++ childSessionID ++ "\x00" ++ parentSessionID

namespace Core

variable (c : Core)

/-- The session of a peer, if it has one. -/
def sessionOf (peerID : ID) : ID :=
  match c.participant peerID with
  | some p => p.sessionID
  | none => ""

/-- The NUL-joined ledger key; a session change erases it. -/
def candidateOpportunityBase (childPeerID : ID) (tuple : CandidateTuple) : String :=
  match tuple.kind with
  | .peer => peerOpportunityKey tuple (c.sessionOf childPeerID) (c.sessionOf tuple.parentPeerID)
  | .sfu => sfuOpportunityPrefix ++ c.sessionOf childPeerID ++ "\x00" ++ c.sessionOf c.hostPeerID

end Core

/-- `reservationResources` in order: edge (never for a borrowed reuse edge,
    which belongs to another holder), publication, overlap. -/
def reservationResources (reservation : CandidateReservation) : List Resource :=
  (if reservation.kind = .sfuCreate ∨ (reservation.kind = .sfuReuse ∧ !reservation.borrowed) then
      reservation.edge.toList else []) ++
    (if reservation.kind = .sfuCreate then reservation.publication.toList else []) ++
    reservation.overlap.toList

end Piik.Route
