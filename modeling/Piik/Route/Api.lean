/-
  The data of the route controller (`route/api.go`, and the private records of
  `route/controller.go`).

  Identifiers are strings, and `""` is the absent one, as in the source.  A
  `*Resource` is compared by pointer identity only: `ptr` is the address.  An
  optional pointer is an `Option`, a Go string type with a fixed set of values
  an inductive type (`unset` is the zero value `""` where it can occur).
-/
import Piik.Lib.OMap

namespace Piik.Route

/-! ## Protocol constants -/

/-- The largest integer that a browser has exactly. -/
def maxSafeInteger : Int := 9007199254740991
/-- The last revision. -/
def maxMediaRouteRevision : Int := maxSafeInteger
/-- The largest viewer limit of a room. -/
def maxViewersPerRoomLimit : Int := 20
/-- The largest capacity of an endpoint. -/
def maxEndpointMediaCopyCapacity : Int := 3
/-- How long an observation counts. -/
def qualityEvidenceExpiryMs : Int := 5000
/-- The windows in a row that make a state persistent. -/
def persistentDegradedWindows : Int := 3
/-- The longest head start of direct candidates. -/
def maxDirectHeadStartMs : Int := 5000
/-- The most attempts at one direct connection. -/
def maxNatConnectionAttempts : Int := 4
/-- The steady fanout of a willing ordinary peer. -/
def maxRelayVolunteerChildren : Int := maxViewersPerRoomLimit

/-- Peers, sessions, connections and generations are named by strings. -/
abbrev ID := String

/-! ## Enumerations -/

/-- A participant's role. -/
inductive Role | host | viewer
  deriving DecidableEq, Repr

/-- The route that a viewer asks for. -/
inductive ViewerRoutePreference | unset | auto | peer | sfu
  deriving DecidableEq, Repr

/-- What is held while a route changes. -/
inductive ResourceKind | overlap | sfuSubscription | sfuPublication
  deriving DecidableEq, Repr

/-- A parent or the SFU. -/
inductive UpstreamKind | peer | sfu
  deriving DecidableEq, Repr

/-- How a direct candidate connects. -/
inductive Transport | unset | direct | sfu
  deriving DecidableEq, Repr

/-- What a candidate through the SFU does with the publication. -/
inductive PublicationPlan | unset | reuse | create | replace
  deriving DecidableEq, Repr

/-- What is reserved for a candidate. -/
inductive ReservationKind | unset | direct | sfuReuse | sfuCreate
  deriving DecidableEq, Repr

/-- What is retired for a candidate that has no slot left. -/
inductive RetirementKind | edge | publication
  deriving DecidableEq, Repr

/-- How the old route gives way to the new one. -/
inductive TransitionKind | none | overlap | boundedGap
  deriving DecidableEq, Repr

/-- What is known of a sender. -/
inductive SenderQualityState | unset | unknown | healthy | degraded
  deriving DecidableEq, Repr

/-- Why an operation was begun. -/
inductive DemandReason
  | join | edgeUnavailable | parentDeparted | capacityReduction | sfuBootstrap
  | directConvergence | qualityConvergence | rootConvergence | publicationAttach
  deriving DecidableEq, Repr

/-- How a viewer's search for a route came out. -/
inductive FinalRoute | direct | sfu | waiting | failed
  deriving DecidableEq, Repr

/-- Why the last candidate came to nothing. -/
inductive RejectionBucket
  | none | stale | endpointCapacity | sfuAdmission | candidateFailed
  | firstFrameTimeout | operationDeadline | aborted
  deriving DecidableEq, Repr

/-- What became of a piece of evidence. -/
inductive QualityEvidenceResult | rejected | accepted | observed
  deriving DecidableEq, Repr

/-- The panics of the package, in its own words. -/
inductive Fault
  | capacityPolicy            -- protocol.ErrEndpointMediaCopyCapacity
  | operationTimeout          -- "Route operation timeout must be a positive integer"
  | sfuOnlyWithoutSfu         -- "SFU-only routing requires SFU availability"
  | hostIdentityInconsistent  -- "Route Host identity is inconsistent"
  | roleCannotChange          -- "Route role cannot change"
  | hostIdentityCollides      -- "Route Host identity collides with another participant"
  | hostIdentityUnavailable   -- "Route Host identity is unavailable"
  | effectiveCapacityInvalid  -- "Effective capacity is invalid"
  | roomCapacityInvalid       -- "Room capacity is invalid"
  | revisionSpaceExhausted    -- "Media route revision space exhausted"
  | reservationKindMismatch   -- "Candidate reservation kind does not match tuple"
  | overlapRequired           -- "Candidate requires an endpoint overlap reservation"
  | generationRequired        -- "SFU candidate needs a publication generation"
  | ingressRequired           -- "SFU publication candidate needs an ingress connection identity"
  | parentSessionUnavailable  -- "Candidate parent session is unavailable"
  | publicationIdentity       -- "SFU publication identity is unavailable"
  | publicationHostStale      -- "SFU publication Host session is stale"
  | hostMissing               -- "Route Host is missing"
  | childNotViewer            -- "Route child must be a Viewer"
  | parentMissing             -- "Route parent is missing"
  | publicationStale          -- "SFU publication is stale"
  | retiringUnknown           -- "Retiring SFU publication is unknown"
  | cycle                     -- "Peer route contains a cycle"
  | notSourceReachable        -- "Route is not source-reachable"
  | unknownPublication        -- "Route terminates at an unknown SFU publication"
  | endpointCapacity          -- "Committed route exceeds endpoint capacity"
  | retiringWithoutAnchor     -- "Retiring SFU publication has no anchor"
  | nilDereference            -- a nil pointer dereference
  deriving DecidableEq, Repr

/-! ## Resources and reservations -/

/-- A caller-owned SFU or overlap allocation.  The controller stores it, moves
    it and compares it by `ptr`; only the router reads the other fields. -/
structure Resource where
  ptr : ℕ
  kind : ResourceKind := .overlap
  endpointPeerID : ID := ""
  roomID : ID := ""
  shareGeneration : ID := ""
  publicationGeneration : ID := ""
  viewerPeerID : ID := ""
  connectionID : ID := ""
  deriving DecidableEq, Repr

/-- A route candidate: a direct edge from `parentPeerID`, or an SFU edge. -/
structure CandidateTuple where
  kind : UpstreamKind
  parentPeerID : ID := ""
  transport : Transport := .unset
  regenerate : Bool := false
  publication : PublicationPlan := .unset
  deriving DecidableEq, Repr

/-- What the caller allocated before `beginCurrentCandidate`. -/
structure CandidateReservation where
  kind : ReservationKind := .unset
  edge : Option Resource := none
  publication : Option Resource := none
  borrowed : Bool := false
  overlap : Option Resource := none
  deriving DecidableEq, Repr

/-- The producer retirement a bounded-gap transition requires. -/
structure EndpointRetirement where
  kind : RetirementKind
  childPeerID : ID := ""
  childSessionID : ID := ""
  parentPeerID : ID := ""
  parentSessionID : ID := ""
  transport : Transport := .unset
  connectionID : ID := ""
  hostSessionID : ID := ""
  generation : ID := ""
  deriving DecidableEq, Repr

/-- How the producer's copy budget absorbs the candidate. -/
structure EndpointTransition where
  kind : TransitionKind
  producerPeerID : Option ID := none
  retire : Option EndpointRetirement := none
  deriving DecidableEq, Repr

/-- A candidate, and how the endpoints get to it. -/
structure CandidatePlan where
  tuple : CandidateTuple
  endpointTransition : EndpointTransition
  deriving DecidableEq, Repr

/-! ## The committed graph -/

/-- A child's one upstream edge in the committed graph. -/
structure CommittedEdge where
  kind : UpstreamKind
  childSessionID : ID := ""
  parentPeerID : ID := ""
  parentSessionID : ID := ""
  publicationGeneration : ID := ""
  transport : Transport := .unset
  connectionID : ID := ""
  usable : Bool := false
  physicalActive : Bool := false
  videoGeneration : ID := ""
  videoConnectionID : ID := ""
  videoReady : Bool := false
  resource : Option Resource := none
  opportunityKey : String := ""
  deriving DecidableEq, Repr

/-- The single live SFU ingress. -/
structure HostPublication where
  generation : ID
  hostSessionID : ID
  connectionID : ID
  usable : Bool
  physicalActive : Bool
  resource : Option Resource
  deriving DecidableEq, Repr

/-- A known peer.  An empty `sessionID` means disconnected but in grace, or
    departed. -/
structure Participant where
  peerID : ID
  role : Role
  sessionID : ID
  departureConfirmed : Bool := false
  joinOrder : Int := 0
  effectiveDownstreamCapacity : Int := 0
  reportedDownstreamCapacity : Int := 0
  relayVolunteer : Bool := false
  routePreference : ViewerRoutePreference := .unset
  deriving DecidableEq, Repr

/-- `sessionIs` never matches a disconnected participant. -/
def Participant.sessionIs (p : Participant) (id : ID) : Bool := p.sessionID ≠ "" && p.sessionID == id

/-! ## The operation -/

/-- Which attempt at a direct connection is under way. -/
structure ConnectionAttemptProgress where
  current : Int
  total : Int
  deriving DecidableEq, Repr

/-- Scopes quality evidence to one physical sender. -/
structure SenderQualityIdentity where
  childSessionID : ID
  parentPeerID : ID
  parentSessionID : ID
  connectionID : ID
  senderIdentity : ID
  deriving DecidableEq, Repr

/-- The live candidate. -/
structure Attempt where
  tuple : CandidateTuple
  revision : Int
  connectionID : ID
  childSessionID : ID
  parentSessionID : ID := ""
  hostSessionID : ID := ""
  publicationGeneration : ID := ""
  publicationConnectionID : ID := ""
  reservation : CandidateReservation := {}
  startedAtMs : Int
  transportConnected : Bool := false
  mediaReady : Bool := false
  connectionAttempt : Option ConnectionAttemptProgress := none
  senderQualityState : SenderQualityState := .unset
  senderQualityAcceptedAtMs : Option Int := none
  senderQualityConsecutiveHealthyWindows : Int := 0
  senderQualityConsecutiveDegradedWindows : Int := 0
  senderQualitySampleTimestampMs : Option Int := none
  senderQualityIdentity : ID := ""
  relativeQualityApprovedAtMs : Option Int := none
  deriving DecidableEq, Repr

/-- The single in-flight route operation. -/
structure Operation where
  videoGeneration : ID := ""
  attachConnectionID : ID := ""
  childPeerID : ID
  childSessionID : ID
  demandPeerID : ID
  demandSessionID : ID
  reason : DemandReason
  baseRevision : Int
  candidates : List CandidatePlan
  cursor : ℕ := 0
  deadlineAtMs : Int
  builtAtFactVersion : Int
  deferredParentPeerIDs : List ID := []
  peerAttemptStarted : Bool := false
  qualitySource : Option SenderQualityIdentity := none
  current : Option Attempt := none
  deriving DecidableEq, Repr

namespace Operation

/-- The candidate at a place of the list. -/
def planAt (o : Operation) (index : ℕ) : Option CandidatePlan := o.candidates[index]?

/-- The cursor's plan, the final plan if exhausted, or nothing when there are
    no candidates. -/
def planAtOrLast (o : Operation) : Option CandidatePlan :=
  o.planAt (min o.cursor (o.candidates.length - 1))

/-- The live attempt's tuple, else the next planned candidate's. -/
def currentTuple (o : Operation) : Option CandidateTuple :=
  match o.current with
  | some att => some att.tuple
  | none => (o.planAt o.cursor).map CandidatePlan.tuple

end Operation

/-! ## Inputs and results -/

/-- The live attempt, exactly. -/
structure CandidateGuard where
  childPeerID : ID
  childSessionID : ID
  revision : Int
  connectionID : ID
  deriving DecidableEq, Repr

/-- One candidate slot of the current operation: it must still be at `cursor`
    with an equal plan, built at `factVersion` on `baseRevision`. -/
structure CandidateCursorGuard where
  childPeerID : ID
  childSessionID : ID
  baseRevision : Int
  factVersion : Int
  cursor : ℕ
  plan : CandidatePlan
  deriving DecidableEq, Repr

/-- A request to begin the candidate under the cursor. -/
structure BeginInput where
  guard : CandidateCursorGuard
  nowMs : Int
  connectionID : ID
  reservation : CandidateReservation := {}
  publicationGeneration : ID := ""
  publicationConnectionID : ID := ""
  hostSessionID : ID := ""
  deriving DecidableEq, Repr

/-- The decoded publication identity in room-media mode, and the viewer's
    one-shot relative quality approval. -/
structure CandidateProof where
  relativeQualityApproved : Bool := false
  videoGeneration : ID := ""
  deriving DecidableEq, Repr

/-- One committed edge, exactly. -/
structure EdgeGuard where
  childPeerID : ID
  childSessionID : ID
  routeRevision : Int
  connectionID : ID
  parentSessionID : ID := ""
  deriving DecidableEq, Repr

/-- A direct edge from the parent's side. -/
structure ParentEdgeGuard where
  parentPeerID : ID
  parentSessionID : ID
  routeRevision : Int
  connectionID : ID
  deriving DecidableEq, Repr

/-- What a report on the publication must agree with. -/
structure PublicationGuard where
  hostSessionID : ID
  routeRevision : Int
  generation : ID
  connectionID : ID
  deriving DecidableEq, Repr

/-- A participant as it joins or comes back. -/
structure ParticipantInput where
  peerID : ID
  role : Role
  sessionID : ID
  effectiveDownstreamCapacity : Int
  routePreference : ViewerRoutePreference := .unset
  deriving DecidableEq, Repr

/-- What `reconcile` did. -/
structure ReconcileResult where
  operation : Option Operation := none
  removedPeerIDs : List ID := []
  failedPeerIDs : List ID := []
  released : List Resource := []

/-- What came of a report on a candidate. -/
structure SettleResult where
  accepted : Bool := false
  /-- Only when `candidateReady` committed the attempt. -/
  committed : Bool := false
  failedPeerIDs : List ID := []
  activeRevision : Int
  released : List Resource := []

/-- What came of a request to begin. -/
structure BeginResult where
  accepted : Bool := false
  operation : Option Operation := none
  failedPeerIDs : List ID := []
  released : List Resource := []

/-- The result of `validateOrAdvance`. -/
structure Validation where
  released : List Resource := []
  exhaustedPeerIDs : List ID := []
  expired : Bool := false
  consumedGuard : Bool := false

/-! ## Ledgers -/

/-- Charged attempts at one candidate rank. -/
structure CandidateOpportunity where
  rank : Int
  chargedAttempts : Int := 0
  exhausted : Bool := false
  deriving DecidableEq, Repr

/-- The part of a participant's record that only the scheduler reads: the
    source keeps these four fields in `participant`. -/
structure ParticipantLedger where
  availabilityExhausted : Bool := false
  consumedCandidateOpportunities : OMap String CandidateOpportunity := .empty
  bootstrapFailureReported : Bool := false
  sfuFirstAtNextRoute : Bool := false

/-- The remaining parent retry order behind an SFU edge. -/
structure DirectContinuation where
  childSessionID : ID
  sfuConnectionID : ID
  publicationGeneration : ID
  parentPeerIDs : List ID
  deriving DecidableEq, Repr

/-- The viewer that needs a publication at the SFU. -/
structure SfuBootstrapIntent where
  demandPeerID : ID
  demandSessionID : ID
  deriving DecidableEq, Repr

/-- The viewer that is moved to the SFU for another one's need. -/
structure SfuBootstrapCarrier where
  demandPeerID : ID
  demandSessionID : ID
  carrierPeerID : ID
  deriving DecidableEq, Repr

/-- When a viewer's search for a route began, and how it goes on. -/
structure RouteTimingRecord where
  demandAtMs : Int
  reason : DemandReason
  operationStartedAtMs : Option Int := none
  candidateStartedAtMs : Option Int := none
  firstDecodedFrameAtMs : Option Int := none
  finalAtMs : Option Int := none
  finalRoute : FinalRoute := .waiting
  rejectionBucket : RejectionBucket := .none
  deriving DecidableEq, Repr

/-- What a viewer reported on its pictures. -/
structure RouteQualityObservation where
  childSessionID : ID
  upstreamKind : UpstreamKind
  upstreamPeerID : ID
  connectionID : ID
  presentationEpoch : Int
  eligibleWindows : Int := 0
  eligibleDurationMs : Int := 0
  freezeWindows : Int := 0
  freezeCount : Int := 0
  freezeDurationMs : Int := 0
  pauseCount : Int := 0
  pauseDurationMs : Int := 0
  lastAcceptedAtMs : Int
  lastDecodedProgressAtMs : Option Int := none
  deriving DecidableEq, Repr

/-- What a parent reported on sending to a viewer. -/
structure SenderQualityObservation where
  childSessionID : ID
  parentPeerID : ID
  parentSessionID : ID
  connectionID : ID
  senderIdentity : ID
  state : SenderQualityState
  consecutiveDegradedWindows : Int
  lastSampleTimestampMs : Int
  lastAcceptedAtMs : Int
  consumedQualityCandidates : OMap String Int

/-- What the host reported on its publication. -/
structure SfuPublisherQualityObservation where
  hostSessionID : ID
  publicationGeneration : ID
  state : SenderQualityState
  consecutiveHealthyWindows : Int
  lastSampleTimestampMs : Int
  lastAcceptedAtMs : Int
  deriving DecidableEq, Repr

end Piik.Route
