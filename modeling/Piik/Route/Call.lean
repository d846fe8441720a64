/-
  The exported calls of the controller as data, one call at a time: the caller
  holds the server's mutex around each.  A call that panics has no state.
-/
import Piik.Route.Participants

namespace Piik.Route

/-- An exported call that may change the controller, with its arguments.  The
    boolean of the three settling calls is the answer of `commitReservation`. -/
inductive Call
  | upsertParticipant (input : ParticipantInput) (nowMs : Option Int)
  | setViewerRoutePreference (peerID sessionID : ID) (preference : ViewerRoutePreference)
      (nowMs : Option Int)
  | rebindHostIdentity (peerID sessionID : ID) (nowMs : Option Int)
  | disconnectSession (peerID sessionID : ID)
  | confirmDeparture (peerID : ID) (nowMs : Option Int)
  | setEffectiveCapacity (peerID sessionID : ID) (value : Int) (nowMs : Option Int)
  | setRelayVolunteer (peerID sessionID : ID) (enabled : Bool) (nowMs : Option Int)
  | setDefaultCapacity (capacity : Int) (nowMs : Option Int)
  | touchExternalFacts
  | invalidateEdge (guard : EdgeGuard) (nowMs : Option Int)
  | invalidateDirectEdgeFromParent (input : ParentEdgeGuard) (nowMs : Option Int)
  | invalidateHostPublication (guard : PublicationGuard) (nowMs : Option Int)
  | adoptDirectConnection (guard : EdgeGuard) (newConnectionID : ID) (nowMs : Int)
  | retireHostPublication (guard : PublicationGuard)
  | setPaused (paused : Bool) (nowMs : Option Int)
  | dispose
  | setRoutePolicy (peerOnly topologyOptimization natPrediction : Bool) (nowMs : Int)
  | setVoiceListeners (peerIDs : List ID) (nowMs : Int)
  | setHostVideoConnectionID (id : ID)
  | setVideoPublication (generation : ID) (paused : Bool) (nowMs : Int)
  | observeQualityEvidence (input : RouteQualityEvidenceInput)
  | observeSenderQualityEvidence (input : SenderQualityEvidenceInput) (commit : Bool)
  | observeSfuPublisherQualityEvidence (input : SfuPublisherQualityEvidenceInput) (commit : Bool)
  | resetSenderQuality (parentPeerID parentSessionID : ID) (nowMs : Int)
  | reconcile (nowMs : Int)
  | beginCurrentCandidate (input : BeginInput)
  | noteCurrentCandidateRejection (guard : CandidateCursorGuard) (bucket : RejectionBucket)
  | skipCurrentCandidate (guard : CandidateCursorGuard) (nowMs : Int) (bucket : RejectionBucket)
  | retireCurrentCandidateProducer (guard : CandidateCursorGuard) (nowMs : Int)
  | candidateReady (guard : CandidateGuard) (nowMs : Int) (proof : CandidateProof) (commit : Bool)
  | candidateTransportConnected (guard : CandidateGuard) (nowMs : Int)
  | candidateFailed (guard : CandidateGuard) (nowMs : Int)
  | operationExpired (nowMs : Int)

/-- What a call reports; a result without one of these fields leaves it empty. -/
structure Reply where
  accepted : Bool := false
  committed : Bool := false
  failedPeerIDs : List ID := []
  removedPeerIDs : List ID := []
  released : List Resource := []

namespace Reply

/-- The reply of a call that releases resources. -/
def ofReleased (r : List Resource × Controller) : Reply × Controller := ({ released := r.1 }, r.2)

/-- The reply of a call that accepts or refuses. -/
def ofAccepted (r : Bool × Controller) : Reply × Controller := ({ accepted := r.1 }, r.2)

/-- The reply to a request to begin. -/
def ofBegin (r : BeginResult × Controller) : Reply × Controller :=
  ({ accepted := r.1.accepted, failedPeerIDs := r.1.failedPeerIDs, released := r.1.released }, r.2)

/-- The reply to a report on a candidate. -/
def ofSettle (r : SettleResult) (c : Controller) : Reply × Controller :=
  ({ accepted := r.accepted, committed := r.committed, failedPeerIDs := r.failedPeerIDs
     released := r.released }, c)

end Reply

/-- The caller's `commitReservation`, as its answer. -/
def answer (commit : Bool) : CandidateReservation → Unit → Bool × Unit := fun _ s => (commit, s)

namespace Controller

open Reply

/-- Run a call, panics included. -/
def run (c : Controller) : Call → Reply × Controller
  | .upsertParticipant input now => ofReleased (c.upsertParticipant input now)
  | .setViewerRoutePreference p s pref now => ofReleased (c.setViewerRoutePreference p s pref now)
  | .rebindHostIdentity p s now => ofReleased (c.rebindHostIdentity p s now)
  | .disconnectSession p s => ofAccepted (c.disconnectSession p s)
  | .confirmDeparture p now => ofAccepted (c.confirmDeparture p now)
  | .setEffectiveCapacity p s value now => ofAccepted (c.setEffectiveCapacity p s value now)
  | .setRelayVolunteer p s enabled now => ofAccepted (c.setRelayVolunteer p s enabled now)
  | .setDefaultCapacity capacity now => ({}, c.setDefaultCapacity capacity now)
  | .touchExternalFacts => ({}, c.touchExternalFacts)
  | .invalidateEdge guard now => ofAccepted (c.invalidateEdge guard now)
  | .invalidateDirectEdgeFromParent input now =>
    ofAccepted (c.invalidateDirectEdgeFromParent input now)
  | .invalidateHostPublication guard now => ofAccepted (c.invalidateHostPublication guard now)
  | .adoptDirectConnection guard id now =>
    let r := c.adoptDirectConnection guard id now
    ofSettle r.1 r.2
  | .retireHostPublication guard => ofReleased (c.retireHostPublication guard)
  | .setPaused paused now => ofReleased (c.setPaused paused now)
  | .dispose => ofReleased c.dispose
  | .setRoutePolicy peerOnly topology nat now => ofReleased (c.setRoutePolicy peerOnly topology nat now)
  | .setVoiceListeners peerIDs now => ofAccepted (c.setVoiceListeners peerIDs now)
  | .setHostVideoConnectionID id => ofAccepted (c.setHostVideoConnectionID id)
  | .setVideoPublication generation paused now =>
    ofReleased (c.setVideoPublication generation paused now)
  | .observeQualityEvidence input =>
    let r := c.observeQualityEvidence input
    ({ accepted := r.1 ≠ .rejected }, r.2)
  | .observeSenderQualityEvidence input commit =>
    let r := c.observeSenderQualityEvidence input (answer commit) ()
    ofSettle r.1 r.2.2
  | .observeSfuPublisherQualityEvidence input commit =>
    let r := c.observeSfuPublisherQualityEvidence input (answer commit) ()
    ofSettle r.1 r.2.2
  | .resetSenderQuality p s now => ofReleased (c.resetSenderQuality p s now)
  | .reconcile now =>
    let r := c.reconcile now
    ({ failedPeerIDs := r.1.failedPeerIDs, removedPeerIDs := r.1.removedPeerIDs
       released := r.1.released }, r.2)
  | .beginCurrentCandidate input => ofBegin (c.beginCurrentCandidate input)
  | .noteCurrentCandidateRejection guard bucket =>
    ofAccepted (c.noteCurrentCandidateRejection guard bucket)
  | .skipCurrentCandidate guard now bucket => ofBegin (c.skipCurrentCandidate guard now bucket)
  | .retireCurrentCandidateProducer guard now => ofBegin (c.retireCurrentCandidateProducer guard now)
  | .candidateReady guard now proof commit =>
    let r := c.candidateReady guard now (answer commit) () proof
    ofSettle r.1 r.2.2
  | .candidateTransportConnected guard now =>
    let r := c.candidateTransportConnected guard now
    ofSettle r.1 r.2
  | .candidateFailed guard now =>
    let r := c.candidateFailed guard now
    ofSettle r.1 r.2
  | .operationExpired now =>
    let r := c.operationExpired now
    ofSettle r.1 r.2

/-- A call: its reply and the new state, or the panic that unwound it. -/
def call (c : Controller) (k : Call) : Except Fault (Reply × Controller) :=
  match (c.run k).2.fault with
  | some f => .error f
  | none => .ok (c.run k)

/-- One call after another, until one panics. -/
def calls (c : Controller) : List Call → Except Fault Controller
  | [] => .ok c
  | k :: ks => match c.call k with
    | .error f => .error f
    | .ok (_, c) => c.calls ks

/-- One call after another, with their replies. -/
def trace (c : Controller) : List Call → Except Fault (List Reply × Controller)
  | [] => .ok ([], c)
  | k :: ks => match c.call k with
    | .error f => .error f
    | .ok (reply, c) => match c.trace ks with
      | .error f => .error f
      | .ok (replies, c) => .ok (reply :: replies, c)

/-- A state between exported calls. -/
def Reachable (c : Controller) : Prop :=
  ∃ o latest c₀ ks, new o latest = .ok c₀ ∧ c₀.calls ks = .ok c

end Controller

end Piik.Route
