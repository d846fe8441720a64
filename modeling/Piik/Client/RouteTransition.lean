/-
  `MediaRouteTransition` (`client/media/route-transition.ts`): what one client
  makes of the route updates its server sends, in whatever order they arrive.

  A revision is prepared, then committed or dropped.  A prepared revision
  overtakes an older one but leaves the committed assignment in force; every
  accepted update gets a token, by which late work finds out whether it still
  speaks for the route.
-/
import Mathlib

namespace Piik.Client

/-! ## Data -/

/-- Where a participant's media comes from. -/
inductive Upstream
  | none
  | peer (peerID : String)
  | sfu
  deriving DecidableEq, Repr

/-- A participant's place in the route: its upstream, its children, and its publication at the SFU.
    -/
structure ParticipantRouteAssignment where
  upstream : Upstream
  childPeerIDs : List String
  sfuPublicationGeneration : Option String
  deriving DecidableEq, Repr

/-- How a prepared candidate carries the media. -/
inductive Transport
  | direct
  | sfu
  deriving DecidableEq, Repr

/-- The connection that a preparation tries out. -/
structure PreparedRouteCandidate where
  childPeerID : String
  connectionID : String
  transport : Transport
  qualityProbe : Bool
  connectionAttempt : Option (ℕ × ℕ) := .none
  deriving DecidableEq, Repr

/-- The two phases of a revision. -/
inductive MediaRoutePhase
  | prepare
  | active
  deriving DecidableEq, Repr

/-- What the server sends: a preparation with its candidate, or the activation. -/
inductive RouteUpdate
  | prepare (revision : ℕ) (assignment : ParticipantRouteAssignment)
      (candidate : PreparedRouteCandidate)
  | active (revision : ℕ) (assignment : ParticipantRouteAssignment)
  deriving DecidableEq

namespace RouteUpdate

/-- The revision of an update. -/
def revision : RouteUpdate → ℕ
  | prepare revision .. => revision
  | active revision .. => revision

/-- The phase that an update stands for. -/
def phase : RouteUpdate → MediaRoutePhase
  | prepare .. => .prepare
  | active .. => .active

/-- The assignment that an update carries. -/
def assignment : RouteUpdate → ParticipantRouteAssignment
  | prepare _ assignment _ => assignment
  | active _ assignment => assignment

/-- The candidate of a preparation. -/
def candidate : RouteUpdate → Option PreparedRouteCandidate
  | prepare _ _ candidate => some candidate
  | active .. => .none

end RouteUpdate

/-- What an asynchronous operation keeps, to see later whether it still counts. -/
structure RouteOperationToken where
  revision : ℤ
  generation : ℕ
  deriving DecidableEq, Repr

/-- What becomes of an update. -/
inductive RouteUpdateResult
  | accepted
  | duplicate
  | stale
  deriving DecidableEq, Repr

/-- The attempt number of a candidate is not compared. -/
def sameCandidate (left : Option PreparedRouteCandidate) (right : PreparedRouteCandidate) : Bool :=
  left.any fun left => left.childPeerID = right.childPeerID &&
    left.connectionID = right.connectionID && left.transport = right.transport &&
    left.qualityProbe = right.qualityProbe

/-- The children are compared as sets of one size. -/
def sameAssignment (left right : ParticipantRouteAssignment) : Bool :=
  left.upstream = right.upstream &&
    left.sfuPublicationGeneration = right.sfuPublicationGeneration &&
    left.childPeerIDs.length = right.childPeerIDs.length &&
    left.childPeerIDs.all fun peerID => peerID ∈ right.childPeerIDs

/-- The newest update that was accepted, what was active before, and what the media follows. -/
structure MediaRouteTransition where
  revision : ℤ := -1
  phase : Option MediaRoutePhase := none
  plannedAssignment : Option ParticipantRouteAssignment := none
  activeAssignment : Option ParticipantRouteAssignment := none
  activeToken : Option RouteOperationToken := none
  mediaAssignment : Option ParticipantRouteAssignment := none
  preparedCandidate : Option PreparedRouteCandidate := none
  generation : ℕ := 0

namespace MediaRouteTransition

variable (m : MediaRouteTransition)

/-! ## Operations -/

/-- Whether an update of the revision in hand contradicts what is known of it. -/
def contradicts (update : RouteUpdate) : Bool :=
  !(m.plannedAssignment.any fun planned => sameAssignment planned update.assignment) ||
    (m.phase = some .prepare &&
      update.candidate.any fun candidate => !sameCandidate m.preparedCandidate candidate) ||
    (m.phase = some .active && update.phase = .prepare)

/-- The state after an accepted update. -/
def install (update : RouteUpdate) : MediaRouteTransition :=
  let m := { m with
    revision := update.revision
    phase := some update.phase
    plannedAssignment := some update.assignment
    preparedCandidate := update.candidate
    generation := m.generation + 1 }
  match update with
  | .prepare .. => m
  | .active revision assignment => { m with
      activeAssignment := some assignment
      activeToken := some { revision, generation := m.generation } }

/-- An older revision is stale, and so is one that contradicts the present one. -/
def accept (update : RouteUpdate) : RouteUpdateResult × MediaRouteTransition :=
  if update.revision < m.revision then (.stale, m)
  else if update.revision = m.revision ∧ m.contradicts update then (.stale, m)
  else if update.revision = m.revision ∧ m.phase = some update.phase then (.duplicate, m)
  else (.accepted, m.install update)

/-- The token of the present update. -/
def token : Option RouteOperationToken :=
  if m.revision < 0 || m.phase = none then none
  else some { revision := m.revision, generation := m.generation }

/-- The token is that of the present update, in the phase if one is given. -/
def owns (token : RouteOperationToken) (phase : Option MediaRoutePhase) : Bool :=
  token.revision = m.revision && token.generation = m.generation &&
    (phase = none || m.phase = phase)

/-- The token is that of the present activation. -/
def ownsActive (token : RouteOperationToken) : Bool := m.activeToken = some token

/-- The media follows the active assignment from now on. -/
def markMediaActive (token : RouteOperationToken) : Bool × MediaRouteTransition :=
  if !m.ownsActive token || m.activeAssignment = none then (false, m)
  else (true, { m with mediaAssignment := m.activeAssignment })

/-- The revision of the present activation. -/
def getActiveRevision : Option ℤ := m.activeToken.map RouteOperationToken.revision

/-- Only the count of generations survives. -/
def reset : MediaRouteTransition := { generation := m.generation + 1 }

/-! ## Runs -/

/-- The calls of the client. -/
inductive Op
  | accept (update : RouteUpdate)
  | markMediaActive (token : RouteOperationToken)
  | reset

/-- One call. -/
def step (m : MediaRouteTransition) : Op → MediaRouteTransition
  | .accept update => (m.accept update).2
  | .markMediaActive token => (m.markMediaActive token).2
  | .reset => m.reset

/-- The calls one after the other. -/
def run (m : MediaRouteTransition) (ops : List Op) : MediaRouteTransition := ops.foldl step m

/-- The updates delivered since the last reset. -/
def heard (ops : List Op) : List RouteUpdate := ops.foldl (fun updates op => match op with
  | .accept update => updates ++ [update]
  | .markMediaActive _ => updates
  | .reset => []) []

end MediaRouteTransition

/-- What one server may send: a prepared assignment and candidate for each revision, and
    the same assignment again once the revision commits. -/
structure Server where
  assignment : ℕ → ParticipantRouteAssignment
  candidate : ℕ → PreparedRouteCandidate

/-- An update is the one that the server makes for its revision. -/
def Server.Issues (server : Server) : RouteUpdate → Prop
  | .prepare revision assignment candidate =>
    assignment = server.assignment revision ∧ candidate = server.candidate revision
  | .active revision assignment => assignment = server.assignment revision

/-- An active update of the revision was delivered before any update of a later one. -/
def Landed (updates : List RouteUpdate) (revision : ℕ) : Prop :=
  ∃ before update after, updates = before ++ update :: after ∧ update.phase = .active ∧
    update.revision = revision ∧ ∀ earlier ∈ before, earlier.revision ≤ revision

end Piik.Client
