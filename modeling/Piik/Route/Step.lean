/-
  What the exported calls do to the core, as a small set of steps.

  The abstract controller below says once what a step can do: the operation
  opens, begins, abandons and closes; edges are cut under a licence; an attempt
  is committed; facts change.  `Route/Upkeep.lean`, `Route/Advance.lean` and
  `Route/Maintain.lean` show that the maintenance calls are runs of the first
  kind of step, `Route/Trace.lean` that every exported call is a run of all of
  them, and every invariant of the controller is proved about steps.

  The mark of a run says that the revision has moved since the run started.
-/
import Piik.Route.Call
import Piik.Lib.Chain

namespace Piik.Route

/-- The panics that the graph itself can raise. -/
def Fault.isGraph : Fault → Bool
  | .parentSessionUnavailable | .publicationHostStale | .hostMissing | .childNotViewer
  | .parentMissing | .publicationStale | .retiringUnknown | .cycle | .notSourceReachable
  | .unknownPublication | .endpointCapacity | .retiringWithoutAnchor => true
  | _ => false

/-- What the operation keeps while its candidates change. -/
structure SameDemand (op op' : Operation) : Prop where
  childPeerID : op'.childPeerID = op.childPeerID
  childSessionID : op'.childSessionID = op.childSessionID
  reason : op'.reason = op.reason
  baseRevision : op'.baseRevision = op.baseRevision
  videoGeneration : op'.videoGeneration = op.videoGeneration
  attachConnectionID : op'.attachConnectionID = op.attachConnectionID

/-- What the live attempt keeps while its evidence changes. -/
structure SameAttempt (att att' : Attempt) : Prop where
  tuple : att'.tuple = att.tuple
  revision : att'.revision = att.revision
  connectionID : att'.connectionID = att.connectionID
  childSessionID : att'.childSessionID = att.childSessionID
  parentSessionID : att'.parentSessionID = att.parentSessionID
  hostSessionID : att'.hostSessionID = att.hostSessionID
  publicationGeneration : att'.publicationGeneration = att.publicationGeneration
  publicationConnectionID : att'.publicationConnectionID = att.publicationConnectionID
  reservation : att'.reservation = att.reservation

theorem SameAttempt.refl (att : Attempt) : SameAttempt att att :=
  ⟨rfl, rfl, rfl, rfl, rfl, rfl, rfl, rfl, rfl⟩

theorem SameAttempt.trans {x y z : Attempt} (h : SameAttempt x y) (h' : SameAttempt y z) :
    SameAttempt x z :=
  ⟨h'.1.trans h.1, h'.2.trans h.2, h'.3.trans h.3, h'.4.trans h.4, h'.5.trans h.5, h'.6.trans h.6,
    h'.7.trans h.7, h'.8.trans h.8, h'.9.trans h.9⟩

/-- No continuation returns a child to itself. -/
def Patient (m : OMap ID DirectContinuation) : Prop :=
  ∀ p d, m.get p = some d → p ∉ d.parentPeerIDs

/-- A candidate that does not feed the child from itself. -/
def CandidateTuple.Outward (t : CandidateTuple) (childPeerID : ID) : Prop :=
  t.kind = .peer → t.parentPeerID ≠ childPeerID

/-- A plan for the child: a candidate for it that gives up none but its own edge. -/
structure CandidatePlan.Outward (plan : CandidatePlan) (childPeerID : ID) : Prop where
  tuple : plan.tuple.Outward childPeerID
  retire : ∀ r, plan.endpointTransition.retire = some r → r.kind = .edge → r.childPeerID = childPeerID

/-- An attachment is demanded by its own child, and its one plan is what it
    attempts. -/
def Operation.Attends (op : Operation) : Prop :=
  op.reason = .publicationAttach → op.demandPeerID = op.childPeerID ∧ op.cursor = 0 ∧
    ∃ plan, op.planAt 0 = some plan ∧ plan.endpointTransition.kind ≠ .boundedGap ∧
      ∀ att, op.current = some att → att.tuple = plan.tuple

/-- No candidate of the operation feeds its child from itself. -/
structure Operation.Outward (op : Operation) : Prop where
  candidates : ∀ plan ∈ op.candidates, plan.Outward op.childPeerID
  deferred : op.childPeerID ∉ op.deferredParentPeerIDs

namespace Core

variable (c : Core)

/-- Nobody feeds itself, now or in a continuation, and nobody feeds the Host. -/
structure Outward : Prop where
  edge : ∀ p e, c.edge p = some e → e.kind = .peer → e.parentPeerID ≠ p
  host : c.edge c.hostPeerID = none
  patient : Patient c.directContinuations

/-- A viewer, or the child of a committed edge. -/
def IsChild (peerID : ID) : Prop :=
  (∃ p ∈ c.participants.values, p.peerID = peerID ∧ p.role = .viewer) ∨ (c.edge peerID).isSome

/-- A root convergence and a bootstrap have one candidate, as long as the edge
    they would replace is active. -/
def Narrow (op : Operation) : Prop :=
  (op.reason = .rootConvergence ∨ op.reason = .sfuBootstrap) →
    ∀ e, c.edge op.childPeerID = some e → e.physicalActive → op.candidates.length ≤ 1

/-- No attempt is live. -/
def Idle : Prop := ∀ op, c.operation = some op → op.current = none

/-- The plan at the cursor is the live attempt's. -/
def Aligned : Prop :=
  ∀ op att plan, c.operation = some op → op.reason ≠ .publicationAttach → op.current = some att →
    op.planAt op.cursor = some plan → plan.tuple = att.tuple

/-- Every retiring generation has an anchor. -/
def Anchored : Prop := ∀ g ∈ c.retiringPublicationGenerations.keys, c.hasRetiringAnchor g

/-- A publication has an active subscription. -/
def Served : Prop := c.hostPublication.isSome → c.hasSfuSubscribers

/-- The licence of the maintenance calls: the child departed, or its edge
    requires a move. -/
def MayCut (peerID : ID) (e : CommittedEdge) : Prop :=
  (∃ p, c.participant peerID = some p ∧ p.departureConfirmed) ∨ c.edgeRequiresMove peerID e

/-- The revision moves, and the operation is rebased on it. -/
def rebased : Core :=
  { c.bump with operation := c.operation.map fun op => { op with baseRevision := c.bump.revision } }

/-- No subscription of the publication's generation is active. -/
def Unsubscribed (p : HostPublication) : Prop :=
  ∀ q e, c.edge q = some e → e.kind = .sfu → e.physicalActive →
    e.publicationGeneration ≠ p.generation

end Core

/-! ## Cutting edges -/

/-- One removal from the graph; `L` licenses what is cut. -/
inductive Cut (L : Core → ID → CommittedEdge → Prop) : List Resource → Core → Core → Prop
  | peer {c p e} : c.edge p = some e → e.kind = .peer → L c p e → Cut L [] c (c.deactivateEdge p)
  | sfu {c p e} : c.edge p = some e → e.kind = .sfu → L c p e →
      Cut L e.held c (c.dropSfuEdge p e (c.retainsAnchor p))
  | publication {c p} : c.hostPublication = some p → c.Unsubscribed p →
      Cut L p.held c { c with hostPublication := none }
  | leaf {c p q} : c.participant p = some q → q.role = .viewer → q.departureConfirmed →
      c.childrenOf p = [] → (∀ e, c.edge p = some e → e.kind = .peer ∧ L c p e) →
      Cut L [] c { c.deleteEdge p with
        participants := c.participants.delete p
        directContinuations := c.directContinuations.delete p }
  | anchors {c} : Cut L [] c c.pruneRetiringSfuAnchors

/-- Removals in a row. -/
inductive Cuts (L : Core → ID → CommittedEdge → Prop) : List Resource → Core → Core → Prop
  | refl (c) : Cuts L [] c c
  | head {r r' c c₁ c₂} : Cut L r c c₁ → Cuts L r' c₁ c₂ → Cuts L (r ++ r') c c₂

/-- Removals that leave no retiring generation without an anchor, and no
    publication without a subscription. -/
structure Trim (L : Core → ID → CommittedEdge → Prop) (r : List Resource) (c c' : Core) : Prop where
  cuts : Cuts L r c c'
  anchored : c.Anchored → c'.Anchored
  served : c.Served → c'.Served

/-! ## Maintenance steps -/

/-- The attempt that the plan at the cursor can begin. -/
structure Begun (c : Core) (op : Operation) (plan : CandidatePlan) (att : Attempt) : Prop where
  valid : c.candidateValid op.childPeerID plan none
  notGap : plan.endpointTransition.kind ≠ .boundedGap
  tuple : att.tuple = plan.tuple
  revision : att.revision = c.latest + 1
  childSessionID : att.childSessionID = op.childSessionID
  host : att.tuple.kind = .sfu → att.hostSessionID ≠ ""
  generation : att.tuple.kind = .sfu → att.publicationGeneration ≠ ""
  ingress : att.tuple.kind = .sfu → att.tuple.publication ≠ .reuse →
    att.publicationConnectionID ≠ ""
  kind : att.reservation.kind = Controller.expectedKind att.tuple

/-- What the calls of a run may do. -/
structure Licence where
  /-- A committed picture is replaced without a new revision. -/
  pictures : Bool
  /-- The controller ends. -/
  ends : Bool
  /-- An attempt is committed. -/
  commits : Bool
  /-- The reservation is handed over for an attempt. -/
  reserves : CandidateReservation → Prop
  /-- The evidence on the live attempt changes so. -/
  notes : Attempt → Attempt → Prop

/-- Anything goes. -/
def Licence.all : Licence := ⟨true, true, true, fun _ => True, fun _ _ => True⟩

/-- Any evidence may be noted. -/
def Licence.Records (v : Licence) : Prop := ∀ att att', v.notes att att'

/-- The steps of the calls that maintain the operation and the graph. -/
inductive Upkeep (v : Licence) : Bool → Bool → List Resource → List Resource → Core → Core → Prop
  | plan {b c op op'} : c.operation = some op → SameDemand op op' → op'.current = op.current →
      (op.current.isSome → op'.planAt op'.cursor = op.planAt op.cursor) →
      (c.Outward → op.Outward → op'.Outward ∧ (c.Narrow op → c.Narrow op')) →
      (op.Attends → op.reason ≠ .publicationAttach) →
      Upkeep v b b [] [] c { c with operation := some op' }
  | defers {b c m} : (c.Outward → Patient m) → Upkeep v b b [] [] c { c with directContinuations := m }
  | note {b c op att att'} : c.operation = some op → op.current = some att → SameAttempt att att' →
      v.notes att att' →
      Upkeep v b b [] [] c { c with operation := some { op with current := some att' } }
  | opens {b c op} : c.operation = none → op.current = none → op.baseRevision = c.revision →
      c.IsChild op.childPeerID → (c.Outward → op.Outward) → c.Narrow op → op.Attends →
      Upkeep v b b [] [] c { c with operation := some op }
  | begins {b c op plan att} : c.operation = some op → op.current = none →
      op.baseRevision = c.revision → op.reason ≠ .publicationAttach →
      op.planAt op.cursor = some plan → Begun c op plan att → v.reserves att.reservation →
      Upkeep v b b (reservationResources att.reservation) [] c
        { c.allocateRevision with operation := some { op with current := some att } }
  | attaches {b c op att} : c.operation = some op → op.current = none →
      op.baseRevision = c.revision → op.reason = .publicationAttach →
      att.revision = c.latest + 1 → att.reservation = { kind := .direct } →
      (∀ plan, op.planAt 0 = some plan → att.tuple = plan.tuple) →
      Upkeep v b b [] [] c { c.allocateRevision with operation := some { op with current := some att } }
  | abandons {b c op att} : c.operation = some op → op.current = some att →
      Upkeep v b true [] (reservationResources att.reservation) c
        { c.bump with
          operation := some { op with current := none, baseRevision := c.bump.revision } }
  | closes {b c op} : c.operation = some op → op.current = none →
      Upkeep v b b [] [] c { c with operation := none }
  | detaches {b c op} : c.operation = some op → op.reason = .publicationAttach →
      Upkeep v b true [] [] c { c.bump with operation := none }
  | unattached {b c op} : c.operation = some op → op.reason = .publicationAttach →
      Upkeep v b true [] [] c
        { c.bump with
          operation := none
          upstreamByViewer := c.upstreamByViewer.modify op.childPeerID fun e =>
            { e with videoGeneration := op.videoGeneration, videoConnectionID := ""
                     videoReady := false } }
  | trims {b r c c'} : c.Idle → Trim Core.MayCut r c c' → Upkeep v b true [] r c c'.rebased
  | trimsMarked {r c c'} : c.operation = none → Trim Core.MayCut r c c' → Upkeep v true true [] r c c'
  | halts {b a r c c' f} : f.isGraph = false → c'.fault = (c.fault <|> some f) → Upkeep v b true a r c c'
  | echoes {b c} (l : List Resource) : Upkeep v b b l l c c

/-- Without the mark, the revision has not moved. -/
theorem Upkeep.unmarked {v : Licence} {b b' : Bool} {a r : List Resource} {c c' : Core}
    (h : Upkeep v b b' a r c c')
    (hb : b' = false) : b = false ∧ c'.revision = c.revision := by
  cases h <;> first | exact ⟨hb, rfl⟩ | cases hb

/-! ## Facts -/

/-- The participant sends no more than it reported, within what the room allows;
    who departed has no session and sends nothing. -/
def Core.Rated (c : Core) (q : Participant) : Prop :=
  q.effectiveDownstreamCapacity ≤ max 0 (if q.departureConfirmed then 0 else
    c.effectiveCapacity q.reportedDownstreamCapacity q.relayVolunteer) ∧
  (q.departureConfirmed → q.sessionID = "")

/-- The room's bounds are sane, and every participant is stored under its own ID,
    plays the role of its ID and stays within its rating. -/
structure Core.Peopled (c : Core) : Prop where
  capacity : c.endpointMediaCopyCapacity ≤ maxRelayVolunteerChildren
  positive : 0 ≤ c.endpointMediaCopyCapacity
  timeout : 0 < c.operationTimeoutMs
  peerID : ∀ p q, c.participant p = some q → q.peerID = p
  role : ∀ p q, c.participant p = some q → (q.role = .host ↔ p = c.hostPeerID)
  rated : ∀ p q, c.participant p = some q → c.Rated q

/-- The same place in the graph, whoever is connected to it. -/
structure SameShape (e e' : CommittedEdge) : Prop where
  kind : e'.kind = e.kind
  parentPeerID : e'.parentPeerID = e.parentPeerID
  publicationGeneration : e'.publicationGeneration = e.publicationGeneration
  physicalActive : e'.physicalActive = e.physicalActive
  resource : e'.resource = e.resource

/-- The publication but for whether it is usable. -/
structure SamePublication (p p' : HostPublication) : Prop where
  generation : p'.generation = p.generation
  physicalActive : p'.physicalActive = p.physicalActive
  resource : p'.resource = p.resource

/-- New facts: the graph keeps its shape. -/
structure Reshaped (c c' : Core) : Prop where
  hostPeerID : c'.hostPeerID = c.hostPeerID
  peopled : c.Peopled → c'.Peopled
  kept : ∀ p, (c.participant p).isSome → (c'.participant p).isSome
  edges : ∃ f : ID → CommittedEdge → CommittedEdge, (∀ p e, SameShape e (f p e)) ∧
    c'.upstreamByViewer = c.upstreamByViewer.mapValues f
  publication : ∃ g : HostPublication → HostPublication, (∀ p, SamePublication p (g p)) ∧
    c'.hostPublication = c.hostPublication.map g
  retiring : c'.retiringPublicationGenerations = c.retiringPublicationGenerations
  patient : c.Outward → Patient c'.directContinuations
  operation : c'.operation = c.operation
  revision : c'.revision = c.revision
  latest : c'.latest = c.latest
  fault : c'.fault = c.fault

/-- The edge carries the current picture; without room media every edge does. -/
def Core.carriesVideo (c : Core) (e : CommittedEdge) : Bool :=
  !c.roomMedia || (e.videoConnectionID ≠ "" && e.videoGeneration == c.videoGeneration &&
    c.videoGeneration ≠ "")

/-- The pictures stay where they are. -/
def SameVideo (c c' : Core) : Prop :=
  ∀ p e e', c.edge p = some e → c'.edge p = some e' → c'.carriesVideo e' = c.carriesVideo e

/-! ## All steps -/

namespace Core

variable (c : Core)

/-- The resources of the live attempt. -/
def liveResources : List Resource :=
  match c.operation with
  | none => []
  | some op => Controller.attemptResources op

/-- The operation is cleared, and a live attempt's revision with it. -/
def aborted : Core :=
  match c.operation with
  | none => c
  | some op => { (if op.current.isSome then c.rebased else c) with operation := none }

/-- The Host under a new ID: the graph starts over. -/
def rehosted (host : Participant) : Core :=
  { c with
    hostPeerID := host.peerID
    participants := (c.participants.delete c.hostPeerID).set host.peerID host
    upstreamByViewer := .empty, hostPublication := none, retiringPublicationGenerations := .empty
    directContinuations := .empty }

/-- Nothing is left of the graph. -/
def disposed : Core :=
  { c with
    participants := .empty, upstreamByViewer := .empty, hostPublication := none
    retiringPublicationGenerations := .empty, directContinuations := .empty
    operation := none, paused := true }

/-- The attempt becomes the child's edge. -/
def committed (op : Operation) (att : Attempt) (old : Option CommittedEdge)
    (continuations : OMap ID DirectContinuation) : Core :=
  let c := { c.install op att with directContinuations := continuations }
  ((c.publish att).dropReplacedPublication old).checkGraph

/-- An edge of one publication. -/
def OfGeneration (generation : ID) (_ : Core) (_ : ID) (e : CommittedEdge) : Prop :=
  e.kind = .sfu ∧ e.publicationGeneration = generation

end Core

/-- A publication replacement first removes the generation it replaces. -/
def Replaced (att : Attempt) (c c' : Core) : Prop :=
  if att.tuple.kind = .sfu ∧ att.tuple.publication = .replace then
    ∃ p r, c.hostPublication = some p ∧ c'.hostPublication = none ∧
      Trim (Core.OfGeneration p.generation) r c c'
  else c' = c

/-- What an accepted commit does: a picture is attached, or an attempt becomes
    the child's edge. -/
inductive Accepted : List Resource → Core → Core → Prop
  | attached {c op att e} : c.operation = some op → op.reason = .publicationAttach →
      op.current = some att → c.edge op.childPeerID = some e →
      Accepted [] c
        { c with
          upstreamByViewer := c.upstreamByViewer.modify op.childPeerID fun e =>
            { e with videoGeneration := op.videoGeneration, videoConnectionID := att.connectionID
                     videoReady := true }
          revision := att.revision, operation := none }
  | commits {c c₁ op att plan m} : c.operation = some op → op.reason ≠ .publicationAttach →
      op.current = some att → op.planAt op.cursor = some plan →
      c.candidateValid op.childPeerID plan (some att) → Replaced att c c₁ →
      (c.Outward → op.Outward → Patient m) →
      Accepted
        (((Controller.dedupeResources c.committedResources).filter fun r =>
            !Controller.resourceIn r
              (c₁.committed op att (c.edge op.childPeerID) m).committedResources) ++
          att.reservation.overlap.toList)
        c (c₁.committed op att (c.edge op.childPeerID) m)

/-- Any edge. -/
def AnyEdge (_ : Core) (_ : ID) (_ : CommittedEdge) : Prop := True

/-- The steps of all exported calls under a licence. -/
inductive Step (v : Licence) : Bool → Bool → List Resource → List Resource → Core → Core → Prop
  | upkeep {b b' a r c c'} : Upkeep v b b' a r c c' → Step v b b' a r c c'
  | gap {b r c c'} : c.Idle → Trim AnyEdge r c c' → Step v b true [] r c c'.rebased
  | accepts {b r c c'} : v.commits = true → Accepted r c c' → Step v b true [] r c c'
  | reshapes {b c c'} : Reshaped c c' → (v.pictures = false → SameVideo c c') → Step v b b [] [] c c'
  | moves {b c host host'} : c.participant c.hostPeerID = some host → host'.role = .host →
      c.participant host'.peerID = none → c.Rated host' →
      Step v b true [] (Controller.dedupeResources (c.liveResources ++ c.committedResources)) c
        (c.aborted.rehosted host').bump.checkGraph
  | disposes {b c} : v.ends = true →
      Step v b b [] (Controller.dedupeResources (c.liveResources ++ c.committedResources)) c c.disposed

/-- The steps that bring neither a session nor an edge. -/
inductive Quiet (v : Licence) : Bool → Bool → List Resource → List Resource → Core → Core → Prop
  | upkeep {b b' a r c c'} : Upkeep v b b' a r c c' → Quiet v b b' a r c c'
  | gap {b r c c'} : c.Idle → Trim AnyEdge r c c' → Quiet v b true [] r c c'.rebased

theorem Quiet.step {v : Licence} {b b' : Bool} {a r : List Resource} {c c' : Core}
    (h : Quiet v b b' a r c c') : Step v b b' a r c c' := by
  cases h with
  | upkeep h => exact .upkeep h
  | gap hidle ht => exact .gap hidle ht

/-- Without the mark, the revision has not moved. -/
theorem Step.unmarked {v : Licence} {b b' : Bool} {a r : List Resource} {c c' : Core}
    (h : Step v b b' a r c c') (hb : b' = false) : b = false ∧ c'.revision = c.revision := by
  cases h with
  | upkeep h => exact h.unmarked hb
  | reshapes h _ => exact ⟨hb, h.revision⟩
  | disposes _ => exact ⟨hb, rfl⟩
  | _ => cases hb

end Piik.Route
