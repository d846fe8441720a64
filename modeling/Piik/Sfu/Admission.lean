/-
  SFU admission (`sfu/admission.go`): who holds the capacity of the embedded SFU.

  A publication and its subscriptions are charged when they are reserved and
  stay charged, through commit and drain, until their physical retirement is
  confirmed.  The caller serializes the calls; a panic has no state.
-/
import Piik.Lib.OMap

namespace Piik.Sfu

/-! ## Fences -/

/-- One publication generation within a room share. -/
structure ResourceFence where
  roomID : String
  shareGeneration : String
  publicationGeneration : String
  deriving DecidableEq, Repr

/-- One Viewer's connection to that publication. -/
structure SubscriptionFence extends ResourceFence where
  viewerPeerID : String
  connectionID : String
  deriving DecidableEq, Repr

/-- The panics of the package. -/
inductive Fault
  | capacityInvalid
  | fenceInvalid
  | subscriptionFenceInvalid
  | roomIDInvalid
  | underflow
  deriving DecidableEq, Repr

/-- The generations of share and publication, under which a room keeps the publication. -/
def publicationKey (fence : ResourceFence) : String :=
  fence.shareGeneration ++ "\x00" ++ fence.publicationGeneration

/-- The viewer and its connection, under which a publication keeps the subscription. -/
def subscriptionKey (fence : SubscriptionFence) : String :=
  fence.viewerPeerID ++ "\x00" ++ fence.connectionID

/-- A fence names its room and both generations. -/
def assertFence (fence : ResourceFence) : Except Fault Unit :=
  if fence.roomID = "" || fence.shareGeneration = "" || fence.publicationGeneration = "" then
    .error .fenceInvalid else .ok ()

/-- A subscription's fence names its viewer as well. -/
def assertSubscriptionFence (fence : SubscriptionFence) : Except Fault Unit := do
  assertFence fence.toResourceFence
  if fence.viewerPeerID = "" then .error .subscriptionFenceInvalid else .ok ()

/-! ## Entries -/

/-- The states of what is admitted. -/
inductive ResourceState
  | reserved
  | committed
  | draining
  deriving DecidableEq, Repr

/-- A subscription that is charged. -/
structure SubscriptionEntry where
  fence : SubscriptionFence
  state : ResourceState

/-- The order of the subscriptions is never read. -/
structure PublicationEntry where
  fence : ResourceFence
  state : ResourceState
  subscriptions : OMap String SubscriptionEntry

/-- The publications of a room. -/
abbrev RoomPublications := OMap String PublicationEntry

/-- The publication drains, and all its subscriptions with it. -/
def markDraining (publication : PublicationEntry) : PublicationEntry :=
  { publication with
    state := .draining
    subscriptions := publication.subscriptions.mapValues fun _ e => { e with state := .draining } }

/-- The two capacities. -/
structure AdmissionOptions where
  ingressCapacity : Int
  egressCapacity : Int

/-- What is admitted, and the two counts that are charged for it. -/
structure Admission where
  rooms : OMap String RoomPublications := .empty
  ingressCapacity : Int
  egressCapacity : Int
  ingressInUse : Int := 0
  egressInUse : Int := 0

/-- The largest capacity. -/
def maxSafeInteger : Int := 9007199254740991

/-- The check of a capacity. -/
def assertPositiveSafeInteger (value : Int) : Except Fault Unit :=
  if value ≤ 0 ∨ value > maxSafeInteger then .error .capacityInvalid else .ok ()

namespace Admission

/-- Nothing admitted, under two valid capacities. -/
def new (options : AdmissionOptions) : Except Fault Admission := do
  assertPositiveSafeInteger options.ingressCapacity
  assertPositiveSafeInteger options.egressCapacity
  .ok { ingressCapacity := options.ingressCapacity, egressCapacity := options.egressCapacity }

variable (a : Admission)

/-- What is registered under the fence's key. -/
def entryAt (roomID key : String) : Option PublicationEntry :=
  match a.rooms.get roomID with
  | none => none
  | some room => room.get key

/-- The publication under the fence's key, if it has the very same fence. -/
def publication (fence : ResourceFence) : Option PublicationEntry :=
  match a.entryAt fence.roomID (publicationKey fence) with
  | none => none
  | some publication => if publication.fence = fence then some publication else none

/-- Write to a registered publication. -/
def modifyPublication (fence : ResourceFence) (f : PublicationEntry → PublicationEntry) : Admission :=
  { a with rooms := a.rooms.modify fence.roomID fun room => room.modify (publicationKey fence) f }

/-! ## Reserve -/

/-- Charge one ingress, if there is one left. A publication that is already there is not charged
    again. -/
def reservePublication (fence : ResourceFence) : Except Fault (Bool × Admission) := do
  assertFence fence
  match a.entryAt fence.roomID (publicationKey fence) with
  | some existing => .ok (existing.state ≠ .draining && existing.fence = fence, a)
  | none =>
    let resources := (a.rooms.get fence.roomID).getD .empty
    if a.ingressInUse ≥ a.ingressCapacity then .ok (false, a)
    else if resources.values.any fun publication => publication.state == .reserved then .ok (false, a)
    else
      let entry : PublicationEntry := { fence, state := .reserved, subscriptions := .empty }
      .ok (true, { a with
        rooms := a.rooms.set fence.roomID (resources.set (publicationKey fence) entry)
        ingressInUse := a.ingressInUse + 1 })

/-- Charge one egress of a publication that does not drain. -/
def reserveSubscription (fence : SubscriptionFence) : Except Fault (Bool × Admission) := do
  assertSubscriptionFence fence
  match a.publication fence.toResourceFence with
  | none => .ok (false, a)
  | some publication =>
    if publication.state = .draining then .ok (false, a)
    else match publication.subscriptions.get (subscriptionKey fence) with
      | some existing => .ok (existing.fence = fence && existing.state ≠ .draining, a)
      | none =>
        if a.egressInUse ≥ a.egressCapacity then .ok (false, a)
        else
          let a := a.modifyPublication fence.toResourceFence fun publication =>
            { publication with subscriptions :=
                publication.subscriptions.set (subscriptionKey fence) { fence, state := .reserved } }
          .ok (true, { a with egressInUse := a.egressInUse + 1 })

/-! ## Commit -/

/-- The publication is committed, and its reserved subscriptions with it. -/
def promote (publication : PublicationEntry) : PublicationEntry :=
  { publication with
    state := .committed
    subscriptions := publication.subscriptions.mapValues fun _ e =>
      if e.state = .reserved then { e with state := .committed } else e }

/-- Promote the reserved publication and its reserved subscriptions; the older
    committed publications of the room drain, and are returned. -/
def commitPublication (fence : ResourceFence) :
    Except Fault ((List ResourceFence × Bool) × Admission) := do
  assertFence fence
  let key := publicationKey fence
  match a.rooms.get fence.roomID, a.publication fence with
  | some room, some publication =>
    if publication.state = .committed then .ok (([], true), a)
    else if publication.state ≠ .reserved then .ok (([], false), a)
    else if !publication.subscriptions.values.any fun e => e.state == .reserved then
      .ok (([], false), a)
    else
      let older := room.entries.filter fun e => e.1 ≠ key && e.2.state == .committed
      let room := room.mapValues fun k other =>
        if k = key then promote other
        else if other.state = .committed then markDraining other else other
      .ok ((older.map fun e => e.2.fence, true), { a with rooms := a.rooms.set fence.roomID room })
  | _, _ => .ok (([], false), a)

/-- The same subscription in another state. -/
def setSubscriptionState (fence : SubscriptionFence) (state : ResourceState) : Admission :=
  a.modifyPublication fence.toResourceFence fun publication =>
    { publication with subscriptions :=
        publication.subscriptions.modify (subscriptionKey fence) fun e => { e with state } }

/-- The registered subscription of exactly this fence. -/
def subscription (fence : SubscriptionFence) : Option SubscriptionEntry :=
  match a.publication fence.toResourceFence with
  | none => none
  | some publication => match publication.subscriptions.get (subscriptionKey fence) with
    | none => none
    | some e => if e.fence = fence then some e else none

/-- Commit a subscription of a committed publication. -/
def commitSubscription (fence : SubscriptionFence) : Except Fault (Bool × Admission) := do
  assertSubscriptionFence fence
  match a.publication fence.toResourceFence, a.subscription fence with
  | some publication, some subscription =>
    if publication.state ≠ .committed then .ok (false, a)
    else if subscription.state = .committed then .ok (true, a)
    else if subscription.state ≠ .reserved then .ok (false, a)
    else .ok (true, a.setSubscriptionState fence .committed)
  | _, _ => .ok (false, a)

/-! ## Drain -/

/-- The subscription drains. It stays charged until the drain is complete. -/
def beginSubscriptionDrain (fence : SubscriptionFence) : Except Fault (Bool × Admission) := do
  assertSubscriptionFence fence
  match a.subscription fence with
  | none => .ok (false, a)
  | some _ => .ok (true, a.setSubscriptionState fence .draining)

/-- The publication drains. It stays charged until the drain is complete. -/
def beginDrain (fence : ResourceFence) : Except Fault (Bool × Admission) := do
  assertFence fence
  match a.publication fence with
  | none => .ok (false, a)
  | some _ => .ok (true, a.modifyPublication fence markDraining)

/-- A publication that does not drain. -/
def hasPublication (fence : ResourceFence) : Bool :=
  match a.publication fence with
  | none => false
  | some publication => publication.state ≠ .draining

/-- No count is below zero. -/
def assertNoUnderflow : Except Fault Unit :=
  if a.ingressInUse < 0 ∨ a.egressInUse < 0 then .error .underflow else .ok ()

/-- Give back so many egress charges. -/
def subtractEgress (count : Int) : Except Fault Admission := do
  let a := { a with egressInUse := a.egressInUse - count }
  a.assertNoUnderflow
  .ok a

/-- In-process closure revokes this exact connection; no reusable token remains. -/
def completeSubscriptionDrain (fence : SubscriptionFence) : Except Fault (Bool × Admission) :=
  match a.subscription fence with
  | none => .ok (false, a)
  | some e =>
    if e.state ≠ .draining then .ok (false, a)
    else do
      let a := a.modifyPublication fence.toResourceFence fun publication =>
        { publication with subscriptions := publication.subscriptions.delete (subscriptionKey fence) }
      let a ← a.subtractEgress 1
      .ok (true, a)

/-- A publication that drained is gone, and with it all that was charged for it. -/
def completeDrain (fence : ResourceFence) : Except Fault (Bool × Admission) := do
  assertFence fence
  match a.rooms.get fence.roomID, a.publication fence with
  | some room, some publication =>
    if publication.state ≠ .draining then .ok (false, a)
    else
      let room := room.delete (publicationKey fence)
      let a := { a with
        rooms := a.rooms.set fence.roomID room
        ingressInUse := a.ingressInUse - 1 }
      let a ← a.subtractEgress publication.subscriptions.len
      a.assertNoUnderflow
      .ok (true, if room.len = 0 then { a with rooms := a.rooms.delete fence.roomID } else a)
  | _, _ => .ok (false, a)

/-- Everything in a room drains. -/
def beginDrainRoom (roomID : String) : Except Fault (List ResourceFence × Admission) :=
  if roomID = "" then .error .roomIDInvalid
  else match a.rooms.get roomID with
    | none => .ok ([], a)
    | some room =>
      let room := room.mapValues fun _ => markDraining
      .ok (room.values.map fun publication => publication.fence,
        { a with rooms := a.rooms.set roomID room })

/-- Everything in these rooms drains. -/
def drainRooms (a : Admission) : List String → Except Fault (List ResourceFence × Admission)
  | [] => .ok ([], a)
  | roomID :: roomIDs => do
    let (fences, a) ← a.beginDrainRoom roomID
    let (more, a) ← drainRooms a roomIDs
    .ok (fences ++ more, a)

/-- Everything drains. -/
def beginDrainAll : Except Fault (List ResourceFence × Admission) := a.drainRooms a.rooms.keys

/-! ## The operations as data -/

/-- An operation that may change the ledger. -/
inductive Op
  | reservePublication (fence : ResourceFence)
  | reserveSubscription (fence : SubscriptionFence)
  | commitPublication (fence : ResourceFence)
  | commitSubscription (fence : SubscriptionFence)
  | beginSubscriptionDrain (fence : SubscriptionFence)
  | beginDrain (fence : ResourceFence)
  | completeSubscriptionDrain (fence : SubscriptionFence)
  | completeDrain (fence : ResourceFence)
  | beginDrainRoom (roomID : String)
  | beginDrainAll

/-- Whether the operation was accepted, and the fences that drain with it. -/
structure Answer where
  accepted : Bool := true
  draining : List ResourceFence := []

/-- The answer of an operation that accepts or refuses. -/
def ofAccepted (r : Bool × Admission) : Answer × Admission := ({ accepted := r.1 }, r.2)

/-- The answer of an operation that lists what drains. -/
def ofDraining (r : List ResourceFence × Admission) : Answer × Admission := ({ draining := r.1 }, r.2)

/-- One operation, with its answer or the fault that it panics with. -/
def step (a : Admission) : Op → Except Fault (Answer × Admission)
  | .reservePublication fence => ofAccepted <$> a.reservePublication fence
  | .reserveSubscription fence => ofAccepted <$> a.reserveSubscription fence
  | .commitPublication fence =>
    (fun r => ({ accepted := r.1.2, draining := r.1.1 }, r.2)) <$> a.commitPublication fence
  | .commitSubscription fence => ofAccepted <$> a.commitSubscription fence
  | .beginSubscriptionDrain fence => ofAccepted <$> a.beginSubscriptionDrain fence
  | .beginDrain fence => ofAccepted <$> a.beginDrain fence
  | .completeSubscriptionDrain fence => ofAccepted <$> a.completeSubscriptionDrain fence
  | .completeDrain fence => ofAccepted <$> a.completeDrain fence
  | .beginDrainRoom roomID => ofDraining <$> a.beginDrainRoom roomID
  | .beginDrainAll => ofDraining <$> a.beginDrainAll

/-- An operation, where it was called and what it answered. -/
structure Event where
  before : Admission
  op : Op
  answer : Answer

/-- One operation after another, until one panics. -/
def run (a : Admission) : List Op → Except Fault (List Event × Admission)
  | [] => .ok ([], a)
  | op :: ops => do
    let (answer, a') ← a.step op
    let (events, a'') ← run a' ops
    .ok ({ before := a, op, answer } :: events, a'')

end Admission

end Piik.Sfu
