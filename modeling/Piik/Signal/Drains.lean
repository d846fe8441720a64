/-
  The drains of the SFU (`signal/router_sfu.go`): one task for each resource that
  waits for its physical close, and one operation for each close in flight.

  The close runs outside the router's mutex; scheduling it and settling it are
  critical sections.  A run is any order of these sections and of the closes
  that return in between.  A panic of the admission ends the run.

  A publication's drain joins the video closes that are registered when it
  starts.  A video close that starts later, while that drain is in flight, is
  joined by nobody.
-/
import Piik.Lib.Steps
import Piik.Sfu.Fences

namespace Piik.Signal.Drains

open Sfu Function

/-! ## Tasks and operations -/

/-- What a task drains. -/
inductive DrainKind
  | publication
  | subscription
  | videoPublication
  | voice
  deriving DecidableEq, Repr

/-- One physical close that has to happen; `operation` is the one in flight. -/
structure DrainTask where
  kind : DrainKind
  fence : SubscriptionFence
  operation : Option ℕ := none

/-- A close in flight, for the task registered under the key when it began.
    `closed` is what the physical close returned, `settled` what the drain did:
    `true` stands for no error. -/
structure DrainOperation where
  task : ℕ
  key : SubscriptionFence
  videoDrains : List ℕ := []
  closed : Option Bool := none
  settled : Option Bool := none

/-- The key of a publication's own drain. -/
def publicationFence (fence : ResourceFence) : SubscriptionFence :=
  { toResourceFence := fence, viewerPeerID := "", connectionID := "" }

/-- The key of a video publication's drain. -/
def videoFence (fence : ResourceFence) (connectionID : String) : SubscriptionFence :=
  { toResourceFence := fence, viewerPeerID := "", connectionID }

/-- The key of a voice connection's drain. -/
def voiceFence (roomID edgeID : String) : SubscriptionFence :=
  { roomID, shareGeneration := "", publicationGeneration := edgeID, viewerPeerID := ""
    connectionID := edgeID }

/-- Tasks and operations are named by the order in which they were made;
    `publications` are the video handles of the media runtime. -/
structure State where
  admission : Admission
  sfuDrainTasks : OMap SubscriptionFence ℕ := .empty
  tasks : ℕ → DrainTask := fun _ => { kind := .voice, fence := voiceFence "" "" }
  taskCount : ℕ := 0
  operations : ℕ → DrainOperation := fun _ => { task := 0, key := voiceFence "" "" }
  operationCount : ℕ := 0
  publications : OMap ResourceFence String := .empty

namespace State

variable (s : State)

/-! ## Running a task -/

/-- Join the close in flight, or start one. -/
def startDrain (key : SubscriptionFence) (t : ℕ) : ℕ × State :=
  match (s.tasks t).operation with
  | some o => (o, s)
  | none =>
    let o := s.operationCount
    (o, { s with
      tasks := update s.tasks t { s.tasks t with operation := some o }
      operations := update s.operations o { task := t, key }, operationCount := o + 1 })

/-- The closes of the publication's video siblings, each joined or started. -/
def joinVideos (fence : ResourceFence) : List (SubscriptionFence × ℕ) → State → List ℕ × State
  | [], s => ([], s)
  | (key, t) :: rest, s =>
    if (s.tasks t).kind = .videoPublication ∧ (s.tasks t).fence.toResourceFence = fence then
      let (o, s) := s.startDrain key t
      let (os, s) := joinVideos fence rest s
      (o :: os, s)
    else joinVideos fence rest s

/-- A publication's drain first joins its video siblings. -/
def runSfuDrain (key : SubscriptionFence) (t : ℕ) : State :=
  match (s.tasks t).operation with
  | some _ => s
  | none =>
    let (o, s) := s.startDrain key t
    if (s.tasks t).kind = .publication then
      let (videoDrains, s) := joinVideos (s.tasks t).fence.toResourceFence s.sfuDrainTasks.entries s
      { s with operations := update s.operations o { s.operations o with videoDrains } }
    else s

/-! ## Scheduling -/

/-- A new task under its fence. -/
def register (kind : DrainKind) (fence : SubscriptionFence) : State :=
  { s with
    tasks := update s.tasks s.taskCount { kind, fence }, taskCount := s.taskCount + 1
    sfuDrainTasks := s.sfuDrainTasks.set fence s.taskCount }

/-- Run the task of a fence, a new one if there is none. -/
def scheduleSfuDrain (kind : DrainKind) (fence : SubscriptionFence) : State :=
  match s.sfuDrainTasks.get fence with
  | some t => s.runSfuDrain fence t
  | none => (s.register kind fence).runSfuDrain fence s.taskCount

/-- The publication's drain removes every subscriber: their tasks go. -/
def cancelSubscriptions (fence : ResourceFence) : State :=
  { s with sfuDrainTasks := s.sfuDrainTasks.filter fun _ t =>
      !((s.tasks t).kind == .subscription && (s.tasks t).fence.toResourceFence == fence) }

/-- A publication's drain takes over those of its subscriptions. -/
def scheduleSfuPublicationDrain (fence : ResourceFence) : State :=
  (s.cancelSubscriptions fence).scheduleSfuDrain .publication (publicationFence fence)

/-- A pending drain of the publication already removes the subscriber. -/
def scheduleSfuSubscriptionDrain (fence : SubscriptionFence) : State :=
  if s.sfuDrainTasks.has (publicationFence fence.toResourceFence) then s
  else s.scheduleSfuDrain .subscription fence

/-- `scheduleSfuPublicationDrain` for each fence. -/
def scheduleAll (fences : List ResourceFence) : State :=
  fences.foldl scheduleSfuPublicationDrain s

/-- `RetirePublication` detaches the handle of exactly this connection, and hands
    out its close. -/
def retireSfuVideoPublication (fence : ResourceFence) (connectionID : String) : State :=
  if s.publications.get fence = some connectionID then
    let key := videoFence fence connectionID
    let s := { s with publications := s.publications.delete fence }
    (s.register .videoPublication key).runSfuDrain key s.taskCount
  else s

/-- The close of a voice connection. -/
def closeVoiceEdge (roomID edgeID : String) : State :=
  let key := voiceFence roomID edgeID
  (s.register .voice key).runSfuDrain key s.taskCount

/-- The picture of the publication is retiring. -/
def sfuVideoRetiring (fence : ResourceFence) : Bool :=
  s.sfuDrainTasks.entries.any fun e =>
    (s.tasks e.2).kind == .videoPublication && (s.tasks e.2).fence.toResourceFence == fence

/-! ## Settling -/

/-- Settle a close that returned without an error, or with one.  The answer says
    whether the drain ends without an error; a failed close stays as it is. -/
def settleSfuDrain (key : SubscriptionFence) (t : ℕ) (closed : Bool) : Except Fault (Bool × State) :=
  if !closed then .ok (false, s)
  else if s.sfuDrainTasks.get key ≠ some t then .ok (true, s)
  else
    let done (a : Admission) : State :=
      { s with admission := a, sfuDrainTasks := s.sfuDrainTasks.delete key }
    match (s.tasks t).kind with
    | .publication => do
      let (answer, a) ← s.admission.step (.completeDrain (s.tasks t).fence.toResourceFence)
      if answer.accepted then .ok (true, done a) else .ok (false, { s with admission := a })
    | .subscription => do
      let (_, a) ← s.admission.step (.completeSubscriptionDrain (s.tasks t).fence)
      .ok (true, done a)
    | .videoPublication | .voice => .ok (true, done s.admission)

/-- What the joined closes came to, once all of them are done. -/
def joined (op : DrainOperation) : Option Bool :=
  if op.videoDrains.all fun d => (s.operations d).settled.isSome then
    some (op.videoDrains.all fun d => (s.operations d).settled = some true)
  else none

/-- The operation is done. -/
def finish (o : ℕ) (done : Bool) : State :=
  { s with
    operations := update s.operations o { s.operations o with settled := some done }
    tasks := fun t => if (s.tasks t).operation = some o then { s.tasks t with operation := none }
      else s.tasks t }

/-- The goroutine of the operation has its result and takes the mutex. -/
def settle (o : ℕ) : Option State :=
  let op := s.operations o
  if o < s.operationCount ∧ op.settled = none then
    match op.closed, s.joined op with
    | some closed, some joined =>
      match s.settleSfuDrain op.key op.task (closed && joined) with
      | .ok (done, s) => some (s.finish o done)
      | .error _ => none
    | _, _ => none
  else none

/-- The physical close returns; a publication's close drops its handle. -/
def close (o : ℕ) (ok : Bool) : Option State :=
  let op := s.operations o
  if o < s.operationCount ∧ op.closed = none then
    let publications := if (s.tasks op.task).kind = .publication then
      s.publications.delete op.key.toResourceFence else s.publications
    some { s with publications, operations := update s.operations o { op with closed := some ok } }
  else none

/-! ## The router's calls -/

/-- An operation of the admission; its panic ends the run. -/
def callAdmission (op : Admission.Op) : Option (Admission.Answer × State) :=
  match s.admission.step op with
  | .ok (answer, a) => some (answer, { s with admission := a })
  | .error _ => none

/-- Reserve a publication with its first subscription, or drain it at once. -/
def prepareNewPublication (fence : SubscriptionFence) : Option State := do
  let (answer, s) ← s.callAdmission (.reservePublication fence.toResourceFence)
  if !answer.accepted then pure s
  else do
    let (answer, s) ← s.callAdmission (.reserveSubscription fence)
    if answer.accepted then pure s
    else do
      let (_, s) ← s.callAdmission (.beginDrain fence.toResourceFence)
      pure (s.scheduleSfuPublicationDrain fence.toResourceFence)

/-- Begin to drain a publication. -/
def releasePublication (fence : ResourceFence) : Option State := do
  let (answer, s) ← s.callAdmission (.beginDrain fence)
  pure (if answer.accepted then s.scheduleSfuPublicationDrain fence else s)

/-- Begin to drain a subscription. -/
def releaseSubscription (fence : SubscriptionFence) : Option State := do
  let (answer, s) ← s.callAdmission (.beginSubscriptionDrain fence)
  pure (if answer.accepted then s.scheduleSfuSubscriptionDrain fence else s)

/-- The operations that drain what they answer. -/
def drainAnswered (op : Admission.Op) : Option State := do
  let (answer, s) ← s.callAdmission op
  pure (s.scheduleAll answer.draining)

/-- A Host's offer makes a video handle, unless the picture of its publication is
    retiring or the publication drains. -/
def preparePublication (fence : ResourceFence) (connectionID : String) : Option State :=
  if fence.roomID = "" ∨ fence.shareGeneration = "" ∨ fence.publicationGeneration = "" ∨
      connectionID = "" ∨ s.sfuVideoRetiring fence ∨ !s.admission.hasPublication fence ∨
      s.publications.has fence then none
  else some { s with publications := s.publications.set fence connectionID }

end State

/-- The calls of the router, and the steps of the tasks. -/
inductive Event
  | prepareNewPublication (fence : SubscriptionFence)
  | reserveSubscription (fence : SubscriptionFence)
  | commitSubscription (fence : SubscriptionFence)
  | commitPublication (fence : ResourceFence)
  | releasePublication (fence : ResourceFence)
  | releaseSubscription (fence : SubscriptionFence)
  | clearRoom (roomID : String)
  | shutdown
  /-- The shutdown runs a task once more. -/
  | retry (key : SubscriptionFence)
  | preparePublication (fence : ResourceFence) (connectionID : String)
  | retireVideo (fence : ResourceFence) (connectionID : String)
  | closeVoice (roomID edgeID : String)
  | closed (o : ℕ) (ok : Bool)
  | settle (o : ℕ)

/-- One event. `none` is an event that cannot happen now. -/
def State.step (s : State) : Event → Option State
  | .prepareNewPublication fence => s.prepareNewPublication fence
  | .reserveSubscription fence => (s.callAdmission (.reserveSubscription fence)).map Prod.snd
  | .commitSubscription fence => (s.callAdmission (.commitSubscription fence)).map Prod.snd
  | .commitPublication fence => s.drainAnswered (.commitPublication fence)
  | .releasePublication fence => s.releasePublication fence
  | .releaseSubscription fence => s.releaseSubscription fence
  | .clearRoom roomID => s.drainAnswered (.beginDrainRoom roomID)
  | .shutdown => s.drainAnswered .beginDrainAll
  | .retry key => (s.sfuDrainTasks.get key).map fun t => s.runSfuDrain key t
  | .preparePublication fence connectionID => s.preparePublication fence connectionID
  | .retireVideo fence connectionID => some (s.retireSfuVideoPublication fence connectionID)
  | .closeVoice roomID edgeID => if edgeID = "" then none else some (s.closeVoiceEdge roomID edgeID)
  | .closed o ok => s.close o ok
  | .settle o => s.settle o

end Piik.Signal.Drains
