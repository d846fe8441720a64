/-
  The voice connections of the SFU (`sfu/voice.go`, `sfu/voice_connection.go`).

  Plans, delivery and readers move under the owner's mutex; SDP work runs under
  the signaling mutex of its connection, on a snapshot of the plan.  A step is
  one critical section of the owner or of a slot; what the signaler does to its
  own fields goes with the section before it.  What the WebRTC library answers
  is part of the event.

  Connections, inputs and sources are the pointers of the source by their
  numbers.
-/
import Piik.Voice.Plan
import Piik.Lib.Steps

namespace Piik.Sfu

open Piik.Voice (VoicePublication)

/-! ## Plans -/

/-- `maxVoicePublications` -/
def maxVoicePublications : ℕ := 20 + 1

/-- The name of a voice connection. -/
structure VoiceKey where
  room : String
  peer : String
  session : String
  connection : String
  deriving DecidableEq

/-- A plan, and the connection it is for. -/
structure VoiceConnectionPlan extends Voice.VoiceConnectionPlan where
  key : VoiceKey

/-- The identifiers that the checks let through: not empty, at most 128 bytes. -/
def validID (id : String) : Bool := id ≠ "" && id.utf8ByteSize ≤ 128

/-- The loop over both lists with the map `seen`. -/
def freshPublications : List VoicePublication → List String → Bool
  | [], _ => true
  | pub :: pubs, seen =>
    validID pub.id && validID pub.peerID && pub.id ∉ seen && freshPublications pubs (pub.id :: seen)

/-- The checks of a plan, which is then sorted. -/
def normalizeVoicePlan (plan : VoiceConnectionPlan) : Except String VoiceConnectionPlan :=
  if ¬[plan.key.room, plan.key.peer, plan.key.session, plan.key.connection].all validID then
    .error "voice connection identity is invalid"
  else if plan.publish.length > maxVoicePublications ∨ plan.subscribe.length > maxVoicePublications then
    .error "voice publication count is invalid"
  else if ¬freshPublications (plan.publish ++ plan.subscribe) [] then
    .error "voice publication identity is invalid"
  else
    .ok { plan with
      publish := plan.publish.sortStable fun a b => a.id < b.id
      subscribe := plan.subscribe.sortStable fun a b => a.id < b.id }

/-! ## One connection -/

/-- `VoicePublication{}`: the slot is free. -/
def noPublication : VoicePublication := ⟨"", ""⟩

/-- An output of a connection. -/
structure SendSlot where
  publication : VoicePublication := noPublication
  active : Bool := false
  /-- The source that the output takes its packets from. -/
  input : Option ℕ := none

namespace SendSlot

/-- The output is off. -/
def disable (slot : SendSlot) : SendSlot := { slot with active := false, input := none }

/-- `attach`; `replaced` is the result of `ReplaceSource`. -/
def attach (slot : SendSlot) (pub : VoicePublication) (source : ℕ) (replaced : Bool) : SendSlot :=
  if slot.active && slot.publication = pub && slot.input ≠ some source && replaced then
    { slot with input := some source }
  else slot

/-- The output does not take from the source any more. -/
def detachFrom (slot : SendSlot) (source : ℕ) : SendSlot :=
  if slot.input = some source then { slot with input := none } else slot

end SendSlot

/-- A section of an offer. -/
structure VoiceTrack where
  mid : String
  publicationID : String

/-- The types of a description. -/
inductive SDPType
  | offer
  | pranswer
  | answer
  | rollback
  deriving DecidableEq

/-- A description of the browser. -/
structure VoiceDescription where
  revision : ℕ
  sdpType : SDPType
  sdp : String
  tracks : List VoiceTrack

/-- A message of the browser. -/
structure VoiceSignal where
  description : Option VoiceDescription := none
  candidate : Option String := none
  renegotiate : Bool := false

/-- An offer that the browser has not answered. -/
structure VoiceOffer where
  revision : ℕ
  tracks : List VoiceTrack
  version : ℕ
  incoming : OMap String VoicePublication

/-- The holder of the signaling mutex: the section that is due. -/
inductive Signaler
  | idle
  | answering (answer : VoiceDescription)
  /-- `offer`, before its snapshot. -/
  | offering (force : Bool)
  /-- The pass that frees send slots, at slot `i`. -/
  | dropping (plan : Voice.VoiceConnectionPlan) (version i : ℕ)
  | clearing (plan : Voice.VoiceConnectionPlan) (version i : ℕ)
  /-- The pass that fills them. -/
  | adding (plan : Voice.VoiceConnectionPlan) (version : ℕ) (todo : List VoicePublication)
  | authorizing (plan : Voice.VoiceConnectionPlan) (version i : ℕ) (pub : VoicePublication)
      (todo : List VoicePublication)
  /-- `CreateOffer` and `SetLocalDescription`. -/
  | describing (plan : Voice.VoiceConnectionPlan) (version : ℕ)

/-- Nobody prepares an offer. -/
def Signaler.isIdle : Signaler → Bool
  | .idle => true
  | _ => false

/-- What the library answers. -/
structure Outcome where
  /-- The call succeeds. -/
  ok : Bool := true
  /-- How many receive transceivers can still be added. -/
  room : ℕ := maxVoicePublications
  receiveMid : ℕ → String := fun _ => ""
  sendMid : ℕ → String := fun _ => ""
  /-- The candidate is added, or refused with an `OperationError`. -/
  candidate : String → Bool := fun _ => true

/-- The state of a connection: its plan, its slots, and how far both have been negotiated. -/
structure VoiceConnection where
  key : VoiceKey
  plan : Voice.VoiceConnectionPlan := ⟨[], []⟩
  version : ℕ := 0
  outgoing : OMap String ℕ := .empty
  remote : OMap String VoicePublication := .empty
  bindings : OMap String ℕ := .empty
  closed : Bool := false
  receiveSlots : List VoicePublication := [noPublication]
  sendSlots : List SendSlot := []
  pending : Option VoiceOffer := none
  sequence : ℕ := 0
  negotiatedVersion : ℕ := 0
  renegotiate : Bool := false
  candidates : List String := []
  /-- `RemoteDescription()` is set. -/
  described : Bool := false
  signaler : Signaler := .idle
  /-- The work that `ConfigureVoice` has returned and nobody has begun. -/
  outstanding : ℕ := 0
  /-- The last call of `offer` has returned an error. -/
  failed : Bool := false

/-- The second loop over the receive slots. -/
def placeReceive : List VoicePublication → List VoicePublication → ℕ → List VoicePublication × Bool
  | [], slots, _ => (slots, true)
  | pub :: todo, slots, room =>
    if pub ∈ slots then placeReceive todo slots room
    else match slots.findIdx? (·.id = "") with
      | some i => placeReceive todo (slots.set i pub) room
      | none =>
        if room = 0 then (slots, false) else placeReceive todo (slots ++ [pub]) (room - 1)

/-- The receive slots under a plan, and whether no transceiver was refused. -/
def syncReceive (publish slots : List VoicePublication) (room : ℕ) : List VoicePublication × Bool :=
  placeReceive publish (slots.map fun pub => if pub ∈ publish then pub else noPublication) room

/-- The loop over the tracks of an answer. -/
def acceptTracks (incoming : OMap String VoicePublication) :
    List VoiceTrack → OMap String VoicePublication → List String → Option (OMap String VoicePublication)
  | [], remote, _ => some remote
  | track :: tracks, remote, seen =>
    match incoming.get track.mid with
    | none => none
    | some pub =>
      if pub.id ≠ track.publicationID || (remote.get track.mid).any (·.id ≠ "") || pub.id ∈ seen then none
      else acceptTracks incoming tracks (remote.set track.mid pub) (pub.id :: seen)

namespace VoiceConnection

/-- The mutex is free again. -/
def rest (c : VoiceConnection) : VoiceConnection := { c with signaler := .idle }

/-- `offer` returns an error. -/
def fail (c : VoiceConnection) : VoiceConnection := { c with signaler := .idle, failed := true }

/-- `offer` up to the send slots; the snapshot fails when the connection is not current. -/
def offer (c : VoiceConnection) (current force : Bool) (o : Outcome) : VoiceConnection :=
  if c.closed || !current then c.fail
  else
    let c := { c with renegotiate := c.renegotiate || force }
    if c.pending.isSome || c.sequence ≠ 0 && c.version = c.negotiatedVersion && !c.renegotiate then
      { c with signaler := .idle, failed := false }
    else
      let synced := syncReceive c.plan.publish c.receiveSlots o.room
      let c := { c with receiveSlots := synced.1 }
      if synced.2 then { c with signaler := .dropping c.plan c.version 0 } else c.fail

/-- The pass that frees slots; a slot is disabled before it is cleared. -/
def drop (c : VoiceConnection) (plan : Voice.VoiceConnectionPlan) (version i : ℕ) : VoiceConnection :=
  match c.sendSlots[i]? with
  | none => { c with signaler := .adding plan version plan.subscribe }
  | some slot =>
    if slot.publication.id ≠ "" ∧ slot.publication ∉ plan.subscribe then
      { c with sendSlots := c.sendSlots.set i slot.disable, signaler := .clearing plan version i }
    else { c with signaler := .dropping plan version (i + 1) }

/-- The publication of a slot. -/
def setPublication (c : VoiceConnection) (i : ℕ) (pub : VoicePublication) : VoiceConnection :=
  { c with sendSlots := c.sendSlots.modify i fun slot => { slot with publication := pub } }

/-- The pass that fills slots.  A slot that is made is free at first and taken next. -/
def add (c : VoiceConnection) (plan : Voice.VoiceConnectionPlan) (version : ℕ) (o : Outcome) :
    List VoicePublication → VoiceConnection
  | [] => { c with signaler := .describing plan version }
  | pub :: todo =>
    match c.sendSlots.findIdx? (·.publication = pub) with
    | some i => { c with signaler := .authorizing plan version i pub todo }
    | none =>
      match c.sendSlots.findIdx? (·.publication.id = "") with
      | some i => { c.setPublication i pub with signaler := .authorizing plan version i pub todo }
      | none =>
        if o.ok && !c.closed then
          { c with sendSlots := c.sendSlots ++ [{}], signaler := .adding plan version (pub :: todo) }
        else c.fail

/-- A slot is on as long as the plan subscribes to its publication. -/
def authorizeOutput (c : VoiceConnection) (i : ℕ) (pub : VoicePublication) : VoiceConnection :=
  let active := !c.closed && pub ∈ c.plan.subscribe
  { c with sendSlots := c.sendSlots.modify i fun slot => { slot with active }
           outgoing := if active then c.outgoing.set pub.id i else c.outgoing }

/-- The slots in use, each with its number. -/
def used (pubs : List VoicePublication) : List (VoicePublication × ℕ) :=
  pubs.zipIdx.filter fun e => e.1.id ≠ ""

/-- The offer that the slots describe. -/
def describe (c : VoiceConnection) (version : ℕ) (o : Outcome) : VoiceOffer where
  revision := c.sequence + 1
  tracks := (used c.receiveSlots).map (fun e => ⟨o.receiveMid e.2, e.1.id⟩) ++
    (used (c.sendSlots.map SendSlot.publication)).map fun e => ⟨o.sendMid e.2, e.1.id⟩
  version := version
  incoming := (used c.receiveSlots).foldl (fun incoming e => incoming.set (o.receiveMid e.2) e.1) .empty

/-- The part of `signal` that takes an answer. -/
def answer (c : VoiceConnection) (answer : VoiceDescription) (o : Outcome) : VoiceConnection :=
  match c.pending with
  | none => c.rest
  | some offer =>
    if answer.revision ≠ offer.revision || answer.sdpType ≠ .answer ||
        answer.tracks.length > maxVoicePublications || answer.sdp.utf8ByteSize > 128 * 1024 then c.rest
    else match acceptTracks offer.incoming answer.tracks .empty [] with
      | none => c.rest
      | some remote =>
        if !o.ok then c.rest
        else
          let c := { c with remote, described := true }
          if c.candidates.all o.candidate then
            { c with candidates := [], negotiatedVersion := offer.version, pending := none
                     signaler := .offering false }
          else c.rest

/-- The signaler's next section. -/
def turn (c : VoiceConnection) (current : Bool) (o : Outcome) : Option VoiceConnection :=
  match c.signaler with
  | .idle => none
  | .answering answer => some (c.answer answer o)
  | .offering force => some (c.offer current force o)
  | .dropping plan version i => some (c.drop plan version i)
  | .clearing plan version i =>
    some { c.setPublication i noPublication with signaler := .dropping plan version (i + 1) }
  | .adding plan version todo => some (c.add plan version o todo)
  | .authorizing plan version i pub todo =>
    some { c.authorizeOutput i pub with signaler := .adding plan version todo }
  | .describing _ version =>
    some (if o.ok then
      { c with sequence := c.sequence + 1, pending := some (c.describe version o)
               renegotiate := false, failed := false, signaler := .idle }
    else c.fail)

/-- `signal` up to its first section. -/
def signal (c : VoiceConnection) (current : Bool) (signal : VoiceSignal) : VoiceConnection :=
  if c.closed || !current then c
  else match signal.description, signal.candidate, signal.renegotiate with
    | none, none, true => { c with signaler := .offering true }
    | none, some candidate, false =>
      if c.described || c.candidates.length ≥ 64 then c
      else { c with candidates := c.candidates ++ [candidate] }
    | some answer, none, false => { c with signaler := .answering answer }
    | _, _, _ => c

/-- The loop of `ConfigureVoice` over the outputs, under the new plan. -/
def revoke (c : VoiceConnection) : VoiceConnection :=
  let keeps (i : ℕ) : Bool := (c.sendSlots[i]?).any fun slot => slot.publication ∈ c.plan.subscribe
  { c with sendSlots := c.sendSlots.mapIdx fun i slot =>
             if i ∈ c.outgoing.values && !keeps i then slot.disable else slot
           outgoing := c.outgoing.filter fun _ i => keeps i }

/-- `ConfigureVoice` on one connection, up to its inputs. -/
def configure (c : VoiceConnection) (plan : Voice.VoiceConnectionPlan) : VoiceConnection :=
  { c with plan
           version := if c.plan.publish ≠ plan.publish || c.plan.subscribe ≠ plan.subscribe
             then c.version + 1 else c.version
           outstanding := c.outstanding + 1 }.revoke

/-- The outputs of the connection leave a source. -/
def detach (c : VoiceConnection) (source : ℕ) : VoiceConnection :=
  { c with sendSlots := c.sendSlots.mapIdx fun i slot =>
      if i ∈ c.outgoing.values then slot.detachFrom source else slot }

/-- `retireLocked` on the connection itself. -/
def retire (c : VoiceConnection) : VoiceConnection :=
  { c with closed := true
           sendSlots := c.sendSlots.mapIdx fun i slot =>
             if i ∈ c.outgoing.values then slot.disable else slot }

/-- The output for a publication takes its packets from the source. -/
def attach (c : VoiceConnection) (pub : VoicePublication) (source : ℕ) (replaced : Bool) :
    VoiceConnection :=
  match c.outgoing.get pub.id with
  | none => c
  | some i =>
    if pub ∈ c.plan.subscribe then
      { c with sendSlots := c.sendSlots.modify i fun slot => slot.attach pub source replaced }
    else c

end VoiceConnection

/-! ## The owner -/

/-- A `voiceInput` with its reader. -/
structure VoiceInput where
  conn : ℕ
  mid : String
  publication : VoicePublication := noPublication
  source : Option ℕ := none
  /-- The reader has left its loop. -/
  leaving : Bool := false
  /-- The deferred section is over. -/
  done : Bool := false

/-- All connections, with the inputs that their publications come in by. -/
structure VoiceMedia where
  connections : OMap VoiceKey ℕ := .empty
  closed : Bool := false
  conns : ℕ → VoiceConnection := fun _ => { key := ⟨"", "", "", ""⟩ }
  /-- How many connections were made. -/
  made : ℕ := 0
  inputs : ℕ → VoiceInput := fun _ => { conn := 0, mid := "" }
  started : ℕ := 0
  sources : ℕ := 0

namespace VoiceMedia

/-- `owner.connections[c.key] == c` -/
def current (m : VoiceMedia) (i : ℕ) : Bool := m.connections.get (m.conns i).key = some i

/-- Another state of a connection. -/
def setConn (m : VoiceMedia) (i : ℕ) (c : VoiceConnection) : VoiceMedia :=
  { m with conns := Function.update m.conns i c }

/-- Another state of an input. -/
def setInput (m : VoiceMedia) (r : ℕ) (input : VoiceInput) : VoiceMedia :=
  { m with inputs := Function.update m.inputs r input }

/-- `detachInputLocked` of a connection in that room. -/
def detachInput (m : VoiceMedia) (room : String) : Option ℕ → VoiceMedia
  | none => m
  | some source =>
    { m with conns := fun i =>
        if m.current i && (m.conns i).key.room = room then (m.conns i).detach source else m.conns i }

/-- The sources feed nobody in the room any more. -/
def detachInputs (m : VoiceMedia) (room : String) (sources : List (Option ℕ)) : VoiceMedia :=
  sources.foldl (fun m source => m.detachInput room source) m

/-- The connections of a room. -/
def roomCount (m : VoiceMedia) (room : String) : ℕ :=
  (m.connections.keys.filter fun key => key.room = room).length

/-- `newVoiceConnection` -/
def create (m : VoiceMedia) (key : VoiceKey) : VoiceMedia :=
  { m.setConn m.made { key } with
    connections := m.connections.set key m.made, made := m.made + 1 }

/-- The commit of a plan: the inputs it no longer publishes are fenced. -/
def commit (m : VoiceMedia) (i : ℕ) (plan : Voice.VoiceConnectionPlan) : VoiceMedia :=
  let c := (m.conns i).configure plan
  (m.setConn i c).detachInputs c.key.room
    ((c.bindings.values.filter fun r => (m.inputs r).publication ∉ plan.publish).map
      fun r => (m.inputs r).source)

/-- `ConfigureVoice`; `made` is the result of the library's constructors. -/
def configureVoice (m : VoiceMedia) (plan : VoiceConnectionPlan) (made : Bool) : VoiceMedia :=
  match normalizeVoicePlan plan with
  | .error _ => m
  | .ok plan =>
    if m.closed then m
    else match m.connections.get plan.key with
      | some i => if (m.conns i).closed then m else m.commit i plan.toVoiceConnectionPlan
      | none =>
        if m.roomCount plan.key.room ≥ maxVoicePublications + 2 || !made then m
        else (m.create plan.key).commit m.made plan.toVoiceConnectionPlan

/-- `retireLocked` -/
def retire (m : VoiceMedia) (i : ℕ) : VoiceMedia :=
  let c := m.conns i
  let m := m.detachInputs c.key.room (c.bindings.values.map fun r => (m.inputs r).source)
  m.setConn i (m.conns i).retire

/-- The first section of `close` for all connections. -/
def closeAll (m : VoiceMedia) : VoiceMedia :=
  { m.connections.values.foldl (fun m i => m.retire i) m with closed := true, connections := .empty }

/-- `consume`, before its loop. -/
def consume (m : VoiceMedia) (i : ℕ) (mid : String) : VoiceMedia :=
  let c := m.conns i
  if c.closed || (c.bindings.get mid).isNone && c.bindings.len ≥ maxVoicePublications then m
  else
    let m := m.detachInput c.key.room ((c.bindings.get mid).bind fun r => (m.inputs r).source)
    { (m.setConn i { m.conns i with bindings := c.bindings.set mid m.started }).setInput m.started
        { conn := i, mid } with started := m.started + 1 }

/-- The outputs of the other connections in the room. -/
def fanOut (m : VoiceMedia) (i : ℕ) (pub : VoicePublication) (source : ℕ) (replaced : ℕ → Bool) :
    VoiceMedia :=
  { m with conns := fun j =>
      let other := m.conns j
      if m.current j && j ≠ i && !other.closed && other.key.room = (m.conns i).key.room then
        other.attach pub source (replaced j)
      else other }

/-- A packet in the loop of `consume`; `made` is the result of `NewSource` and `BindLayer`. -/
def packet (m : VoiceMedia) (r : ℕ) (made : Bool) (replaced : ℕ → Bool) : VoiceMedia :=
  let input := m.inputs r
  let c := m.conns input.conn
  if c.closed || c.bindings.get input.mid ≠ some r then m.setInput r { input with leaving := true }
  else match c.remote.get input.mid with
    | none => m
    | some pub =>
      if pub.id = "" || pub ∉ c.plan.publish then m
      else
        match if input.publication = pub then input.source else none with
        | some source => m.fanOut input.conn pub source replaced
        | none =>
          if !made then m.setInput r { input with leaving := true }
          else
            { (m.detachInput c.key.room input.source).setInput r
                { input with publication := pub, source := some m.sources } with
              sources := m.sources + 1 }.fanOut input.conn pub m.sources replaced

/-- The deferred section of `consume`. -/
def leave (m : VoiceMedia) (r : ℕ) : VoiceMedia :=
  let input := m.inputs r
  let c := m.conns input.conn
  let m := if c.bindings.get input.mid = some r then
    m.setConn input.conn { c with bindings := c.bindings.delete input.mid } else m
  (m.detachInput c.key.room input.source).setInput r { input with leaving := true, done := true }

/-- The calls, and the steps of the library's callbacks. -/
inductive Event
  | configureVoice (plan : VoiceConnectionPlan) (made : Bool)
  | closeVoice (key : VoiceKey)
  /-- The first section of a connection's `close`. -/
  | close (i : ℕ)
  /-- Its last one, once the readers are gone. -/
  | closed (i : ℕ)
  | closeAll
  /-- The work of a `ConfigureVoice` takes the signaling mutex. -/
  | negotiate (i : ℕ)
  | signal (i : ℕ) (signal : VoiceSignal)
  | turn (i : ℕ) (o : Outcome)
  | consume (i : ℕ) (mid : String)
  | packet (r : ℕ) (made : Bool) (replaced : ℕ → Bool)
  | leave (r : ℕ)

/-- One event. `none` is an event that cannot happen now. -/
def step (m : VoiceMedia) : Event → Option VoiceMedia
  | .configureVoice plan made => some (m.configureVoice plan made)
  | .closeVoice key => some ((m.connections.get key).elim m m.retire)
  | .close i => if i < m.made then some (m.retire i) else none
  | .closed i =>
    if i < m.made ∧ (m.conns i).closed ∧ ∀ r < m.started, (m.inputs r).conn = i → (m.inputs r).done then
      some (if m.current i then { m with connections := m.connections.delete (m.conns i).key } else m)
    else none
  | .closeAll => some m.closeAll
  | .negotiate i =>
    if i < m.made ∧ (m.conns i).signaler.isIdle then
      some (m.setConn i { m.conns i with signaler := .offering false
                                         outstanding := (m.conns i).outstanding - 1 })
    else none
  | .signal i signal =>
    if i < m.made ∧ (m.conns i).signaler.isIdle then
      some (m.setConn i ((m.conns i).signal (m.current i) signal))
    else none
  | .turn i o =>
    if i < m.made then ((m.conns i).turn (m.current i) o).map (m.setConn i) else none
  | .consume i mid => if i < m.made then some (m.consume i mid) else none
  | .packet r made replaced =>
    if r < m.started ∧ !(m.inputs r).leaving then some (m.packet r made replaced) else none
  | .leave r => if r < m.started ∧ !(m.inputs r).done then some (m.leave r) else none

end VoiceMedia

end Piik.Sfu
