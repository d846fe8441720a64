/-
  The input route of a browser (`InputRoute`,
  `client/remote-control/input-route.ts`): it passes the packets of its children
  on to the upstream, answers to each child whether there is one that is ready,
  and holds the Viewer's own endpoint.  When a child is lost or the upstream
  changes, it closes in the child's place what the child has opened.

  A step is one callback of the browser.  `close` and `open` events of channels
  come later, as the browser dispatches them from a task of their own.
-/
import Piik.Client.EncryptedInput
import Piik.Lib.PairSet
import Piik.Lib.Steps

namespace Piik.Client.InputRoute

/-- The data of a message event, with what `JSON.parse` finds in it: a value that is no object has
    none of the fields. -/
structure Message where
  length : ℕ
  json : Option Packet
  deriving DecidableEq

/-- The regular expression of ids and epochs. -/
def isHex32 (text : String) : Bool :=
  text.toList.length = 32 && text.toList.all fun c => '0' ≤ c && c ≤ '9' || 'a' ≤ c && c ≤ 'f'

/-- `typeof` is boolean. -/
def Json.isBool : Json → Bool
  | .bool _ => true
  | _ => false

/-- `typeof` is string. -/
def Json.isText : Json → Bool
  | .text _ => true
  | _ => false

/-- A text of the regular expression. -/
def Json.isHex32 : Json → Bool
  | .text value => InputRoute.isHex32 value
  | _ => false

/-- `packet` -/
def packet (data : Message) : Option Packet :=
  if data.length > 6144 then none
  else data.json.filter fun p =>
    p.ready.any Json.isBool || p.id.any Json.isHex32 && p.epoch.any Json.isHex32 &&
      (p.closed = some (.bool true) || p.data.any Json.isText)

/-- The channel of a child: whether it is open, and the epochs that came over it and are not closed.
    -/
structure Child where
  opened : Bool
  ids : PairSet String String

/-- Who a packet for the upstream comes from. -/
inductive Source
  | self
  | child (channel : ℕ)
  | endpoint (i : ℕ)
  deriving DecidableEq

/-- A packet that was handed on, and from whom. -/
structure Sent where
  up : ℕ
  source : Source
  packet : Packet
  sequence : Option ℕ := none
  deriving DecidableEq

/-- What the random generator and `register` would answer. -/
structure Fresh where
  identity : InputIdentity
  registered : Bool
  epoch : String

/-- The state of the route, its endpoints included, and what it sent so far. -/
structure Route where
  /-- `crypto.subtle` is there. -/
  subtle : Bool
  up : Option ℕ := none
  ready : Bool := false
  endpoint : Option ℕ := none
  identity : Option InputIdentity := none
  counter : ℕ := 0
  register : Bool := false
  children : OMap ℕ Child := .empty
  /-- The endpoints and the counters that were made. -/
  endpoints : List Endpoint := []
  counters : List ℕ := [0]
  /-- The channels that were attached. -/
  attached : List ℕ := []
  /-- What was handed to `send` for the upstream. -/
  sent : List Sent := []
  /-- What was handed to `send` for the channels of children that were open. -/
  sentDown : List (ℕ × Packet) := []

namespace Route

/-- The most epochs that a child may leave open. -/
def maxUnclosedEpochsPerChild : ℕ := 128

/-- The most ids that a child may have at a time. -/
def maxIds : ℕ := 20

/-- `send` to the upstream. -/
def sendUp (r : Route) (source : Source) (packet : Packet) (sequence : Option ℕ) : Route :=
  match r.up with
  | none => r
  | some up => { r with sent := r.sent ++ [⟨up, source, packet, sequence⟩] }

/-- A packet for a child. -/
def send (r : Route) (channel : ℕ) (p : Packet) : Route :=
  { r with sentDown := r.sentDown ++ [(channel, p)] }

/-- A packet for every child whose channel is open. -/
def broadcast (r : Route) (p : Packet) : Route :=
  { r with sentDown :=
      r.sentDown ++ (r.children.entries.filter fun e => e.2.opened).map fun e => (e.1, p) }

/-- An endpoint has done a step. -/
def emit (r : Route) (i : ℕ) (e : Endpoint) (out : Option Transmission) : Route :=
  let r := { r with endpoints := r.endpoints.set i e }
  match out with
  | none => r
  | some t => r.sendUp (.endpoint i) t.packet t.sequence

/-- Close an endpoint, and send what it says at its end. -/
def closeEndpoint (r : Route) (i : ℕ) : Route :=
  match r.endpoints[i]? with
  | none => r
  | some e => r.emit i e.close.1 e.close.2

/-- Close the own endpoint. -/
def retireEndpoint (r : Route) : Route :=
  match r.endpoint with
  | none => r
  | some i => { r.closeEndpoint i with endpoint := none }

/-- Make an own endpoint if there is none and one can be had, under the old identity where that
    stands. -/
def refreshEndpoint (r : Route) (fresh : Fresh) : Route :=
  if r.endpoint.isSome || !r.ready || !r.register || !r.subtle then r
  else
    match r.identity <|> if fresh.registered then some fresh.identity else none with
    | none => r
    | some identity =>
      { r with identity := some identity
               endpoint := some r.endpoints.length
               endpoints := r.endpoints ++ [{ identity, epoch := fresh.epoch, counter := r.counter, home := r.up }] }

/-- A new endpoint under a new identity. -/
def reauthenticate (r : Route) (fresh : Fresh) : Route :=
  let r := r.retireEndpoint
  { r with identity := none, counter := r.counters.length, counters := r.counters ++ [0] }.refreshEndpoint fresh

/-- Register from here on. -/
def enable (r : Route) (fresh : Fresh) : Route := { r with register := true }.reauthenticate fresh

/-- The packet that closes an epoch of a child. -/
def closedPacket (pair : String × String) : Packet :=
  { id := some (.text pair.1), epoch := some (.text pair.2), closed := some (.bool true) }

/-- What is remembered of a child. -/
def setIds (r : Route) (channel : ℕ) (child : Child) (ids : PairSet String String) : Route :=
  { r with children := r.children.set channel { child with ids } }

/-- Close what a child left open, and forget it, or the child as well. -/
def loseChild (r : Route) (channel : ℕ) (detach : Bool) : Route :=
  match r.children.get channel with
  | none => r
  | some child =>
    let r := child.ids.pairs.foldl (fun r pair => r.sendUp (.child channel) (closedPacket pair) none) r
    if detach then { r with children := r.children.delete channel } else r.setIds channel child .empty

/-- Another upstream, or none. What the children left open on the old one is closed first. -/
def setUpstream (r : Route) (channel : Option ℕ) (channelOpen : Bool) : Route :=
  if r.up = channel then r
  else
    let r := if r.up.isSome then r.children.keys.foldl (fun r child => r.loseChild child false) r else r
    let r := { r.retireEndpoint with ready := false, up := channel }.broadcast { ready := some (.bool false) }
    if channelOpen then r.sendUp .self { ready := some (.bool true) } none else r

/-- The upstream is not ready any more. -/
def lost (r : Route) : Route :=
  { r with ready := false }.retireEndpoint.broadcast { ready := some (.bool false) }

/-- The text that asks the own endpoint's peer for its state. -/
def syncMessage : String := "\x7b\"type\":\"sync\"\x7d"

/-- What the own endpoint makes of a packet of the upstream. -/
def deliver (r : Route) (fresh : Fresh) (p : Packet) : Route :=
  let endpointId : Option Json := r.identity.map fun identity => .text identity.endpointId
  match p.ready with
  | some ready =>
    if truthy p.id then
      match r.endpoint with
      | none => r
      | some i =>
        if ready.truthy && p.id = endpointId then
          match r.endpoints[i]? with
          | none => r
          | some e => r.emit i (e.send syncMessage) none
        else r
    else
      -- without an id the packet was accepted for a boolean
      let r := { r with ready := ready.truthy }
      if ready.truthy then r.refreshEndpoint fresh else r.retireEndpoint
  | none =>
    match r.endpoint, p.data with
    -- data of another kind, which only a closing packet can have, is no text to open
    | some i, some (.text data) =>
      match r.endpoints[i]? with
      | none => r
      | some e =>
        if p.id = endpointId && p.epoch = some (.text e.epoch) && data ≠ "" then
          r.emit i (e.receive data).1 (e.receive data).2
        else r
    | _, _ => r

/-- A message of the upstream: the own endpoint's part, then all children. -/
def received (r : Route) (fresh : Fresh) (data : Message) : Route :=
  match packet data with
  | none => r
  | some p => (r.deliver fresh p).broadcast p

/-- A child's channel. -/
def attachChild (r : Route) (channel : ℕ) (channelOpen : Bool) : Route :=
  let r := { r with children := r.children.set channel ⟨channelOpen, .empty⟩, attached := channel :: r.attached }
  if channelOpen then r.send channel { ready := some (.bool r.ready) } else r

/-- A child learns at once whether the upstream is ready. -/
def childOpened (r : Route) (channel : ℕ) : Route :=
  { r with children := r.children.modify channel fun child => { child with opened := true } }.send channel
    { ready := some (.bool r.ready) }

/-- A message of a child: remembered and handed on, or answered here. -/
def childMessage (r : Route) (channel : ℕ) (data : Message) : Route :=
  match packet data, r.children.get channel with
  | some p, some child =>
    if p.ready.isSome then r.send channel { ready := some (.bool r.ready) }
    else if !r.ready || !truthy p.id || !truthy p.epoch then r
    else
      let id := textOf p.id
      let epoch := textOf p.epoch
      if truthy p.closed then (r.setIds channel child (child.ids.erase id epoch)).sendUp (.child channel) p none
      else if child.ids.has id epoch then r.sendUp (.child channel) p none
      else if !child.ids.hasGroup id && child.ids.len ≥ maxIds then r
      else if child.ids.count ≥ maxUnclosedEpochsPerChild then r.loseChild channel true
      else (r.setIds channel child (child.ids.insert id epoch)).sendUp (.child channel) p none
  | _, _ => r

/-- No upstream, no identity, no children. -/
def dispose (r : Route) : Route :=
  { r.setUpstream none false with identity := none, register := false, children := .empty }

/-- What happens to a route. -/
inductive Event
  | enable (fresh : Fresh)
  | reauthenticate (fresh : Fresh)
  | setUpstream (channel : Option ℕ) (channelOpen : Bool)
  | opened (up : ℕ)
  | lost (up : ℕ)
  | received (up : ℕ) (fresh : Fresh) (data : Message)
  | attachChild (channel : ℕ) (channelOpen : Bool)
  | connectionLost (channel : ℕ)
  | childOpened (channel : ℕ)
  | childMessage (channel : ℕ) (data : Message)
  | childClosed (channel : ℕ)
  | dispose
  | send (i : ℕ) (data : String)
  | close (i : ℕ)
  | beginSeal (i : ℕ) (nonce : List UInt8)
  | endSeal (i : ℕ)
  | beginOpen (i : ℕ)
  | endOpen (i : ℕ)

/-- The listeners of a channel that is no longer the upstream are removed; a channel is attached once. -/
def step (S : Subtle) (r : Route) : Event → Option Route
  | .enable fresh => some (r.enable fresh)
  | .reauthenticate fresh => some (r.reauthenticate fresh)
  | .setUpstream channel channelOpen => some (r.setUpstream channel (channel.isSome && channelOpen))
  | .opened up => if r.up = some up then some (r.sendUp .self { ready := some (.bool true) } none) else none
  | .lost up => if r.up = some up then some r.lost else none
  | .received up fresh data => if r.up = some up then some (r.received fresh data) else none
  | .attachChild channel channelOpen =>
    if channel ∈ r.attached then none else some (r.attachChild channel channelOpen)
  | .connectionLost channel => some (r.loseChild channel false)
  | .childOpened channel => if channel ∈ r.attached then some (r.childOpened channel) else none
  | .childMessage channel data => some (r.childMessage channel data)
  | .childClosed channel => some (r.loseChild channel true)
  | .dispose => some r.dispose
  | .send i data => r.endpoints[i]?.map fun e => r.emit i (e.send data) none
  | .close i => r.endpoints[i]?.map fun e => r.emit i e.close.1 e.close.2
  | .beginSeal i nonce =>
    r.endpoints[i]?.bind fun e => r.counters[e.counter]?.bind fun sent =>
      (e.beginSeal sent nonce).map fun out =>
        { r.emit i out.1 none with counters := r.counters.set e.counter out.2 }
  | .endSeal i => r.endpoints[i]?.bind fun e => (e.endSeal S).map fun out => r.emit i out.1 out.2
  | .beginOpen i => r.endpoints[i]?.bind fun e => (e.beginOpen S).map fun e' => r.emit i e' none
  | .endOpen i => r.endpoints[i]?.bind fun e => e.endOpen.map fun e' => r.emit i e' none

/-! ## What is open at the upstreams -/

/-- What is remembered of a child, nothing where there is no child. -/
def ids (r : Route) (channel : ℕ) : PairSet String String := (r.children.get channel).elim .empty Child.ids

/-- The packets of a child that were handed to `send` for an upstream: each opens or closes its
    pair. -/
def log (r : Route) (up channel : ℕ) : List ((String × String) × Bool) :=
  (r.sent.filter fun s => s.up = up ∧ s.source = .child channel).map fun s =>
    ((textOf s.packet.id, textOf s.packet.epoch), !truthy s.packet.closed)

/-- A packet that tells a child whether the upstream is ready. -/
def announces (p : Packet) : Bool := p.ready.isSome && !truthy p.id

/-- What a channel was told last. -/
def told (l : List (ℕ × Packet)) (channel : ℕ) : Option Bool :=
  l.foldl (fun last e => if e.1 = channel ∧ announces e.2 then some (truthy e.2.ready) else last) none

/-- The route remembers just what its children left open at the upstream. -/
structure Tracks (r : Route) : Prop where
  quiet : r.up = none → r.ready = false
  idle : r.up = none → ∀ channel id epoch, (r.ids channel).has id epoch = false
  /-- What was handed on for a child leaves open at the upstream what the route remembers of it,
      and nothing anywhere else. -/
  tracked : ∀ channel up id epoch,
    Log.isOpen (r.log up channel) (id, epoch) = (decide (r.up = some up) && (r.ids channel).has id epoch)
  bounded : ∀ channel, (r.ids channel).len ≤ maxIds ∧ (r.ids channel).count ≤ maxUnclosedEpochsPerChild
  attached : ∀ channel, r.children.has channel = true → channel ∈ r.attached

/-- A child whose channel is open was told last what holds. -/
def Told (r : Route) : Prop :=
  ∀ channel child, r.children.get channel = some child → child.opened = true →
    told r.sentDown channel = some r.ready

variable {S : Subtle} {r r' r'' : Route} {p : Packet} {source : Source} {sequence : Option ℕ} {channel i : ℕ}
  {fresh : Fresh} {data : Message}

theorem tracks_init (subtle : Bool) : Tracks { subtle } where
  quiet := fun _ => rfl
  idle := fun _ _ _ _ => rfl
  tracked := fun _ _ _ _ => by simp [log, ids]
  bounded := fun _ => by simp [ids]
  attached := fun _ h => by cases h

/-- What happens beside the children. -/
structure Aside (r r' : Route) : Prop where
  up : r'.up = r.up
  ready : r'.ready = r.ready
  children : r'.children = r.children
  attached : r'.attached = r.attached
  sentDown : r'.sentDown = r.sentDown
  log : ∀ up channel, r'.log up channel = r.log up channel

theorem Aside.trans (h : Aside r r') (h' : Aside r' r'') : Aside r r'' where
  up := h'.up.trans h.up
  ready := h'.ready.trans h.ready
  children := h'.children.trans h.children
  attached := h'.attached.trans h.attached
  sentDown := h'.sentDown.trans h.sentDown
  log := fun up channel => (h'.log up channel).trans (h.log up channel)

theorem Tracks.aside (h : Tracks r) (haside : Aside r r') : Tracks r' := by
  have hids : ∀ channel, r'.ids channel = r.ids channel := by
    intro channel
    rw [ids, ids, haside.children]
  constructor
  · rw [haside.up, haside.ready]
    exact h.quiet
  · intro hup channel
    rw [hids]
    exact h.idle (haside.up ▸ hup) channel
  · intro channel up id epoch
    rw [haside.log, haside.up, hids]
    exact h.tracked channel up id epoch
  · intro channel
    rw [hids]
    exact h.bounded channel
  · rw [haside.children, haside.attached]
    exact h.attached

theorem Told.aside (h : Told r) (haside : Aside r r') : Told r' := by
  rw [Told, haside.children, haside.sentDown, haside.ready]
  exact h

theorem log_sendUp (up channel : ℕ) :
    (r.sendUp source p sequence).log up channel =
      r.log up channel ++
        if r.up = some up ∧ source = .child channel then
          [((textOf p.id, textOf p.epoch), !truthy p.closed)]
        else [] := by
  unfold sendUp
  split
  · next hup => simp [hup]
  · next up' hup =>
    simp only [log, hup, List.filter_append, List.map_append, Option.some.injEq]
    by_cases h : up' = up ∧ source = .child channel
    · simp [h]
    · simp [h]

theorem aside_sendUp (hsource : ∀ channel, source ≠ .child channel) : Aside r (r.sendUp source p sequence) := by
  have hlog : ∀ up channel, (r.sendUp source p sequence).log up channel = r.log up channel := by
    intro up channel
    rw [log_sendUp, if_neg fun h => hsource channel h.2, List.append_nil]
  refine ⟨?_, ?_, ?_, ?_, ?_, hlog⟩ <;> unfold sendUp <;> split <;> rfl

theorem aside_emit {e : Endpoint} {out : Option Transmission} : Aside r (r.emit i e out) := by
  have hset : Aside r { r with endpoints := r.endpoints.set i e } := ⟨rfl, rfl, rfl, rfl, rfl, fun _ _ => rfl⟩
  cases out with
  | none => exact hset
  | some t => exact hset.trans (aside_sendUp (by simp))

theorem aside_retireEndpoint : Aside r r.retireEndpoint := by
  unfold retireEndpoint
  split
  · exact ⟨rfl, rfl, rfl, rfl, rfl, fun _ _ => rfl⟩
  · next i _ =>
    have hclose : Aside r (r.closeEndpoint i) := by
      unfold closeEndpoint
      split
      · exact ⟨rfl, rfl, rfl, rfl, rfl, fun _ _ => rfl⟩
      · exact aside_emit
    exact hclose.trans ⟨rfl, rfl, rfl, rfl, rfl, fun _ _ => rfl⟩

theorem aside_refreshEndpoint : Aside r (r.refreshEndpoint fresh) := by
  unfold refreshEndpoint
  split
  · exact ⟨rfl, rfl, rfl, rfl, rfl, fun _ _ => rfl⟩
  · split <;> exact ⟨rfl, rfl, rfl, rfl, rfl, fun _ _ => rfl⟩

theorem aside_reauthenticate : Aside r (r.reauthenticate fresh) := by
  have hrenew : Aside r.retireEndpoint
      { r.retireEndpoint with identity := none, counter := r.retireEndpoint.counters.length
                              counters := r.retireEndpoint.counters ++ [0] } :=
    ⟨rfl, rfl, rfl, rfl, rfl, fun _ _ => rfl⟩
  exact (aside_retireEndpoint.trans hrenew).trans aside_refreshEndpoint

/-! ## What the children are told -/

theorem told_append {l : List (ℕ × Packet)} {channels : List ℕ} :
    told (l ++ channels.map fun channel => (channel, p)) channel =
      if announces p = true ∧ channel ∈ channels then some (truthy p.ready) else told l channel := by
  induction channels using List.reverseRecOn with
  | nil => simp
  | append_singleton channels c ih =>
    have hsnoc : ∀ l, told (l ++ [(c, p)]) channel =
        if c = channel ∧ announces p then some (truthy p.ready) else told l channel := by
      intro l
      simp [told]
    rw [List.map_append, ← List.append_assoc, List.map_cons, List.map_nil, hsnoc, ih]
    by_cases hc : c = channel
    · by_cases hp : announces p = true <;> simp [hc, hp]
    · simp [hc, Ne.symm hc]

/-- Every open child is told. -/
theorem told_broadcast (hp : announces p = true) (hready : truthy p.ready = r.ready) :
    Told (r.broadcast p) := by
  intro channel child hchild hopened
  have hmem : channel ∈ (r.children.entries.filter fun e => e.2.opened).map Prod.fst :=
    List.mem_map.2 ⟨(channel, child), List.mem_filter.2 ⟨OMap.get_eq_some.1 hchild, hopened⟩, rfl⟩
  have hdown : (r.broadcast p).sentDown = r.sentDown ++
      ((r.children.entries.filter fun e => e.2.opened).map Prod.fst).map fun channel => (channel, p) := by
    rw [broadcast, List.map_map]
    rfl
  rw [hdown, told_append, if_pos ⟨hp, hmem⟩, hready]
  rfl

/-- What is no announcement changes nothing. -/
theorem Told.broadcast (h : Told r) (hp : announces p = false) : Told (r.broadcast p) := by
  intro channel child hchild hopened
  have hdown : (r.broadcast p).sentDown = r.sentDown ++
      ((r.children.entries.filter fun e => e.2.opened).map Prod.fst).map fun channel => (channel, p) := by
    rw [Route.broadcast, List.map_map]
    rfl
  rw [hdown, told_append, if_neg (by simp [hp])]
  exact h channel child hchild hopened

theorem told_send (c : ℕ) :
    told (r.send c { ready := some (.bool r.ready) }).sentDown channel =
      if c = channel then some r.ready else told r.sentDown channel := by
  have happend : told (r.sentDown ++ [c].map fun c' => (c', { ready := some (.bool r.ready) })) channel = _ :=
    told_append
  rw [List.map_cons, List.map_nil] at happend
  rw [send, happend]
  by_cases hc : c = channel
  · simp [hc, announces, truthy, Json.truthy]
  · simp [hc, Ne.symm hc]

theorem Told.send (h : Told r) (c : ℕ) : Told (r.send c { ready := some (.bool r.ready) }) := by
  intro channel child hchild hopened
  rw [told_send]
  split
  · rfl
  · exact h channel child hchild hopened

/-! ## The children -/

theorem sendUp_eq : r.sendUp source p sequence =
    { r with sent := r.sent ++ r.up.elim [] fun up => [⟨up, source, p, sequence⟩] } := by
  obtain ⟨_, up, _⟩ := r
  cases up <;> simp [sendUp]

/-- The closes of a child, one after another. -/
theorem foldl_sendUp (pairs : List (String × String)) :
    pairs.foldl (fun r pair => r.sendUp (.child channel) (closedPacket pair) none) r =
      { r with sent := r.sent ++ r.up.elim [] fun up =>
          pairs.map fun pair => ⟨up, .child channel, closedPacket pair, none⟩ } := by
  induction pairs generalizing r with
  | nil =>
    obtain ⟨_, up, _⟩ := r
    cases up <;> simp
  | cons pair pairs ih =>
    rw [List.foldl_cons, ih, sendUp_eq]
    obtain ⟨_, up, _⟩ := r
    cases up <;> simp

/-- A child is lost: what it has open is closed. -/
structure Loses (r r' : Route) (channel : ℕ) : Prop where
  up : r'.up = r.up
  ready : r'.ready = r.ready
  attached : r'.attached = r.attached
  sentDown : r'.sentDown = r.sentDown
  children : ∀ c child', r'.children.get c = some child' →
    ∃ child, r.children.get c = some child ∧ child'.opened = child.opened
  ids : ∀ c, r'.ids c = if c = channel then .empty else r.ids c
  log : ∀ up c, r'.log up c = r.log up c ++
    if r.up = some up ∧ c = channel then (r.ids channel).pairs.map fun pair => (pair, false) else []

theorem loses_loseChild (detach : Bool) : Loses r (r.loseChild channel detach) channel := by
  unfold loseChild
  cases hchild : r.children.get channel with
  | none =>
    have hids : r.ids channel = .empty := by rw [Route.ids, hchild]; rfl
    dsimp only
    refine ⟨rfl, rfl, rfl, rfl, fun c child' hc => ⟨child', hc, rfl⟩, fun c => ?_, fun up c => ?_⟩
    · split
      · next hc => rw [hc, hids]
      · rfl
    · simp [hids]
  | some child =>
    have hids : r.ids channel = child.ids := by rw [Route.ids, hchild]; rfl
    dsimp only
    rw [foldl_sendUp]
    have hlog : ∀ (r' : Route), r'.sent = r.sent ++ (r.up.elim [] fun up =>
        child.ids.pairs.map fun pair => ⟨up, .child channel, closedPacket pair, none⟩) →
        ∀ up c, r'.log up c = r.log up c ++
          if r.up = some up ∧ c = channel then child.ids.pairs.map fun pair => (pair, false) else [] := by
      intro r' hsent up c
      rw [Route.log, Route.log, hsent, List.filter_append, List.map_append]
      congr 1
      cases hup : r.up with
      | none => simp
      | some up' =>
        by_cases h : up' = up ∧ c = channel
        · obtain ⟨rfl, rfl⟩ := h
          simp [List.filter_map, Function.comp_def, closedPacket]
        · rw [if_neg (by simpa using h)]
          have hnone : ∀ s ∈ child.ids.pairs.map fun pair => (⟨up', .child channel, closedPacket pair, none⟩ : Sent),
              ¬(s.up = up ∧ s.source = .child c) := by
            intro s hs
            obtain ⟨pair, -, rfl⟩ := List.mem_map.1 hs
            rintro ⟨hup', hsource⟩
            exact h ⟨hup', (Source.child.inj hsource).symm⟩
          simp only [Option.elim_some]
          rw [List.filter_eq_nil_iff.2 (by simpa using hnone), List.map_nil]
    cases detach with
    | true =>
      refine ⟨rfl, rfl, rfl, rfl, ?_, ?_, ?_⟩
      · intro c child' hc
        have hc : (r.children.delete channel).get c = some child' := hc
        rw [OMap.get_delete] at hc
        split at hc
        · cases hc
        · exact ⟨child', hc, rfl⟩
      · intro c
        show ((r.children.delete channel).get c).elim _ _ = _
        rw [OMap.get_delete]
        split <;> rfl
      · rw [hids]
        exact hlog _ rfl
    | false =>
      refine ⟨rfl, rfl, rfl, rfl, ?_, ?_, ?_⟩
      · intro c child' hc
        have hc : (r.children.set channel { child with ids := .empty }).get c = some child' := hc
        rw [OMap.get_set] at hc
        split at hc
        · next heq =>
          cases hc
          exact ⟨child, heq ▸ hchild, rfl⟩
        · exact ⟨child', hc, rfl⟩
      · intro c
        show ((r.children.set channel { child with ids := .empty }).get c).elim _ _ = _
        rw [OMap.get_set]
        split <;> rfl
      · rw [hids]
        exact hlog _ rfl

theorem Tracks.loses (h : Tracks r) (hloses : Loses r r' channel) : Tracks r' := by
  constructor
  · rw [hloses.up, hloses.ready]
    exact h.quiet
  · intro hup c id epoch
    rw [hloses.ids]
    split
    · rfl
    · exact h.idle (hloses.up ▸ hup) c id epoch
  · intro c up id epoch
    rw [hloses.log, hloses.up, hloses.ids]
    by_cases hc : c = channel
    · subst hc
      by_cases hup : r.up = some up
      · rw [if_pos ⟨hup, rfl⟩, Log.isOpen_closes, h.tracked c up id epoch]
        have hhas := @PairSet.has_iff _ _ _ _ (r.ids c) id epoch
        simp [hup, ← hhas]
      · simp [hup, h.tracked c up id epoch]
    · simp [hc, h.tracked c up id epoch]
  · intro c
    rw [hloses.ids]
    split
    · simp
    · exact h.bounded c
  · intro c hc
    obtain ⟨child', hchild'⟩ := Option.isSome_iff_exists.1 hc
    obtain ⟨child, hchild, -⟩ := hloses.children c child' hchild'
    rw [hloses.attached]
    exact h.attached c (by rw [OMap.has, hchild]; rfl)

theorem Told.loses (h : Told r) (hloses : Loses r r' channel) : Told r' := by
  intro c child' hchild' hopened
  obtain ⟨child, hchild, heq⟩ := hloses.children c child' hchild'
  rw [hloses.sentDown, hloses.ready]
  exact h c child hchild (heq ▸ hopened)

/-- Every child is lost, one after another. -/
theorem foldl_loses (channels : List ℕ) (h : Tracks r) (htold : Told r) {r' : Route}
    (heq : channels.foldl (fun r c => r.loseChild c false) r = r') :
    Tracks r' ∧ Told r' ∧ r'.up = r.up ∧
      ∀ c, (r'.ids c) = if c ∈ channels then .empty else r.ids c := by
  induction channels generalizing r with
  | nil =>
    obtain rfl : r = r' := heq
    exact ⟨h, htold, rfl, fun c => by simp⟩
  | cons channel channels ih =>
    have hloses := @loses_loseChild r channel false
    obtain ⟨h', htold', hup, hids⟩ := ih (h.loses hloses) (htold.loses hloses) heq
    refine ⟨h', htold', hup.trans hloses.up, fun c => ?_⟩
    rw [hids, hloses.ids]
    by_cases hc : c = channel
    · simp [hc]
    · simp [hc]

theorem Tracks.broadcast (h : Tracks r) : Tracks (r.broadcast p) :=
  ⟨h.quiet, h.idle, h.tracked, h.bounded, h.attached⟩

theorem Tracks.send (h : Tracks r) : Tracks (r.send channel p) := ⟨h.quiet, h.idle, h.tracked, h.bounded, h.attached⟩

theorem announces_ready (ready : Bool) : announces { ready := some (.bool ready) } = true := rfl

/-- With nothing open, the upstream can change. -/
theorem Tracks.turn (h : Tracks r) (hids : ∀ c id epoch, (r.ids c).has id epoch = false) (up : Option ℕ) :
    Tracks { r with ready := false, up := up } where
  quiet := fun _ => rfl
  idle := fun _ => hids
  tracked := by
    intro c up' id epoch
    have htracked := h.tracked c up' id epoch
    have hnone := hids c id epoch
    rw [hnone, Bool.and_false] at htracked
    show Log.isOpen (r.log up' c) (id, epoch) = (_ && (r.ids c).has id epoch)
    rw [htracked, hnone, Bool.and_false]
  bounded := h.bounded
  attached := h.attached

theorem tracks_setUpstream {up : Option ℕ} {channelOpen : Bool} (h : Tracks r) (htold : Told r) :
    Tracks (r.setUpstream up channelOpen) ∧ Told (r.setUpstream up channelOpen) := by
  unfold setUpstream
  split
  · exact ⟨h, htold⟩
  · dsimp only
    generalize hlost : (if r.up.isSome then r.children.keys.foldl (fun r child => r.loseChild child false) r
      else r) = r₁
    obtain ⟨h₁, hids⟩ : Tracks r₁ ∧ ∀ c id epoch, (r₁.ids c).has id epoch = false := by
      split at hlost
      · obtain ⟨h₁, -, -, hids⟩ := foldl_loses r.children.keys h htold hlost
        refine ⟨h₁, fun c id epoch => ?_⟩
        rw [hids]
        split
        · rfl
        · next hc =>
          have hnone : r.ids c = .empty := by
            rw [Route.ids, OMap.get_eq_none.2 hc]
            rfl
          rw [hnone]
          rfl
      · next hup =>
        rw [← hlost]
        exact ⟨h, h.idle (by simpa using hup)⟩
    have haside := @aside_retireEndpoint r₁
    have h₂ := h₁.aside haside
    have hids₂ : ∀ c id epoch, (r₁.retireEndpoint.ids c).has id epoch = false := by
      intro c id epoch
      rw [Route.ids, haside.children]
      exact hids c id epoch
    have h₃ := (@Tracks.broadcast _ { ready := some (.bool false) } (h₂.turn hids₂ up))
    have htold₃ := @told_broadcast { r₁.retireEndpoint with ready := false, up } { ready := some (.bool false) }
      (announces_ready false) rfl
    split
    · have hself := @aside_sendUp
        (({ r₁.retireEndpoint with ready := false, up } : Route).broadcast { ready := some (.bool false) })
        { ready := some (.bool true) } .self none (by simp)
      exact ⟨h₃.aside hself, htold₃.aside hself⟩
    · exact ⟨h₃, htold₃⟩

theorem tracks_lost (h : Tracks r) : Tracks r.lost ∧ Told r.lost := by
  have hquiet : Tracks { r with ready := false } := ⟨fun _ => rfl, h.idle, h.tracked, h.bounded, h.attached⟩
  have haside := @aside_retireEndpoint { r with ready := false }
  refine ⟨(hquiet.aside haside).broadcast, told_broadcast (announces_ready false) ?_⟩
  rw [haside.ready]
  rfl

/-- A packet of the upstream changes `ready`, or nothing that concerns the children. -/
theorem deliver_cases (p : Packet) :
    Aside r (r.deliver fresh p) ∧ announces p = false ∨
      announces p = true ∧ Aside { r with ready := truthy p.ready } (r.deliver fresh p) := by
  have hsame : Aside r r := ⟨rfl, rfl, rfl, rfl, rfl, fun _ _ => rfl⟩
  unfold deliver
  cases hready : p.ready with
  | none =>
    refine .inl ⟨?_, by simp [announces, hready]⟩
    dsimp only
    split
    · split
      · exact hsame
      · split
        · exact aside_emit
        · exact hsame
    · exact hsame
  | some ready =>
    dsimp only
    split
    · next hid =>
      refine .inl ⟨?_, by simp [announces, hready, hid]⟩
      split
      · exact hsame
      · split
        · split
          · exact hsame
          · exact aside_emit
        · exact hsame
    · next hid =>
      refine .inr ⟨by simp [announces, hready, hid], ?_⟩
      split
      · exact aside_refreshEndpoint
      · exact aside_retireEndpoint

theorem tracks_received (h : Tracks r) (htold : Told r) (hup : r.up ≠ none) :
    Tracks (r.received fresh data) ∧ Told (r.received fresh data) := by
  unfold received
  split
  · exact ⟨h, htold⟩
  · next p _ =>
    rcases @deliver_cases r fresh p with ⟨haside, hp⟩ | ⟨hp, haside⟩
    · exact ⟨(h.aside haside).broadcast, (htold.aside haside).broadcast hp⟩
    · have hnew : Tracks { r with ready := truthy p.ready } :=
        ⟨fun hnone => absurd hnone hup, h.idle, h.tracked, h.bounded, h.attached⟩
      refine ⟨(hnew.aside haside).broadcast, told_broadcast hp ?_⟩
      rw [haside.ready]

theorem tracks_attachChild {channelOpen : Bool} (h : Tracks r) (htold : Told r) (hnew : channel ∉ r.attached) :
    Tracks (r.attachChild channel channelOpen) ∧ Told (r.attachChild channel channelOpen) := by
  have hnone : r.children.get channel = none := by
    cases hget : r.children.get channel with
    | none => rfl
    | some child => exact absurd (h.attached channel (by rw [OMap.has, hget]; rfl)) hnew
  have hids : ∀ c, (({ r with children := r.children.set channel ⟨channelOpen, .empty⟩
                              attached := channel :: r.attached } : Route).ids c) = r.ids c := by
    intro c
    rw [Route.ids, Route.ids, OMap.get_set]
    split
    · next hc =>
      rw [hc, hnone]
      rfl
    · rfl
  have htracks : Tracks { r with children := r.children.set channel ⟨channelOpen, .empty⟩
                                 attached := channel :: r.attached } := by
    refine ⟨h.quiet, ?_, ?_, ?_, ?_⟩
    · intro hup c
      rw [hids]
      exact h.idle hup c
    · intro c up id epoch
      rw [hids]
      exact h.tracked c up id epoch
    · intro c
      rw [hids]
      exact h.bounded c
    · intro c hc
      rw [OMap.has_iff, OMap.keys_set] at hc
      split at hc
      · exact List.mem_cons_of_mem _ (h.attached c (OMap.has_iff.2 hc))
      · rcases List.mem_append.1 hc with hc | hc
        · exact List.mem_cons_of_mem _ (h.attached c (OMap.has_iff.2 hc))
        · rw [List.mem_singleton.1 hc]
          exact List.mem_cons_self
  unfold attachChild
  dsimp only
  split
  · next hopen =>
    refine ⟨htracks.send, ?_⟩
    intro c child hchild hopened
    have hsend := @told_send { r with children := r.children.set channel ⟨channelOpen, .empty⟩
                                      attached := channel :: r.attached } c channel
    rw [hsend]
    split
    · rfl
    · next hne =>
      have hchild : (r.children.set channel ⟨channelOpen, .empty⟩).get c = some child := hchild
      rw [OMap.get_set, if_neg (Ne.symm hne)] at hchild
      exact htold c child hchild hopened
  · next hopen =>
    refine ⟨htracks, ?_⟩
    intro c child hchild hopened
    have hchild : (r.children.set channel ⟨channelOpen, .empty⟩).get c = some child := hchild
    rw [OMap.get_set] at hchild
    split at hchild
    · cases hchild
      exact absurd hopened hopen
    · exact htold c child hchild hopened

theorem tracks_childOpened (h : Tracks r) (htold : Told r) :
    Tracks (r.childOpened channel) ∧ Told (r.childOpened channel) := by
  have hget : ∀ c, (r.children.modify channel fun child => { child with opened := true }).get c =
      if c = channel then (r.children.get c).map (fun child => { child with opened := true })
      else r.children.get c := fun c => OMap.get_modify _ _ _ _
  have hids : ∀ c, (({ r with children := r.children.modify channel fun child => { child with opened := true } } :
      Route).ids c) = r.ids c := by
    intro c
    rw [Route.ids, Route.ids, hget]
    split
    · cases r.children.get c <;> rfl
    · rfl
  constructor
  · refine Tracks.send ⟨h.quiet, ?_, ?_, ?_, ?_⟩
    · intro hup c
      rw [hids]
      exact h.idle hup c
    · intro c up id epoch
      rw [hids]
      exact h.tracked c up id epoch
    · intro c
      rw [hids]
      exact h.bounded c
    · intro c hc
      refine h.attached c ?_
      rw [OMap.has, hget] at hc
      rw [OMap.has]
      split at hc
      · rwa [Option.isSome_map] at hc
      · exact hc
  · intro c child hchild hopened
    have hsend := @told_send
      { r with children := r.children.modify channel fun child => { child with opened := true } } c channel
    rw [childOpened, hsend]
    split
    · rfl
    · next hne =>
      have hchild : (r.children.modify channel fun child => { child with opened := true }).get c = some child :=
        hchild
      rw [hget, if_neg (Ne.symm hne)] at hchild
      exact htold c child hchild hopened

/-- A child opens or closes a pair, and the packet goes up. -/
theorem Tracks.passes (h : Tracks r) (htold : Told r) {child : Child} (hchild : r.children.get channel = some child)
    (hup : r.up ≠ none) {ids : PairSet String String} {children : OMap ℕ Child}
    (hget : ∀ c, children.get c = if c = channel then some { child with ids } else r.children.get c)
    (hlen : ids.len ≤ maxIds) (hcount : ids.count ≤ maxUnclosedEpochsPerChild)
    (hhas : ∀ id epoch, ids.has id epoch =
      if (textOf p.id, textOf p.epoch) = (id, epoch) then !truthy p.closed else child.ids.has id epoch) :
    Tracks ({ r with children }.sendUp (.child channel) p none) ∧
      Told ({ r with children }.sendUp (.child channel) p none) := by
  obtain ⟨up, hup⟩ := Option.ne_none_iff_exists'.1 hup
  have hlog := @log_sendUp { r with children } p (.child channel) none
  have heq : { r with children }.sendUp (.child channel) p none =
      { r with children, sent := r.sent ++ [⟨up, .child channel, p, none⟩] } := by
    rw [sendUp_eq]
    simp [hup]
  have hids : ∀ c, (({ r with children }.sendUp (.child channel) p none).ids c) =
      if c = channel then ids else r.ids c := by
    intro c
    rw [heq, Route.ids, hget]
    split <;> rfl
  constructor
  · constructor
    · intro hnone
      rw [heq] at hnone
      exact absurd (hnone.symm.trans hup) (by simp)
    · intro hnone
      rw [heq] at hnone
      exact absurd (hnone.symm.trans hup) (by simp)
    · intro c up' id epoch
      have htracked := h.tracked c up' id epoch
      rw [hlog, hids]
      have hup' : ({ r with children }.sendUp (.child channel) p none).up = some up := by
        rw [heq]
        exact hup
      rw [hup']
      rw [hup] at htracked
      show Log.isOpen (r.log up' c ++ _) _ = _
      by_cases hc : c = channel
      · subst hc
        by_cases heq' : up = up'
        · subst heq'
          have hown : r.ids c = child.ids := by rw [Route.ids, hchild]; rfl
          rw [if_pos ⟨hup, rfl⟩, Log.isOpen_snoc, htracked, if_pos rfl, hhas, hown]
          simp
        · rw [if_neg (by simp [hup, heq']), List.append_nil, htracked]
          simp [heq']
      · rw [if_neg (by simp [Ne.symm hc]), List.append_nil, htracked, if_neg hc]
    · intro c
      rw [hids]
      split
      · exact ⟨hlen, hcount⟩
      · exact h.bounded c
    · intro c hc
      rw [heq] at hc ⊢
      refine h.attached c ?_
      have hc : (children.get c).isSome = true := hc
      rw [hget] at hc
      rw [OMap.has]
      split at hc
      · next heq' =>
        rw [heq', hchild]
        rfl
      · exact hc
  · intro c child' hchild' hopened
    rw [heq] at hchild' ⊢
    have hchild' : children.get c = some child' := hchild'
    rw [hget] at hchild'
    split at hchild'
    · next hc =>
      cases hchild'
      exact htold c child (hc ▸ hchild) hopened
    · exact htold c child' hchild' hopened

theorem tracks_childMessage (h : Tracks r) (htold : Told r) :
    Tracks (r.childMessage channel data) ∧ Told (r.childMessage channel data) := by
  unfold childMessage
  split
  · next p child _ hchild =>
    have hset : ∀ ids : PairSet String String, ∀ c, (r.children.set channel { child with ids }).get c =
        if c = channel then some { child with ids } else r.children.get c := fun ids c => OMap.get_set ..
    have hown : r.ids channel = child.ids := by rw [Route.ids, hchild]; rfl
    obtain ⟨hlen, hcount⟩ := h.bounded channel
    rw [hown] at hlen hcount
    split
    · exact ⟨h.send, htold.send channel⟩
    · split
      · exact ⟨h, htold⟩
      · next hready =>
        have hup : r.up ≠ none := fun hnone => hready (by simp [h.quiet hnone])
        dsimp only
        split
        · next hclosed =>
          refine h.passes htold hchild hup (hset _) (PairSet.len_erase_le.trans hlen)
            (PairSet.count_erase_le.trans hcount) ?_
          intro id epoch
          rw [Bool.eq_iff_iff, PairSet.has_erase]
          split
          · next heq =>
            cases heq
            simp [hclosed]
          · next hne =>
            refine ⟨And.left, fun hhas => ⟨hhas, ?_⟩⟩
            rintro ⟨rfl, rfl⟩
            exact hne rfl
        · next hclosed =>
          split
          · next hhas =>
            have hget : ∀ c, r.children.get c = if c = channel then some { child with ids := child.ids }
                else r.children.get c := by
              intro c
              split
              · next hc => rw [hc, hchild]
              · rfl
            refine h.passes htold hchild hup hget hlen hcount ?_
            intro id epoch
            split
            · next heq =>
              cases heq
              simp [hclosed, hhas]
            · rfl
          · next hhas =>
            split
            · exact ⟨h, htold⟩
            · next hgroup =>
              split
              · have hloses := @loses_loseChild r channel true
                exact ⟨h.loses hloses, htold.loses hloses⟩
              · next hcount' =>
                have hhas : child.ids.has (textOf p.id) (textOf p.epoch) = false := by simpa using hhas
                refine h.passes htold hchild hup (hset _) ?_ ?_ ?_
                · rw [PairSet.len_insert]
                  split
                  · exact hlen
                  · next hno =>
                    have hlt : ¬child.ids.len ≥ maxIds := fun hge => hgroup (by simp [hno, hge])
                    omega
                · rw [PairSet.count_insert hhas]
                  omega
                · intro id epoch
                  rw [Bool.eq_iff_iff, PairSet.has_insert]
                  split
                  · next heq =>
                    cases heq
                    simp [hclosed]
                  · next hne =>
                    refine ⟨?_, .inr⟩
                    rintro (⟨rfl, rfl⟩ | hhas')
                    · exact absurd rfl hne
                    · exact hhas'
  · exact ⟨h, htold⟩

theorem tracks_dispose (h : Tracks r) (htold : Told r) : Tracks r.dispose ∧ Told r.dispose := by
  obtain ⟨h', -⟩ := @tracks_setUpstream r none false h htold
  have hup : (r.setUpstream none false).up = none := by
    unfold setUpstream
    split
    · next hup => exact hup
    · rfl
  have hidle := h'.idle hup
  constructor
  · refine ⟨h'.quiet, fun _ _ _ _ => rfl, ?_, fun _ => by simp [ids, dispose], fun _ hc => by cases hc⟩
    intro c up id epoch
    have htracked := h'.tracked c up id epoch
    rw [hup] at htracked
    show Log.isOpen ((r.setUpstream none false).log up c) (id, epoch) = _
    rw [htracked]
    simp [dispose, hup]
  · intro c child hchild
    cases hchild

theorem tracks_step {e : Event} (h : Tracks r ∧ Told r) (hs : r.step S e = some r') : Tracks r' ∧ Told r' := by
  obtain ⟨h, htold⟩ := h
  have hemit : ∀ {i e out}, Tracks (r.emit i e out) ∧ Told (r.emit i e out) := fun {_ _ _} =>
    ⟨h.aside aside_emit, htold.aside aside_emit⟩
  cases e with
  | enable fresh =>
    obtain rfl := Option.some.inj hs
    have hregister : Aside r { r with register := true } := ⟨rfl, rfl, rfl, rfl, rfl, fun _ _ => rfl⟩
    have haside := hregister.trans (@aside_reauthenticate _ fresh)
    exact ⟨h.aside haside, htold.aside haside⟩
  | reauthenticate fresh =>
    obtain rfl := Option.some.inj hs
    exact ⟨h.aside aside_reauthenticate, htold.aside aside_reauthenticate⟩
  | setUpstream channel channelOpen =>
    obtain rfl := Option.some.inj hs
    exact tracks_setUpstream h htold
  | opened up =>
    obtain ⟨-, hs⟩ := Option.ite_none_right_eq_some.1 hs
    obtain rfl := Option.some.inj hs
    have hself := @aside_sendUp r { ready := some (.bool true) } .self none (by simp)
    exact ⟨h.aside hself, htold.aside hself⟩
  | lost up =>
    obtain ⟨-, hs⟩ := Option.ite_none_right_eq_some.1 hs
    obtain rfl := Option.some.inj hs
    exact tracks_lost h
  | received up fresh data =>
    obtain ⟨hup, hs⟩ := Option.ite_none_right_eq_some.1 hs
    obtain rfl := Option.some.inj hs
    exact tracks_received h htold (by simp [hup])
  | attachChild channel channelOpen =>
    obtain ⟨hnew, hs⟩ := Option.ite_none_left_eq_some.1 hs
    obtain rfl := Option.some.inj hs
    exact tracks_attachChild h htold hnew
  | connectionLost channel =>
    obtain rfl := Option.some.inj hs
    have hloses := @loses_loseChild r channel false
    exact ⟨h.loses hloses, htold.loses hloses⟩
  | childOpened channel =>
    obtain ⟨-, hs⟩ := Option.ite_none_right_eq_some.1 hs
    obtain rfl := Option.some.inj hs
    exact tracks_childOpened h htold
  | childMessage channel data =>
    obtain rfl := Option.some.inj hs
    exact tracks_childMessage h htold
  | childClosed channel =>
    obtain rfl := Option.some.inj hs
    have hloses := @loses_loseChild r channel true
    exact ⟨h.loses hloses, htold.loses hloses⟩
  | dispose =>
    obtain rfl := Option.some.inj hs
    exact tracks_dispose h htold
  | send i data =>
    obtain ⟨e, -, rfl⟩ := Option.map_eq_some_iff.1 hs
    exact hemit
  | close i =>
    obtain ⟨e, -, rfl⟩ := Option.map_eq_some_iff.1 hs
    exact hemit
  | beginSeal i nonce =>
    obtain ⟨e, -, hs⟩ := Option.bind_eq_some_iff.1 hs
    obtain ⟨sent, -, hs⟩ := Option.bind_eq_some_iff.1 hs
    obtain ⟨out, -, rfl⟩ := Option.map_eq_some_iff.1 hs
    have hcount : Aside (r.emit i out.1 none)
        { r.emit i out.1 none with counters := r.counters.set e.counter out.2 } :=
      ⟨rfl, rfl, rfl, rfl, rfl, fun _ _ => rfl⟩
    have haside := aside_emit.trans hcount
    exact ⟨h.aside haside, htold.aside haside⟩
  | endSeal i =>
    obtain ⟨e, -, hs⟩ := Option.bind_eq_some_iff.1 hs
    obtain ⟨out, -, rfl⟩ := Option.map_eq_some_iff.1 hs
    exact hemit
  | beginOpen i =>
    obtain ⟨e, -, hs⟩ := Option.bind_eq_some_iff.1 hs
    obtain ⟨e', -, rfl⟩ := Option.map_eq_some_iff.1 hs
    exact hemit
  | endOpen i =>
    obtain ⟨e, -, hs⟩ := Option.bind_eq_some_iff.1 hs
    obtain ⟨e', -, rfl⟩ := Option.map_eq_some_iff.1 hs
    exact hemit

/-- **Nothing stays open at an upstream that was left.**  In every state what was handed on for a
    child leaves open at the upstream exactly what the route remembers of it, within the bounds, and
    nothing at any other channel that was one; there is no ready upstream without an upstream; and
    every child whose channel is open was told last whether there is one. -/
theorem route_tracks {subtle : Bool} {es : List Event} (h : Steps.Reaches (step S) { subtle } es r) :
    Tracks r ∧ Told r :=
  h.invariant (P := fun r => Tracks r ∧ Told r)
    ⟨tracks_init subtle, fun _ _ hchild => by cases hchild⟩ tracks_step

/-- A child opens a pair at one upstream, and the upstream changes. -/
theorem route_tracks_turn :
    let S : Subtle := ⟨fun _ _ _ _ => none, fun _ _ _ _ => none⟩
    let id := "00112233445566778899aabbccddeeff"
    let fresh : Fresh := ⟨⟨id, id⟩, true, id⟩
    let es : List Event := [.setUpstream (some 1) true, .received 1 fresh ⟨14, some { ready := some (.bool true) }⟩,
      .attachChild 5 true,
      .childMessage 5 ⟨100, some { id := some (.text id), epoch := some (.text id), data := some (.text "x") }⟩,
      .setUpstream (some 2) false]
    ∃ r, Steps.Reaches (step S) { subtle := true } es r ∧ r.log 1 5 = [((id, id), true), ((id, id), false)] ∧
      Log.isOpen (r.log 1 5) (id, id) = false ∧ told r.sentDown 5 = some false := by
  intro S id fresh es
  have hrun : (Steps.run (step S) { subtle := true } es).map (fun r =>
      decide (r.log 1 5 = [((id, id), true), ((id, id), false)] ∧ r.up = some 2 ∧
        (r.children.get 5).map Child.opened = some true ∧ r.ready = false)) = some true := by
    decide +kernel
  obtain ⟨r, hr, hend⟩ := Option.map_eq_some_iff.1 hrun
  obtain ⟨hlog, hup, hopened, hready⟩ := of_decide_eq_true hend
  obtain ⟨child, hchild, hopened⟩ := Option.map_eq_some_iff.1 hopened
  have hreach := Steps.reaches_of_run hr
  obtain ⟨htracks, htold⟩ := route_tracks hreach
  refine ⟨r, hreach, hlog, ?_, hready ▸ htold 5 child hchild hopened⟩
  rw [htracks.tracked, hup]
  rfl

end Route

end Piik.Client.InputRoute
