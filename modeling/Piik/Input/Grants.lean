/-
  The grants of a manager (`manager.go`, `policy.go`, `gamepad.go`,
  `shortcut.go`): every operation the package exports, and the packets of the
  input route.  An operation holds the lock of the manager from its first read
  to its last write, so it is one step.
-/
import Piik.Input.Desktop
import Piik.Lib.Sha256
import Piik.Room.Database

namespace Piik.Input

/-- The digits of an identifier. -/
def hexDigits : List Char := "0123456789abcdef".toList

/-- `hex.EncodeToString` -/
def encodeHex (bytes : List UInt8) : String :=
  String.ofList (bytes.flatMap fun b =>
    [hexDigits.getD (b.toNat / 16) '0', hexDigits.getD (b.toNat % 16) '0'])

/-- `hex.DecodeString` accepts the value and finds `n` bytes in it. -/
def decodesHex (n : ℕ) (value : String) : Bool :=
  value.toList.length = 2 * n &&
    value.toList.all fun c => c ∈ hexDigits || c ∈ "ABCDEF".toList

/-- `protocol.ValidInputKey` -/
def validInputKey (endpoint secret : String) : Bool :=
  endpoint.toList.length = 32 && endpoint.toList.all (· ∈ hexDigits) &&
    secret.toList.length = 64 && secret.toList.all (· ∈ hexDigits)

/-- `protocol.ValidOpaqueID` -/
def validOpaqueID (value : String) : Bool :=
  8 ≤ Room.utf16Length value && Room.utf16Length value ≤ 128 &&
    value.toList.all fun c => c.isAlphanum || c = '_' || c = '-'

/-- SHA-256 of the UTF-8 bytes. -/
def sha256Sum (text : String) : List ℕ := Sha256.sum256 (text.toUTF8.toList.map UInt8.toNat)

/-- The digest of a session without a password. -/
def noPassword : List ℕ := List.replicate 32 0

/-- A password goes with the password mode and no other. -/
def validatePolicy (mode : Mode) (password : String) : Option String :=
  if password.utf8ByteSize > 512 || decide (mode = .password) != decide (password ≠ "")
  then some "invalid remote input policy" else none

/-- A participant whose endpoint may send input. -/
structure RemoteInputPeer where
  peerID : String
  endpointID : String
  secret : String
  deriving DecidableEq, Repr

/-- An `inputroute.Packet` that names an endpoint. -/
structure Packet where
  id : String
  epoch : String
  data : String := ""
  closed : Bool := false
  deriving DecidableEq, Repr

/-- The error of a session that cannot be controlled. -/
def unavailableError : String := "remote input is unavailable"

/-- A connection without its grant. -/
def Connection.ungranted (conn : Connection) : Connection :=
  { conn with grant := "", suspended := false, inputFailed := false }

namespace Manager

variable {σ : Type} (P : Platform σ)

/-! ## Retiring grants -/

/-- Take the virtual gamepad away. -/
def closePad (c : EndpointKey) (m : Manager σ) : Manager σ :=
  if (m.conn c).pad then
    (m.setConn c fun conn => { conn with pad := false }).setSink (P.closePad c m.sink)
  else m

/-- The gamepad failed, and the controller is told so. -/
def failGamepad (c : EndpointKey) (m : Manager σ) : Manager σ :=
  let m := (m.closePad P c).setConn c fun conn => { conn with padFailed := true }
  m.reply P c (m.state c) "gamepad"

/-- The end of a connection's grant, once its input is released. -/
def dropGrant (c : EndpointKey) (m : Manager σ) : Manager σ :=
  (m.closePad P c).setConn c .ungranted

/-- One connection of the source that is released. -/
def retire (c : EndpointKey) (m : Manager σ) : Manager σ :=
  if (m.conn c).grant ≠ "" then (m.dropGrant P c).send P c .ready else m

/-- `release` retires every input grant belonging to the desktop's source owner. -/
def release (m : Manager σ) : Manager σ :=
  match m.owner with
  | none => m
  | some s =>
    let (_, m) := (m.setOwner none).resetHeld P s
    m.eachConnection P s (retire P)

/-- What a sole controller can do has changed; an extended one is told. -/
def tellController (c : Option EndpointKey) (m : Manager σ) : Manager σ :=
  match c with
  | some c => if (m.conn c).extended then m.send P c (m.state c) else m
  | none => m

/-- End the grant of one connection, or of all where they share it. -/
def releaseConnection (c : EndpointKey) (m : Manager σ) : Manager σ :=
  if (m.conn c).grant = "" then m
  else if !(m.session c.owner).coPlay then m.release P
  else
    let (_, m) := m.clearHeld P c
    let m := m.dropGrant P c
    let m := m.tellController P (m.singleController c.owner)
    if m.holders c.owner = [] then m.setOwner none else m

/-- End a grant and say so. -/
def revoke (c : EndpointKey) (m : Manager σ) : Manager σ :=
  let m := m.setConn c fun conn => { conn with requested := false }
  (m.releaseConnection P c).send P c .ready

/-! ## The target -/

/-- One connection learns whether the target has the focus. -/
def refreshSuspended (suspended : Bool) (c : EndpointKey) (m : Manager σ) : Manager σ :=
  if (m.conn c).grant ≠ "" && (m.conn c).suspended ≠ suspended then
    let m := m.setConn c fun conn => { conn with suspended }
    m.send P c (m.state c)
  else m

/-- All buttons and axes of a gamepad at rest. -/
def neutralPad (c : EndpointKey) (m : Manager σ) : Manager σ :=
  if (m.conn c).pad then
    let (err, sink) := P.updatePad c {} m.sink
    if err.isSome then (m.setSink sink).failGamepad P c else m.setSink sink
  else m

/-- What the loss of the focus does to one connection. -/
def loseFocus (err : Option String) (c : EndpointKey) (m : Manager σ) : Manager σ :=
  let m := if err.isSome then m.noteInputResult P c err else m
  m.neutralPad P c

/-- Read the bounds of what is captured anew. Where that fails, the input is suspended. -/
def refreshActive (m : Manager σ) : (Bounds × Bool) × Manager σ :=
  match m.owner with
  | none => (({}, false), m)
  | some s =>
    let (found, sink) := P.target (m.session s).target (m.session s).capture m.sink
    match found with
    | .error _ =>
      let (order, sink) := P.range m.connections.keys sink
      let failed := order.filter fun c => c.owner = s && (m.conn c).grant ≠ ""
      let m := (m.setSink sink).release P
      (({}, false), failed.foldl (fun m c => m.send P c .failed) m)
    | .ok (b, focused) =>
      let changed := (m.holders s).any fun c => (m.conn c).suspended ≠ !focused
      let m := (m.setSink sink).eachConnection P s (refreshSuspended P (!focused))
      if changed && !focused then
        let (err, m) := m.resetHeld P s
        ((b, focused), m.eachConnection P s (loseFocus P err))
      else ((b, focused), m)

/-! ## Granting -/

/-- The desktop is free, or the session's own and open to more controllers. -/
def canJoin (m : Manager σ) (c : EndpointKey) : Bool :=
  match m.owner with
  | none => true
  | some s =>
    s = c.owner && (m.session c.owner).coPlay && (m.session c.owner).simultaneous &&
      (m.conn c).extended &&
      m.connections.values.all fun other => other.grant = "" || other.extended

/-- The grant of a connection, which makes its session the owner. -/
def enter (c : EndpointKey) (token : String) (m : Manager σ) : Manager σ :=
  (m.setConn c fun conn =>
    { conn with grant := token, requested := false, padFailed := false }).setOwner (some c.owner)

/-- `grant`, after the exclusivity of the connection is settled. -/
def install (c : EndpointKey) (m : Manager σ) : Manager σ :=
  let (token, sink) := P.random 32 m.sink
  let previous := m.singleController c.owner
  let m := ((m.setSink sink).enter c (encodeHex token)).tellController P previous
  let (_, m) := m.refreshActive P
  if (m.conn c).grant ≠ "" then m.send P c (m.state c) else m

/-- Give the desktop to a connection, if it is free for it. -/
def grant (c : EndpointKey) (m : Manager σ) : Option String × Manager σ :=
  if (m.conn c).grant ≠ "" then (none, m)
  else if (m.session c.owner).coPlay then
    if !m.canJoin c then (some "remote input is busy", m.reply P c (m.state c) "busy")
    else (none, m.install P c)
  else (none, (m.release P).install P c)

/-- `authorize` of a session: the reason of a refusal, empty for none. -/
def authorize (s : ℕ) (password : String) (m : Manager σ) : String × Manager σ :=
  if (m.session s).mode ≠ .password then ("", m)
  else
    let (now, sink) := P.now m.sink
    let m := m.setSink sink
    if now < (m.session s).passwordRetry then ("retry", m)
    else
      -- One attempt per second, in nanoseconds.
      let m := m.setSession s fun session => { session with passwordRetry := now + 1000000000 }
      if password.utf8ByteSize > 512 || sha256Sum password ≠ (m.session s).password
      then ("password", m) else ("", m)

/-! ## Gamepads -/

/-- Open a virtual gamepad for a connection. -/
def assignGamepad (c : EndpointKey) (m : Manager σ) : Manager σ :=
  if m.gamepadOpening.isSome then m
  else if !m.gamepads then m.failGamepad P c
  else
    let opening : Opening :=
      { key := c, ref := (m.conn c).ref, grant := (m.conn c).grant, intent := (m.conn c).padIntent }
    { m with gamepadOpening := some opening }

/-- The first lock of the goroutine of `assignGamepad`, with the error of `Open`. -/
def gamepadOpened (err : Option String) (m : Manager σ) : Manager σ :=
  match m.gamepadOpening with
  | none => m
  | some opening =>
    if opening.delivered then m
    else
      let c := opening.key
      let valid := !m.closed && m.sessionAvailable c.owner && (m.session c.owner).coPlay &&
        m.connections.has c && (m.conn c).ref = opening.ref && (m.conn c).grant = opening.grant &&
        (m.conn c).grant ≠ "" && (m.conn c).padIntent = opening.intent
      let m := { m with gamepadOpening := some { opening with delivered := true } }
      if valid then
        if err.isSome then m.failGamepad P c else m.setConn c fun conn => { conn with pad := true }
      else if err.isSome then m
      else m.setSink (P.closePad c m.sink)

/-- Its second lock. -/
def gamepadSettled (m : Manager σ) : Manager σ :=
  match m.gamepadOpening with
  | some opening => if opening.delivered then { m with gamepadOpening := none } else m
  | none => m

/-- An event of a gamepad. -/
def receiveGamepad (c : EndpointKey) (event : InputEvent) (m : Manager σ) : Manager σ :=
  if !(m.conn c).extended || !(m.session c.owner).coPlay || (m.conn c).padFailed then m
  else match event.type, event.gamepad with
    | .gamepadStop, _ =>
      (m.setConn c fun conn => { conn with padIntent := conn.padIntent + 1 }).closePad P c
    | .gamepadReset, _ => m.neutralPad P c
    | .gamepad, some report =>
      if report.buttons.toNat ≥ 2 ^ 17 then m
      else
        let ((_, focused), m) := m.refreshActive P
        if !focused then m
        else if !(m.conn c).pad then m.assignGamepad P c
        else
          let (err, sink) := P.updatePad c report m.sink
          if err.isSome then (m.setSink sink).failGamepad P c else m.setSink sink
    | _, _ => m

/-! ## Packets -/

/-- The part of `receiveLocked` that carries input, on a controller's own grant. -/
def receiveInput (c : EndpointKey) (event : InputEvent) (m : Manager σ) : Manager σ :=
  if event.type = .gamepad || event.type = .gamepadReset || event.type = .gamepadStop then
    m.receiveGamepad P c event
  else if event.gamepad.isSome then m
  else if event.type = .reset then
    let m := m.receiveGamepad P c { type := .gamepadReset }
    let (err, m) := m.clearHeld P c
    m.noteInputResult P c err
  else if event.type = .text && (m.session c.owner).coPlay &&
      m.singleController c.owner ≠ some c then m
  else
    let ((b, focused), m) := m.refreshActive P
    if !focused then m
    else
      let (err, m) := if event.type = .text then m.applyText P c b event.text
        else m.applyHeld P c b event
      m.noteInputResult P c err

/-- The part of `receiveLocked` that asks for a grant. -/
def receiveRequest (c : EndpointKey) (event : InputEvent) (m : Manager σ) : Manager σ :=
  if !m.sessionAvailable c.owner || (m.session c.owner).mode = .off || (m.conn c).requested ||
      (m.conn c).grant ≠ "" then m
  else if !decodesHex 16 event.intent then m
  else
    let (id, sink) := P.random 16 m.sink
    let m := (m.setSink sink).setConn c fun conn =>
      { conn with requestID := encodeHex id, intent := event.intent }
    if (m.session c.owner).mode ≠ .ask then
      let (reason, m) := m.authorize P c.owner event.password
      if reason ≠ "" then m.reply P c .ready reason
      else if !m.canJoin c then m.reply P c .ready "busy"
      else (m.grant P c).2
    else
      (m.setConn c fun conn => { conn with requested := true }).send P c .pending

/-- An event that was decoded. -/
def receiveEvent (c : EndpointKey) (event : InputEvent) (m : Manager σ) : Manager σ :=
  match event.type with
  | .sync => m.send P c (m.state c)
  | .capabilities =>
    let m := m.setConn c fun conn =>
      { conn with extended := true, inputFeedback := event.inputFeedback }
    m.send P c (m.state c)
  | .request => m.receiveRequest P c event
  | .release =>
    if event.intent ≠ (m.conn c).intent || !(m.conn c).requested && (m.conn c).grant = "" then m
    else
      let m := m.setConn c fun conn => { conn with requested := false }
      (m.releaseConnection P c).send P c .ready
  | _ =>
    if (m.conn c).grant = "" || event.grant ≠ (m.conn c).grant || !m.sessionAvailable c.owner
    then m else m.receiveInput P c event

/-- A text that was opened. -/
def receiveLocked (c : EndpointKey) (plain : List UInt8) (m : Manager σ) : Manager σ :=
  if plain.length > maxInputBytes then m
  else match P.decode plain with
    | none => m
    | some event => m.receiveEvent P c event

/-- The tag of an AES-GCM message. -/
def sealOverhead : ℕ := 16

/-- `open` of the cipher of a connection: the sequence number and the plain text. -/
def openPacket (conn : Connection) (data epoch : String) : Option (ℕ × List UInt8) := do
  let bytes ← P.base64 data
  if bytes.length < 20 + sealOverhead || bytes.length > maxInputBytes + 20 + sealOverhead then none
  else
    let seq := Sha256.ofBytes ((bytes.take 8).map UInt8.toNat)
    if seq ≤ conn.received then none
    else
      let plain ← P.openSealed conn.secret ((bytes.drop 8).take 12) (bytes.drop 20)
        (0 :: bytes.take 8 ++ epoch.toUTF8.toList)
      some (seq, plain)

/-- The binding of an endpoint to the edge and the epoch its packet came with. -/
def bindEdge (c : EndpointKey) (edgeID epoch : String) (m : Manager σ) : Manager σ :=
  let m := if (m.conn c).edgeID ≠ "" && ((m.conn c).edgeID ≠ edgeID || (m.conn c).epoch ≠ epoch)
    then m.revoke P c else m
  m.setConn c fun conn =>
    { conn with
      extended := if conn.epoch ≠ epoch then false else conn.extended
      inputFeedback := if conn.epoch ≠ epoch then false else conn.inputFeedback
      edgeID, epoch }

/-- `receivePacket`; `current` is what the delivery binding answers, true for none. -/
def receivePacket (s : ℕ) (edgeID : String) (packet : Packet) (current : Bool)
    (m : Manager σ) : Manager σ :=
  let c : EndpointKey := ⟨s, packet.id⟩
  if !m.connections.has c || m.closed || (m.session s).closed then m
  else if packet.closed then
    if (m.conn c).edgeID = edgeID && (m.conn c).epoch = packet.epoch then
      (m.revoke P c).setConn c fun conn => { conn with edgeID := "" }
    else m
  else if !current then m
  else match openPacket P (m.conn c) packet.data packet.epoch with
    | none => m
    | some (seq, plain) =>
      let m := m.setConn c fun conn => { conn with received := seq }
      (m.bindEdge P c edgeID packet.epoch).receiveLocked P c plain

/-- The action of `Attach` on transport loss; `reset` is what `ResetDown` answers. -/
def transportLost (s : ℕ) (edgeID : String) (reset : Bool) (m : Manager σ) : Manager σ :=
  if !(m.session s).closed && !m.closed && reset then
    m.eachConnection P s fun c m => if (m.conn c).edgeID = edgeID then m.revoke P c else m
  else m

/-! ## Policies -/

/-- A change of the policy that is under way will not be applied. -/
def cancelPolicy (s : ℕ) (m : Manager σ) : Manager σ :=
  match (m.session s).policyChange with
  | none => m
  | some change =>
    { m.setSession s (fun session => { session with policyChange := none }) with
      changes := m.changes.modify change fun c => { c with cancelled := true } }

/-- The sessions of the manager: those that are not closed. -/
def openSessions (m : Manager σ) : List ℕ :=
  (List.range m.sessions.length).filter fun s => !(m.session s).closed

/-- Give the stop shortcut back when no session needs it. -/
def releaseIdleShortcut (m : Manager σ) : Manager σ :=
  if !m.stopShortcut then m
  else if m.openSessions.any fun s => (m.session s).mode ≠ .off then m
  else { m with sink := P.releaseStop m.sink, stopShortcut := false }

/-- The policy of a session. What was granted under the old one ends. -/
def applyPolicy (s : ℕ) (mode : Mode) (password : List ℕ) (coPlay : Bool) (m : Manager σ) :
    Manager σ :=
  let m := m.setSession s fun session => { session with mode, password }
  let m := if m.owner = some s then m.release P else m
  let m := m.setSession s fun session => { session with coPlay }
  let m := m.releaseIdleShortcut P
  m.eachConnection P s (revoke P)

/-- Set the policy at once, in place of a change under way. -/
def setPolicy (s : ℕ) (mode : Mode) (password : List ℕ) (m : Manager σ) : Manager σ :=
  let m := m.cancelPolicy s
  m.applyPolicy P s mode password (m.session s).coPlay

/-- `BeginPolicy`; `ended` tells whether the caller's context is over. -/
def beginPolicy (s : ℕ) (mode : Mode) (password : String) (coPlay ended : Bool)
    (m : Manager σ) : Except String ℕ × Manager σ :=
  match validatePolicy mode password with
  | some err => (.error err, m)
  | none =>
    if m.closed || (m.session s).closed || ended || mode ≠ .off && !m.sessionAvailable s then
      (.error unavailableError, m)
    else
      let m := m.cancelPolicy s
      let change := m.changes.length
      (.ok change, { m.setSession s (fun session =>
          { session with policyChange := some change }) with
        changes := m.changes ++ [{
          session := s, mode
          password := if mode = .password then sha256Sum password else noPassword
          coPlay := coPlay && mode ≠ .off }] })

/-- `Close` of a policy change. -/
def closePolicy (change : ℕ) (m : Manager σ) : Manager σ :=
  match m.changes[change]? with
  | none => m
  | some c => if (m.session c.session).policyChange = some change then m.cancelPolicy c.session else m

/-- Register the stop shortcut. -/
def ensureStopShortcut (m : Manager σ) : Option String × Manager σ :=
  if !P.supportsStop || m.stopShortcut then (none, m)
  else
    let (err, sink) := P.registerStop m.stopKey m.sink
    (err, { m with sink, stopShortcut := err.isNone })

/-- `Apply` of a policy change; `ended` tells whether the caller's context is over
    before the permission is asked for, and `endedAfter` whether it is over after. -/
def applyChange (change : ℕ) (ended endedAfter : Bool) (m : Manager σ) :
    Option String × Manager σ :=
  match m.changes[change]? with
  | none => (some unavailableError, m)
  | some c =>
    if ended || c.cancelled then (some "context canceled", m)
    else
      let (err, sink) := if c.mode ≠ .off then P.authorize m.sink else (none, m.sink)
      let m := m.setSink sink
      if err.isSome then (err, m)
      else
        let s := c.session
        if m.closed || (m.session s).closed || (m.session s).policyChange ≠ some change ||
            endedAfter || c.mode ≠ .off && !m.sessionAvailable s then
          (some unavailableError, m)
        else
          let (err, m) := if c.mode ≠ .off then m.ensureStopShortcut P else (none, m)
          if err.isSome then (err, m)
          else
            let (gamepads, sink) := if c.coPlay && !m.gamepads then P.openGamepadBackend m.sink
              else (m.gamepads, m.sink)
            let m := { m with gamepads, sink }.cancelPolicy s
            (none, m.applyPolicy P s c.mode c.password c.coPlay)

/-- Whether several may control the session. -/
def setSimultaneous (s : ℕ) (enabled : Bool) (m : Manager σ) : Option String × Manager σ :=
  if m.closed || (m.session s).closed || !(m.session s).coPlay || (m.session s).mode = .off ||
      !m.sessionAvailable s then (some unavailableError, m)
  else if (m.session s).simultaneous = enabled then (none, m)
  else
    let m := m.cancelPolicy s
    let m := m.setSession s fun session => { session with simultaneous := enabled }
    let session := m.session s
    (none, m.applyPolicy P s session.mode session.password session.coPlay)

/-! ## Sessions -/

/-- One more session. -/
def newSession (m : Manager σ) : Manager σ :=
  if m.closed then m else { m with sessions := m.sessions ++ [{}] }

/-- The targets input can be injected into; others are no target. -/
def inputTarget (target : CaptureTarget) : CaptureTarget :=
  if target.kind ≠ "display" && target.kind ≠ "window" &&
      !(P.goos = "linux" && target.kind = "picker") then {} else target

/-- `setTarget`; `change` is the policy change that asks for it, if one does. -/
def setTarget (s : ℕ) (target : CaptureTarget) (capture change : Option ℕ) (m : Manager σ) :
    Manager σ :=
  if m.closed || (m.session s).closed then m
  else
    let m := m.setSession s fun session =>
      { session with target := inputTarget P target, capture, simultaneous := false }
    let m := if change = none || (m.session s).policyChange ≠ change then m.cancelPolicy s else m
    let m := if m.owner = some s then m.release P else m
    m.applyPolicy P s .off noPassword false

/-- What is wrong with a list of peers. -/
def invalidPeers : List RemoteInputPeer → List String → Bool
  | [], _ => false
  | peer :: peers, retained =>
    !validInputKey peer.endpointID peer.secret || !validOpaqueID peer.peerID ||
      peer.endpointID ∈ retained || invalidPeers peers (peer.endpointID :: retained)

/-- Install a fresh connection, and ask its endpoint to sync. -/
def bindPeer (c : EndpointKey) (peer : RemoteInputPeer) (m : Manager σ) : Manager σ :=
  { m with
    nextRef := m.nextRef + 1
    connections := m.connections.set c
      { ref := m.nextRef, peerID := peer.peerID, secret := peer.secret }
    outbox := m.outbox ++ [(c, .ready)] }

/-- Bind one peer's endpoint. -/
def setPeer (s : ℕ) (m : Manager σ) (peer : RemoteInputPeer) : Manager σ :=
  let c : EndpointKey := ⟨s, peer.endpointID⟩
  if m.connections.has c && (m.conn c).secret = peer.secret && (m.conn c).peerID = peer.peerID
  then m
  else
    (if m.connections.has c then m.revoke P c else m).bindPeer c peer

/-- Forget an endpoint that the peers no longer name. -/
def dropPeer (retained : List String) (c : EndpointKey) (m : Manager σ) : Manager σ :=
  if c.id ∈ retained then m
  else
    let m := m.revoke P c
    { m with connections := m.connections.delete c }

/-- The participants whose endpoints may send input. The others lose their connections. -/
def setPeers (s : ℕ) (peers : List RemoteInputPeer) (m : Manager σ) :
    Option String × Manager σ :=
  if m.closed || (m.session s).closed then (some "remote input is closed", m)
  else if invalidPeers peers [] then (some "invalid input endpoint", m)
  else
    let m := peers.foldl (setPeer P s) m
    (none, m.eachConnection P s (dropPeer P (peers.map (·.endpointID))))

/-- `Decide`, with the connections in the order the source looks through them. -/
def sessionDecide (s : ℕ) (id : String) (allow : Bool) (m : Manager σ) : Option String × Manager σ :=
  let (order, sink) := P.range m.connections.keys m.sink
  let m := m.setSink sink
  match order.find? fun c => c.owner = s && (m.conn c).requestID = id with
  | none => (some "request is no longer available", m)
  | some c =>
    if m.closed || !m.sessionAvailable s || (m.conn c).edgeID = "" ||
        !(m.conn c).requested && (m.conn c).grant = "" then
      (some "request is no longer available", m)
    else if !allow then
      if (m.session s).mode ≠ .ask && !(m.session s).coPlay then
        (none, m.setPolicy P s .ask noPassword)
      else (none, m.revoke P c)
    else
      let m := if (m.conn c).requested && (m.session s).coPlay && !(m.session s).simultaneous &&
        m.owner = some s then m.release P else m
      m.grant P c

/-- Tell an endpoint of a pause. -/
def tellPaused (paused : Bool) (c : EndpointKey) (m : Manager σ) : Manager σ :=
  let m := if paused then m.setConn c fun conn => { conn with requested := false } else m
  m.send P c (m.state c)

/-- Pause a session, or go on with it. -/
def pause (s : ℕ) (paused : Bool) (m : Manager σ) : Manager σ :=
  let m := m.setSession s fun session => { session with paused }
  let m := if paused then m.cancelPolicy s else m
  let m := if paused && m.owner = some s then m.release P else m
  m.eachConnection P s (tellPaused P paused)

/-- Drop the connections of a session. -/
def forget (s : ℕ) (m : Manager σ) : Manager σ :=
  { m with connections := m.connections.filter fun c _ => c.owner ≠ s }

/-- `Close` of a session. -/
def closeSession (s : ℕ) (m : Manager σ) : Manager σ :=
  let m := m.setSession s fun session => { session with closed := true }
  let m := m.cancelPolicy s
  let m := if m.owner = some s then m.release P else m
  (m.forget s).releaseIdleShortcut P

/-! ## The manager -/

/-- End what a session granted. Unless its mode is off, it asks from now on. -/
def revokeSession (m : Manager σ) (s : ℕ) : Manager σ :=
  if s ∉ m.openSessions then m
  else if (m.session s).mode ≠ .off then m.setPolicy P s .ask noPassword
  else m.cancelPolicy s

/-- `Revoke`, with the sessions in the order the source ranges over them. -/
def revokeAll (order : List ℕ) (m : Manager σ) : Manager σ :=
  if m.closed then m else order.foldl (revokeSession P) m

/-- `Close` of the manager. -/
def closeManager (m : Manager σ) : Manager σ :=
  if m.closed then m
  else
    let (_, m) := ({ m with closed := true }.release P).retryReleases P
    let sink := P.closeSink (if m.gamepads then P.closeGamepadBackend m.sink else m.sink)
    { m with
      gamepads := false
      sink := if m.stopShortcut then P.releaseStop sink else sink
      stopShortcut := false }

/-- The ticker of `New`. -/
def tick (m : Manager σ) : Manager σ :=
  let (_, m) := m.retryReleases P
  (m.refreshActive P).2

/-- Another key for the stop shortcut. -/
def setStopShortcut (key : ℕ) (m : Manager σ) : Manager σ :=
  if !P.supportsStop || !(1 ≤ key && key ≤ 11) || m.closed then m
  else if key = m.stopKey && m.stopShortcut then m
  else
    let (err, sink) := P.registerStop key m.sink
    if err.isSome then { m with sink } else { m with sink := P.releaseStop sink, stopKey := key }

/-- `ReadStopShortcut` tries the chord when it is not registered. -/
def readStopShortcut (m : Manager σ) : Manager σ :=
  if !P.supportsStop || m.closed || m.stopShortcut then m
  else
    let (err, sink) := P.registerStop m.stopKey m.sink
    m.setSink (if err.isSome then sink else P.releaseStop sink)

end Manager

/-! ## Runs -/

/-- The id of an edge; the control session takes no empty one. -/
abbrev EdgeID : Type := { id : String // id ≠ "" }

/-- An operation of the package, with what the outside decides about it. -/
inductive Op
  | newSession
  | setTarget (s : ℕ) (target : CaptureTarget) (capture change : Option ℕ)
  | setPeers (s : ℕ) (peers : List RemoteInputPeer)
  | packet (s : ℕ) (edgeID : EdgeID) (packet : Packet) (current : Bool)
  | transportLost (s : ℕ) (edgeID : EdgeID) (reset : Bool)
  | beginPolicy (s : ℕ) (mode : Mode) (password : String) (coPlay ended : Bool)
  | closePolicy (change : ℕ)
  | applyChange (change : ℕ) (ended endedAfter : Bool)
  | setSimultaneous (s : ℕ) (enabled : Bool)
  | decide (s : ℕ) (id : String) (allow : Bool)
  | pause (s : ℕ) (paused : Bool)
  | closeSession (s : ℕ)
  | revoke (order : List ℕ)
  | close
  | tick
  | gamepadOpened (err : Option String)
  | gamepadSettled
  | setStopShortcut (key : ℕ)
  | readStopShortcut

namespace Manager

variable {σ : Type} (P : Platform σ)

/-- One operation. -/
def run (m : Manager σ) : Op → Manager σ
  | .newSession => m.newSession
  | .setTarget s target capture change => m.setTarget P s target capture change
  | .setPeers s peers => (m.setPeers P s peers).2
  | .packet s edgeID packet current => m.receivePacket P s edgeID packet current
  | .transportLost s edgeID reset => m.transportLost P s edgeID reset
  | .beginPolicy s mode password coPlay ended => (m.beginPolicy s mode password coPlay ended).2
  | .closePolicy change => m.closePolicy change
  | .applyChange change ended endedAfter => (m.applyChange P change ended endedAfter).2
  | .setSimultaneous s enabled => (m.setSimultaneous P s enabled).2
  | .decide s id allow => (m.sessionDecide P s id allow).2
  | .pause s paused => m.pause P s paused
  | .closeSession s => m.closeSession P s
  | .revoke order => m.revokeAll P order
  | .close => m.closeManager P
  | .tick => m.tick P
  | .gamepadOpened err => m.gamepadOpened P err
  | .gamepadSettled => m.gamepadSettled
  | .setStopShortcut key => m.setStopShortcut P key
  | .readStopShortcut => m.readStopShortcut P

/-- The manager after some operations, from a new one. -/
def after (sink : σ) (ops : List Op) : Manager σ := ops.foldl (run P) { sink }

/-- The calls of the sink that an operation makes. -/
def callsOf (m : Manager σ) (op : Op) : List Applied :=
  (m.run P op).applied.drop m.applied.length

end Manager

end Piik.Input
