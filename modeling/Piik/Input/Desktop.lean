/-
  The desktop input of the Host App (`app/remoteinput`): the state of a manager,
  and the ledger of what its controllers hold (`held.go`, `text.go`).

  A `Platform σ` is what the package calls: the sink, the virtual gamepads, the
  stop shortcut, the clock, the random source, the decoders of a packet, and
  the order in which Go ranges over a map.  `σ` is the state of all of it.

  Sessions and policy changes are pointers by number; a connection is the entry
  of its endpoint in the manager, `ref` telling it from the entries before it.
  `applied` records every call of the sink's `Apply` with the state it was made
  in.  Diagnostic counters, log lines and the coalesced notifications of a
  session are left out; a reply is recorded before it is sealed.
-/
import Piik.Lib.OMap

namespace Piik.Input

/-! ## Data -/

/-- The rectangle of the desktop that is captured. -/
structure Bounds where
  left : ℤ := 0
  top : ℤ := 0
  width : ℤ := 0
  height : ℤ := 0
  deriving DecidableEq, Repr

/-- The `type` of an input event; the sink is handed whatever it does not know. -/
inductive EventType
  | sync | capabilities | request | release
  | gamepad | gamepadReset | gamepadStop | reset
  | text | key | button | move | relative | wheel
  | other (name : String)
  deriving DecidableEq, Repr

/-- The buttons and axes of a gamepad. -/
structure GamepadReport where
  buttons : UInt32 := 0
  leftTrigger : UInt8 := 0
  rightTrigger : UInt8 := 0
  leftX : Int16 := 0
  leftY : Int16 := 0
  rightX : Int16 := 0
  rightY : Int16 := 0
  deriving DecidableEq, Repr

/-- An event as it came over the channel. -/
structure InputEvent where
  type : EventType
  grant : String := ""
  intent : String := ""
  password : String := ""
  x : Float := 0
  y : Float := 0
  button : ℤ := 0
  down : Bool := false
  code : String := ""
  text : String := ""
  delta : ℤ := 0
  dx : ℤ := 0
  dy : ℤ := 0
  gamepad : Option GamepadReport := none
  inputFeedback : Bool := false

namespace InputEvent

/-- An event that lets a key or a button go. -/
def releasing (event : InputEvent) : Bool :=
  (event.type = .key || event.type = .button) && !event.down

end InputEvent

/-- What is captured, if anything. -/
structure CaptureTarget where
  kind : String := ""
  sourceID : String := ""
  deriving DecidableEq, Repr

/-- The policy of a session. -/
inductive Mode
  | off | ask | room | password
  deriving DecidableEq, Repr

/-- A `Session`; `policyChange` is the number of a change. -/
structure Session where
  target : CaptureTarget := {}
  capture : Option ℕ := none
  paused : Bool := false
  closed : Bool := false
  mode : Mode := .off
  coPlay : Bool := false
  simultaneous : Bool := false
  policyChange : Option ℕ := none
  password : List ℕ := List.replicate 32 0
  passwordRetry : ℤ := 0
  deriving DecidableEq, Repr

instance : Inhabited Session := ⟨{}⟩

/-- An endpoint of a session. -/
structure EndpointKey where
  owner : ℕ
  id : String
  deriving DecidableEq, Repr

/-- A `connection`; its owner and id are its key, `received` belongs to its cipher. -/
structure Connection where
  ref : ℕ
  edgeID : String := ""
  epoch : String := ""
  requested : Bool := false
  requestID : String := ""
  intent : String := ""
  grant : String := ""
  suspended : Bool := false
  inputFailed : Bool := false
  inputFeedback : Bool := false
  peerID : String := ""
  secret : String := ""
  received : ℕ := 0
  extended : Bool := false
  keys : List String := []
  buttons : List ℤ := []
  pad : Bool := false
  padFailed : Bool := false
  padIntent : ℕ := 0
  deriving DecidableEq, Repr

instance : Inhabited Connection := ⟨{ ref := 0 }⟩

namespace Connection

/-- No key is held. -/
def noKeys (conn : Connection) : Connection := { conn with keys := [] }

/-- No button is held. -/
def noButtons (conn : Connection) : Connection := { conn with buttons := [] }

/-- One more key is held. -/
def addKey (code : String) (conn : Connection) : Connection :=
  { conn with keys := conn.keys.insert code }

/-- One key less is held. -/
def dropKey (code : String) (conn : Connection) : Connection :=
  { conn with keys := conn.keys.filter (· ≠ code) }

/-- One more button is held. -/
def addButton (button : ℤ) (conn : Connection) : Connection :=
  { conn with buttons := conn.buttons.insert button }

/-- One button less is held. -/
def dropButton (button : ℤ) (conn : Connection) : Connection :=
  { conn with buttons := conn.buttons.filter (· ≠ button) }

end Connection

/-- The `state` of a reply. -/
inductive ReplyState
  | ready | unavailable | pending | active | suspended | failed
  deriving DecidableEq, Repr

/-- A message to the controller. -/
structure Reply where
  platform : String
  state : ReplyState
  grant : String
  intent : String
  mode : Mode
  reason : String
  inputFailed : Bool
  capabilities : List String := []
  coPlay : Option Bool := none
  deriving DecidableEq, Repr

/-- What goes to the route of a session: a reply, or the notice that a key is installed. -/
inductive Outgoing
  | reply (epoch : String) (value : Reply)
  | ready
  deriving DecidableEq, Repr

/-- A `PolicyChange`; `cancelled` is the end of its own context. -/
structure PolicyChange where
  session : ℕ
  mode : Mode
  password : List ℕ
  coPlay : Bool
  cancelled : Bool := false
  deriving DecidableEq, Repr

/-- A gamepad being created: the connection it is for, and whether it was handed over. -/
structure Opening where
  key : EndpointKey
  ref : ℕ
  grant : String
  intent : ℕ
  delivered : Bool := false
  deriving DecidableEq, Repr

/-! ## The outside -/

/-- An error is its text, none for nil. -/
structure Platform (σ : Type) where
  goos : String
  authorize : σ → Option String × σ
  target : CaptureTarget → Option ℕ → σ → Except String (Bounds × Bool) × σ
  apply : Bounds → InputEvent → σ → Option String × σ
  reset : σ → Option String × σ
  closeSink : σ → σ
  openGamepadBackend : σ → Bool × σ
  closeGamepadBackend : σ → σ
  updatePad : EndpointKey → GamepadReport → σ → Option String × σ
  closePad : EndpointKey → σ → σ
  supportsStop : Bool
  registerStop : ℕ → σ → Option String × σ
  releaseStop : σ → σ
  now : σ → ℤ × σ
  random : ℕ → σ → List UInt8 × σ
  range : List EndpointKey → σ → List EndpointKey × σ
  rangeKeys : List String → σ → List String × σ
  rangeButtons : List ℤ → σ → List ℤ × σ
  range_perm : ∀ l s, (range l s).1.Perm l
  rangeKeys_perm : ∀ l s, (rangeKeys l s).1.Perm l
  rangeButtons_perm : ∀ l s, (rangeButtons l s).1.Perm l
  base64 : String → Option (List UInt8)
  openSealed : (secret : String) → (nonce sealed aad : List UInt8) → Option (List UInt8)
  decode : List UInt8 → Option InputEvent

/-- A call of the sink's `Apply`, and what the manager was when it was made. -/
structure Applied where
  event : InputEvent
  accepted : Bool
  connections : OMap EndpointKey Connection
  pendingKeys : List String
  pendingButtons : List ℤ

/-- The state of remote input, with what was applied and sent so far. -/
structure Manager (σ : Type) where
  sink : σ
  connections : OMap EndpointKey Connection := .empty
  sessions : List Session := []
  changes : List PolicyChange := []
  owner : Option ℕ := none
  closed : Bool := false
  pendingKeys : List String := []
  pendingButtons : List ℤ := []
  gamepads : Bool := false
  gamepadOpening : Option Opening := none
  stopShortcut : Bool := false
  stopKey : ℕ := 10
  nextRef : ℕ := 0
  outbox : List (EndpointKey × Outgoing) := []
  applied : List Applied := []

/-- `errors.Join` of two. -/
def joinErrors : Option String → Option String → Option String
  | some a, some b => some (a ++ "\n" ++ b)
  | some a, none => some a
  | none, b => b

namespace Manager

variable {σ : Type} (P : Platform σ)

/-! ## Reading and writing -/

/-- The connection of an endpoint, the zero value where there is none. -/
def conn (m : Manager σ) (c : EndpointKey) : Connection := (m.connections.get c).getD default

/-- A session, the zero value where there is none. -/
def session (m : Manager σ) (s : ℕ) : Session := m.sessions[s]?.getD default

/-- The manager with another state of a connection. -/
def setConn (m : Manager σ) (c : EndpointKey) (f : Connection → Connection) : Manager σ :=
  { m with connections := m.connections.modify c f }

/-- The manager with another state of a session. -/
def setSession (m : Manager σ) (s : ℕ) (f : Session → Session) : Manager σ :=
  { m with sessions := m.sessions.modify s f }

/-- The manager over another state of the platform. -/
def setSink (m : Manager σ) (sink : σ) : Manager σ := { m with sink }

/-- The session that the desktop belongs to. -/
def setOwner (m : Manager σ) (owner : Option ℕ) : Manager σ := { m with owner }

/-- Somebody holds the key. -/
def keyHeld (m : Manager σ) (code : String) : Bool :=
  m.connections.values.any fun c => code ∈ c.keys

/-- Somebody holds the button. -/
def buttonHeld (m : Manager σ) (button : ℤ) : Bool :=
  m.connections.values.any fun c => button ∈ c.buttons

/-- The connections of a session that hold a grant. -/
def holders (m : Manager σ) (s : ℕ) : List EndpointKey :=
  m.connections.keys.filter fun c => c.owner = s && (m.conn c).grant ≠ ""

/-- The controller of a session, if there is just one. -/
def singleController (m : Manager σ) (s : ℕ) : Option EndpointKey :=
  match m.holders s with
  | [c] => some c
  | _ => none

/-- `for _, c := range m.connections`, on those of a session. -/
def eachConnection (s : ℕ) (f : EndpointKey → Manager σ → Manager σ) (m : Manager σ) :
    Manager σ :=
  let (order, sink) := P.range m.connections.keys m.sink
  (order.filter (·.owner = s)).foldl (fun m c => f c m) (m.setSink sink)

/-! ## Replies -/

/-- The session can be controlled. -/
def sessionAvailable (m : Manager σ) (s : ℕ) : Bool :=
  !(m.session s).closed && !(m.session s).paused && (m.session s).target.sourceID ≠ ""

/-- What an endpoint is told of its grant. -/
def state (m : Manager σ) (c : EndpointKey) : ReplyState :=
  if (m.conn c).grant ≠ "" then
    if (m.conn c).suspended then .suspended else .active
  else if (m.conn c).requested then .pending
  else .ready

/-- The value of a reply to a connection. -/
def replyValue (m : Manager σ) (c : EndpointKey) (state : ReplyState) (reason : String) : Reply :=
  let conn := m.conn c
  let owner := m.session c.owner
  { platform := P.goos
    state := if state = .ready && (!m.sessionAvailable c.owner || owner.mode = .off)
      then .unavailable else state
    grant := conn.grant
    intent := conn.intent
    mode := owner.mode
    reason := if reason = "gamepad" && !conn.extended then "" else reason
    inputFailed := conn.inputFailed && conn.inputFeedback
    capabilities := if conn.extended then
      ["coPlay", "inputFeedback"] ++
        (if owner.coPlay && m.singleController c.owner = some c then ["text"] else []) ++
        (if owner.coPlay && m.gamepads && !conn.padFailed then ["gamepad"] else [])
      else []
    coPlay := if conn.extended then some owner.coPlay else none }

/-- Send a state with a reason, to an endpoint that opened a channel. -/
def reply (c : EndpointKey) (state : ReplyState) (reason : String) (m : Manager σ) : Manager σ :=
  if (m.conn c).epoch = "" then m
  else { m with outbox := m.outbox ++
    [(c, .reply (m.conn c).epoch (m.replyValue P c state reason))] }

/-- Send a state. -/
def send (c : EndpointKey) (state : ReplyState) (m : Manager σ) : Manager σ :=
  m.reply P c state ""

/-! ## The held ledger (`held.go`) -/

/-- One event for the platform. -/
def applyInput (b : Bounds) (event : InputEvent) (m : Manager σ) : Option String × Manager σ :=
  let (err, sink) := P.apply b event m.sink
  (err, { m with
    sink
    applied := m.applied ++ [⟨event, err.isNone, m.connections, m.pendingKeys,
      m.pendingButtons⟩] })

/-- Let go of a key. Where that fails, the release is pending. -/
def releaseKey (code : String) (m : Manager σ) : Option String × Manager σ :=
  let (err, m) := m.applyInput P {} { type := .key, code }
  match err with
  | some _ => (err, { m with pendingKeys := m.pendingKeys.insert code })
  | none => (err, { m with pendingKeys := m.pendingKeys.filter (· ≠ code) })

/-- Let go of a button. Where that fails, the release is pending. -/
def releaseButton (button : ℤ) (m : Manager σ) : Option String × Manager σ :=
  let (err, m) := m.applyInput P {} { type := .button, button }
  match err with
  | some _ => (err, { m with pendingButtons := m.pendingButtons.insert button })
  | none => (err, { m with pendingButtons := m.pendingButtons.filter (· ≠ button) })

/-- Run an action on every element, joining its errors to those before. -/
def joinEach {α : Type} (f : α → Manager σ → Option String × Manager σ) :
    List α → Option String × Manager σ → Option String × Manager σ
  | [], result => result
  | a :: as, (err, m) =>
    let (err', m) := f a m
    joinEach f as (joinErrors err err', m)

/-- `fmt.Errorf(prefix + ": %w", err)`, or nil. -/
def wrap (label : String) (result : Option String × Manager σ) : Option String × Manager σ :=
  (result.1.map fun err => label ++ ": " ++ err, result.2)

/-- Another try at a pending key. -/
def retryKey (code : String) (m : Manager σ) : Option String × Manager σ :=
  wrap "key release retry" (m.releaseKey P code)

/-- Another try at a pending button. -/
def retryButton (button : ℤ) (m : Manager σ) : Option String × Manager σ :=
  wrap "button release retry" (m.releaseButton P button)

/-- Another try at every pending key. -/
def retryKeys (m : Manager σ) : Option String × Manager σ :=
  let (codes, sink) := P.rangeKeys m.pendingKeys m.sink
  joinEach (retryKey P) codes (none, m.setSink sink)

/-- Another try at every pending button. -/
def retryButtons (err : Option String) (m : Manager σ) : Option String × Manager σ :=
  let (buttons, sink) := P.rangeButtons m.pendingButtons m.sink
  joinEach (retryButton P) buttons (err, m.setSink sink)

/-- Only releases are retried. -/
def retryReleases (m : Manager σ) : Option String × Manager σ :=
  let (err, m) := m.retryKeys P
  m.retryButtons P err

/-- Let go of a key that nobody else holds. -/
def clearKey (code : String) (m : Manager σ) : Option String × Manager σ :=
  if m.keyHeld code then (none, m) else m.releaseKey P code

/-- Let go of a button that nobody else holds. -/
def clearButton (button : ℤ) (m : Manager σ) : Option String × Manager σ :=
  if m.buttonHeld button then (none, m) else m.releaseButton P button

/-- Let go of the keys of a connection. -/
def clearKeys (c : EndpointKey) (m : Manager σ) : Option String × Manager σ :=
  let (codes, sink) := P.rangeKeys (m.conn c).keys m.sink
  joinEach (clearKey P) codes (none, (m.setConn c .noKeys).setSink sink)

/-- Let go of the buttons of a connection. -/
def clearButtons (c : EndpointKey) (err : Option String) (m : Manager σ) :
    Option String × Manager σ :=
  let (buttons, sink) := P.rangeButtons (m.conn c).buttons m.sink
  joinEach (clearButton P) buttons (err, (m.setConn c .noButtons).setSink sink)

/-- `clearHeld` releases only this player's contribution. -/
def clearHeld (c : EndpointKey) (m : Manager σ) : Option String × Manager σ :=
  let (err, m) := m.clearKeys P c
  m.clearButtons P c err

/-- What the connections of a session are recorded as holding. -/
def heldKeys (m : Manager σ) (s : ℕ) : List String :=
  (m.connections.keys.filter (·.owner = s)).flatMap fun c => (m.conn c).keys

/-- The buttons that are held in a session. -/
def heldButtons (m : Manager σ) (s : ℕ) : List ℤ :=
  (m.connections.keys.filter (·.owner = s)).flatMap fun c => (m.conn c).buttons

/-- A connection of the session with nothing held. -/
def emptyHanded (s : ℕ) (c : EndpointKey) (conn : Connection) : Connection :=
  if c.owner = s then { conn with keys := [], buttons := [] } else conn

/-- What a session holds becomes pending. -/
def owe (s : ℕ) (m : Manager σ) : Manager σ :=
  { m with
    pendingKeys := m.heldKeys s ∪ m.pendingKeys
    pendingButtons := m.heldButtons s ∪ m.pendingButtons
    connections := m.connections.mapValues (emptyHanded s) }

/-- `resetHeld`: the release debt stays until `Reset` succeeds. -/
def resetHeld (s : ℕ) (m : Manager σ) : Option String × Manager σ :=
  let m := m.owe s
  let (err, sink) := P.reset m.sink
  match err with
  | none => (none, { m.setSink sink with pendingKeys := [], pendingButtons := [] })
  | some _ => (err, m.setSink sink)

/-- Whether a release is owed. -/
def releasePending (m : Manager σ) : Bool := m.pendingKeys ≠ [] || m.pendingButtons ≠ []

/-- Tell the controller when its input starts or ceases to fail. -/
def noteInputResult (c : EndpointKey) (err : Option String) (m : Manager σ) : Manager σ :=
  let failed := err.isSome || m.releasePending
  if (m.conn c).inputFailed = failed then m
  else
    let m := m.setConn c fun conn => { conn with inputFailed := failed }
    m.send P c (m.state c)

/-- A press: `fresh` tells whether the sink is to see it, `record` takes it down. -/
def press (c : EndpointKey) (b : Bounds) (event : InputEvent) (fresh : Bool)
    (record : Connection → Connection) (m : Manager σ) : Option String × Manager σ :=
  let (err, m) := if fresh then m.applyInput P b event else (none, m)
  match err with
  | some _ => (err, m)
  | none => (none, m.setConn c record)

/-- The key part of `applyHeld`, with the releases retried. -/
def applyKey (c : EndpointKey) (b : Bounds) (event : InputEvent) (m : Manager σ) :
    Option String × Manager σ :=
  let held : Bool := event.code ∈ (m.conn c).keys
  if event.code = "" || event.code.utf8ByteSize > 32 ||
      event.down && (m.conn c).keys.length ≥ 256 && !held then (none, m)
  else if event.down then
    -- A repeat from this holder is input; another holder shares the press.
    m.press P c b event (held || !m.keyHeld event.code) (.addKey event.code)
  else if !held then (none, m)
  else
    let m := m.setConn c (.dropKey event.code)
    m.clearKey P event.code

/-- The button part of `applyHeld`, with the releases retried. -/
def applyButton (c : EndpointKey) (b : Bounds) (event : InputEvent) (m : Manager σ) :
    Option String × Manager σ :=
  let held : Bool := event.button ∈ (m.conn c).buttons
  if event.button < 0 || event.button > 4 || held = event.down then (none, m)
  else if event.down then
    m.press P c b event (!m.buttonHeld event.button) (.addButton event.button)
  else
    let m := m.setConn c (.dropButton event.button)
    m.clearButton P event.button

/-- The text of the error while releases are pending. -/
def cleanupUnavailable (m : Manager σ) (releaseErr : Option String) : String :=
  "held input cleanup is unavailable (" ++ toString m.pendingKeys.length ++ " key, " ++
    toString m.pendingButtons.length ++ " button releases pending): " ++ releaseErr.getD ""

/-- Apply an event and keep account of what it holds. Pending releases go first. -/
def applyHeld (c : EndpointKey) (b : Bounds) (event : InputEvent) (m : Manager σ) :
    Option String × Manager σ :=
  let (releaseErr, m) := m.retryReleases P
  if !event.releasing && m.releasePending then (some (m.cleanupUnavailable releaseErr), m)
  else match event.type with
    | .key => m.applyKey P c b event
    | .button => m.applyButton P c b event
    | _ => m.applyInput P b event

/-! ## Text (`text.go`) -/

/-- The longest text of an event. -/
def maxTextBytes : ℕ := 2048
/-- The longest event. -/
def maxInputBytes : ℕ := maxTextBytes * 2 + 256

/-- `strings.ReplaceAll(text, "\r\n", "\n")` -/
def replaceCRLF : List Char → List Char
  | '\r' :: '\n' :: text => '\n' :: replaceCRLF text
  | c :: text => c :: replaceCRLF text
  | [] => []

/-- Every line ends with a line feed. -/
def normalizeNewlines (text : List Char) : List Char :=
  (replaceCRLF text).map fun c => if c = '\r' then '\n' else c

/-- The event for a piece of text without control characters. -/
def textFragment (fragment : List Char) : List InputEvent :=
  if fragment = [] then [] else [{ type := .text, text := String.ofList fragment }]

/-- A key goes down and up. -/
def keyStroke (code : String) : List InputEvent :=
  [{ type := .key, code, down := true }, { type := .key, code, down := false }]

/-- The events of a text, in order; `fragment` is what precedes it on its line. -/
def textEvents : List Char → List Char → List InputEvent
  | fragment, [] => textFragment fragment
  | fragment, c :: text =>
    if c = '\n' then textFragment fragment ++ keyStroke "Enter" ++ textEvents [] text
    else if c = '\t' then textFragment fragment ++ keyStroke "Tab" ++ textEvents [] text
    else textEvents (fragment ++ [c]) text

/-- Apply events one by one, up to the first error. -/
def applyEach (c : EndpointKey) (b : Bounds) : List InputEvent → Manager σ →
    Option String × Manager σ
  | [], m => (none, m)
  | event :: events, m =>
    let (err, m) := m.applyHeld P c b event
    match err with
    | some _ => (err, m)
    | none => applyEach c b events m

/-- A character that no text may contain. -/
def controlCharacter (c : Char) : Bool :=
  c.toNat < 0x20 && c ≠ '\n' && c ≠ '\t' || c.toNat = 0x7f

/-- `applyText` on the sink of a controller. -/
def applyText (c : EndpointKey) (b : Bounds) (text : String) (m : Manager σ) :
    Option String × Manager σ :=
  if text = "" || text.utf8ByteSize > maxTextBytes then (some "invalid input text", m)
  else
    let text := normalizeNewlines text.toList
    if text.any controlCharacter then (some "text contains a control character", m)
    else
      let (err, m) := m.resetHeld P c.owner
      match err with
      | some _ => (err, m)
      | none => applyEach P c b (textEvents [] text) m

end Manager

end Piik.Input
