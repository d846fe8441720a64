/-
  A punch preparation (`app/mediaedge/punch.go`, `punch_sockets.go`): who holds
  the UDP sockets that it opens, and what is sent on them.

  `workMu` is held by one call at a time, whose place is the state's `work`; the
  sections under `mu`, the steps on the atomic counters and the single closes
  are events.  A call that does not get the lock does nothing.  The datagrams,
  the timers and the answers of the network come with the events.
-/
import Piik.Lib.Steps

namespace Piik.Edge.Punch

open Function

/-! ## Predictions -/

/-- The four fields of an IPv4 address. -/
structure Ip where
  a : ℕ
  b : ℕ
  c : ℕ
  d : ℕ
  deriving DecidableEq, Repr

/-- A field of an IPv4 address, without leading zeros. -/
def parseField (field : List Char) : Option ℕ :=
  let value := field.foldl (fun v c => v * 10 + (c.toNat - '0'.toNat)) 0
  if field ≠ [] ∧ field.all Char.isDigit ∧ (field.head? ≠ some '0' ∨ field.length = 1) ∧ value ≤ 255 then
    some value else none

/-- `netip.ParseAddr` where it gives an IPv4 address. -/
def parseIPv4 (address : List Char) : Option Ip :=
  match (address.splitOn '.').map parseField with
  | [some a, some b, some c, some d] => some ⟨a, b, c, d⟩
  | _ => none

/-- An address that is valid on its link only. -/
def Ip.isLinkLocalUnicast (ip : Ip) : Bool := ip.a = 169 && ip.b = 254

/-- An address of a private network. -/
def Ip.isPrivate (ip : Ip) : Bool :=
  ip.a = 10 || ip.a = 172 && ip.b / 16 = 1 || ip.a = 192 && ip.b = 168

/-- No broadcast, loopback, multicast or link-local address. -/
def Ip.isGlobalUnicast (ip : Ip) : Bool :=
  ip ≠ ⟨0, 0, 0, 0⟩ && ip ≠ ⟨255, 255, 255, 255⟩ && ip.a ≠ 127 && ip.a / 16 ≠ 14 &&
    !ip.isLinkLocalUnicast

/-- An address and a port. -/
structure UDPAddr where
  ip : Ip
  port : ℤ
  deriving DecidableEq, Repr

/-- The remote address as it is predicted, and how its port moves. -/
structure PunchPrediction where
  address : List Char
  port : ℤ
  step : ℤ
  deriving DecidableEq, Repr

/-- The first address to send to, if the prediction is valid. -/
def PunchPrediction.target (prediction : PunchPrediction) : Option UDPAddr :=
  match parseIPv4 prediction.address with
  | none => none
  | some ip =>
    if !ip.isGlobalUnicast || ip.isPrivate || ip.isLinkLocalUnicast || prediction.step < 0 ||
        prediction.step > 16 || prediction.port < 1024 || prediction.port > 65535 then none
    else
      let port := prediction.port + 4 * prediction.step
      if port > 65535 then none else some { ip, port }

/-- What a discovery server saw. -/
structure Observation where
  address : List Char
  port : ℤ
  deriving DecidableEq, Repr

/-- The prediction of three observations. -/
def predict (first second third : Observation) : Option PunchPrediction :=
  let prediction := { address := third.address, port := third.port, step := third.port - second.port }
  if prediction.target = none ∨ first.address ≠ second.address ∨ second.address ≠ third.address ∨
      second.port - first.port ≠ prediction.step then none
  else some prediction

/-! ## The exchange -/

/-- The reader of a socket: between datagrams; it has replied and may check; it
    has read how many checks are left; it is done. -/
inductive Reader
  | waiting
  | replied
  | loaded (left : ℕ)
  | ended
  deriving DecidableEq, Repr

/-- The fanout: before the check of a socket in a round, with what it read of the
    checks left; or done. -/
inductive Fanout
  | next (round index : ℕ)
  | loaded (round index left : ℕ)
  | done
  deriving DecidableEq, Repr

/-- The shared variables of `punchSocketArray`.  Its readers live for 1.1 seconds,
    so the counters are far from their bounds. -/
structure Exchange where
  sockets : List ℕ
  readers : List Reader
  fanout : Fanout := .next 0 0
  requestsLeft : ℕ := 64
  responses : ℕ := 0
  proved : Bool := false
  ready : List ℕ := []

/-! ## The preparation -/

/-- How far the socket has got. -/
inductive Stage
  | new
  | survey
  | ready
  | running
  | complete
  | closed
  deriving DecidableEq, Repr

/-- A socket that was punched, and its remote address. -/
structure PunchedSocket where
  packetConn : ℕ
  remote : Option UDPAddr := none

/-- Where the call that holds `workMu` is. -/
inductive Work
  | idle
  -- `Prepare`
  | preparing
  | listening
  | surveying (socket : ℕ) (observations : List Observation)
  | surveyed (socket : ℕ) (prediction : PunchPrediction)
  | dropping (socket : ℕ)
  -- `Run`
  | starting (target : UDPAddr)
  | retaining (target : UDPAddr)
  | opening (target : UDPAddr) (sockets : List ℕ) (count : ℕ)
  | exchanging (target : UDPAddr) (x : Exchange)
  | closing (target : UDPAddr) (rest : List ℕ) (winner : Option ℕ)
  -- `TakePunchedSocket`
  | taking

/-- Sockets are named by the order in which they were opened.  `slot` says that the
    engine holds this preparation, and `takers` counts the calls of
    `TakePunchedSocket` that have found it there; `expired` is the array's own
    deadline.  What was closed, handed out and sent is recorded. -/
structure State where
  connectionID : String
  source : ℕ
  secret : List UInt8
  stage : Stage := .new
  cancelled : Bool := false
  socket : Option PunchedSocket := none
  slot : Bool := true
  takers : ℕ := 0
  work : Work := .idle
  expired : Bool := false
  opened : ℕ := 0
  closes : ℕ → ℕ := fun _ => 0
  taken : List ℕ := []
  checks : ℕ := 0
  replies : ℕ := 0

/-- What a reader may find in its socket. -/
inductive Datagram
  /-- An authenticated request of the remote address. -/
  | request
  /-- An authenticated success for the socket's own transaction. -/
  | success

/-- One step of the callers, of the work or of a timer. -/
inductive Event
  | prepare
  | transition
  | listen (ok : Bool)
  | observe (observation : Option Observation)
  | publish
  | drop
  | run (remote : PunchPrediction)
  | start
  | retain
  | openSocket (ok : Bool)
  | launch (ok : Bool)
  | datagram (i : ℕ) (d : Datagram)
  | reader (i : ℕ)
  | readerEnds (i : ℕ)
  | fanout
  | arrayExpires
  | collect (ok : Bool)
  | closeNext
  | finish
  | find (connectionID : String) (source : ℕ)
  | take
  | deliver
  | closePunch (connectionID : String)
  | closeSourcePunch (source : ℕ)
  | expire
  | retire
  | vacate

namespace State

variable (s : State)

/-- Close a socket. -/
def close (socket : ℕ) : State :=
  { s with closes := update s.closes socket (s.closes socket + 1) }

/-- The section of `transition`. -/
def transitions (origin : Stage) : Bool := !s.cancelled && s.stage = origin

/-! ### `Prepare` -/

/-- The first socket is there, or could not be opened. -/
def listen (ok : Bool) : Option State :=
  match s.work with
  | .listening =>
    if ok then some { s with opened := s.opened + 1, work := .surveying s.opened [] }
    else some { s with work := .idle }
  | _ => none

/-- An observation, or any error before the third one is published. -/
def observe : Option Observation → Option State
  | none => match s.work with
    | .surveying socket _ | .surveyed socket _ => some { s with work := .dropping socket }
    | _ => none
  | some observation => match s.work with
    | .surveying socket observations =>
      match observations ++ [observation] with
      | [first, second, third] => match predict first second third with
        | none => some { s with work := .dropping socket }
        | some prediction => some { s with work := .surveyed socket prediction }
      | observations => some { s with work := .surveying socket observations }
    | _ => none

/-- A stable mapping keeps the socket; another one is predicted without it. -/
def publish : Option State :=
  match s.work with
  | .surveyed socket prediction =>
    if !s.transitions .survey then some { s with work := .dropping socket }
    else if prediction.step = 0 then
      some { s with stage := .ready, socket := some { packetConn := socket }, work := .idle }
    else some { s with stage := .ready, work := .dropping socket }
  | _ => none

/-! ### `Run` -/

/-- `punchSocketArray` owns the retained socket from here on. -/
def retain : Option State :=
  match s.work with
  | .retaining target =>
    let sockets := (s.socket.map (·.packetConn)).toList
    let s := { s with socket := none, expired := false }
    if target.port < 1 ∨ target.port > 65535 ∨ s.secret.length ≠ 32 then
      some { s with work := .closing target sockets none }
    else some { s with work := .opening target sockets (if sockets = [] then 8 else 1) }
  | _ => none

/-- The context of the work has ended. -/
def ctxErr : Bool := s.cancelled || s.expired

/-- One more of the extra sockets is there, or could not be opened. -/
def openSocket (ok : Bool) : Option State :=
  match s.work with
  | .opening target sockets count =>
    if sockets.length < count then
      if s.ctxErr || !ok then some { s with work := .closing target sockets none }
      else some { s with
        opened := s.opened + 1, work := .opening target (sockets ++ [s.opened]) count }
    else none
  | _ => none

/-- The deadlines are set and the readers start. -/
def launch (ok : Bool) : Option State :=
  match s.work with
  | .opening target sockets count =>
    if sockets.length < count then none
    else if !ok then some { s with work := .closing target sockets none }
    else some { s with
      work := .exchanging target { sockets, readers := sockets.map fun _ => .waiting } }
  | _ => none

/-- A datagram that a waiting reader takes. -/
def datagram (i : ℕ) (d : Datagram) : Option State :=
  match s.work with
  | .exchanging target x =>
    if x.readers[i]? ≠ some .waiting then none
    else match d with
    | .request =>
      let x := { x with responses := x.responses + 1 }
      if x.responses > 64 then some { s with work := .exchanging target x }
      else some { s with
        work := .exchanging target { x with readers := x.readers.set i .replied }
        replies := s.replies + 1 }
    | .success =>
      let ready := if x.ready.length < x.sockets.length then x.ready ++ [i] else x.ready
      some { s with work := .exchanging target { x with proved := true, ready } }
  | _ => none

/-- The check of a reader that has replied: one comparison and swap at a time. -/
def reader (i : ℕ) : Option State :=
  match s.work with
  | .exchanging target x =>
    let load : Reader := if x.requestsLeft ≤ 0 then .waiting else .loaded x.requestsLeft
    match x.readers[i]? with
    | some .replied =>
      let next := if x.proved then .waiting else load
      some { s with work := .exchanging target { x with readers := x.readers.set i next } }
    | some (.loaded left) =>
      if x.requestsLeft = left then
        some { s with
          work := .exchanging target { x with
            readers := x.readers.set i .waiting, requestsLeft := left - 1 }
          checks := s.checks + 1 }
      else some { s with work := .exchanging target { x with readers := x.readers.set i load } }
    | _ => none
  | _ => none

/-- A reader finds its socket closed. -/
def readerEnds (i : ℕ) : Option State :=
  match s.work with
  | .exchanging target x =>
    if x.readers[i]? = some .waiting then
      some { s with work := .exchanging target { x with readers := x.readers.set i .ended } }
    else none
  | _ => none

/-- The fanout keeps one check for each socket. -/
def fanout : Option State :=
  match s.work with
  | .exchanging target x =>
    let load (round index : ℕ) : Fanout :=
      if x.requestsLeft ≤ x.sockets.length then .next round (index + 1)
      else .loaded round index x.requestsLeft
    match x.fanout with
    | .next round index =>
      let fanout := if round ≥ 8 || s.ctxErr then .done
        else if index < x.sockets.length then load round index else .next (round + 1) 0
      some { s with work := .exchanging target { x with fanout } }
    | .loaded round index left =>
      if x.requestsLeft = left then
        some { s with
          work := .exchanging target { x with
            fanout := .next round (index + 1), requestsLeft := left - 1 }
          checks := s.checks + 1 }
      else some { s with work := .exchanging target { x with fanout := load round index } }
    | .done => none
  | _ => none

/-- All readers are done: the first socket that was proved wins. -/
def collect (ok : Bool) : Option State :=
  match s.work with
  | .exchanging target x =>
    if x.fanout ≠ .done ∨ !s.ctxErr ∨ x.readers.any (· ≠ .ended) then none
    else
      let lost : State := { s with work := .closing target x.sockets none }
      if s.cancelled then some lost
      else match x.ready with
        | [] => some lost
        | winner :: _ =>
          if !ok then some lost
          else some { s with
            work := .closing target (x.sockets.eraseIdx winner) x.sockets[winner]? }
  | _ => none

/-- The sockets that lost are closed one after another. -/
def closeNext : Option State :=
  match s.work with
  | .closing target (socket :: rest) winner =>
    some { s.close socket with work := .closing target rest winner }
  | _ => none

/-- The work is over. A winner is kept, or closed if it came too late. -/
def finish : Option State :=
  match s.work with
  | .closing _ [] none => some { s with work := .idle }
  | .closing target [] (some winner) =>
    if !s.transitions .running then some { s.close winner with work := .idle }
    else some { s with
      socket := some { packetConn := winner, remote := some target }, stage := .complete, work := .idle }
  | _ => none

/-! ### `TakePunchedSocket` and `close` -/

/-- The socket changes hands: the call returns it. -/
def deliver : Option State :=
  match s.work with
  | .taking =>
    if !s.transitions .complete then some { s with work := .idle }
    else some { s with
      taken := s.taken ++ (s.socket.map (·.packetConn)).toList
      socket := none, stage := .closed, work := .idle }
  | _ => none

/-- The section of `close`. -/
def retire : State :=
  let s := { s with stage := .closed }
  match s.socket with
  | none => s
  | some socket => { s.close socket.packetConn with socket := none }

/-- `workMu` is free, and is taken. -/
def lock (work : Work) : Option State :=
  match s.work with
  | .idle => some { s with work }
  | _ => none

/-- One event. `none` is an event that cannot happen now. -/
def step (s : State) : Event → Option State
  | .prepare => s.lock .preparing
  | .transition => match s.work with
    | .preparing =>
      if s.transitions .new then some { s with stage := .survey, work := .listening }
      else some { s with work := .idle }
    | _ => none
  | .listen ok => s.listen ok
  | .observe observation => s.observe observation
  | .publish => s.publish
  | .drop => match s.work with
    | .dropping socket => some { s.close socket with work := .idle }
    | _ => none
  | .run remote => match remote.target with
    | none => none
    | some target => s.lock (.starting target)
  | .start => match s.work with
    | .starting target =>
      if s.transitions .ready then some { s with stage := .running, work := .retaining target }
      else some { s with work := .idle }
    | _ => none
  | .retain => s.retain
  | .openSocket ok => s.openSocket ok
  | .launch ok => s.launch ok
  | .datagram i d => s.datagram i d
  | .reader i => s.reader i
  | .readerEnds i => s.readerEnds i
  | .fanout => s.fanout
  | .arrayExpires => some { s with expired := true }
  | .collect ok => s.collect ok
  | .closeNext => s.closeNext
  | .finish => s.finish
  | .find connectionID source =>
    if s.slot && connectionID = s.connectionID && source = s.source then
      some { s with takers := s.takers + 1 } else none
  | .take =>
    if s.takers = 0 then none
    else match s.work with
      | .idle => some { s with takers := s.takers - 1, work := .taking }
      | _ => some { s with takers := s.takers - 1 }
  | .deliver => s.deliver
  | .closePunch connectionID =>
    if s.slot && (connectionID = "" || connectionID = s.connectionID) then
      some { s with cancelled := true } else none
  | .closeSourcePunch source =>
    if s.slot && source = s.source then some { s with cancelled := true } else none
  | .expire => some { s with cancelled := true }
  | .retire => if s.cancelled then some s.retire else none
  | .vacate => if s.cancelled && s.stage = .closed then some { s with slot := false } else none

end State

/-- `BeginPunch`, with the bytes that the secret encodes. -/
def beginPunch (connectionID : String) (source : ℕ) (secret : List UInt8) : Option State :=
  if secret.length ≠ 32 ∨ connectionID = "" ∨ connectionID.utf8ByteSize > 256 then none
  else some { connectionID, source, secret }

end Piik.Edge.Punch
