/-
  The controller's side of remote input (`RemoteInputSession`,
  `client/remote-control/input-session.ts`): its intent, the Host's answers to
  it and the input sent under the grant.

  The queue of the channel, the clock and the random identifiers are streams of
  what they will answer; the numbers of the pointer and of the clock are exact.
  `log` is a ghost: it records what was sent and what became of the input that
  was not.
-/
import Mathlib
import Piik.Lib.Steps

namespace Piik.Client.Remote

/-! ## Data -/

/-- The states that the host reports. -/
inductive RemoteState
  | ready
  | unavailable
  | pending
  | active
  | suspended
  | failed
  deriving DecidableEq, Repr

/-- The host's policy. -/
inductive RemoteControlMode
  | off
  | ask
  | room
  | password
  deriving DecidableEq, Repr

/-- The platform of the host's desktop. -/
inductive RemoteInputPlatform
  | windows
  | darwin
  | linux
  deriving DecidableEq, Repr

/-- Why a request was turned down. -/
inductive RemoteReason
  | password
  | retry
  | busy
  | gamepad
  deriving DecidableEq, Repr

/-- A report of the host. -/
structure RemoteInputState where
  state : RemoteState
  mode : RemoteControlMode
  platform : RemoteInputPlatform
  grant : Option String := none
  intent : Option String := none
  reason : Option RemoteReason := none
  capabilities : Option (List String) := none
  coPlay : Option Bool := none
  inputFailed : Option Bool := none
  deriving DecidableEq, Repr

/-- A host that plays along takes text only if it says so. -/
def remoteTextAvailable (state : RemoteInputState) : Bool :=
  state.coPlay ≠ some true || state.capabilities.any fun names => "text" ∈ names

/-- A host that plays along and takes gamepads. -/
def remoteGamepadAvailable (state : RemoteInputState) : Bool :=
  state.coPlay = some true && state.capabilities.any fun names => "gamepad" ∈ names

/-- The buttons and axes of a gamepad. -/
structure RemoteGamepadReport where
  buttons : ℤ
  leftTrigger : ℤ
  rightTrigger : ℤ
  leftX : ℤ
  leftY : ℤ
  rightX : ℤ
  rightY : ℤ
  deriving DecidableEq, Repr

/-- A motion of the pointer, to a place or by a distance. -/
inductive PointerInput
  | move (x y : ℚ)
  | relative (dx dy : ℚ)
  deriving DecidableEq, Repr

/-- What a controller does. -/
inductive RemoteInputEvent
  | pointer (p : PointerInput)
  | key (code : String) (down : Bool)
  | text (text : String)
  | button (button : ℤ) (down : Bool)
  | wheel (delta : ℤ)
  | gamepad (report : RemoteGamepadReport)
  | gamepadReset
  | gamepadStop
  | reset
  deriving DecidableEq, Repr

/-- The events that a suspended session may send. -/
def RemoteInputEvent.resets : RemoteInputEvent → Bool
  | .reset | .gamepadReset | .gamepadStop => true
  | _ => false

/-- The events that are about a gamepad. -/
def RemoteInputEvent.gamepadEvent : RemoteInputEvent → Bool
  | .gamepad .. | .gamepadReset | .gamepadStop => true
  | _ => false

/-- The messages to the host. -/
inductive Packet
  | sync
  | capabilities (inputFeedback : Bool)
  | request (intent : String) (password : Option String)
  | release (intent : Option String)
  | input (event : RemoteInputEvent) (grant : String)
  deriving DecidableEq, Repr

/-- What a session did, for the record. -/
inductive Obs
  /-- The state and the intent it was sent under are recorded with a packet. -/
  | sent (packet : Packet) (state : Option RemoteInputState) (intent : Option String)
  /-- `send` refused the packet, because its queue had stalled or because the session
      was disposed of or the channel not open. -/
  | refused (packet : Packet) (stalled : Bool)
  /-- `sendInput` did not hold a grant for the event. -/
  | withheld (event : RemoteInputEvent) (state : Option RemoteInputState) (intent : Option String)
  /-- A reset or `dispose` discarded buffered motion. -/
  | dropped (p : PointerInput)
  /-- Motion was taken into the buffer. -/
  | supplied (p : PointerInput)
  | accepted (message : RemoteInputState)
  /-- `set` ended what was active and discarded its buffered input. -/
  | retired
  deriving DecidableEq

/-- `synchronous`: closing the channel dispatches its close event at once. -/
structure Session where
  state : Option RemoteInputState := none
  intent : Option String := none
  disposed : Bool := false
  capabilitiesRequested : Bool := false
  inputFeedbackRequested : Bool := false
  pointer : Option PointerInput := none
  pointerTimer : Bool := false
  nextPointerAt : ℚ := 0
  wheelFraction : ℚ := 0
  synchronous : Bool
  opened : Bool
  stalls : Stream' Bool
  clock : Stream' ℚ
  uuids : ℕ → String
  drawn : ℕ := 0
  log : List Obs := []

namespace Session

variable (s : Session)

/-- Put something on the record. -/
def note (o : Obs) : Session := { s with log := s.log ++ [o] }

/-! ## Sending -/

/-- Stop the timer and forget the motion that waits. -/
def clearPointer : Session := { s with pointerTimer := false, pointer := none }

/-- The same grant of the same intent is active before and after. -/
def continues (state state' : Option RemoteInputState) : Bool :=
  match state, state' with
  | some before, some after =>
    after.state = .active && before.state = .active && after.grant = before.grant &&
      after.intent = before.intent
  | _, _ => false

/-- Another report of the host. Unless it continues the grant, what waits is dropped. -/
def set (state : Option RemoteInputState) : Session :=
  let s := if continues s.state state then s
    else { (s.clearPointer.note .retired) with nextPointerAt := 0, wheelFraction := 0 }
  { s with state }

/-- The channel is gone, and the grant with it. -/
def closed : Session := set { s with intent := none } none

/-- `channel.close()`; the listener is gone after `dispose`. -/
def close : Session :=
  let s := { s with opened := false }
  if s.synchronous && !s.disposed then s.closed else s

/-- The queue of the channel stalled: a failed state, and the channel is closed. -/
def fail : Session :=
  close (set { s with intent := none }
    (s.state.map fun state => { state with state := .failed, grant := none }))

/-- A packet for the channel, refused where that is not open or has stalled. -/
def send (packet : Packet) : Bool × Session :=
  if s.disposed || !s.opened then (false, s.note (.refused packet false))
  else
    let stalled := s.stalls.head
    let s := { s with stalls := s.stalls.tail }
    if stalled then (false, (s.note (.refused packet true)).fail)
    else (true, s.note (.sent packet s.state s.intent))

/-- The grant under which the event may be sent. -/
def grantFor (state : Option RemoteInputState) (intent : Option String) (event : RemoteInputEvent) :
    Option String :=
  match state, intent with
  | some state, some intent =>
    if intent = "" then none
    else if state.intent ≠ some intent then none
    else if state.state = .active ∨ (event.resets ∧ state.state = .suspended) then
      state.grant.filter (· ≠ "")
    else none
  | _, _ => none

/-- An event under the present grant, withheld where there is none for it. -/
def sendInput (event : RemoteInputEvent) : Session :=
  match grantFor s.state s.intent event with
  | some grant => (s.send (.input event grant)).2
  | none => s.note (.withheld event s.state s.intent)

/-- Send the motion that waits. -/
def flushPointer : Session :=
  let pointer := s.pointer
  let s := s.clearPointer
  match pointer with
  | none => s
  | some p =>
    let s := { s with nextPointerAt := s.clock.head + 4, clock := s.clock.tail }
    s.sendInput (.pointer p)

/-! ## The methods -/

/-- Give the grant back. -/
def release : Session :=
  match s.intent, s.state with
  | some intent, some state =>
    let r := send { s with intent := none } (.release (some intent))
    if r.1 then
      r.2.set (some { state with state := .ready, grant := none, intent := none, inputFailed := none })
    else r.2
  | _, some state => if state.reason.isSome then s.set (some { state with reason := none }) else s
  | _, none => s

/-- Ask for a grant, with a fresh intent. -/
def request (password : Option String) : Session :=
  let s := if s.intent.isSome then s.release else s
  match s.state with
  | none => s
  | some state =>
    let intent := s.uuids s.drawn
    let r := send { s with intent := some intent, drawn := s.drawn + 1 } (.request intent password)
    if r.1 then
      r.2.set (some { state with
        state := .pending, grant := none, reason := none, inputFailed := none, intent := some intent })
    else r.2

/-- Distances add up; anything else takes the place of what waits. -/
def merge : Option PointerInput → PointerInput → PointerInput
  | some (.relative dx dy), .relative dx' dy' => .relative (dx + dx') (dy + dy')
  | _, p => p

/-- The two motions are of one kind. -/
def sameType : PointerInput → PointerInput → Bool
  | .move .., .move .. => true
  | .relative .., .relative .. => true
  | _, _ => false

/-- Motion of the pointer, sent at once or with the motion of the same interval. -/
def inputPointer (p : PointerInput) : Session :=
  if s.state.all (fun state => state.state ≠ .active) then s
  else
    let s := if s.pointer.any (fun q => !sameType q p) then s.flushPointer else s
    let s := { s.note (.supplied p) with pointer := some (merge s.pointer p) }
    if s.pointerTimer then s
    else
      let delay := s.nextPointerAt - s.clock.head
      let s := { s with clock := s.clock.tail }
      if delay ≤ 0 then s.flushPointer else { s with pointerTimer := true }

/-- The buffered motion is given up. -/
def dropPointer : Session :=
  match s.pointer with
  | none => s.clearPointer
  | some p => s.clearPointer.note (.dropped p)

/-- An event of the controller. A motion may wait for the timer. -/
def input (event : RemoteInputEvent) : Session :=
  if event.gamepadEvent && !s.state.any remoteGamepadAvailable then s
  else match event with
    | .text _ =>
      if s.state.any (fun state => !remoteTextAvailable state) then s else s.flushPointer.sendInput event
    | .pointer p => s.inputPointer p
    | .reset => sendInput { s.dropPointer with wheelFraction := 0 } .reset
    | _ => s.flushPointer.sendInput event

/-- `Math.trunc`. -/
def trunc (q : ℚ) : ℤ := if 0 ≤ q then ⌊q⌋ else ⌈q⌉

/-- Wheel ticks for a pixel, a line or a page. -/
def wheelTicks (deltaMode : ℤ) : ℚ :=
  if deltaMode = 1 then 40 else if deltaMode = 2 then 120 else 12 / 10

/-- Turns of the wheel in whole ticks, with the fraction kept. -/
def scroll (deltaY : ℚ) (deltaMode : ℤ) : Session :=
  if s.state.all (fun state => state.state ≠ .active) then s
  else
    let fraction := s.wheelFraction - deltaY * wheelTicks deltaMode
    let delta := trunc fraction
    let s := { s with wheelFraction := fraction - delta }
    if delta = 0 then s else s.input (.wheel (max (-1200) (min 1200 delta)))

/-- Give the grant back and end. -/
def dispose : Session := { s.release.dropPointer with disposed := true }

/-! ## The Host's messages -/

/-- The state the Host answered with. -/
def answered (message : RemoteInputState) : Session :=
  let s := if message.state = .unavailable then { s with intent := none } else s
  let holding := message.state = .active ∨ message.state = .suspended ∨ message.state = .pending
  if s.intent.isSome ∧ message.intent ≠ s.intent then s
  else if s.intent = none ∧ holding then (s.send (.release message.intent)).2
  else
    let s := if holding then s else { s with intent := none }
    set (s.note (.accepted message)) (some message)

/-- The first answer of the Host asks for its capabilities, once. -/
def offerCapabilities (message : RemoteInputState) : Bool × Session :=
  if s.capabilitiesRequested then (true, s)
  else
    let s := { s with capabilitiesRequested := true }
    if message.capabilities = none then s.send (.capabilities false) else (true, s)

/-- Input feedback is asked for when the Host advertises it, once. -/
def offerFeedback (message : RemoteInputState) : Bool × Session :=
  if s.inputFeedbackRequested then (true, s)
  else if message.capabilities.any (fun names => "inputFeedback" ∈ names) then
    send { s with inputFeedbackRequested := true } (.capabilities true)
  else (true, s)

/-- A message of the channel, `none` when it is not a state. -/
def message (parsed : Option RemoteInputState) : Session :=
  match parsed with
  | none => s
  | some message =>
    if s.disposed then s
    else
      let r := s.offerCapabilities message
      if !r.1 then r.2
      else
        let r := r.2.offerFeedback message
        if !r.1 then r.2 else r.2.answered message

/-- `constructor`. -/
def construct : Session := (s.send .sync).2

end Session

/-! ## Interleavings -/

/-- What happens to a session. -/
inductive Event
  | message (parsed : Option RemoteInputState)
  /-- The channel enters the open state, or leaves it. -/
  | ready (opened : Bool)
  /-- The close event of the channel. -/
  | closed
  | request (password : Option String)
  | release
  | input (event : RemoteInputEvent)
  | scroll (deltaY : ℚ) (deltaMode : ℤ)
  /-- The timer of the pointer. -/
  | timer
  | dispose

/-- One event. `none` is an event that cannot happen now. -/
def step (s : Session) : Event → Option Session
  | .message parsed => some (s.message parsed)
  | .ready opened => some { s with opened }
  | .closed => some (if s.disposed then { s with opened := false } else
    Session.closed { s with opened := false })
  | .request password => some (s.request password)
  | .release => some s.release
  | .input event => some (s.input event)
  | .scroll deltaY deltaMode => some (s.scroll deltaY deltaMode)
  | .timer => if s.pointerTimer then some s.flushPointer else none
  | .dispose => some s.dispose

/-! ## Deltas -/

/-- The distance of a relative motion. -/
def PointerInput.delta : PointerInput → ℚ × ℚ
  | .relative dx dy => (dx, dy)
  | .move .. => 0

/-- The distance that an event carries. -/
def RemoteInputEvent.delta : RemoteInputEvent → ℚ × ℚ
  | .pointer p => p.delta
  | _ => 0

/-- The distance that a packet carries. -/
def Packet.delta : Packet → ℚ × ℚ
  | .input event _ => event.delta
  | _ => 0

/-- The distance that the controller supplied. -/
def Obs.suppliedDelta : Obs → ℚ × ℚ
  | .supplied p => p.delta
  | _ => 0

/-- The distance that was sent. -/
def Obs.sentDelta : Obs → ℚ × ℚ
  | .sent packet .. => packet.delta
  | _ => 0

/-- Motion that was neither sent nor kept. -/
def Obs.lostDelta : Obs → ℚ × ℚ
  | .refused packet _ => packet.delta
  | .withheld event .. => event.delta
  | .dropped p => p.delta
  | _ => 0

/-- What was logged since the last grant was retired. -/
def period (log : List Obs) : List Obs :=
  log.foldl (fun entries o => if o = .retired then [] else entries ++ [o]) []

@[simp] theorem period_snoc {log : List Obs} {o : Obs} :
    period (log ++ [o]) = if o = .retired then [] else period log ++ [o] := by
  simp [period]

/-- The sum over the present grant. -/
def total (f : Obs → ℚ × ℚ) (log : List Obs) : ℚ × ℚ := ((period log).map f).sum

theorem total_snoc {f : Obs → ℚ × ℚ} {log : List Obs} {o : Obs} (ho : o ≠ .retired) :
    total f (log ++ [o]) = total f log + f o := by
  simp [total, ho]

@[simp] theorem total_retired {f : Obs → ℚ × ℚ} {log : List Obs} : total f (log ++ [.retired]) = 0 := by
  simp [total]

/-! ## Balance -/

/-- The distance that waits. -/
def Session.buffered (s : Session) : ℚ × ℚ := (s.pointer.map PointerInput.delta).getD 0

/-- In the current period: all motion supplied was sent, lost or is buffered, but for
    what is owed; and no stalled queue refused anything. -/
structure Balanced (s : Session) (owed : ℚ × ℚ) : Prop where
  sum : total Obs.suppliedDelta s.log =
    total Obs.sentDelta s.log + total Obs.lostDelta s.log + s.buffered + owed
  fresh : ∀ packet, .refused packet true ∉ period s.log

variable {s s' : Session} {owed : ℚ × ℚ} {state : Option RemoteInputState}

theorem Balanced.same (h : Balanced s owed) (hlog : s'.log = s.log) (hpointer : s'.pointer = s.pointer) :
    Balanced s' owed := by
  refine ⟨?_, hlog ▸ h.fresh⟩
  rw [hlog, Session.buffered, hpointer]
  exact h.sum

/-- An entry moves what is owed or buffered. -/
theorem Balanced.entry {owed' : ℚ × ℚ} {o : Obs} (h : Balanced s owed) (hlog : s'.log = s.log ++ [o])
    (ho : o ≠ .retired) (hfresh : ∀ packet, o ≠ .refused packet true)
    (hsum : o.suppliedDelta + s.buffered + owed = o.sentDelta + o.lostDelta + s'.buffered + owed') :
    Balanced s' owed' := by
  refine ⟨?_, fun packet hmem => ?_⟩
  · rw [hlog, total_snoc ho, total_snoc ho, total_snoc ho, h.sum]
    calc total Obs.sentDelta s.log + total Obs.lostDelta s.log + s.buffered + owed + o.suppliedDelta
        = total Obs.sentDelta s.log + total Obs.lostDelta s.log +
            (o.suppliedDelta + s.buffered + owed) := by abel
      _ = total Obs.sentDelta s.log + total Obs.lostDelta s.log +
            (o.sentDelta + o.lostDelta + s'.buffered + owed') := by rw [hsum]
      _ = _ := by abel
  · rw [hlog, period_snoc, if_neg ho] at hmem
    rcases List.mem_append.1 hmem with hmem | hmem
    · exact h.fresh packet hmem
    · exact hfresh packet (List.mem_singleton.1 hmem).symm

/-- A period begins in balance. -/
theorem balanced_retired {log : List Obs} (hlog : s.log = log ++ [.retired]) (hpointer : s.pointer = none) :
    Balanced s 0 := by
  refine ⟨?_, fun packet hmem => ?_⟩
  · simp [hlog, Session.buffered, hpointer]
  · simp [hlog] at hmem

namespace Session

theorem set_balanced (h : continues s.state state = true → Balanced s 0) : Balanced (s.set state) 0 := by
  rw [set]
  split
  · next hc => exact (h hc).same rfl rfl
  · exact balanced_retired rfl rfl

theorem continues_none : continues state none = false := by
  cases state <;> rfl

theorem closed_balanced : Balanced s.closed 0 :=
  set_balanced fun h => absurd h (by simp [continues_none])

theorem close_balanced (h : Balanced s 0) : Balanced s.close 0 := by
  rw [close]
  dsimp only
  split
  · exact closed_balanced
  · exact h.same rfl rfl

theorem fail_balanced : Balanced s.fail 0 := by
  refine close_balanced (set_balanced fun h => ?_)
  exfalso
  cases hs : s.state <;> simp [hs, continues] at h

/-- What is sent is no longer owed. -/
theorem send_balanced {packet : Packet} (h : Balanced s packet.delta) : Balanced (s.send packet).2 0 := by
  rw [send]
  split
  · exact h.entry rfl (by simp) (by simp) (by simp [Obs.suppliedDelta, Obs.sentDelta, Obs.lostDelta,
      buffered, note, add_comm])
  · dsimp only
    split
    · exact fail_balanced
    · exact h.entry rfl (by simp) (by simp) (by simp [Obs.suppliedDelta, Obs.sentDelta, Obs.lostDelta,
        buffered, note, add_comm])

theorem sendInput_balanced {event : RemoteInputEvent} (h : Balanced s event.delta) :
    Balanced (s.sendInput event) 0 := by
  rw [sendInput]
  split
  · exact send_balanced h
  · exact h.entry rfl (by simp) (by simp) (by simp [Obs.suppliedDelta, Obs.sentDelta, Obs.lostDelta,
      buffered, note, add_comm])

theorem flushPointer_balanced (h : Balanced s 0) : Balanced s.flushPointer 0 := by
  rw [flushPointer]
  cases hp : s.pointer with
  | none => exact h.same rfl hp.symm
  | some p =>
    refine sendInput_balanced ⟨?_, h.fresh⟩
    have := h.sum
    rw [buffered, hp] at this
    simpa [buffered, clearPointer, RemoteInputEvent.delta] using this

theorem dropPointer_balanced (h : Balanced s 0) : Balanced s.dropPointer 0 := by
  rw [dropPointer]
  cases hp : s.pointer with
  | none => exact h.same rfl hp.symm
  | some p =>
    refine h.entry rfl (by simp) (by simp) ?_
    simp [Obs.suppliedDelta, Obs.sentDelta, Obs.lostDelta, buffered, note, clearPointer, hp]

/-- What is buffered was buffered before, under the same timer. -/
def Retains (s s' : Session) : Prop :=
  ∀ p, s'.pointer = some p → s.pointer = some p ∧ s'.pointerTimer = s.pointerTimer

theorem retains_same (h : s'.pointer = s.pointer) (htimer : s'.pointerTimer = s.pointerTimer) :
    Retains s s' := fun _ hp => ⟨h ▸ hp, htimer⟩

/-- The later call is named first. -/
theorem Retains.after {s'' : Session} (h' : Retains s' s'') (h : Retains s s') : Retains s s'' :=
  fun p hp => ⟨(h p (h' p hp).1).1, (h' p hp).2.trans (h p (h' p hp).1).2⟩

theorem Retains.none (h : Retains s s') (hp : s.pointer = none) : s'.pointer = none := by
  refine Option.eq_none_iff_forall_ne_some.2 fun p hp' => ?_
  rw [(h p hp').1] at hp
  cases hp

theorem set_retains : Retains s (s.set state) := by
  rw [set]
  split
  · exact retains_same rfl rfl
  · exact fun _ hp => nomatch hp

theorem close_retains : Retains s s.close := by
  rw [close]
  dsimp only
  split
  · exact Retains.after set_retains (retains_same rfl rfl)
  · exact retains_same rfl rfl

theorem send_retains {packet : Packet} : Retains s (s.send packet).2 := by
  rw [send]
  split
  · exact retains_same rfl rfl
  · dsimp only
    split
    · exact close_retains.after (Retains.after set_retains (retains_same rfl rfl))
    · exact retains_same rfl rfl

theorem flushPointer_pointer : s.flushPointer.pointer = none := by
  rw [flushPointer]
  dsimp only
  split
  · rfl
  · rw [sendInput]
    split
    · exact send_retains.none rfl
    · rfl

theorem release_balanced (h : Balanced s 0) : Balanced s.release 0 := by
  rw [release]
  split
  · have hsend : ∀ intent, Balanced (send { s with intent := none } (.release intent)).2 0 := fun intent =>
      send_balanced (h.same rfl rfl)
    dsimp only
    split
    · exact set_balanced fun _ => hsend _
    · exact hsend _
  · split
    · exact set_balanced fun _ => h
    · exact h
  · exact h

theorem request_balanced {password : Option String} (h : Balanced s 0) :
    Balanced (s.request password) 0 := by
  rw [request]
  have hfirst : Balanced (if s.intent.isSome then s.release else s) 0 := by
    split
    · exact release_balanced h
    · exact h
  generalize (if s.intent.isSome then s.release else s) = s₁ at hfirst
  dsimp only
  split
  · exact hfirst
  · have hsend : ∀ intent, Balanced (send { s₁ with intent := some intent, drawn := s₁.drawn + 1 }
        (.request intent password)).2 0 := fun intent => send_balanced (hfirst.same rfl rfl)
    split
    · exact set_balanced fun _ => hsend _
    · exact hsend _

theorem merge_delta {p : PointerInput} {q : Option PointerInput} (h : ∀ q' ∈ q, sameType q' p = true) :
    (merge q p).delta = (q.map PointerInput.delta).getD 0 + p.delta := by
  rcases q with _ | (_ | ⟨dx, dy⟩)
  · cases p <;> simp [merge]
  · cases p with
    | move x y => simp [merge, PointerInput.delta]
    | relative dx dy => simp [sameType] at h
  · cases p with
    | move x y => simp [sameType] at h
    | relative dx' dy' => rfl

theorem inputPointer_balanced {p : PointerInput} (h : Balanced s 0) : Balanced (s.inputPointer p) 0 := by
  rw [inputPointer]
  split
  · exact h
  · -- motion of the other kind is flushed first, so the deltas add up
    obtain ⟨s₁, hs₁, hfirst, htype⟩ : ∃ s₁, s₁ =
        (if s.pointer.any (fun q => !sameType q p) then s.flushPointer else s) ∧ Balanced s₁ 0 ∧
        ∀ q ∈ s₁.pointer, sameType q p = true := by
      refine ⟨_, rfl, ?_, ?_⟩
      · split
        · exact flushPointer_balanced h
        · exact h
      · intro q hq
        split at hq
        · rw [flushPointer_pointer] at hq
          cases hq
        · next hany =>
          rw [Option.mem_def] at hq
          rw [hq] at hany
          simpa using hany
    rw [← hs₁]
    have hmerged : Balanced { s₁.note (.supplied p) with pointer := some (merge s₁.pointer p) } 0 := by
      refine hfirst.entry rfl (by simp) (by simp) ?_
      simp only [Obs.suppliedDelta, Obs.sentDelta, Obs.lostDelta, buffered, Option.map_some, Option.getD_some,
        merge_delta htype]
      abel
    dsimp only
    split
    · exact hmerged
    · split
      · exact flushPointer_balanced (hmerged.same rfl rfl)
      · exact hmerged.same rfl rfl

theorem flushed_input_balanced {event : RemoteInputEvent} (h : Balanced s 0) (he : event.delta = 0) :
    Balanced (s.flushPointer.sendInput event) 0 :=
  sendInput_balanced (he ▸ flushPointer_balanced h)

theorem input_balanced {event : RemoteInputEvent} (h : Balanced s 0) : Balanced (s.input event) 0 := by
  unfold input
  split
  · exact h
  · cases event with
    | pointer p => exact inputPointer_balanced h
    | text text =>
      dsimp only
      split
      · exact h
      · exact flushed_input_balanced h rfl
    | reset =>
      exact sendInput_balanced (Balanced.same (s := s.dropPointer) (dropPointer_balanced h) rfl rfl)
    | key code down => exact flushed_input_balanced h rfl
    | button button down => exact flushed_input_balanced h rfl
    | wheel delta => exact flushed_input_balanced h rfl
    | gamepad report => exact flushed_input_balanced h rfl
    | gamepadReset => exact flushed_input_balanced h rfl
    | gamepadStop => exact flushed_input_balanced h rfl

theorem scroll_balanced {deltaY : ℚ} {deltaMode : ℤ} (h : Balanced s 0) :
    Balanced (s.scroll deltaY deltaMode) 0 := by
  rw [scroll]
  split
  · exact h
  · dsimp only
    split
    · exact h.same rfl rfl
    · exact input_balanced (h.same rfl rfl)

theorem dispose_balanced (h : Balanced s 0) : Balanced s.dispose 0 :=
  (dropPointer_balanced (release_balanced h)).same rfl rfl

theorem answered_balanced {message : RemoteInputState} (h : Balanced s 0) :
    Balanced (s.answered message) 0 := by
  rw [answered]
  have hfirst : Balanced (if message.state = .unavailable then { s with intent := none } else s) 0 := by
    split
    · exact h.same rfl rfl
    · exact h
  generalize (if message.state = .unavailable then { s with intent := none } else s) = s₁ at hfirst
  dsimp only
  split
  · exact hfirst
  · split
    · exact send_balanced hfirst
    · refine set_balanced fun _ => ?_
      have hnoted : ∀ s₂ : Session, Balanced s₂ 0 → Balanced (s₂.note (.accepted message)) 0 := fun s₂ h₂ =>
        h₂.entry rfl (by simp) (by simp) (by simp [Obs.suppliedDelta, Obs.sentDelta, Obs.lostDelta, buffered,
          note])
      split
      · exact hnoted _ hfirst
      · exact hnoted _ (hfirst.same rfl rfl)

theorem offerCapabilities_balanced (message : RemoteInputState) (h : Balanced s 0) :
    Balanced (s.offerCapabilities message).2 0 := by
  rw [offerCapabilities]
  split
  · exact h
  · dsimp only
    split
    · exact send_balanced (h.same rfl rfl)
    · exact h.same rfl rfl

theorem offerFeedback_balanced (message : RemoteInputState) (h : Balanced s 0) :
    Balanced (s.offerFeedback message).2 0 := by
  rw [offerFeedback]
  split
  · exact h
  · split
    · exact send_balanced (h.same rfl rfl)
    · exact h

theorem message_balanced {parsed : Option RemoteInputState} (h : Balanced s 0) :
    Balanced (s.message parsed) 0 := by
  cases parsed with
  | none => exact h
  | some m =>
    have hfirst := offerCapabilities_balanced m h
    have hsecond := offerFeedback_balanced m hfirst
    unfold message
    dsimp only
    split_ifs
    · exact h
    · exact hfirst
    · exact hsecond
    · exact answered_balanced hsecond

end Session

theorem step_balanced {e : Event} (hs : step s e = some s') (h : Balanced s 0) : Balanced s' 0 := by
  cases e with
  | message parsed => exact Option.some.inj hs ▸ Session.message_balanced h
  | ready opened => exact Option.some.inj hs ▸ h.same rfl rfl
  | closed =>
    obtain rfl := Option.some.inj hs
    split
    · exact h.same rfl rfl
    · exact Session.closed_balanced
  | request password => exact Option.some.inj hs ▸ Session.request_balanced h
  | release => exact Option.some.inj hs ▸ Session.release_balanced h
  | input event => exact Option.some.inj hs ▸ Session.input_balanced h
  | scroll deltaY deltaMode => exact Option.some.inj hs ▸ Session.scroll_balanced h
  | timer =>
    rw [step] at hs
    split at hs
    · exact Option.some.inj hs ▸ Session.flushPointer_balanced h
    · cases hs
  | dispose => exact Option.some.inj hs ▸ Session.dispose_balanced h

/-! ## Grants and intents -/

/-- The message speaks of an intent that the Host holds. -/
def RemoteInputState.Holds (message : RemoteInputState) : Prop :=
  message.state = .active ∨ message.state = .suspended ∨ message.state = .pending

/-- A state under which input may be sent is what the Host answered for its intent. -/
def Sourced (log : List Obs) (state : Option RemoteInputState) : Prop :=
  ∀ st, state = some st → st.state = .active ∨ st.state = .suspended →
    ∃ message, .accepted message ∈ log ∧ message.state = st.state ∧ message.grant = st.grant ∧
      message.intent = st.intent

/-- What stands behind an entry about input. -/
def Held (earlier : List Obs) : Obs → Prop
  | .sent (.input event grant) state intent =>
    Session.grantFor state intent event = some grant ∧ Sourced earlier state
  | .withheld event state intent => Session.grantFor state intent event = none
  | _ => True

/-- What holds of every session that ran. -/
structure Kept (s : Session) : Prop where
  held : Steps.Along Held s.log
  sourced : Sourced s.log s.state
  intent : ∀ intent, s.intent = some intent → 0 < s.drawn ∧ intent = s.uuids (s.drawn - 1)
  stated : s.intent = none ∨ s.state.isSome

/-- How far a call may move a session. -/
structure Moves (s s' : Session) : Prop where
  uuids : s'.uuids = s.uuids
  drawn : s.drawn ≤ s'.drawn
  intent : s'.drawn = s.drawn → s'.intent = s.intent ∨ s'.intent = none
  kept : Kept s → Kept s'
  log : Kept s → ∃ more, s'.log = s.log ++ more ∧ ∀ message, .accepted message ∈ more → message.Holds →
    ∃ k, message.intent = some (s.uuids k) ∧ s.drawn ≤ k + 1 ∧ k < s'.drawn ∧
      (k + 1 = s.drawn → message.intent = s.intent)

theorem Moves.refl (s : Session) : Moves s s :=
  ⟨rfl, le_rfl, fun _ => Or.inl rfl, id, fun _ => ⟨[], by simp, by simp⟩⟩

theorem Moves.trans {s'' : Session} (h : Moves s s') (h' : Moves s' s'') : Moves s s'' := by
  refine ⟨h'.uuids.trans h.uuids, h.drawn.trans h'.drawn, fun heq => ?_, fun hk => h'.kept (h.kept hk),
    fun hk => ?_⟩
  · have h₁ := h.drawn
    have h₂ := h'.drawn
    rcases h'.intent (by omega) with hi | hi
    · rw [hi]
      exact h.intent (by omega)
    · exact Or.inr hi
  · obtain ⟨more, hlog, hmore⟩ := h.log hk
    obtain ⟨more', hlog', hmore'⟩ := h'.log (h.kept hk)
    refine ⟨more ++ more', by rw [hlog', hlog, List.append_assoc], fun message hmem hholds => ?_⟩
    have h₁ := h.drawn
    have h₂ := h'.drawn
    rcases List.mem_append.1 hmem with hmem | hmem
    · obtain ⟨k, hk, hlow, hhigh, hcurrent⟩ := hmore message hmem hholds
      exact ⟨k, hk, hlow, by omega, hcurrent⟩
    · obtain ⟨k, hk, hlow, hhigh, hcurrent⟩ := hmore' message hmem hholds
      refine ⟨k, h.uuids ▸ hk, by omega, hhigh, fun heq => ?_⟩
      have hsame : s'.drawn = s.drawn := by omega
      have hi := hcurrent (by omega)
      rcases h.intent hsame with hold | hnone
      · exact hi.trans hold
      · rw [hi, hnone] at hk
        cases hk

theorem Moves.after {s'' : Session} (h' : Moves s' s'') (h : Moves s s') : Moves s s'' := h.trans h'

theorem Sourced.mono {log : List Obs} {o : Obs} (h : Sourced log state) : Sourced (log ++ [o]) state := by
  intro st hst hactive
  obtain ⟨message, hmem, hrest⟩ := h st hst hactive
  exact ⟨message, List.mem_append_left _ hmem, hrest⟩

namespace Session

end Session

/-- A new session on a channel. -/
def start (synchronous opened : Bool) (stalls : Stream' Bool) (clock : Stream' ℚ) (uuids : ℕ → String) :
    Session := Session.construct { synchronous, opened, stalls, clock, uuids }

variable {synchronous opened : Bool} {stalls : Stream' Bool} {clock : Stream' ℚ} {uuids : ℕ → String}
  {es : List Event}

namespace Session

end Session

/-- The motion that the controller supplied. -/
def Obs.supplied? : Obs → Option PointerInput
  | .supplied p => some p
  | _ => none

/-- The motion that an event supplies. -/
def Session.supplies (s : Session) : Event → List PointerInput
  | .input (.pointer p) => if s.state.any (fun state => state.state = .active) then [p] else []
  | _ => []

/-- Where motion is lost: a reset or `dispose` finds it buffered, the channel is not open, or there
    is no grant of the current intent, which may be because the queue has stalled just now. -/
def Session.Loses (s : Session) (e : Event) (more : List Obs) : Obs → Prop
  | .dropped p => s.pointer = some p ∧ (e = .input .reset ∨ e = .dispose)
  | .refused _ stalled => stalled = true ∨ s.disposed = true ∨ s.opened = false
  | .withheld event _ _ =>
    Session.grantFor s.state s.intent event = none ∨ ∃ packet, .refused packet true ∈ more
  | _ => False

/-- What the event logs in this state: the motion it supplies, and losses only where they may be. -/
structure Session.Logged (s : Session) (e : Event) (more : List Obs) : Prop where
  supplied : more.filterMap Obs.supplied? = s.supplies e
  lost : ∀ o ∈ more, o.lostDelta ≠ 0 → s.Loses e more o

/-- Motion is neither supplied nor lost, and none is put into the buffer. -/
structure Quiet (s s' : Session) : Prop where
  log : ∃ more, s'.log = s.log ++ more ∧ more.filterMap Obs.supplied? = [] ∧
    ∀ o ∈ more, o.lostDelta = 0
  retains : Session.Retains s s'

theorem Quiet.trans {s'' : Session} (h : Quiet s s') (h' : Quiet s' s'') : Quiet s s'' := by
  obtain ⟨more, hlog, hsupplied, hlost⟩ := h.log
  obtain ⟨more', hlog', hsupplied', hlost'⟩ := h'.log
  refine ⟨⟨more ++ more', by rw [hlog', hlog, List.append_assoc], by simp [hsupplied, hsupplied'],
    fun o ho => ?_⟩, h'.retains.after h.retains⟩
  exact (List.mem_append.1 ho).elim (hlost o) (hlost' o)

/-- The later call is named first. -/
theorem Quiet.after {s'' : Session} (h' : Quiet s' s'') (h : Quiet s s') : Quiet s s'' := h.trans h'

/-- The motion of the flush is lost: no grant is held, or what is sent is refused. -/
def Session.FlushLoss (s : Session) : Obs → Prop
  | .refused _ stalled =>
    s.intent ≠ none ∧ (stalled = true ∨ s.disposed = true ∨ s.opened = false)
  | .withheld event _ _ => Session.grantFor s.state s.intent event = none
  | _ => False

/-- What sending logs: the session is as it was, or the queue has stalled and the intent is gone. -/
structure Sends (s s' : Session) (more : List Obs) : Prop where
  log : s'.log = s.log ++ more
  supplied : more.filterMap Obs.supplied? = []
  lost : ∀ o ∈ more, o.lostDelta ≠ 0 → s.FlushLoss o
  after : (s'.state = s.state ∧ s'.intent = s.intent ∧ s'.disposed = s.disposed ∧
    s'.opened = s.opened) ∨ s'.intent = none ∧ ∃ packet, .refused packet true ∈ more

namespace Session

end Session

section Logged

variable {e : Event} {more : List Obs}

theorem Quiet.logged (h : Quiet s s') (he : s.supplies e = []) :
    ∃ more, s'.log = s.log ++ more ∧ s.Logged e more := by
  obtain ⟨more, hlog, hsupplied, hlost⟩ := h.log
  exact ⟨more, hlog, hsupplied.trans he.symm, fun o ho hne => absurd (hlost o ho) hne⟩

theorem Session.FlushLoss.loses {o : Obs} (h : s.FlushLoss o) : s.Loses e more o := by
  cases o with
  | refused packet stalled => exact h.2
  | withheld event state intent => exact .inl h
  | sent _ _ _ | dropped _ | supplied _ | accepted _ | retired => exact h.elim

/-- What a second flush loses is lost as the first one left the session. -/
theorem Sends.loses {s₂ : Session} {o : Obs} {later : List Obs} (h : Sends s s' more)
    (hsame : s₂.state = s'.state ∧ s₂.intent = s'.intent ∧ s₂.disposed = s'.disposed ∧
      s₂.opened = s'.opened) (hloss : s₂.FlushLoss o) : s.Loses e (more ++ later) o := by
  obtain ⟨hstate, hintent, hdisposed, hopened⟩ := hsame
  rcases h.after with ⟨h₁, h₂, h₃, h₄⟩ | ⟨hnone, packet, hmem⟩
  · refine Session.FlushLoss.loses ?_
    cases o with
    | refused packet stalled =>
      simpa only [Session.FlushLoss, hintent, hdisposed, hopened, h₂, h₃, h₄] using hloss
    | withheld event state intent =>
      simpa only [Session.FlushLoss, hstate, hintent, h₁, h₂] using hloss
    | sent _ _ _ | dropped _ | supplied _ | accepted _ | retired => exact hloss.elim
  · cases o with
    | refused packet' stalled => exact absurd (hintent.trans hnone) hloss.1
    | withheld event state intent => exact .inr ⟨packet, List.mem_append_left _ hmem⟩
    | sent _ _ _ | dropped _ | supplied _ | accepted _ | retired => exact hloss.elim

namespace Session

end Session

end Logged

/-! ## The timer -/

/-- What is buffered waits for a timer. -/
def Timed (s : Session) : Prop := s.pointer.isSome → s.pointerTimer = true

theorem timed_none (h : s.pointer = none) : Timed s := fun hsome => by simp [h] at hsome

/-- Nothing is buffered, and nothing comes into the buffer. -/
theorem Quiet.empty (hq : Quiet s s') (h : s.pointer = none) : Timed s' :=
  timed_none (hq.retains.none h)

namespace Session

end Session

end Piik.Client.Remote
