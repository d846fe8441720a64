/-
  One signaling connection (`signal/session.go`): handlers enqueue frames under
  the server's mutex, and one writer drains the queue.

  A step is one critical section of the mutex, or the return of a call that the
  writer makes outside of it.  What the library does with a frame is its result:
  a write returns, with or without an error, whenever it likes.
-/
import Piik.Lib.Steps

namespace Piik.Signal

/-! ## State -/

/-- `maxBufferedSignalBytes` -/
def maxBufferedSignalBytes : ℤ := 256 * 1024

/-- `maxInteractionQueueBytes` -/
def maxInteractionQueueBytes : ℤ := 16 * 1024

/-- `outbound` -/
inductive Outbound
  | text (data : List UInt8)
  | close (code : ℕ) (reason : String)
  deriving DecidableEq

/-- The text of an item. -/
def Outbound.text? : Outbound → Option (List UInt8)
  | .text data => some data
  | .close _ _ => none

/-- Where the writer's goroutine is. -/
inductive Writer
  /-- The mutex is due. -/
  | turn
  /-- The queue was empty: the select over `wake` and the context. -/
  | waiting
  | writing (data : List UInt8)
  /-- `conn.Write` has returned; the mutex is due. -/
  | written (data : List UInt8) (ok : Bool)
  | closing (code : ℕ) (reason : String)
  | done
  deriving DecidableEq

/-- The frame whose bytes are still counted. -/
def Writer.counted : Writer → List (List UInt8)
  | .writing data | .written data _ => [data]
  | _ => []

/-- The frame that the connection is taking. -/
def Writer.inFlight : Writer → List (List UInt8)
  | .writing data => [data]
  | _ => []

/-- The writer takes nothing more from the queue. -/
def Writer.stopped : Writer → Bool
  | .written _ false | .closing _ _ | .done => true
  | _ => false

/-- How far the writer is from its next wait. -/
def Writer.rank : Writer → ℕ
  | .turn => 2
  | .waiting => 1
  | .writing _ => 4
  | .written _ _ => 3
  | .closing _ _ => 1
  | .done => 0

/-- The queue and the writer, with what was accepted, written and lost so far. -/
structure Session where
  queue : List Outbound := []
  queuedBytes : ℤ := 0
  /-- The token of the channel `wake`. -/
  wake : Bool := false
  closeQueued : Bool := false
  terminated : Bool := false
  /-- `ctx` -/
  cancelled : Bool := false
  writer : Writer := .turn
  /-- The frames that `enqueue` has taken. -/
  accepted : List (List UInt8) := []
  /-- The frames whose write has returned without an error. -/
  taken : List (List UInt8) := []
  /-- The frame whose write has failed. -/
  failed : List (List UInt8) := []
  /-- The calls of `conn.Close`. -/
  closes : List (ℕ × String) := []
  deriving DecidableEq

namespace Session

/-- `open` -/
def isOpen (s : Session) : Bool := !s.closeQueued && !s.terminated

/-- A text at the end of the queue. -/
def enqueue (s : Session) (encoded : List UInt8) : Session :=
  { s with queue := s.queue ++ [.text encoded], queuedBytes := s.queuedBytes + encoded.length,
           wake := true, accepted := s.accepted ++ [encoded] }

/-- A close frame at the end of the queue. No text follows it. -/
def close (s : Session) (code : ℕ) (reason : String) : Session :=
  if !s.isOpen then s
  else { s with closeQueued := true, queue := s.queue ++ [.close code reason], wake := true }

/-- Nothing more is written. -/
def terminate (s : Session) : Session :=
  if s.terminated then s else { s with terminated := true, cancelled := true }

/-- Queue a text. A session that is too far behind is ended instead. -/
def sendEncoded (s : Session) (encoded : List UInt8) : Session :=
  if !s.isOpen then s
  else if s.queuedBytes > maxBufferedSignalBytes then s.terminate
  else s.enqueue encoded

/-- `deliver` of a room interaction. -/
def deliver (s : Session) (encoded : List UInt8) : Session :=
  if s.isOpen && s.queuedBytes < maxInteractionQueueBytes then s.sendEncoded encoded else s

/-- The calls of other goroutines, and the steps of the writer. -/
inductive Event
  | sendEncoded (encoded : List UInt8)
  | deliver (encoded : List UInt8)
  | close (code : ℕ) (reason : String)
  /-- A handler or the heartbeat. -/
  | terminate
  /-- The read loop ends and cancels the context. -/
  | readEnds
  /-- The writer takes the mutex and looks at the queue. -/
  | look
  /-- The select takes the token. -/
  | woken
  /-- The select finds the context cancelled. -/
  | interrupted
  | writeReturns (ok : Bool)
  /-- The writer takes the mutex after a write. -/
  | settle
  | closeReturns
  deriving DecidableEq

/-- The writer's critical section at the head of its loop. -/
def look (s : Session) : Session :=
  match s.queue with
  | [] => { s with writer := .waiting }
  | .text data :: queue => { s with queue, writer := .writing data }
  | .close code reason :: queue =>
    { s with queue, writer := .closing code reason, closes := s.closes ++ [(code, reason)] }

/-- A write returned. -/
def writeReturns (s : Session) (data : List UInt8) (ok : Bool) : Session :=
  if ok then { s with writer := .written data true, taken := s.taken ++ [data] }
  else { s with writer := .written data false, failed := s.failed ++ [data] }

/-- The write is off the count of bytes. -/
def settle (s : Session) (data : List UInt8) (ok : Bool) : Session :=
  { s with queuedBytes := s.queuedBytes - data.length, writer := if ok then .turn else .done }

/-- One event. `none` is an event that cannot happen now. -/
def step (s : Session) : Event → Option Session
  | .sendEncoded encoded => some (s.sendEncoded encoded)
  | .deliver encoded => some (s.deliver encoded)
  | .close code reason => some (s.close code reason)
  | .terminate => some s.terminate
  | .readEnds => some { s with cancelled := true }
  | .look => if s.writer = .turn then some s.look else none
  | .woken => if s.writer = .waiting ∧ s.wake then some { s with wake := false, writer := .turn } else none
  | .interrupted => if s.writer = .waiting ∧ s.cancelled then some { s with writer := .done } else none
  | .writeReturns ok =>
    match s.writer with
    | .writing data => some (s.writeReturns data ok)
    | _ => none
  | .settle =>
    match s.writer with
    | .written data ok => some (s.settle data ok)
    | _ => none
  | .closeReturns =>
    match s.writer with
    | .closing _ _ => some { s with writer := .done }
    | _ => none

/-! ## What every state keeps -/

/-- The frames of the queue, without the close. -/
def texts (s : Session) : List (List UInt8) := s.queue.filterMap Outbound.text?

/-- The close, once it is requested, ends the queue until the writer takes it. -/
inductive Closing : Bool → List Outbound → List (ℕ × String) → Prop
  | unrequested {queue : List Outbound} (h : ∀ o ∈ queue, o.text?.isSome) : Closing false queue []
  | queued {queue : List Outbound} (code : ℕ) (reason : String) (h : ∀ o ∈ queue, o.text?.isSome) :
      Closing true (queue ++ [.close code reason]) []
  | called (code : ℕ) (reason : String) : Closing true [] [(code, reason)]

/-- What becomes of the texts that were accepted. -/
structure Delivers (s : Session) : Prop where
  /-- Nothing accepted is lost, doubled or overtaken. -/
  order : s.accepted = s.taken ++ s.failed ++ s.writer.inFlight ++ s.texts
  /-- A write that fails is the last one. -/
  failed : s.failed.length ≤ 1 ∧ (s.failed ≠ [] → s.writer.stopped)
  bytes : s.queuedBytes = ((s.writer.counted ++ s.texts).map List.length).sum
  bounded : ∀ limit : ℤ, 0 ≤ limit → (∀ data ∈ s.accepted, (data.length : ℤ) ≤ limit) →
    s.queuedBytes ≤ maxBufferedSignalBytes + limit
  closing : Closing s.closeQueued s.queue s.closes
  /-- The connection is closed after every frame has been taken. -/
  closed : s.closes ≠ [] → s.taken = s.accepted ∧ s.writer.stopped
  /-- The writer does not sleep on a queue that holds something. -/
  token : s.writer = .waiting → s.queue ≠ [] → s.wake
  stops : s.writer.stopped → s.closes ≠ [] ∨ s.failed ≠ [] ∨ s.cancelled

variable {s s' : Session} {es es' : List Event} {encoded data : List UInt8}

@[simp] theorem text?_text : (Outbound.text data).text? = some data := rfl

@[simp] theorem text?_close {code : ℕ} {reason : String} : (Outbound.close code reason).text? = none :=
  rfl

theorem isOpen_iff : s.isOpen = true ↔ s.closeQueued = false ∧ s.terminated = false := by
  simp [isOpen]

section Closing

variable {requested : Bool} {queue : List Outbound} {closes : List (ℕ × String)} {o : Outbound}

theorem Closing.texts (h : Closing false queue closes) :
    (∀ o ∈ queue, o.text?.isSome) ∧ closes = [] := by
  cases h with
  | unrequested hall => exact ⟨hall, rfl⟩

theorem Closing.enqueue (h : Closing false queue closes) :
    Closing false (queue ++ [.text data]) closes := by
  obtain ⟨hall, rfl⟩ := h.texts
  refine .unrequested fun o ho => ?_
  rcases List.mem_append.1 ho with ho | ho
  · exact hall o ho
  · rw [List.mem_singleton.1 ho]
    rfl

/-- What the writer takes leaves the close at the end. -/
theorem Closing.text_cons (h : Closing requested (.text data :: queue) []) :
    Closing requested queue [] := by
  generalize hitems : Outbound.text data :: queue = items at h
  generalize hnone : ([] : List (ℕ × String)) = closes at h
  cases h with
  | unrequested hall =>
    subst hitems
    exact .unrequested fun o ho => hall o (List.mem_cons_of_mem _ ho)
  | @queued items code reason hall =>
    rcases items with - | ⟨o, items⟩
    · cases hitems
    · obtain ⟨rfl, rfl⟩ := List.cons.inj hitems
      exact .queued code reason fun o ho => hall o (List.mem_cons_of_mem _ ho)
  | called => cases hnone

/-- The close has nothing behind it. -/
theorem Closing.close_cons {code : ℕ} {reason : String}
    (h : Closing requested (.close code reason :: queue) closes) : queue = [] ∧ requested = true := by
  generalize hitems : Outbound.close code reason :: queue = items at h
  cases h with
  | unrequested hall =>
    subst hitems
    simpa using hall _ List.mem_cons_self
  | @queued items code' reason' hall =>
    rcases items with - | ⟨o, items⟩
    · exact ⟨(List.cons.inj hitems).2, rfl⟩
    · have ho : Outbound.close code reason = o := (List.cons.inj hitems).1
      rw [← ho] at hall
      simpa using hall _ List.mem_cons_self
  | called => cases hitems

end Closing

theorem delivers_init : Delivers {} where
  order := rfl
  failed := ⟨Nat.zero_le _, fun h => absurd rfl h⟩
  bytes := rfl
  bounded := by
    intro limit hlimit _
    show (0 : ℤ) ≤ _
    unfold maxBufferedSignalBytes
    omega
  closing := .unrequested (by simp)
  closed := fun h => absurd rfl h
  token := by simp
  stops := by simp [Writer.stopped]

/-- Only the cancellation changes. -/
theorem Delivers.cancel (h : Delivers s) (terminated : Bool) :
    Delivers { s with terminated, cancelled := true } :=
  { h with stops := fun _ => .inr (.inr rfl) }

theorem Delivers.terminate (h : Delivers s) : Delivers s.terminate := by
  unfold Session.terminate
  split
  · exact h
  · exact h.cancel true

theorem Delivers.enqueue (h : Delivers s) (hopen : s.closeQueued = false)
    (hbytes : s.queuedBytes ≤ maxBufferedSignalBytes) : Delivers (s.enqueue encoded) := by
  have htexts : (s.enqueue encoded).texts = s.texts ++ [encoded] := by
    simp [texts, Session.enqueue]
  have hclosing := h.closing
  rw [hopen] at hclosing
  refine ⟨?_, h.failed, ?_, ?_, ?_, ?_, fun _ _ => rfl, h.stops⟩
  · rw [htexts, ← List.append_assoc]
    exact congrArg (· ++ [encoded]) h.order
  · rw [htexts, ← List.append_assoc, List.map_append, List.sum_append]
    show s.queuedBytes + encoded.length = _
    rw [h.bytes]
    simp [Session.enqueue]
  · intro limit hlimit hle
    have hlast := hle encoded (by simp [Session.enqueue])
    show s.queuedBytes + encoded.length ≤ _
    omega
  · show Closing s.closeQueued (s.queue ++ [.text encoded]) s.closes
    rw [hopen]
    exact hclosing.enqueue
  · intro hne
    exact absurd hclosing.texts.2 hne

theorem Delivers.sendEncoded (h : Delivers s) : Delivers (s.sendEncoded encoded) := by
  unfold Session.sendEncoded
  split_ifs with hopen hfull
  · exact h
  · exact h.terminate
  · rw [Bool.not_eq_true', Bool.not_eq_false] at hopen
    exact h.enqueue (isOpen_iff.1 hopen).1 (not_lt.1 hfull)

theorem Delivers.deliver (h : Delivers s) : Delivers (s.deliver encoded) := by
  unfold Session.deliver
  split
  · exact h.sendEncoded
  · exact h

theorem Delivers.close (h : Delivers s) (code : ℕ) (reason : String) :
    Delivers (s.close code reason) := by
  unfold Session.close
  split_ifs with hopen
  · exact h
  · rw [Bool.not_eq_true', Bool.not_eq_false] at hopen
    have hclosing := h.closing
    rw [(isOpen_iff.1 hopen).1] at hclosing
    obtain ⟨hall, hnone⟩ := hclosing.texts
    have htexts : (s.queue ++ [Outbound.close code reason]).filterMap Outbound.text? = s.texts := by
      simp [texts]
    refine ⟨?_, h.failed, ?_, h.bounded, ?_, h.closed, fun _ _ => rfl, h.stops⟩
    · unfold texts
      rw [htexts]
      exact h.order
    · unfold texts
      rw [htexts]
      exact h.bytes
    · show Closing true (s.queue ++ [.close code reason]) s.closes
      rw [hnone]
      exact .queued code reason hall

/-- A writer that goes on has failed no write and called no close. -/
theorem Delivers.going (h : Delivers s) (hgoing : s.writer.stopped = false) :
    s.failed = [] ∧ s.closes = [] := by
  constructor
  · by_contra hne
    rw [h.failed.2 hne] at hgoing
    cases hgoing
  · by_contra hne
    rw [(h.closed hne).2] at hgoing
    cases hgoing

theorem Delivers.look (h : Delivers s) (hturn : s.writer = .turn) : Delivers s.look := by
  obtain ⟨hnone, hopen⟩ := h.going (by rw [hturn]; rfl)
  obtain ⟨horder, hfailed, hbytes, hbounded, hclosing, -, -, -⟩ := h
  rw [hturn] at horder hbytes
  unfold Session.look
  split
  · next hqueue =>
    exact ⟨horder, ⟨hfailed.1, fun hne => absurd hnone hne⟩, hbytes, hbounded, hclosing,
      fun hne => absurd hopen hne, fun _ hne => absurd hqueue hne, by simp [Writer.stopped]⟩
  · next data queue hqueue =>
    have htexts : s.texts = data :: queue.filterMap Outbound.text? := by simp [texts, hqueue]
    rw [htexts] at horder hbytes
    refine ⟨?_, ⟨hfailed.1, fun hne => absurd hnone hne⟩, hbytes, hbounded, ?_,
      fun hne => absurd hopen hne, by simp, by simp [Writer.stopped]⟩
    · simpa [Writer.inFlight, texts] using horder
    · show Closing s.closeQueued queue s.closes
      rw [hqueue, hopen] at hclosing
      rw [hopen]
      exact hclosing.text_cons
  · next code reason queue hqueue =>
    rw [hqueue] at hclosing
    obtain ⟨rfl, hrequested⟩ := hclosing.close_cons
    have htexts : s.texts = [] := by simp [texts, hqueue]
    rw [htexts] at horder hbytes
    refine ⟨horder, ⟨hfailed.1, fun hne => absurd hnone hne⟩, hbytes, hbounded, ?_, fun _ => ⟨?_, rfl⟩,
      by simp, fun _ => .inl (by simp)⟩
    · show Closing s.closeQueued [] (s.closes ++ [(code, reason)])
      rw [hrequested, hopen]
      exact .called code reason
    · simpa [hnone, Writer.inFlight] using horder.symm

theorem Delivers.writeReturns (h : Delivers s) (hwriting : s.writer = .writing data) (ok : Bool) :
    Delivers (s.writeReturns data ok) := by
  obtain ⟨hnone, hopen⟩ := h.going (by rw [hwriting]; rfl)
  obtain ⟨horder, hfailed, hbytes, hbounded, hclosing, -, -, -⟩ := h
  rw [hwriting] at horder hbytes
  cases ok with
  | true =>
    refine ⟨?_, ⟨hfailed.1, fun hne => absurd hnone hne⟩, hbytes, hbounded, hclosing,
      fun hne => absurd hopen hne, by simp [Session.writeReturns],
      by simp [Session.writeReturns, Writer.stopped]⟩
    show s.accepted = (s.taken ++ [data]) ++ s.failed ++ [] ++ s.texts
    simpa [hnone, Writer.inFlight] using horder
  | false =>
    refine ⟨?_, ⟨?_, fun _ => rfl⟩, hbytes, hbounded, hclosing, fun hne => absurd hopen hne,
      by simp [Session.writeReturns], fun _ => .inr (.inl ?_)⟩
    · show s.accepted = s.taken ++ (s.failed ++ [data]) ++ [] ++ s.texts
      simpa [hnone, Writer.inFlight] using horder
    · show (s.failed ++ [data]).length ≤ 1
      simp [hnone]
    · show s.failed ++ [data] ≠ []
      simp

theorem Delivers.settle (h : Delivers s) {ok : Bool} (hwritten : s.writer = .written data ok) :
    Delivers (s.settle data ok) := by
  have hgoing := h.going
  obtain ⟨horder, hfailed, hbytes, hbounded, hclosing, hclosed, -, hstops⟩ := h
  rw [hwritten] at horder hbytes hgoing hstops
  have hbytes' : s.queuedBytes - data.length = (s.texts.map List.length).sum := by
    rw [hbytes]
    simp [Writer.counted]
  have hbounded' : ∀ limit : ℤ, 0 ≤ limit → (∀ data ∈ s.accepted, (data.length : ℤ) ≤ limit) →
      s.queuedBytes - data.length ≤ maxBufferedSignalBytes + limit := by
    intro limit hlimit hle
    have := hbounded limit hlimit hle
    omega
  cases ok with
  | true =>
    obtain ⟨hnone, hopen⟩ := hgoing rfl
    exact ⟨horder, ⟨hfailed.1, fun hne => absurd hnone hne⟩, hbytes', hbounded', hclosing,
      fun hne => absurd hopen hne, by simp [Session.settle],
      by simp [Session.settle, Writer.stopped]⟩
  | false =>
    exact ⟨horder, ⟨hfailed.1, fun _ => rfl⟩, hbytes', hbounded', hclosing,
      fun hne => ⟨(hclosed hne).1, rfl⟩, by simp [Session.settle], fun _ => hstops rfl⟩

/-- The writer moves on without a frame. -/
theorem Delivers.moveTo (h : Delivers s) {wake : Bool} {writer : Writer}
    (hcounted : writer.counted = s.writer.counted) (hflight : writer.inFlight = s.writer.inFlight)
    (hstopped : s.writer.stopped → writer.stopped) (hwaiting : writer ≠ .waiting)
    (hstops : writer.stopped → s.writer.stopped ∨ s.cancelled) :
    Delivers { s with wake, writer } := by
  obtain ⟨horder, hfailed, hbytes, hbounded, hclosing, hclosed, -, hstopped'⟩ := h
  refine ⟨?_, ⟨hfailed.1, fun hne => hstopped (hfailed.2 hne)⟩, ?_, hbounded, hclosing,
    fun hne => ⟨(hclosed hne).1, hstopped (hclosed hne).2⟩, fun hw => absurd hw hwaiting, fun hw => ?_⟩
  · rw [← hflight] at horder
    exact horder
  · rw [← hcounted] at hbytes
    exact hbytes
  · rcases hstops hw with hw | hcancelled
    · exact hstopped' hw
    · exact .inr (.inr hcancelled)

theorem delivers_step {e : Event} (h : Delivers s) (hs : s.step e = some s') : Delivers s' := by
  cases e with
  | sendEncoded encoded =>
    obtain rfl := Option.some.inj hs
    exact h.sendEncoded
  | deliver encoded =>
    obtain rfl := Option.some.inj hs
    exact h.deliver
  | close code reason =>
    obtain rfl := Option.some.inj hs
    exact h.close code reason
  | terminate =>
    obtain rfl := Option.some.inj hs
    exact h.terminate
  | readEnds =>
    obtain rfl := Option.some.inj hs
    exact h.cancel s.terminated
  | look =>
    obtain ⟨hturn, hs⟩ := Option.ite_none_right_eq_some.1 hs
    obtain rfl := Option.some.inj hs
    exact h.look hturn
  | woken =>
    obtain ⟨⟨hwaiting, -⟩, hs⟩ := Option.ite_none_right_eq_some.1 hs
    obtain rfl := Option.some.inj hs
    exact h.moveTo (by rw [hwaiting]; rfl) (by rw [hwaiting]; rfl) (by simp [hwaiting, Writer.stopped])
      (by simp) (by simp [Writer.stopped])
  | interrupted =>
    obtain ⟨⟨hwaiting, hcancelled⟩, hs⟩ := Option.ite_none_right_eq_some.1 hs
    obtain rfl := Option.some.inj hs
    exact h.moveTo (by rw [hwaiting]; rfl) (by rw [hwaiting]; rfl) (fun _ => rfl) (by simp)
      fun _ => .inr hcancelled
  | writeReturns ok =>
    cases hwriter : s.writer <;> simp only [step, hwriter, Option.some.injEq, reduceCtorEq] at hs
    subst hs
    exact h.writeReturns hwriter ok
  | settle =>
    cases hwriter : s.writer <;> simp only [step, hwriter, Option.some.injEq, reduceCtorEq] at hs
    subst hs
    exact h.settle hwriter
  | closeReturns =>
    cases hwriter : s.writer <;> simp only [step, hwriter, Option.some.injEq, reduceCtorEq] at hs
    subst hs
    exact h.moveTo (by rw [hwriter]; rfl) (by rw [hwriter]; rfl) (fun _ => rfl) (by simp)
      fun _ => .inl (by rw [hwriter]; rfl)

theorem reaches_delivers (h : Steps.Reaches step {} es s) : Delivers s :=
  h.invariant delivers_init delivers_step

/-- A connection that is closed or terminated accepts nothing. -/
theorem accepted_step {e : Event} (hshut : s.isOpen = false) (hs : s.step e = some s') :
    s'.isOpen = false ∧ s'.accepted = s.accepted := by
  have hsend : ∀ encoded, s.sendEncoded encoded = s := by simp [Session.sendEncoded, hshut]
  cases e with
  | sendEncoded encoded =>
    obtain rfl := Option.some.inj hs
    rw [hsend]
    exact ⟨hshut, rfl⟩
  | deliver encoded =>
    obtain rfl := Option.some.inj hs
    simp [Session.deliver, hshut]
  | close code reason =>
    obtain rfl := Option.some.inj hs
    simp [Session.close, hshut]
  | terminate =>
    obtain rfl := Option.some.inj hs
    unfold Session.terminate
    split <;> simp_all [isOpen]
  | readEnds =>
    obtain rfl := Option.some.inj hs
    exact ⟨hshut, rfl⟩
  | look =>
    obtain ⟨-, hs⟩ := Option.ite_none_right_eq_some.1 hs
    obtain rfl := Option.some.inj hs
    unfold Session.look
    split <;> exact ⟨hshut, rfl⟩
  | woken | interrupted =>
    obtain ⟨-, hs⟩ := Option.ite_none_right_eq_some.1 hs
    obtain rfl := Option.some.inj hs
    exact ⟨hshut, rfl⟩
  | writeReturns ok =>
    cases hwriter : s.writer <;> simp only [step, hwriter, Option.some.injEq, reduceCtorEq] at hs
    subst hs
    cases ok <;> exact ⟨hshut, rfl⟩
  | settle | closeReturns =>
    cases hwriter : s.writer <;> simp only [step, hwriter, Option.some.injEq, reduceCtorEq] at hs
    subst hs
    exact ⟨hshut, rfl⟩

/-- **The writer hands over what the handlers enqueue, in order, and closes last.** -/
theorem session_delivers (h : Steps.Reaches step {} es s) :
    Delivers s ∧ ∀ es' s', Steps.Reaches step s es' s' → s.isOpen = false → s'.accepted = s.accepted := by
  refine ⟨reaches_delivers h, fun es' s' h' hshut => ?_⟩
  refine (h'.invariant (P := fun s' => s'.isOpen = false ∧ s'.accepted = s.accepted) ⟨hshut, rfl⟩ ?_).2
  rintro s₁ e s₂ ⟨hshut₁, heq⟩ hs
  obtain ⟨hshut₂, heq₂⟩ := accepted_step hshut₁ hs
  exact ⟨hshut₂, heq₂.trans heq⟩

/-- Two frames and a close; the second frame and the close arrive while the first is written. -/
theorem session_delivers_two :
    let es : List Event := [.sendEncoded [1], .look, .sendEncoded [2], .close 1000 "", .writeReturns true,
      .settle, .look, .writeReturns true, .settle, .look]
    ∃ s, Steps.Reaches step {} es s ∧ Delivers s ∧ s.closes = [(1000, "")] ∧ s.taken = [[1], [2]] := by
  intro es
  have hrun : (Steps.run step {} es).map (fun s => decide (s.closes = [(1000, "")] ∧ s.taken = [[1], [2]])) =
      some true := by decide +kernel
  obtain ⟨s, hs, hend⟩ := Option.map_eq_some_iff.1 hrun
  have hreach := Steps.reaches_of_run hs
  exact ⟨s, hreach, (session_delivers hreach).1, of_decide_eq_true hend⟩

/-! ## The writer alone -/

/-- The events of the writer, whose writes return with success or failure. -/
def Event.isWriter : Event → Bool
  | .look | .woken | .interrupted | .writeReturns _ | .settle | .closeReturns => true
  | _ => false

/-- What is left for the writer to do. -/
def rank (s : Session) : ℕ := 3 * s.queue.length + (if s.wake then 2 else 0) + s.writer.rank

theorem rank_step {e : Event} (he : e.isWriter = true) (hs : s.step e = some s') : s'.rank < s.rank := by
  cases e with
  | sendEncoded | deliver | close | terminate | readEnds => cases he
  | look =>
    obtain ⟨hturn, hs⟩ := Option.ite_none_right_eq_some.1 hs
    obtain rfl := Option.some.inj hs
    unfold Session.look rank
    split
    · simp [hturn, Writer.rank]
    · next hqueue =>
      simp only [hqueue, hturn, Writer.rank, List.length_cons]
      omega
    · next hqueue =>
      simp only [hqueue, hturn, Writer.rank, List.length_cons]
      omega
  | woken =>
    obtain ⟨⟨hwaiting, hwake⟩, hs⟩ := Option.ite_none_right_eq_some.1 hs
    obtain rfl := Option.some.inj hs
    simp [rank, hwaiting, hwake, Writer.rank]
  | interrupted =>
    obtain ⟨⟨hwaiting, -⟩, hs⟩ := Option.ite_none_right_eq_some.1 hs
    obtain rfl := Option.some.inj hs
    simp [rank, hwaiting, Writer.rank]
  | writeReturns ok =>
    cases hwriter : s.writer <;> simp only [step, hwriter, Option.some.injEq, reduceCtorEq] at hs
    subst hs
    cases ok with
    | false => simp [rank, Session.writeReturns, hwriter, Writer.rank]
    | true => simp [rank, Session.writeReturns, hwriter, Writer.rank]
  | settle =>
    cases hwriter : s.writer <;> simp only [step, hwriter, Option.some.injEq, reduceCtorEq] at hs
    subst hs
    next data ok => cases ok <;> simp [rank, Session.settle, hwriter, Writer.rank]
  | closeReturns =>
    cases hwriter : s.writer <;> simp only [step, hwriter, Option.some.injEq, reduceCtorEq] at hs
    subst hs
    simp [rank, hwriter, Writer.rank]

theorem rank_run (h : Steps.Reaches step s es s') (hes : ∀ e ∈ es, e.isWriter = true) :
    s'.rank + es.length ≤ s.rank := by
  induction h with
  | start => simp
  | @next es e s₁ s₂ _ hs ih =>
    have hlt := rank_step (hes e (by simp)) hs
    have hle := ih fun e he => hes e (List.mem_append_left _ he)
    rw [List.length_append, List.length_singleton]
    omega

/-- A writer that has nothing to do waits on an empty queue or has ended. -/
theorem Delivers.idle (h : Delivers s) (hidle : ∀ e : Event, e.isWriter = true → s.step e = none) :
    s.writer = .done ∨
      s.writer = .waiting ∧ s.queue = [] ∧ s.cancelled = false ∧ s.taken = s.accepted := by
  cases hwriter : s.writer with
  | turn => simpa [step, hwriter] using hidle .look rfl
  | writing data => simpa [step, hwriter] using hidle (.writeReturns true) rfl
  | written data ok => simpa [step, hwriter] using hidle .settle rfl
  | closing code reason => simpa [step, hwriter] using hidle .closeReturns rfl
  | done => exact .inl rfl
  | waiting =>
    have hwake : s.wake = false := by simpa [step, hwriter] using hidle .woken rfl
    have hcancelled : s.cancelled = false := by simpa [step, hwriter] using hidle .interrupted rfl
    have hqueue : s.queue = [] := by
      by_contra hne
      rw [h.token hwriter hne] at hwake
      cases hwake
    have hnone := (h.going (by rw [hwriter]; rfl)).1
    refine .inr ⟨rfl, hqueue, hcancelled, ?_⟩
    simpa [hwriter, hnone, texts, hqueue, Writer.inFlight] using h.order.symm

/-- **No wakeup is lost.**  Left alone, with writes that return, the writer stops after a number
    of steps that the queue bounds; it is then asleep on an empty queue, everything enqueued having
    been taken, or has ended. -/
theorem writer_drains {s₀ : Session} (h : Steps.Reaches step {} es s₀)
    (h' : Steps.Reaches step s₀ es' s) (hes : ∀ e ∈ es', e.isWriter = true) :
    es'.length ≤ 3 * s₀.queue.length + 6 ∧
    ((∀ e : Event, e.isWriter = true → s.step e = none) →
      (s.writer = .waiting ∧ s.queue = [] ∧ s.taken = s.accepted) ∨
      (s.writer = .done ∧ (s.closes ≠ [] ∧ s.taken = s.accepted ∨ s.failed ≠ [] ∨ s.cancelled))) := by
  have hd := reaches_delivers (h.trans h')
  constructor
  · have hle := rank_run h' hes
    have hwriter : s₀.writer.rank ≤ 4 := by cases s₀.writer <;> simp [Writer.rank]
    have hwake : (if s₀.wake then 2 else 0) ≤ 2 := by split <;> omega
    unfold rank at hle
    omega
  · intro hidle
    rcases hd.idle hidle with hdone | ⟨hwaiting, hqueue, -, htaken⟩
    · refine .inr ⟨hdone, ?_⟩
      rcases hd.stops (by rw [hdone]; rfl) with hcloses | hrest
      · exact .inl ⟨hcloses, (hd.closed hcloses).1⟩
      · exact .inr hrest
    · exact .inl ⟨hwaiting, hqueue, htaken⟩

/-- Two frames: the sleeping writer takes the first, and fails with the second. -/
theorem writer_drains_two : ∃ s₀ s, Steps.Reaches step {} [.look, .sendEncoded [1], .sendEncoded [2]] s₀ ∧
    Steps.Reaches step s₀ [.woken, .look, .writeReturns true, .settle, .look, .writeReturns false, .settle] s ∧
    (∀ e : Event, e.isWriter = true → s.step e = none) ∧ s.taken = [[1]] ∧
    s.writer = .done ∧ (s.closes ≠ [] ∧ s.taken = s.accepted ∨ s.failed ≠ [] ∨ s.cancelled) := by
  have hrun : (Steps.run step {} [.look, .sendEncoded [1], .sendEncoded [2]]).bind (fun s₀ =>
      (Steps.run step s₀ [.woken, .look, .writeReturns true, .settle, .look, .writeReturns false, .settle]).map
        fun s => decide (s.writer = .done ∧ s.taken = [[1]])) = some true := by
    decide +kernel
  obtain ⟨s₀, hs₀, hrun⟩ := Option.bind_eq_some_iff.1 hrun
  obtain ⟨s, hs, hend⟩ := Option.map_eq_some_iff.1 hrun
  obtain ⟨hdone, htaken⟩ := of_decide_eq_true hend
  have hidle : ∀ e : Event, e.isWriter = true → s.step e = none := by
    intro e he
    cases e <;> simp_all [step, Event.isWriter]
  refine ⟨s₀, s, Steps.reaches_of_run hs₀, Steps.reaches_of_run hs, hidle, htaken, ?_⟩
  rcases (writer_drains (Steps.reaches_of_run hs₀) (Steps.reaches_of_run hs) (by decide)).2 hidle with
    ⟨hwaiting, -⟩ | hends
  · rw [hdone] at hwaiting
    cases hwaiting
  · exact hends

end Session

end Piik.Signal
