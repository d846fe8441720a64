/-
  The gate before the key derivations (`room/password.go`): at most `limit` of
  them run at once, and at most `pendingLimit` callers wait.

  A caller is one invocation of `gate.run`.  It makes at most one wake channel,
  so the channel is named after the caller.  A step of the system is one
  critical section of `gate.mu`, or what a caller does outside of it.
-/
import Mathlib
import Piik.Lib.Semaphore
import Piik.Room.Password

namespace Piik.Room

/-! ## The gate -/

/-- The number of derivations under way, and the channels of those who wait. -/
structure Gate (ι : Type) where
  active : Int := 0
  waiters : List ι := []
  limit : ℕ
  pendingLimit : ℕ

/-- How the critical section of `acquire` ends. -/
inductive Admission | taken | queued | refused
  deriving DecidableEq

namespace Gate

variable {ι : Type} (g : Gate ι)

/-- Take a place, be turned away, or wait. -/
def acquire (wake : ι) : Admission × Gate ι :=
  if g.active < g.limit then (.taken, { g with active := g.active + 1 })
  else if g.waiters.length ≥ g.pendingLimit then (.refused, g)
  else (.queued, { g with waiters := g.waiters ++ [wake] })

/-- The slot goes to the first waiter, whose channel is still to be closed. -/
def release : Option ι × Gate ι :=
  match g.waiters with
  | wake :: waiters => (some wake, { g with waiters })
  | [] => (none, { g with active := g.active - 1 })

end Gate

/-! ## Callers -/

/-- What a derivation returns. -/
abbrev Derived := Except Failure Bytes

/-- Where a caller is in `gate.run`. -/
inductive Phase (ι : Type)
  | idle
  | waiting
  /-- `acquire` returned true. -/
  | admitted
  | running
  /-- The deferred `release` is due. -/
  | leaving (result : Derived)
  /-- The gate is unlocked again, and `close(wake)` is due. -/
  | handing (wake : ι) (result : Derived)
  | returned (result : Derived)

/-- The gate, the wake channels that are closed, and the callers. -/
structure GateRun (ι : Type) where
  gate : Gate ι
  closed : List ι := []
  phase : ι → Phase ι := fun _ => .idle

/-- The steps of those who derive. -/
inductive GateEvent (ι : Type)
  | acquire (p : ι)
  | wakes (p : ι)
  /-- `mayStart` answers; without one the answer is true. -/
  | mayStart (p : ι) (answer : Bool)
  /-- The task returns. -/
  | finishes (p : ι) (result : Derived)
  | release (p : ι)
  | closes (p : ι)

namespace GateRun

variable {ι : Type} (s : GateRun ι)

/-- The caller owns a slot: it was admitted and has not released yet, or its
    channel left the queue. -/
def Owns (p : ι) : Prop :=
  match s.phase p with
  | .admitted | .running | .leaving _ => True
  | .waiting => p ∉ s.gate.waiters
  | _ => False

/-- The caller runs or waits. -/
def Busy (p : ι) : Prop :=
  match s.phase p with
  | .waiting | .admitted | .running | .leaving _ => True
  | _ => False

variable [DecidableEq ι]

/-- Nobody derives. -/
def new (limit pendingLimit : ℕ) : GateRun ι := { gate := { limit, pendingLimit } }

/-- One of them is at another point of its run. -/
def goto (p : ι) (phase : Phase ι) : GateRun ι :=
  { s with phase := Function.update s.phase p phase }

/-- One event. `none` is an event that cannot happen now. -/
def step : GateEvent ι → Option (GateRun ι)
  | .acquire p => match s.phase p with
    | .idle =>
      let (admission, gate) := s.gate.acquire p
      match admission with
      | .taken => some ({ s with gate }.goto p .admitted)
      | .queued => some ({ s with gate }.goto p .waiting)
      | .refused => some ({ s with gate }.goto p (.returned (.error (.code .roomBusy))))
    | _ => none
  | .wakes p => match s.phase p with
    | .waiting => if p ∈ s.closed then some (s.goto p .admitted) else none
    | _ => none
  | .mayStart p answer => match s.phase p with
    | .admitted =>
      some (s.goto p (if answer then .running else .leaving (.error .derivationCancelled)))
    | _ => none
  | .finishes p result => match s.phase p with
    | .running => some (s.goto p (.leaving result))
    | _ => none
  | .release p => match s.phase p with
    | .leaving result =>
      let (wake, gate) := s.gate.release
      match wake with
      | some wake => some ({ s with gate }.goto p (.handing wake result))
      | none => some ({ s with gate }.goto p (.returned result))
    | _ => none
  | .closes p => match s.phase p with
    | .handing wake result => some ({ s with closed := wake :: s.closed }.goto p (.returned result))
    | _ => none

/-- The slots after an event: who takes one, or is handed one, has it once more. -/
def settle (slots : List ι) : GateEvent ι → List ι
  | .acquire p => if (s.gate.acquire p).1 = .taken then p :: slots else slots
  | .release p => (s.gate.release).1.toList ++ slots.erase p
  | _ => slots

/-- The callers that acquired, in order. -/
def arrivals : List (GateEvent ι) → List ι :=
  List.filterMap fun
    | .acquire p => some p
    | _ => none

/-- The runs of the gate, each with the slots it has handed out. -/
inductive Reaches (limit pendingLimit : ℕ) : List (GateEvent ι) → List ι → GateRun ι → Prop
  | start : Reaches limit pendingLimit [] [] (new limit pendingLimit)
  | step {es slots s s'} {e : GateEvent ι} : Reaches limit pendingLimit es slots s →
      s.step e = some s' → Reaches limit pendingLimit (es ++ [e]) (s.settle slots e) s'

/-! ## The invariant -/

/-- The gate as a semaphore with these slots handed out. -/
def semaphore (slots : List ι) : Semaphore ι :=
  ⟨s.gate.limit, s.gate.pendingLimit, slots, s.gate.waiters⟩

/-- What the semaphore sees of an event. -/
def act : GateEvent ι → Option (Semaphore.Act ι)
  | .acquire p => some (.enter p)
  | .release p => some (.leave p)
  | _ => none

/-- The caller's channel left the queue: it is closed, or about to be. -/
def Woken (p : ι) : Prop := p ∈ s.closed ∨ ∃ q r, s.phase q = .handing p r

/-- What a caller in this phase has: a slot, a place in the queue, a wake-up call. -/
def Fits (slot queued woken : Prop) : Phase ι → Prop
  | .idle => ¬ slot ∧ ¬ queued ∧ ¬ woken
  | .waiting => (slot ↔ ¬ queued) ∧ (slot ↔ woken)
  | .admitted | .running | .leaving _ => slot ∧ ¬ queued
  | .handing _ _ | .returned _ => ¬ slot ∧ ¬ queued

/-- The slots are counted, and every caller has what its phase asks for. -/
structure Tracks (slots : List ι) : Prop where
  active : s.gate.active = slots.length
  fits : ∀ p, Fits (p ∈ slots) (p ∈ s.gate.waiters) (s.Woken p) (s.phase p)

variable {s} {s' : GateRun ι} {slots : List ι} {p q : ι}

@[simp] theorem goto_gate (phase : Phase ι) : (s.goto p phase).gate = s.gate := rfl

@[simp] theorem goto_self (phase : Phase ι) : (s.goto p phase).phase p = phase := by
  simp [goto]

theorem goto_of_ne (phase : Phase ι) (h : q ≠ p) : (s.goto p phase).phase q = s.phase q := by
  simp [goto, h]

/-- A step of a caller that hands nothing over wakes nobody. -/
theorem woken_goto {phase : Phase ι} (hold : ∀ w r, s.phase p ≠ .handing w r)
    (hnew : ∀ w r, phase ≠ .handing w r) : (s.goto p phase).Woken q ↔ s.Woken q := by
  have hphase : ∀ q' r, (s.goto p phase).phase q' = .handing q r ↔ s.phase q' = .handing q r := by
    intro q' r
    by_cases hq : q' = p
    · rw [hq, goto_self]
      exact iff_of_false (hnew q r) (hold q r)
    · rw [goto_of_ne phase hq]
  constructor
  · rintro (hc | ⟨q', r, hq⟩)
    · exact .inl hc
    · exact .inr ⟨q', r, (hphase q' r).1 hq⟩
  · rintro (hc | ⟨q', r, hq⟩)
    · exact .inl hc
    · exact .inr ⟨q', r, (hphase q' r).2 hq⟩

omit [DecidableEq ι] in
theorem Tracks.owns_iff (h : s.Tracks slots) : p ∈ slots ↔ s.Owns p := by
  have hf := h.fits p
  unfold Owns
  cases hp : s.phase p <;> simp only [hp, Fits] at hf ⊢
  · exact iff_of_false hf.1 id
  · exact hf.1
  all_goals simp [hf.1]

/-- The phases of a caller that `acquire` returned true to. -/
inductive Works : Phase ι → Prop
  | admitted : Works .admitted
  | running : Works .running
  | leaving (r : Derived) : Works (.leaving r)

omit [DecidableEq ι] in
theorem Works.not_handing {phase : Phase ι} (h : Works phase) (w : ι) (r : Derived) :
    phase ≠ .handing w r := by
  rintro rfl
  cases h

omit [DecidableEq ι] in
theorem Works.fits {phase : Phase ι} (h : Works phase) {slot queued woken : Prop} (hslot : slot)
    (hqueue : ¬ queued) : Fits slot queued woken phase := by
  cases h <;> exact ⟨hslot, hqueue⟩

/-- A caller with a slot goes on working. -/
theorem Tracks.goto (h : s.Tracks slots) (hslot : p ∈ slots) {phase : Phase ι}
    (hold : ∀ w r, s.phase p ≠ .handing w r) (hnew : Works phase) :
    (s.goto p phase).Tracks slots := by
  have hqueue : p ∉ s.gate.waiters := by
    have := h.fits p
    cases hp : s.phase p <;> simp only [hp, Fits] at this
    · exact this.2.1
    · exact this.1.1 hslot
    all_goals exact this.2
  refine ⟨h.active, fun q => ?_⟩
  by_cases hq : q = p
  · subst hq
    rw [goto_self]
    exact hnew.fits hslot hqueue
  · rw [goto_of_ne phase hq, goto_gate]
    have := h.fits q
    rwa [← woken_goto hold hnew.not_handing] at this

/-- A caller that arrives: it takes a slot, or it queues, or it is refused. -/
theorem Tracks.acquire (h : s.Tracks slots) (hp : s.phase p = .idle) {gate : Gate ι}
    {slots' : List ι} {phase : Phase ι} (hactive : gate.active = slots'.length)
    (hslots : ∀ q, q ≠ p → (q ∈ slots' ↔ q ∈ slots))
    (hqueue : ∀ q, q ≠ p → (q ∈ gate.waiters ↔ q ∈ s.gate.waiters))
    (hnew : ∀ w r, phase ≠ .handing w r) (hself : Fits (p ∈ slots') (p ∈ gate.waiters) False phase) :
    ({ s with gate }.goto p phase).Tracks slots' := by
  have hidle := h.fits p
  rw [hp] at hidle
  have hold : ∀ w r, s.phase p ≠ .handing w r := by
    intro w r
    rw [hp]
    nofun
  have hwoken : ∀ q, ({ s with gate }.goto p phase).Woken q ↔ s.Woken q :=
    fun q => woken_goto (s := { s with gate }) hold hnew
  refine ⟨hactive, fun q => ?_⟩
  by_cases hq : q = p
  · subst hq
    rw [goto_self, hwoken]
    have : s.Woken q ↔ False := iff_false_intro hidle.2.2
    rwa [this]
  · rw [goto_of_ne phase hq, hslots q hq, hwoken]
    show Fits (q ∈ slots) (q ∈ gate.waiters) (s.Woken q) (s.phase q)
    rw [hqueue q hq]
    exact h.fits q

/-- The slot of a leaving caller is handed to the head of the queue. -/
theorem Tracks.handed (h : s.Tracks slots) (hd : (slots ++ s.gate.waiters).Nodup) {r : Derived}
    (hp : s.phase p = .leaving r) {w : ι} {rest : List ι} (hw : s.gate.waiters = w :: rest) :
    ({ s with gate := { s.gate with waiters := rest } }.goto p (.handing w r)).Tracks
      (w :: slots.erase p) := by
  obtain ⟨hslots, hqueue, hdis⟩ := List.nodup_append'.1 hd
  have hown := h.fits p
  have hwait := h.fits w
  rw [hp] at hown
  rw [hw] at hqueue hdis hwait
  have hwp : w ≠ p := by
    rintro rfl
    exact hdis hown.1 List.mem_cons_self
  have hwphase : s.phase w = .waiting := by
    cases hpw : s.phase w <;> simp [hpw, Fits] at hwait ⊢
  set s' := { s with gate := { s.gate with waiters := rest } }.goto p (.handing w r) with hs'
  have hpself : s'.phase p = .handing w r := goto_self _
  have hother : ∀ q, q ≠ p → s'.phase q = s.phase q := fun q hq => goto_of_ne _ hq
  constructor
  · have hpos := List.length_pos_of_mem hown.1
    have herase := List.length_erase_of_mem hown.1
    show s.gate.active = ((w :: slots.erase p).length : Int)
    rw [h.active, List.length_cons]
    omega
  · intro q
    show Fits _ (q ∈ rest) _ _
    by_cases hq : q = p
    · subst hq
      rw [hpself]
      refine ⟨?_, fun hm => hdis hown.1 (List.mem_cons_of_mem w hm)⟩
      simp [Ne.symm hwp, hslots.not_mem_erase]
    · rw [hother q hq]
      have hkept : q ∈ slots.erase p ↔ q ∈ slots := List.mem_erase_of_ne hq
      by_cases hqw : q = w
      · subst hqw
        rw [hwphase]
        have hout : q ∉ rest := (List.nodup_cons.1 hqueue).1
        have hwoken : s'.Woken q := .inr ⟨p, r, hpself⟩
        exact ⟨iff_of_true List.mem_cons_self hout, iff_of_true List.mem_cons_self hwoken⟩
      · have hwoken : s'.Woken q ↔ s.Woken q := by
          constructor
          · rintro (hc | ⟨q', r', hq'⟩)
            · exact .inl hc
            · by_cases hq'p : q' = p
              · rw [hq'p, hpself] at hq'
                cases hq'
                exact absurd rfl hqw
              · exact .inr ⟨q', r', (hother q' hq'p).symm.trans hq'⟩
          · rintro (hc | ⟨q', r', hq'⟩)
            · exact .inl hc
            · have hq'p : q' ≠ p := by
                rintro rfl
                rw [hp] at hq'
                cases hq'
              exact .inr ⟨q', r', (hother q' hq'p).trans hq'⟩
        have := h.fits q
        rw [hw] at this
        rw [hwoken, List.mem_cons, hkept]
        simpa [hqw] using this

/-- With an empty queue the slot is free again. -/
theorem Tracks.freed (h : s.Tracks slots) (hd : slots.Nodup) {r : Derived}
    (hp : s.phase p = .leaving r) :
    ({ s with gate := { s.gate with active := s.gate.active - 1 } }.goto p (.returned r)).Tracks
      (slots.erase p) := by
  have hown := h.fits p
  rw [hp] at hown
  have hold : ∀ w r', s.phase p ≠ .handing w r' := by
    intro w r'
    rw [hp]
    nofun
  refine ⟨?_, fun q => ?_⟩
  · have hpos := List.length_pos_of_mem hown.1
    have herase := List.length_erase_of_mem hown.1
    have hactive := h.active
    show s.gate.active - 1 = ((slots.erase p).length : Int)
    omega
  · by_cases hq : q = p
    · subst hq
      rw [goto_self]
      exact ⟨hd.not_mem_erase, hown.2⟩
    · rw [goto_of_ne _ hq, List.mem_erase_of_ne hq, woken_goto (by exact hold) nofun]
      exact h.fits q

/-- The wake channel is closed now. -/
theorem Tracks.closes (h : s.Tracks slots) {w : ι} {r : Derived} (hp : s.phase p = .handing w r) :
    ({ s with closed := w :: s.closed }.goto p (.returned r)).Tracks slots := by
  set s' := { s with closed := w :: s.closed }.goto p (.returned r) with hs'
  have hpself : s'.phase p = .returned r := goto_self _
  have hother : ∀ q, q ≠ p → s'.phase q = s.phase q := fun q hq => goto_of_ne _ hq
  have hwoken : ∀ q, s'.Woken q ↔ s.Woken q := by
    intro q
    constructor
    · rintro (hc | ⟨q', r', hq'⟩)
      · rcases List.mem_cons.1 hc with rfl | hc
        · exact .inr ⟨p, r, hp⟩
        · exact .inl hc
      · by_cases hq'p : q' = p
        · rw [hq'p, hpself] at hq'
          cases hq'
        · exact .inr ⟨q', r', (hother q' hq'p).symm.trans hq'⟩
    · rintro (hc | ⟨q', r', hq'⟩)
      · exact .inl (List.mem_cons_of_mem w hc)
      · by_cases hq'p : q' = p
        · rw [hq'p, hp] at hq'
          cases hq'
          exact .inl List.mem_cons_self
        · exact .inr ⟨q', r', (hother q' hq'p).trans hq'⟩
  refine ⟨h.active, fun q => ?_⟩
  rw [hwoken]
  by_cases hq : q = p
  · subst hq
    have := h.fits q
    rw [hp] at this
    rw [hpself]
    exact this
  · rw [hother q hq]
    exact h.fits q

/-! ## Steps and runs -/

/-- What the semaphore does when the gate takes a step. -/
structure Refines (s : GateRun ι) (slots : List ι) (e : GateEvent ι) (s' : GateRun ι) : Prop where
  tracks : s'.Tracks (s.settle slots e)
  visible : ∀ a, act e = some a → (s.semaphore slots).Allows a ∧
    s'.semaphore (s.settle slots e) = (s.semaphore slots).act a
  hidden : act e = none → s'.semaphore (s.settle slots e) = s.semaphore slots

theorem Tracks.quiet (h : s'.Tracks slots) {e : GateEvent ι} (hact : act e = none)
    (hgate : s'.gate = s.gate) (hslots : s.settle slots e = slots) : Refines s slots e s' := by
  refine ⟨by rwa [hslots], fun a ha => ?_, fun _ => ?_⟩
  · rw [hact] at ha
    cases ha
  · rw [hslots]
    simp [semaphore, hgate]

theorem Tracks.step_acquire (h : s.Tracks slots) (hstep : s.step (.acquire p) = some s') :
    Refines s slots (.acquire p) s' := by
  simp only [step] at hstep
  cases hp : s.phase p <;> simp only [hp] at hstep <;> try cases hstep
  have hvisible : act (.acquire p) ≠ none := Option.some_ne_none _
  have hidle := h.fits p
  rw [hp] at hidle
  have hallows : (s.semaphore slots).Allows (.enter p) := ⟨hidle.1, hidle.2.1⟩
  have hactive := h.active
  by_cases hfree : s.gate.active < s.gate.limit
  · have hacq : s.gate.acquire p = (.taken, { s.gate with active := s.gate.active + 1 }) := by
      simp [Gate.acquire, hfree]
    have hsettle : s.settle slots (.acquire p) = p :: slots := by simp [settle, hacq]
    rw [hacq] at hstep
    cases hstep
    refine ⟨?_, ?_, fun hact => absurd hact hvisible⟩
    · rw [hsettle]
      refine h.acquire hp ?_ (fun q hq => by simp [hq]) (fun q _ => Iff.rfl) (by simp)
        ⟨List.mem_cons_self, hidle.2.1⟩
      rw [List.length_cons]
      show s.gate.active + 1 = _
      omega
    · rintro a ⟨⟩
      refine ⟨hallows, ?_⟩
      have hlt : slots.length < s.gate.limit := by omega
      rw [hsettle]
      simp [Semaphore.act, Semaphore.enter, semaphore, hlt]
  · have hlt : ¬ slots.length < s.gate.limit := by omega
    by_cases hroom : s.gate.waiters.length ≥ s.gate.pendingLimit
    · have hacq : s.gate.acquire p = (.refused, s.gate) := by simp [Gate.acquire, hfree, hroom]
      have hsettle : s.settle slots (.acquire p) = slots := by simp [settle, hacq]
      rw [hacq] at hstep
      cases hstep
      refine ⟨?_, ?_, fun hact => absurd hact hvisible⟩
      · rw [hsettle]
        exact h.acquire hp hactive (fun q _ => Iff.rfl) (fun q _ => Iff.rfl) (by simp)
          ⟨hidle.1, hidle.2.1⟩
      · rintro a ⟨⟩
        refine ⟨hallows, ?_⟩
        have hfull : ¬ s.gate.waiters.length < s.gate.pendingLimit := by omega
        rw [hsettle]
        simp [Semaphore.act, Semaphore.enter, semaphore, hlt, hfull]
    · have hacq : s.gate.acquire p =
          (.queued, { s.gate with waiters := s.gate.waiters ++ [p] }) := by
        simp [Gate.acquire, hfree, hroom]
      have hsettle : s.settle slots (.acquire p) = slots := by simp [settle, hacq]
      rw [hacq] at hstep
      cases hstep
      refine ⟨?_, ?_, fun hact => absurd hact hvisible⟩
      · rw [hsettle]
        refine h.acquire hp hactive (fun q _ => Iff.rfl) (fun q hq => by simp [hq]) (by simp) ?_
        exact ⟨by simp [hidle.1], by simp [hidle.1]⟩
      · rintro a ⟨⟩
        refine ⟨hallows, ?_⟩
        have hfull : s.gate.waiters.length < s.gate.pendingLimit := by omega
        rw [hsettle]
        simp [Semaphore.act, Semaphore.enter, semaphore, hlt, hfull]

theorem Tracks.step_release (h : s.Tracks slots) (hd : (slots ++ s.gate.waiters).Nodup)
    (hstep : s.step (.release p) = some s') : Refines s slots (.release p) s' := by
  simp only [step] at hstep
  cases hp : s.phase p <;> simp only [hp] at hstep <;> try cases hstep
  have hown := h.fits p
  rw [hp] at hown
  cases hw : s.gate.waiters with
  | nil =>
    have hrel : s.gate.release = (none, { s.gate with active := s.gate.active - 1 }) := by
      simp [Gate.release, hw]
    have hsettle : s.settle slots (.release p) = slots.erase p := by simp [settle, hrel]
    rw [hrel] at hstep
    cases hstep
    refine ⟨?_, ?_, nofun⟩
    · rw [hsettle]
      exact h.freed (List.nodup_append'.1 hd).1 hp
    · rintro a ⟨⟩
      refine ⟨hown.1, ?_⟩
      rw [hsettle]
      simp [Semaphore.act, Semaphore.leave, semaphore, hw]
  | cons w rest =>
    have hrel : s.gate.release = (some w, { s.gate with waiters := rest }) := by
      simp [Gate.release, hw]
    have hsettle : s.settle slots (.release p) = w :: slots.erase p := by simp [settle, hrel]
    rw [hrel] at hstep
    cases hstep
    refine ⟨?_, ?_, nofun⟩
    · rw [hsettle]
      exact h.handed hd hp hw
    · rintro a ⟨⟩
      refine ⟨hown.1, ?_⟩
      rw [hsettle]
      simp [Semaphore.act, Semaphore.leave, semaphore, hw]

/-- **A step of the gate is a step of the semaphore, or none.** -/
theorem Tracks.step (h : s.Tracks slots) (hd : (slots ++ s.gate.waiters).Nodup) {e : GateEvent ι}
    (hstep : s.step e = some s') : Refines s slots e s' := by
  cases e with
  | acquire p => exact h.step_acquire hstep
  | release p => exact h.step_release hd hstep
  | wakes p =>
    simp only [GateRun.step] at hstep
    cases hp : s.phase p <;> simp only [hp] at hstep <;> try cases hstep
    have hwait := h.fits p
    rw [hp] at hwait
    split at hstep
    · next hc =>
      cases hstep
      exact (h.goto (hwait.2.2 (.inl hc)) (by simp [hp]) .admitted).quiet rfl rfl rfl
    · cases hstep
  | mayStart p answer =>
    simp only [GateRun.step] at hstep
    cases hp : s.phase p <;> simp only [hp] at hstep <;> try cases hstep
    have hown := h.fits p
    rw [hp] at hown
    refine (h.goto hown.1 (by simp [hp]) ?_).quiet rfl rfl rfl
    cases answer
    · exact .leaving _
    · exact .running
  | finishes p r =>
    simp only [GateRun.step] at hstep
    cases hp : s.phase p <;> simp only [hp] at hstep <;> try cases hstep
    have hown := h.fits p
    rw [hp] at hown
    exact (h.goto hown.1 (by simp [hp]) (.leaving r)).quiet rfl rfl rfl
  | closes p =>
    simp only [GateRun.step] at hstep
    cases hp : s.phase p <;> simp only [hp] at hstep <;> try cases hstep
    exact (h.closes hp).quiet rfl rfl rfl

omit [DecidableEq ι] in
theorem new_tracks (limit pendingLimit : ℕ) : (new limit pendingLimit : GateRun ι).Tracks [] := by
  refine ⟨rfl, fun p => ⟨List.not_mem_nil, List.not_mem_nil, ?_⟩⟩
  rintro (hc | ⟨q, r, hq⟩)
  · exact List.not_mem_nil hc
  · cases hq

omit [DecidableEq ι] in
theorem arrivals_eq (es : List (GateEvent ι)) :
    (es.filterMap act).filterMap Semaphore.Act.entering = arrivals es := by
  rw [List.filterMap_filterMap, arrivals]
  congr 1
  funext e
  cases e <;> rfl

variable {limit pendingLimit : ℕ} {es : List (GateEvent ι)}

/-- A run of the gate is a sequential run of the semaphore. -/
theorem Reaches.refines (h : Reaches limit pendingLimit es slots s) :
    s.Tracks slots ∧ (⟨limit, pendingLimit, [], []⟩ : Semaphore ι).Sequential (es.filterMap act) ∧
      (⟨limit, pendingLimit, [], []⟩ : Semaphore ι).run (es.filterMap act) = s.semaphore slots := by
  induction h with
  | start => exact ⟨new_tracks limit pendingLimit, .nil, rfl⟩
  | @step es slots s s' e _ hstep ih =>
    obtain ⟨ht, hseq, hrun⟩ := ih
    have hfair := hseq.fair (.start limit pendingLimit)
    rw [hrun] at hfair
    obtain ⟨ht', hvisible, hhidden⟩ := ht.step hfair.distinct hstep
    refine ⟨ht', ?_⟩
    rw [List.filterMap_append]
    cases ha : act e with
    | none =>
      have hnil : [e].filterMap act = [] := by simp [ha]
      rw [hnil, List.append_nil, hhidden ha]
      exact ⟨hseq, hrun⟩
    | some a =>
      have hone : [e].filterMap act = [a] := by simp [ha]
      obtain ⟨hallows, heq⟩ := hvisible a ha
      rw [hone, heq, Semaphore.run, List.foldl_append]
      rw [← hrun] at hallows ⊢
      exact ⟨.snoc hseq hallows, rfl⟩

theorem Reaches.fair (h : Reaches limit pendingLimit es slots s) :
    (s.semaphore slots).Fair (arrivals es) ∧ s.gate.limit = limit ∧
      s.gate.pendingLimit = pendingLimit := by
  obtain ⟨-, hseq, hrun⟩ := h.refines
  have hfair := hseq.fair (.start limit pendingLimit)
  rw [hrun, arrivals_eq] at hfair
  obtain ⟨hl, hp⟩ := Semaphore.limits_run (⟨limit, pendingLimit, [], []⟩ : Semaphore ι)
    (es.filterMap act)
  rw [hrun] at hl hp
  exact ⟨hfair, hl, hp⟩

/-! ## What the gate guarantees -/

/-- The caller is blocked, and no slot was handed to it. -/
def Waits (s : GateRun ι) (p : ι) : Prop := s.phase p = .waiting ∧ ¬ s.Owns p

/-- What holds between any two steps. -/
structure Guarded (limit pendingLimit : ℕ) (es : List (GateEvent ι)) (slots : List ι)
    (s : GateRun ι) : Prop where
  /-- `active` counts the owners, and nobody owns two slots. -/
  distinct : slots.Nodup
  owners : ∀ p, p ∈ slots ↔ s.Owns p
  active : s.gate.active = slots.length
  running : ∀ tasks : Finset ι, (∀ p ∈ tasks, s.phase p = .running) → tasks.card ≤ limit
  pending : ∀ waiting : Finset ι, (∀ p ∈ waiting, s.Waits p) → waiting.card ≤ pendingLimit
  full : ∀ p, s.Waits p → s.gate.active = limit
  /-- The queue lists the waiting callers as they arrived. -/
  queue : ∀ p, p ∈ s.gate.waiters ↔ s.Waits p
  inOrder : s.gate.waiters.Nodup ∧ s.gate.waiters.Sublist (arrivals es)
  /-- A released slot goes to the head of the queue and to nobody else. -/
  handover : ∀ p s' w rest, s.step (.release p) = some s' → s.gate.waiters = w :: rest →
    s'.Owns w ∧ s'.gate.waiters = rest ∧ ∀ q, s'.Owns q → q = w ∨ s.Owns q
  /-- Nobody overtakes a waiting caller. -/
  noBarging : ∀ p q s', s.Waits p → s.step (.acquire q) = some s' → ¬ s'.Owns q
  idle : (∀ p, ¬ s.Busy p) → s.gate.active = 0

theorem Tracks.queued_iff (h : s.Tracks slots) : p ∈ s.gate.waiters ↔ s.Waits p := by
  have hf := h.fits p
  unfold Waits
  rw [← h.owns_iff]
  cases hp : s.phase p <;> simp only [hp, Fits] at hf <;> simp [hf]

omit [DecidableEq ι] in
theorem Owns.busy (h : s.Owns p) : s.Busy p := by
  unfold Owns at h
  unfold Busy
  cases hp : s.phase p <;> simp_all

theorem card_le_of_subset {tasks : Finset ι} {l : List ι} (h : ∀ p ∈ tasks, p ∈ l) :
    tasks.card ≤ l.length := by
  refine (Finset.card_le_card (t := l.toFinset) fun p hp => ?_).trans l.toFinset_card_le
  exact List.mem_toFinset.2 (h p hp)

/-- **The gate bounds the running tasks and the waiting callers, never loses or
    doubles a slot, and serves the callers in the order of arrival.** -/
theorem password_gate (h : Reaches limit pendingLimit es slots s) :
    Guarded limit pendingLimit es slots s := by
  obtain ⟨ht, -, -⟩ := h.refines
  obtain ⟨hfair, hl, hp⟩ := h.fair
  have hqueue := hfair.pending
  have hbound := hfair.bounded
  simp only [semaphore, hl, hp] at hqueue hbound
  have hfull : ∀ p, s.Waits p → s.gate.active = limit := by
    intro p hw
    have := hfair.full (List.ne_nil_of_mem (ht.queued_iff.2 hw))
    simp only [semaphore, hl] at this
    rw [ht.active, this]
  constructor
  · exact (List.nodup_append'.1 hfair.distinct).1
  · exact fun p => ht.owns_iff
  · exact ht.active
  · intro tasks htasks
    refine (card_le_of_subset fun p hp => ?_).trans hbound
    have := ht.fits p
    rw [htasks p hp] at this
    exact this.1
  · intro waiting hwaiting
    exact (card_le_of_subset fun p hp => ht.queued_iff.2 (hwaiting p hp)).trans hqueue
  · exact hfull
  · exact fun p => ht.queued_iff
  · exact ⟨(List.nodup_append'.1 hfair.distinct).2.1, hfair.inOrder⟩
  · intro p s' w rest hstep hw
    obtain ⟨ht', hvisible, -⟩ := ht.step hfair.distinct hstep
    obtain ⟨-, heq⟩ := hvisible _ rfl
    obtain ⟨howners, hrest⟩ := Semaphore.owners_leave (s := s.semaphore slots) hw p
    have hslots : s.settle slots (.release p) = w :: slots.erase p :=
      (congrArg Semaphore.owners heq).trans howners
    rw [hslots] at ht'
    refine ⟨ht'.owns_iff.1 List.mem_cons_self, (congrArg Semaphore.queue heq).trans hrest, ?_⟩
    intro q hq
    rcases List.mem_cons.1 (ht'.owns_iff.2 hq) with rfl | hq
    · exact .inl rfl
    · exact .inr (ht.owns_iff.1 (List.mem_of_mem_erase hq))
  · intro p q s' hw hstep
    obtain ⟨ht', hvisible, -⟩ := ht.step hfair.distinct hstep
    obtain ⟨hallows, -⟩ := hvisible _ rfl
    have hactive := hfull p hw
    have hsettle : s.settle slots (.acquire q) = slots := by
      have hfree : ¬ s.gate.active < s.gate.limit := by omega
      simp only [settle, Gate.acquire, if_neg hfree]
      split_ifs <;> simp_all
    rw [hsettle] at ht'
    intro hq
    exact hallows.1 (ht'.owns_iff.2 hq)
  · intro hnone
    have hnil : slots = [] := by
      refine List.eq_nil_iff_forall_not_mem.2 fun p hp => ?_
      exact hnone p (ht.owns_iff.1 hp).busy
    rw [ht.active, hnil]
    rfl

/-- A cancelled derivation hands its slot on. -/
theorem password_gate_cancelled : ∃ slots s,
    Reaches 1 1 [.acquire 0, .acquire 1, .acquire 2, .mayStart 0 false, .release 0, .closes 0,
      .wakes 1, .mayStart 1 true] slots s ∧
    Guarded 1 1 [.acquire 0, .acquire 1, .acquire 2, .mayStart 0 false, .release 0, .closes 0,
      .wakes 1, .mayStart 1 true] slots s ∧ slots = [1] ∧ s.gate.active = 1 := by
  have h : Reaches 1 1 [] [] (new 1 1 : GateRun ℕ) := .start
  have h := h.step (e := .acquire 0) rfl
  have h := h.step (e := .acquire 1) rfl
  have h := h.step (e := .acquire 2) rfl
  have h := h.step (e := .mayStart 0 false) rfl
  have h := h.step (e := .release 0) rfl
  have h := h.step (e := .closes 0) rfl
  have h := h.step (e := .wakes 1) rfl
  have h := h.step (e := .mayStart 1 true) rfl
  exact ⟨_, _, h, password_gate h, rfl, rfl⟩

end GateRun

end Piik.Room
