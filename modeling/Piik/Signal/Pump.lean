/-
  The pump of the rooms' media routes (`server/signal/router_pump.go`), with the
  share stops and controller changes of `router.go` and `voice.go` that may come
  between its parts.

  All of it runs under the router's mutex.  A segment may call back into the
  router, so the running segments are a stack, and every call may come inside
  one; only a continuation has to wait for the mutex.
-/
import Piik.Lib.Steps

namespace Piik.Signal.Pump

/-! ## Rooms -/

/-- `roomRuntime`, as far as the pump reads it.  Controllers are known by a number. -/
structure RoomRuntime where
  /-- The room that it was made for. -/
  roomID : String
  controller : Option ℕ := none
  roomMedia : Bool := false
  pumping : Bool := false
  requested : Bool := false
  deriving DecidableEq

/-- What the segments and the handlers work on. -/
structure Media (κ : Type) where
  resourceWaiters : String → Bool := fun _ => false
  /-- `deadlineGeneration` of a runtime. -/
  deadlines : ℕ → ℕ := fun _ => 0
  controllers : ℕ → κ

/-- A running segment: `rm`, `controller` are the caller's own, and the prefix of `requestPump` is
    synchronous. -/
structure Segment where
  roomID : String
  rm : ℕ
  controller : ℕ
  synchronous : Bool
  deriving DecidableEq

/-- A `drivePump` that waits for the mutex.  What is pending is a denial or a reservation. -/
structure Continuation (ρ : Type) where
  roomID : String
  rm : ℕ
  controller : ℕ
  pending : Option (Option ρ) := none
  failed : Bool := false
  deriving DecidableEq

/-- What the router did, for the record. -/
inductive Obs (ρ : Type)
  /-- A request is made for a controller. -/
  | requested (controller : ℕ)
  /-- A pass of `pumpRoom` begins. -/
  | began (controller : ℕ)
  | admitted (reservation : ρ)
  /-- The continuation goes on with its candidate. -/
  | resumed (reservation : ρ)
  | released (reservation : ρ)
  deriving DecidableEq

/-- The rooms, their pumps, and the continuations that were put off, with a record. -/
structure Router (κ ρ : Type) where
  rooms : String → Option ℕ := fun _ => none
  runtimes : ℕ → RoomRuntime := fun _ => { roomID := "" }
  nextRuntime : ℕ := 0
  nextController : ℕ := 0
  closing : Bool := false
  media : Media κ
  segments : List Segment := []
  continuations : List (Continuation ρ) := []
  log : List (Obs ρ) := []

/-- How a segment of a pump ends. -/
inductive Outcome (ρ : Type)
  | returns (pending : Option (Option ρ))
  | panics

namespace Router

variable {κ ρ : Type} (s : Router κ ρ) (roomID : String)

/-- Put something on the record. -/
def note (o : Obs ρ) : Router κ ρ := { s with log := s.log ++ [o] }

/-- The router with another state of a room. -/
def update (rm : ℕ) (f : RoomRuntime → RoomRuntime) : Router κ ρ :=
  { s with runtimes := Function.update s.runtimes rm (f (s.runtimes rm)) }

/-! ## The pump -/

/-- The prefix begins in the same step; what it does comes in the steps after it. -/
def requestPump : Router κ ρ :=
  match s.rooms roomID with
  | none => s
  | some rm => match (s.runtimes rm).controller with
    | none => s
    | some controller =>
      if s.closing then s
      else if (s.runtimes rm).pumping then
        (s.update rm ({ · with requested := true })).note (.requested controller)
      else
        { ((s.update rm ({ · with pumping := true, requested := false })).note
            (.requested controller)).note (.began controller) with
          segments := ⟨roomID, rm, controller, true⟩ :: s.segments }

/-- The end of `drivePump`. -/
def finish (rm : ℕ) : Router κ ρ :=
  let s := s.update rm ({ · with pumping := false })
  if (s.runtimes rm).requested && !s.closing then s.requestPump roomID else s

/-- The loop of `drivePump`, up to the next segment. -/
def drain (rm controller : ℕ) : Router κ ρ :=
  if (s.runtimes rm).requested && !s.closing then
    let s := s.update rm ({ · with requested := false })
    match (s.runtimes rm).controller with
    | none => s.finish roomID rm
    | some current =>
      { s.note (.began current) with segments := ⟨roomID, rm, controller, false⟩ :: s.segments }
  else s.finish roomID rm

/-- The share of the continuation has been retired. -/
def outlived (k : Continuation ρ) : Bool :=
  s.rooms k.roomID ≠ some k.rm || (s.runtimes k.rm).controller ≠ some k.controller

/-- Go on with a pump that was put off, if its room still runs. -/
def drivePump (k : Continuation ρ) : Router κ ρ :=
  if s.outlived k then
    let s := s.update k.rm ({ · with pumping := false })
    let s := match k.pending with
      | some (some reservation) => s.note (.released reservation)
      | _ => s
    if s.rooms k.roomID = some k.rm && (s.runtimes k.rm).controller.isSome &&
        (s.runtimes k.rm).requested && !s.closing then s.requestPump k.roomID
    else s
  else if k.failed then s.finish k.roomID k.rm
  else match k.pending with
    | some pending =>
      { (match pending with
          | some reservation => s.note (.resumed reservation)
          | none => s) with
        segments := ⟨k.roomID, k.rm, k.controller, false⟩ :: s.segments }
    | none => s.drain k.roomID k.rm k.controller

/-- The segment on top, which is taken off, comes to its end. -/
def ends (segment : Segment) : Outcome ρ → Router κ ρ
  | .returns pending =>
    if segment.synchronous then
      { (match pending with
          | some (some reservation) => s.note (.admitted reservation)
          | _ => s) with
        continuations := s.continuations ++
          [⟨segment.roomID, segment.rm, segment.controller, pending, false⟩] }
    else s.drain segment.roomID segment.rm segment.controller
  | .panics =>
    if segment.synchronous then
      { s with continuations := s.continuations ++
          [⟨segment.roomID, segment.rm, segment.controller, none, true⟩] }
    else s.finish segment.roomID segment.rm

/-! ## Shares and controllers -/

/-- A timer that was set does not count any more. -/
def clearDeadline (rm : ℕ) : Router κ ρ :=
  { s with media.deadlines := Function.update s.media.deadlines rm (s.media.deadlines rm + 1) }

/-- The room is gone; what its pump holds is not for it any more. -/
def clearRoom : Router κ ρ :=
  match s.rooms roomID with
  | none => s
  | some rm =>
    let s := (s.clearDeadline rm).update rm ({ · with controller := none, requested := false })
    { s with
      rooms := Function.update s.rooms roomID none
      media.resourceWaiters := Function.update s.media.resourceWaiters roomID false }

/-- `room`: the runtime is made where there is none. -/
def room : ℕ × Router κ ρ :=
  match s.rooms roomID with
  | some rm => (rm, s)
  | none =>
    (s.nextRuntime,
      { s with
        rooms := Function.update s.rooms roomID (some s.nextRuntime)
        runtimes := Function.update s.runtimes s.nextRuntime { roomID }
        nextRuntime := s.nextRuntime + 1 })

/-- `syncVoiceDemand` without listeners and without an active share. -/
def dropController : Router κ ρ :=
  match s.rooms roomID with
  | none => s
  | some rm =>
    if (s.runtimes rm).roomMedia && (s.runtimes rm).controller.isSome then
      (s.clearDeadline rm).update rm ({ · with controller := none })
    else s

/-- In a room with media of its own, only the picture ends, and with it the controller when nobody
    listens. -/
def stopRoom (listeners : Bool) : Router κ ρ :=
  match s.rooms roomID with
  | none => s
  | some rm =>
    if (s.runtimes rm).roomMedia && (s.runtimes rm).controller.isSome then
      if listeners then (s.requestPump roomID).requestPump roomID else s.dropController roomID
    else ((s.clearRoom roomID).room roomID).2

/-- The room has its media from now on. -/
def setRoomMedia : Router κ ρ :=
  let (rm, s) := s.room roomID
  s.update rm ({ · with roomMedia := true })

/-- `connectParticipant` of a host: the controller is made where there is none. -/
def connectHost (controller : κ) : Router κ ρ :=
  let (rm, s) := s.room roomID
  if (s.runtimes rm).controller.isSome then s
  else { s.update rm ({ · with controller := some s.nextController }) with
         nextController := s.nextController + 1
         media.controllers := Function.update s.media.controllers s.nextController controller }

/-- Every room is cleared. -/
def close : Router κ ρ :=
  { s with
    closing := true
    rooms := fun _ => none
    runtimes := fun rm =>
      if s.rooms (s.runtimes rm).roomID = some rm then
        { s.runtimes rm with controller := none, requested := false }
      else s.runtimes rm
    media.resourceWaiters := fun _ => false
    media.deadlines := fun rm =>
      if s.rooms (s.runtimes rm).roomID = some rm then s.media.deadlines rm + 1
      else s.media.deadlines rm }

/-! ## Steps -/

/-- The calls, the ends of segments, and the continuations. -/
inductive Event (κ ρ : Type)
  | requestPump (roomID : String)
  | ends (outcome : Outcome ρ)
  /-- A continuation gets the mutex. -/
  | drivePump (index : ℕ)
  | stopRoom (roomID : String) (listeners : Bool)
  | deleteRoom (roomID : String)
  | dropController (roomID : String)
  | setRoomMedia (roomID : String)
  | connectHost (roomID : String) (controller : κ)
  | close
  /-- A segment or a handler does its work. -/
  | works (media : Media κ)

/-- One event. `none` is an event that cannot happen now. -/
def step : Event κ ρ → Option (Router κ ρ)
  | .requestPump roomID => some (s.requestPump roomID)
  | .ends outcome => match s.segments with
    | [] => none
    | segment :: segments => some ({ s with segments }.ends segment outcome)
  | .drivePump index =>
    if s.segments ≠ [] then none
    else match s.continuations[index]? with
      | none => none
      | some k => some ({ s with continuations := s.continuations.eraseIdx index }.drivePump k)
  | .stopRoom roomID listeners => some (s.stopRoom roomID listeners)
  | .deleteRoom roomID => some (s.clearRoom roomID)
  | .dropController roomID => some (s.dropController roomID)
  | .setRoomMedia roomID => some (s.setRoomMedia roomID)
  | .connectHost roomID controller => some (s.connectHost roomID controller)
  | .close => some s.close
  | .works media => some { s with media }

/-! ## What a state says -/

/-- The segments and continuations of a runtime. -/
def chains (rm : ℕ) : ℕ :=
  (s.segments.map (·.rm)).count rm + (s.continuations.map (·.rm)).count rm

/-- The runtime is the current one of its room. -/
def Live (rm : ℕ) : Prop := s.rooms (s.runtimes rm).roomID = some rm

end Router

/-- No pass has begun since the last request for the controller. -/
def Unserved {ρ : Type} (log : List (Obs ρ)) (controller : ℕ) : Prop :=
  ∃ earlier later, log = earlier ++ .requested controller :: later ∧ .began controller ∉ later

section Log

variable {ρ : Type} {log : List (Obs ρ)} {o : Obs ρ} {c : ℕ}

theorem Unserved.requested (h : Unserved log c) : .requested c ∈ log := by
  obtain ⟨earlier, later, rfl, -⟩ := h
  simp

theorem unserved_snoc (h : Unserved (log ++ [o]) c) (ho : o ≠ .requested c) : Unserved log c := by
  obtain ⟨earlier, later, hlog, hlater⟩ := h
  rcases List.eq_nil_or_concat later with rfl | ⟨later, last, rfl⟩
  · exact absurd (List.singleton_inj.1 (List.append_inj' hlog rfl).2) ho
  · have hcut : log ++ [o] = (earlier ++ .requested c :: later) ++ [last] := by simpa using hlog
    refine ⟨earlier, later, (List.append_inj' hcut rfl).1, fun hmem => hlater ?_⟩
    simp [hmem]

theorem not_unserved_began : ¬Unserved (log ++ [.began c]) c := by
  rintro ⟨earlier, later, hlog, hlater⟩
  rcases List.eq_nil_or_concat later with rfl | ⟨later, last, rfl⟩
  · have := List.singleton_inj.1 (List.append_inj' hlog rfl).2
    simp at this
  · have hcut : log ++ [.began c] = (earlier ++ .requested c :: later) ++ [last] := by simpa using hlog
    obtain rfl := List.singleton_inj.1 (List.append_inj' hcut rfl).2
    simp at hlater

end Log

namespace Router

variable {κ ρ : Type} {s s' : Router κ ρ} {roomID : String} {busy : Option ℕ} {rm : ℕ}

/-! ## The invariant -/

/-- Rooms, controllers and chains, while the chain of the runtime `busy` moves on. -/
structure Sound (busy : Option ℕ) (s : Router κ ρ) : Prop where
  home : ∀ roomID rm, s.rooms roomID = some rm → (s.runtimes rm).roomID = roomID ∧ rm < s.nextRuntime
  unmade : ∀ rm, s.nextRuntime ≤ rm →
    (s.runtimes rm).pumping = false ∧ (s.runtimes rm).controller = none
  made : ∀ rm c, (s.runtimes rm).controller = some c → c < s.nextController
  distinct : ∀ rm rm' c, (s.runtimes rm).controller = some c → (s.runtimes rm').controller = some c →
    rm = rm'
  logged : ∀ c, .requested c ∈ s.log → c < s.nextController
  chains : ∀ rm, s.chains rm + (if busy = some rm then 1 else 0) =
    if (s.runtimes rm).pumping then 1 else 0
  segments : ∀ d ∈ s.segments, (s.runtimes d.rm).roomID = d.roomID
  continuations : ∀ k ∈ s.continuations, (s.runtimes k.rm).roomID = k.roomID

/-- Nothing is forgotten for the runtime: what a request still waits for is marked, and a mark
    without a pump is older than the controller. -/
def Served (s : Router κ ρ) (rm : ℕ) : Prop :=
  ∀ c, s.Live rm → s.closing = false → (s.runtimes rm).controller = some c →
    (Unserved s.log c → (s.runtimes rm).pumping ∧ (s.runtimes rm).requested) ∧
    ((s.runtimes rm).pumping = false → (s.runtimes rm).requested → .requested c ∉ s.log)

/-- What holds of every state that a run reaches. -/
structure Inv (s : Router κ ρ) : Prop where
  sound : Sound none s
  served : ∀ rm, s.Served rm

@[simp] theorem note_runtimes {o : Obs ρ} : (s.note o).runtimes = s.runtimes := rfl
@[simp] theorem note_rooms {o : Obs ρ} : (s.note o).rooms = s.rooms := rfl
@[simp] theorem note_closing {o : Obs ρ} : (s.note o).closing = s.closing := rfl
@[simp] theorem note_log {o : Obs ρ} : (s.note o).log = s.log ++ [o] := rfl
@[simp] theorem note_continuations {o : Obs ρ} : (s.note o).continuations = s.continuations := rfl
@[simp] theorem update_continuations {f : RoomRuntime → RoomRuntime} :
    (s.update rm f).continuations = s.continuations := rfl
@[simp] theorem update_rooms {f : RoomRuntime → RoomRuntime} : (s.update rm f).rooms = s.rooms := rfl
@[simp] theorem update_closing {f : RoomRuntime → RoomRuntime} :
    (s.update rm f).closing = s.closing := rfl
@[simp] theorem update_log {f : RoomRuntime → RoomRuntime} : (s.update rm f).log = s.log := rfl
@[simp] theorem update_self {f : RoomRuntime → RoomRuntime} :
    (s.update rm f).runtimes rm = f (s.runtimes rm) := Function.update_self ..

theorem update_of_ne {f : RoomRuntime → RoomRuntime} {rm' : ℕ} (h : rm' ≠ rm) :
    (s.update rm f).runtimes rm' = s.runtimes rm' := Function.update_of_ne h ..

/-- A runtime stays served where its own part of the state stays as it is. -/
theorem Served.mono (h : s.Served rm) (hrm : s'.runtimes rm = s.runtimes rm)
    (hlive : s'.Live rm → s.Live rm) (hclosing : s'.closing = s.closing)
    (hun : ∀ c, (s.runtimes rm).controller = some c → Unserved s'.log c → Unserved s.log c)
    (hreq : ∀ c, (s.runtimes rm).controller = some c → .requested c ∈ s'.log → .requested c ∈ s.log) :
    s'.Served rm := by
  intro c hl hc hctl
  rw [hclosing] at hc
  rw [hrm] at hctl ⊢
  obtain ⟨h₁, h₂⟩ := h c (hlive hl) hc hctl
  exact ⟨fun hu => h₁ (hun c hctl hu), fun hp hr hmem => h₂ hp hr (hreq c hctl hmem)⟩

theorem Served.congr (h : s.Served rm) (hrm : s'.runtimes rm = s.runtimes rm)
    (hrooms : s'.rooms = s.rooms) (hclosing : s'.closing = s.closing)
    (hun : ∀ c, (s.runtimes rm).controller = some c → Unserved s'.log c → Unserved s.log c)
    (hreq : ∀ c, (s.runtimes rm).controller = some c → .requested c ∈ s'.log → .requested c ∈ s.log) :
    s'.Served rm :=
  h.mono hrm (by simp [Live, hrm, hrooms]) hclosing hun hreq

/-- Where rooms, runtimes and requests stay, so does what is served. -/
theorem Served.same (h : s.Served rm) (hrm : s'.runtimes rm = s.runtimes rm)
    (hlive : s'.Live rm → s.Live rm) (hclosing : s'.closing = s.closing) (hlog : s'.log = s.log) :
    s'.Served rm := by
  refine h.mono hrm hlive hclosing ?_ ?_
  · rw [hlog]
    exact fun _ _ hu => hu
  · rw [hlog]
    exact fun _ _ hmem => hmem

theorem served_of_controller_none (h : (s.runtimes rm).controller = none) : s.Served rm := by
  intro c _ _ hc
  simp [h] at hc

/-- The runtime changes what is no matter of rooms and controllers. -/
theorem Sound.update {f : RoomRuntime → RoomRuntime} {busy' : Option ℕ} (h : Sound busy s)
    (hroom : (f (s.runtimes rm)).roomID = (s.runtimes rm).roomID)
    (hctl : ∀ c, (f (s.runtimes rm)).controller = some c → (s.runtimes rm).controller = some c)
    (hpump : s.nextRuntime ≤ rm → (f (s.runtimes rm)).pumping = false)
    (hchains : ∀ rm', s.chains rm' + (if busy' = some rm' then 1 else 0) =
      if ((s.update rm f).runtimes rm').pumping then 1 else 0) : Sound busy' (s.update rm f) := by
  have hroom' : ∀ rm', ((s.update rm f).runtimes rm').roomID = (s.runtimes rm').roomID := by
    intro rm'
    by_cases hrm : rm' = rm
    · subst hrm
      rw [update_self, hroom]
    · rw [update_of_ne hrm]
  have hctl' : ∀ rm' c, ((s.update rm f).runtimes rm').controller = some c →
      (s.runtimes rm').controller = some c := by
    intro rm' c hc
    by_cases hrm : rm' = rm
    · subst hrm
      exact hctl c (by simpa using hc)
    · simpa [update_of_ne hrm] using hc
  refine ⟨?_, ?_, ?_, ?_, h.logged, hchains, ?_, ?_⟩
  · intro roomID rm' hr
    rw [hroom']
    exact h.home roomID rm' hr
  · intro rm' hle
    refine ⟨?_, Option.eq_none_iff_forall_ne_some.2 fun c hc => ?_⟩
    · by_cases hrm : rm' = rm
      · subst hrm
        rw [update_self, hpump hle]
      · rw [update_of_ne hrm, (h.unmade rm' hle).1]
    · have := hctl' rm' c hc
      simp [(h.unmade rm' hle).2] at this
  · intro rm' c hc
    exact h.made rm' c (hctl' rm' c hc)
  · intro rm₁ rm₂ c h₁ h₂
    exact h.distinct rm₁ rm₂ c (hctl' rm₁ c h₁) (hctl' rm₂ c h₂)
  · intro d hd
    rw [hroom']
    exact h.segments d hd
  · intro k hk
    rw [hroom']
    exact h.continuations k hk

theorem Sound.note {o : Obs ρ} (h : Sound busy s) (ho : ∀ c, o = .requested c → c < s.nextController) :
    Sound busy (s.note o) := by
  refine ⟨h.home, h.unmade, h.made, h.distinct, fun c hc => ?_, h.chains, h.segments, h.continuations⟩
  rcases List.mem_append.1 hc with hc | hc
  · exact h.logged c hc
  · exact ho c (List.mem_singleton.1 hc).symm

/-- The runtime that moves on has its chain in a segment again. -/
theorem Sound.segment {c : ℕ} {synchronous : Bool} (h : Sound (some rm) s)
    (hroom : (s.runtimes rm).roomID = roomID) :
    Sound none { s with segments := ⟨roomID, rm, c, synchronous⟩ :: s.segments } := by
  refine ⟨h.home, h.unmade, h.made, h.distinct, h.logged, fun rm' => ?_, ?_, h.continuations⟩
  · rw [← h.chains rm']
    simp only [Router.chains, List.map_cons, List.count_cons, beq_iff_eq, reduceCtorEq, if_false,
      Option.some.injEq]
    omega
  · simp only [List.forall_mem_cons]
    exact ⟨hroom, h.segments⟩

/-! ## Requests -/

theorem requestPump_sound (h : Sound none s) : Sound none (s.requestPump roomID) := by
  rw [requestPump]
  cases hr : s.rooms roomID with
  | none => exact h
  | some rm =>
    cases hctl : (s.runtimes rm).controller with
    | none => simpa only [hctl] using h
    | some c =>
      simp only [hctl]
      obtain ⟨hroom, hmade⟩ := h.home roomID rm hr
      have hc := h.made rm c hctl
      have hnote : ∀ c', Obs.requested c = (Obs.requested c' : Obs ρ) → c' < s.nextController := by
        intro c' hc'
        obtain rfl := Obs.requested.inj hc'
        exact hc
      split_ifs with hclosing hpump
      · exact h
      · refine Sound.note (h.update rfl (fun _ hc => hc) (fun hle => absurd hmade (by omega)) ?_) hnote
        intro rm'
        rw [h.chains rm']
        by_cases hrm : rm' = rm
        · subst hrm
          rw [update_self]
        · rw [update_of_ne hrm]
      · -- The prefix is the one chain of its runtime.
        have hstart : Sound (some rm) (s.update rm ({ · with pumping := true, requested := false })) := by
          refine h.update rfl (fun _ hc => hc) (fun hle => absurd hmade (by omega)) fun rm' => ?_
          have hchains := h.chains rm'
          by_cases hrm : rm' = rm
          · subst hrm
            simp only [hpump, Bool.false_eq_true, if_false, reduceCtorEq] at hchains
            simp only [update_self, if_true]
            omega
          · rw [update_of_ne hrm, ← hchains]
            simp [Ne.symm hrm]
        exact Sound.segment ((hstart.note hnote).note (by simp)) (by simpa using hroom)

/-- Whatever was marked before, a request leaves its own runtime served. -/
theorem requestPump_serves (hr : s.rooms roomID = some rm) : (s.requestPump roomID).Served rm := by
  rw [requestPump, hr]
  cases hctl : (s.runtimes rm).controller with
  | none => simpa only [hctl] using served_of_controller_none hctl
  | some c =>
    simp only [hctl]
    split_ifs with hclosing hpump
    · intro c' _ hc _
      simp [hclosing] at hc
    · -- The request is marked for the pump that runs.
      intro c' _ _ _
      simp only [note_runtimes, update_self]
      exact ⟨fun _ => ⟨hpump, trivial⟩, fun hp => by simp [hpump] at hp⟩
    · intro c' _ _ hc'
      simp only [note_runtimes, update_self, hctl, Option.some.injEq] at hc' ⊢
      subst hc'
      exact ⟨fun hu => absurd hu not_unserved_began, fun hp => by simp at hp⟩

theorem requestPump_served (h : Sound none s) (hs : s.Served rm) : (s.requestPump roomID).Served rm := by
  by_cases hown : s.rooms roomID = some rm
  · exact requestPump_serves hown
  rw [requestPump]
  cases hr : s.rooms roomID with
  | none => exact hs
  | some rm' =>
    have hrm : rm ≠ rm' := by
      rintro rfl
      exact hown hr
    cases hctl : (s.runtimes rm').controller with
    | none => simpa only [hctl] using hs
    | some c =>
      simp only [hctl]
      have hne : ∀ c', (s.runtimes rm).controller = some c' → c' ≠ c := by
        rintro c' hc' rfl
        exact hrm (h.distinct rm rm' c' hc' hctl)
      split_ifs with hclosing hpump
      · exact hs
      · refine hs.congr (by simp only [note_runtimes, update_of_ne hrm]) rfl rfl
          (fun c' hc' hu => ?_) fun c' hc' hmem => ?_
        · exact unserved_snoc hu (by simpa using (hne c' hc').symm)
        · simpa [hne c' hc'] using hmem
      · refine hs.congr (by simp only [note_runtimes, update_of_ne hrm]) rfl rfl
          (fun c' hc' hu => ?_) fun c' hc' hmem => ?_
        · exact unserved_snoc (unserved_snoc hu (by simp)) (by simpa using (hne c' hc').symm)
        · simpa [hne c' hc'] using hmem

/-! ## The driver -/

theorem update_idle_sound (h : Sound (some rm) s) : Sound none (s.update rm ({ · with pumping := false })) := by
  refine h.update rfl (fun _ hc => hc) (fun _ => rfl) fun rm' => ?_
  have hchains := h.chains rm'
  by_cases hrm : rm' = rm
  · subst hrm
    simp only [if_true] at hchains
    simp only [update_self, Bool.false_eq_true, if_false, reduceCtorEq]
    split at hchains <;> omega
  · rw [update_of_ne hrm, ← hchains]
    simp [Ne.symm hrm]

theorem update_served {f : RoomRuntime → RoomRuntime} {rm' : ℕ} (hrm : rm' ≠ rm) (hs : s.Served rm') :
    (s.update rm f).Served rm' :=
  hs.same (update_of_ne hrm) (by simp [Live, update_of_ne hrm]) rfl rfl

/-- A pump that ends with nothing marked leaves nothing behind. -/
theorem update_idle_serves (hs : s.Served rm)
    (hidle : s.closing = true ∨ (s.runtimes rm).requested = false) :
    (s.update rm ({ · with pumping := false })).Served rm := by
  intro c hlive hclosing hctl
  simp only [Live, update_self, update_rooms, update_closing, update_log] at hlive hclosing hctl ⊢
  have hreq := hidle.resolve_left (by simp [hclosing])
  refine ⟨fun hu => ?_, fun _ hr => by simp [hreq] at hr⟩
  have := ((hs c hlive hclosing hctl).1 hu).2
  simp [hreq] at this

theorem finish_inv (h : Sound (some rm) s) (hs : ∀ rm, s.Served rm)
    (hroom : (s.runtimes rm).roomID = roomID) : Inv (s.finish roomID rm) := by
  have hidle := update_idle_sound h
  rw [finish]
  simp only [update_self, update_closing]
  split_ifs with hreq
  · refine ⟨requestPump_sound hidle, fun rm' => ?_⟩
    by_cases hrm : rm' = rm
    · subst hrm
      by_cases hlive : s.rooms roomID = some rm'
      · exact requestPump_serves hlive
      · refine requestPump_served hidle fun c hl _ _ => absurd ?_ hlive
        simpa [Live, hroom] using hl
    · exact requestPump_served hidle (update_served hrm (hs rm'))
  · refine ⟨hidle, fun rm' => ?_⟩
    by_cases hrm : rm' = rm
    · subst hrm
      refine update_idle_serves (hs rm') ?_
      simpa [or_comm, imp_iff_not_or] using hreq
    · exact update_served hrm (hs rm')

theorem drain_inv {controller : ℕ} (h : Sound (some rm) s) (hs : ∀ rm, s.Served rm)
    (hroom : (s.runtimes rm).roomID = roomID) : Inv (s.drain roomID rm controller) := by
  rw [drain]
  split_ifs with hreq
  · have hcleared : Sound (some rm) (s.update rm ({ · with requested := false })) := by
      refine h.update rfl (fun _ hc => hc) (fun hle => (h.unmade rm hle).1) fun rm' => ?_
      rw [h.chains rm']
      by_cases hrm : rm' = rm
      · subst hrm
        rw [update_self]
      · rw [update_of_ne hrm]
    cases hctl : (s.runtimes rm).controller with
    | none =>
      simp only [update_self, hctl]
      refine finish_inv hcleared (fun rm' => ?_) (by simpa using hroom)
      by_cases hrm : rm' = rm
      · subst hrm
        exact served_of_controller_none (by simpa using hctl)
      · exact update_served hrm (hs rm')
    | some c =>
      simp only [update_self, hctl]
      refine ⟨Sound.segment (hcleared.note (by simp)) (by simpa using hroom), fun rm' => ?_⟩
      by_cases hrm : rm' = rm
      · -- A new pass serves what was marked.
        subst hrm
        intro c' _ _ hc'
        simp only [note_runtimes, update_self, hctl, Option.some.injEq] at hc' ⊢
        subst hc'
        exact ⟨fun hu => absurd hu not_unserved_began, fun _ hr => by simp at hr⟩
      · refine (hs rm').congr (by simp only [note_runtimes, update_of_ne hrm]) rfl rfl
          (fun c' _ hu => unserved_snoc hu (by simp)) fun c' _ hmem => ?_
        simpa using hmem
  · exact finish_inv h hs hroom

theorem note_served {o : Obs ρ} (hs : s.Served rm) (ho : ∀ c, o ≠ .requested c) : (s.note o).Served rm := by
  refine hs.congr rfl rfl rfl (fun c _ hu => unserved_snoc hu (ho c)) fun c _ hmem => ?_
  rcases List.mem_append.1 hmem with hmem | hmem
  · exact hmem
  · exact absurd (List.mem_singleton.1 hmem).symm (ho c)

theorem drivePump_inv {k : Continuation ρ} (h : Sound (some k.rm) s) (hs : ∀ rm, s.Served rm)
    (hroom : (s.runtimes k.rm).roomID = k.roomID) : Inv (s.drivePump k) := by
  rw [drivePump]
  split
  case isTrue hout =>
    -- Only the mark of the pump is taken off, and the reservation goes back.
    have hidle := update_idle_sound h
    have key : ∀ s₁ : Router κ ρ, Sound none s₁ → s₁.rooms = s.rooms → s₁.closing = s.closing →
        s₁.runtimes = (s.update k.rm ({ · with pumping := false })).runtimes →
        (∀ rm, (s.update k.rm ({ · with pumping := false })).Served rm → s₁.Served rm) →
        Inv (if s₁.rooms k.roomID = some k.rm && (s₁.runtimes k.rm).controller.isSome &&
          (s₁.runtimes k.rm).requested && !s₁.closing then s₁.requestPump k.roomID else s₁) := by
      intro s₁ hsound hrooms hclosing hruntimes hserved
      split
      case isTrue hagain =>
        refine ⟨requestPump_sound hsound, fun rm => ?_⟩
        by_cases hrm : rm = k.rm
        · subst hrm
          simp only [Bool.and_eq_true, decide_eq_true_eq] at hagain
          exact requestPump_serves hagain.1.1.1
        · exact requestPump_served hsound (hserved rm (update_served hrm (hs rm)))
      case isFalse hagain =>
        refine ⟨hsound, fun rm => ?_⟩
        by_cases hrm : rm = k.rm
        · subst hrm
          intro c hlive hopen hctl
          have hidle : (s.runtimes k.rm).requested = false := by
            rw [Live, hrooms, hruntimes, update_self] at hlive
            have hsome : (s.runtimes k.rm).controller = some c := by simpa [hruntimes] using hctl
            rw [hruntimes, update_self] at hagain
            rw [hclosing] at hopen hagain
            simpa [hrooms, ← hroom, hlive, hsome, hopen] using hagain
          exact hserved k.rm (update_idle_serves (hs k.rm) (Or.inr hidle)) c hlive hopen hctl
        · exact hserved rm (update_served hrm (hs rm))
    match k.pending with
    | none => exact key _ hidle rfl rfl rfl fun _ h => h
    | some none => exact key _ hidle rfl rfl rfl fun _ h => h
    | some (some reservation) =>
      exact key _ (hidle.note (by simp)) rfl rfl rfl fun _ h => note_served h (by simp)
  case isFalse hown =>
    split
    · exact finish_inv h hs hroom
    · cases k.pending with
      | none => exact drain_inv h hs hroom
      | some pending =>
        cases pending with
        | none =>
          exact ⟨h.segment hroom, fun rm => (hs rm).same rfl id rfl rfl⟩
        | some reservation =>
          refine ⟨(h.note (by simp)).segment hroom, fun rm => ?_⟩
          exact (note_served (hs rm) (by simp)).same rfl id rfl rfl

/-! ## Segments and continuations -/

theorem Sound.pop {d : Segment} {rest : List Segment} (h : Sound none s) (hd : s.segments = d :: rest) :
    Sound (some d.rm) { s with segments := rest } := by
  refine ⟨h.home, h.unmade, h.made, h.distinct, h.logged, fun rm => ?_, ?_, h.continuations⟩
  · rw [← h.chains rm]
    simp only [Router.chains, hd, List.map_cons, List.count_cons, beq_iff_eq, reduceCtorEq, if_false,
      Option.some.injEq]
    omega
  · intro d' hd'
    exact h.segments d' (by simp [hd, hd'])

theorem Sound.wait {k : Continuation ρ} (h : Sound (some k.rm) s)
    (hroom : (s.runtimes k.rm).roomID = k.roomID) :
    Sound none { s with continuations := s.continuations ++ [k] } := by
  refine ⟨h.home, h.unmade, h.made, h.distinct, h.logged, fun rm => ?_, h.segments, ?_⟩
  · rw [← h.chains rm]
    simp only [Router.chains, List.map_append, List.map_cons, List.map_nil, List.count_append,
      List.count_singleton, beq_iff_eq, reduceCtorEq, if_false, Option.some.injEq]
    omega
  · intro k' hk'
    rcases List.mem_append.1 hk' with hk' | hk'
    · exact h.continuations k' hk'
    · obtain rfl := List.mem_singleton.1 hk'
      exact hroom

theorem continuations_perm {l : List (Continuation ρ)} {i : ℕ} {k : Continuation ρ}
    (h : l[i]? = some k) : (k :: l.eraseIdx i).Perm l := by
  obtain ⟨hi, rfl⟩ := List.getElem?_eq_some_iff.1 h
  exact List.getElem_cons_eraseIdx_perm hi

theorem Sound.go {k : Continuation ρ} {i : ℕ} (h : Sound none s) (hk : s.continuations[i]? = some k) :
    Sound (some k.rm) { s with continuations := s.continuations.eraseIdx i } := by
  refine ⟨h.home, h.unmade, h.made, h.distinct, h.logged, fun rm => ?_, h.segments, ?_⟩
  · have hcount := ((continuations_perm hk).map (·.rm)).count_eq rm
    rw [← h.chains rm]
    simp only [List.map_cons, List.count_cons, beq_iff_eq] at hcount
    simp only [Router.chains, reduceCtorEq, if_false, Option.some.injEq]
    omega
  · intro k' hk'
    exact h.continuations k' (List.mem_of_mem_eraseIdx hk')

theorem ends_inv {d : Segment} {outcome : Outcome ρ} (h : Sound (some d.rm) s) (hs : ∀ rm, s.Served rm)
    (hroom : (s.runtimes d.rm).roomID = d.roomID) : Inv (s.ends d outcome) := by
  have hwait : ∀ {s₁ : Router κ ρ} {pending : Option (Option ρ)} {failed : Bool}, Sound (some d.rm) s₁ →
      (∀ rm, s₁.Served rm) → (s₁.runtimes d.rm).roomID = d.roomID →
      Inv { s₁ with continuations := s₁.continuations ++
        [⟨d.roomID, d.rm, d.controller, pending, failed⟩] } := by
    intro s₁ pending failed h hs hroom
    refine ⟨Sound.wait ?_ hroom, fun rm => (hs rm).same rfl id rfl rfl⟩
    exact h
  by_cases hsync : d.synchronous
  · rcases outcome with ⟨_ | _ | reservation⟩ | _
    all_goals simp only [ends, hsync, if_true]
    · exact hwait h hs hroom
    · exact hwait h hs hroom
    · exact hwait (h.note (by simp)) (fun rm => note_served (hs rm) (by simp)) hroom
    · exact hwait h hs hroom
  · cases outcome with
    | returns pending =>
      simp only [ends, hsync, Bool.false_eq_true, if_false]
      exact drain_inv h hs hroom
    | panics =>
      simp only [ends, hsync, Bool.false_eq_true, if_false]
      exact finish_inv h hs hroom

/-! ## Shares and controllers -/

/-- A runtime with a chain has been made. -/
theorem Sound.made_of_chain (h : Sound none s) (hrm : s.chains rm ≠ 0) : rm < s.nextRuntime := by
  by_contra hle
  have := h.chains rm
  simp only [(h.unmade rm (by omega)).1, Bool.false_eq_true, if_false, reduceCtorEq] at this
  omega

/-- The runtime of the room is there after `room`. -/
theorem room_rooms : (s.room roomID).2.rooms roomID = some (s.room roomID).1 := by
  rw [room]
  cases hr : s.rooms roomID with
  | none => simp
  | some rm => simpa using hr

theorem room_inv (h : Inv s) : Inv (s.room roomID).2 := by
  rw [room]
  cases hr : s.rooms roomID with
  | some rm => exact h
  | none =>
    have hnew := h.sound.unmade s.nextRuntime le_rfl
    have hold : ∀ rm, rm < s.nextRuntime →
        Function.update s.runtimes s.nextRuntime ({ roomID } : RoomRuntime) rm = s.runtimes rm :=
      fun rm hlt => Function.update_of_ne hlt.ne _ _
    have hctl : ∀ rm, (Function.update s.runtimes s.nextRuntime ({ roomID } : RoomRuntime) rm).controller =
        (s.runtimes rm).controller := by
      intro rm
      by_cases hrm : rm = s.nextRuntime
      · subst hrm
        rw [Function.update_self, hnew.2]
      · rw [Function.update_of_ne hrm]
    dsimp only
    refine ⟨⟨?_, ?_, ?_, ?_, h.sound.logged, ?_, ?_, ?_⟩, fun rm => ?_⟩
    · intro roomID' rm hrm
      by_cases hroom : roomID' = roomID
      · subst hroom
        obtain rfl : s.nextRuntime = rm := by simpa using hrm
        simp
      · simp only [Function.update_of_ne hroom] at hrm
        obtain ⟨hhome, hlt⟩ := h.sound.home roomID' rm hrm
        exact ⟨by simp only [hold rm hlt, hhome], by simp only; omega⟩
    · intro rm hle
      simp only at hle ⊢
      rw [Function.update_of_ne (by omega)]
      exact h.sound.unmade rm (by omega)
    · intro rm c hc
      exact h.sound.made rm c (by rwa [← hctl])
    · intro rm rm' c hc hc'
      exact h.sound.distinct rm rm' c (by rwa [← hctl]) (by rwa [← hctl])
    · intro rm
      have hchains := h.sound.chains rm
      by_cases hrm : rm = s.nextRuntime
      · subst hrm
        simpa [Router.chains, hnew.1] using hchains
      · simpa [Router.chains, Function.update_of_ne hrm] using hchains
    · intro d hd
      dsimp only at hd ⊢
      rw [hold d.rm]
      · exact h.sound.segments d hd
      · refine h.sound.made_of_chain ?_
        have : 0 < (s.segments.map (·.rm)).count d.rm :=
          List.count_pos_iff.2 (List.mem_map_of_mem hd)
        rw [Router.chains]
        omega
    · intro k hk
      dsimp only at hk ⊢
      rw [hold k.rm]
      · exact h.sound.continuations k hk
      · refine h.sound.made_of_chain ?_
        have : 0 < (s.continuations.map (·.rm)).count k.rm :=
          List.count_pos_iff.2 (List.mem_map_of_mem hk)
        rw [Router.chains]
        omega
    · by_cases hrm : rm = s.nextRuntime
      · refine served_of_controller_none ?_
        subst hrm
        exact (hctl _).trans hnew.2
      · refine (h.served rm).same (Function.update_of_ne hrm _ _) (fun hlive => ?_) rfl rfl
        simp only [Live, Function.update_of_ne hrm] at hlive ⊢
        by_cases hroom : (s.runtimes rm).roomID = roomID
        · rw [hroom, Function.update_self] at hlive
          exact absurd (Option.some.inj hlive).symm hrm
        · rwa [Function.update_of_ne hroom] at hlive

/-- A runtime loses its controller, or keeps it. -/
theorem update_inv {f : RoomRuntime → RoomRuntime} (h : Inv s)
    (hroom : (f (s.runtimes rm)).roomID = (s.runtimes rm).roomID)
    (hpump : (f (s.runtimes rm)).pumping = (s.runtimes rm).pumping)
    (hctl : (f (s.runtimes rm)).controller = none ∨
      (f (s.runtimes rm)).controller = (s.runtimes rm).controller ∧
        (f (s.runtimes rm)).requested = (s.runtimes rm).requested) : Inv (s.update rm f) := by
  refine ⟨h.sound.update hroom ?_ (fun hle => hpump.trans (h.sound.unmade rm hle).1) ?_, fun rm' => ?_⟩
  · rcases hctl with hnone | ⟨hsame, -⟩
    · simp [hnone]
    · simp [hsame]
  · intro rm'
    rw [h.sound.chains rm']
    by_cases hrm : rm' = rm
    · subst hrm
      rw [update_self, hpump]
    · rw [update_of_ne hrm]
  · by_cases hrm : rm' = rm
    · subst hrm
      rcases hctl with hnone | ⟨hsame, hreq⟩
      · exact served_of_controller_none (by simpa using hnone)
      · intro c hlive hopen hc
        simp only [Live, update_self, hroom, hpump, hsame, hreq, update_rooms, update_closing,
          update_log] at hlive hopen hc ⊢
        exact h.served rm' c hlive hopen hc
    · exact update_served hrm (h.served rm')

theorem clearDeadline_inv (h : Inv s) : Inv (s.clearDeadline rm) :=
  ⟨⟨h.sound.home, h.sound.unmade, h.sound.made, h.sound.distinct, h.sound.logged, h.sound.chains,
    h.sound.segments, h.sound.continuations⟩, fun rm => (h.served rm).same rfl id rfl rfl⟩

theorem clearRoom_inv (h : Inv s) : Inv (s.clearRoom roomID) := by
  rw [clearRoom]
  cases hr : s.rooms roomID with
  | none => exact h
  | some rm =>
    have hcleared : Inv ((s.clearDeadline rm).update rm ({ · with controller := none, requested := false })) :=
      update_inv (clearDeadline_inv h) rfl rfl (Or.inl rfl)
    obtain ⟨hsound, hserved⟩ := hcleared
    refine ⟨⟨fun roomID' rm' hrm => ?_, hsound.unmade, hsound.made, hsound.distinct, hsound.logged,
      hsound.chains, hsound.segments, hsound.continuations⟩, fun rm' => ?_⟩
    · by_cases hroom : roomID' = roomID
      · subst hroom
        simp at hrm
      · simp only [Function.update_of_ne hroom] at hrm
        exact hsound.home roomID' rm' hrm
    · refine (hserved rm').same rfl (fun hlive => ?_) rfl rfl
      simp only [Live] at hlive ⊢
      by_cases hroom : (((s.clearDeadline rm).update rm
          ({ · with controller := none, requested := false })).runtimes rm').roomID = roomID
      · rw [hroom, Function.update_self] at hlive
        simp at hlive
      · rwa [Function.update_of_ne hroom] at hlive

theorem dropController_inv (h : Inv s) : Inv (s.dropController roomID) := by
  rw [dropController]
  cases s.rooms roomID with
  | none => exact h
  | some rm =>
    simp only
    split
    · exact update_inv (clearDeadline_inv h) rfl rfl (Or.inl rfl)
    · exact h

theorem requestPump_inv (h : Inv s) : Inv (s.requestPump roomID) :=
  ⟨requestPump_sound h.sound, fun rm => requestPump_served h.sound (h.served rm)⟩

theorem stopRoom_inv {listeners : Bool} (h : Inv s) : Inv (s.stopRoom roomID listeners) := by
  rw [stopRoom]
  cases s.rooms roomID with
  | none => exact h
  | some rm =>
    simp only
    split_ifs
    · exact requestPump_inv (requestPump_inv h)
    · exact dropController_inv h
    · exact room_inv (clearRoom_inv h)

theorem setRoomMedia_inv (h : Inv s) : Inv (s.setRoomMedia roomID) := by
  have hroom : Inv (s.room roomID).2 := room_inv h
  rw [setRoomMedia]
  exact update_inv hroom rfl rfl (Or.inr ⟨rfl, rfl⟩)

/-- A new controller has no requests yet, whatever mark the runtime carries. -/
theorem connectHost_inv {controller : κ} (h : Inv s) : Inv (s.connectHost roomID controller) := by
  rw [connectHost]
  have hmade : Inv (s.room roomID).2 := room_inv h
  obtain ⟨hsound, hserved⟩ := hmade
  have hrooms : (s.room roomID).2.rooms roomID = some (s.room roomID).1 := room_rooms
  generalize s.room roomID = made at hsound hserved hrooms
  obtain ⟨rm, s₁⟩ := made
  simp only at hsound hserved hrooms ⊢
  obtain ⟨-, hlt⟩ := hsound.home roomID rm hrooms
  split
  · exact ⟨hsound, hserved⟩
  · have hroom : ∀ rm', ((s₁.update rm ({ · with controller := some s₁.nextController })).runtimes rm').roomID =
        (s₁.runtimes rm').roomID := by
      intro rm'
      by_cases hrm : rm' = rm
      · subst hrm
        rw [update_self]
      · rw [update_of_ne hrm]
    have hother : ∀ rm' c, rm' ≠ rm →
        ((s₁.update rm ({ · with controller := some s₁.nextController })).runtimes rm').controller = some c →
        (s₁.runtimes rm').controller = some c := by
      intro rm' c hrm hc
      rwa [update_of_ne hrm] at hc
    have hown : ((s₁.update rm ({ · with controller := some s₁.nextController })).runtimes rm).controller =
        some s₁.nextController := by
      rw [update_self]
    refine ⟨⟨?_, ?_, ?_, ?_, fun c hc => ?_, ?_, ?_, ?_⟩, fun rm' => ?_⟩
    · intro roomID' rm' hrm
      exact ⟨(hroom rm').trans (hsound.home roomID' rm' hrm).1, (hsound.home roomID' rm' hrm).2⟩
    · intro rm' hle
      have hrm : rm' ≠ rm := by
        rintro rfl
        exact absurd hlt (not_lt.2 hle)
      simp only [update_of_ne hrm]
      exact hsound.unmade rm' hle
    · intro rm' c hc
      by_cases hrm : rm' = rm
      · subst hrm
        obtain rfl := Option.some.inj (hown.symm.trans hc)
        exact Nat.lt_succ_self _
      · exact Nat.lt_succ_of_lt (hsound.made rm' c (hother rm' c hrm hc))
    · intro rm₁ rm₂ c h₁ h₂
      by_cases hrm₁ : rm₁ = rm
      · subst hrm₁
        by_contra hne
        obtain rfl := Option.some.inj (hown.symm.trans h₁)
        exact absurd (hsound.made rm₂ _ (hother rm₂ _ (Ne.symm hne) h₂)) (lt_irrefl _)
      · by_cases hrm₂ : rm₂ = rm
        · subst hrm₂
          obtain rfl := Option.some.inj (hown.symm.trans h₂)
          exact absurd (hsound.made rm₁ _ (hother rm₁ _ hrm₁ h₁)) (lt_irrefl _)
        · exact hsound.distinct rm₁ rm₂ c (hother rm₁ c hrm₁ h₁) (hother rm₂ c hrm₂ h₂)
    · exact Nat.lt_succ_of_lt (hsound.logged c hc)
    · intro rm'
      refine (hsound.chains rm').trans ?_
      by_cases hrm : rm' = rm
      · subst hrm
        simp only [update_self]
      · simp only [update_of_ne hrm]
    · intro d hd
      exact (hroom d.rm).trans (hsound.segments d hd)
    · intro k hk
      exact (hroom k.rm).trans (hsound.continuations k hk)
    · by_cases hrm : rm' = rm
      · -- No request can name a controller that is made only now.
        subst hrm
        intro c _ _ hc
        obtain rfl := Option.some.inj (hown.symm.trans hc)
        have hnone : .requested s₁.nextController ∉ s₁.log :=
          fun hmem => lt_irrefl _ (hsound.logged _ hmem)
        exact ⟨fun hu => absurd hu.requested hnone, fun _ _ => hnone⟩
      · refine (hserved rm').same (by simp only [update_of_ne hrm]) (fun hlive => ?_) rfl rfl
        rw [Live, ← hroom rm']
        exact hlive

theorem close_inv (h : Inv s) : Inv s.close := by
  have hctl : ∀ rm c, (s.close.runtimes rm).controller = some c → (s.runtimes rm).controller = some c := by
    intro rm c hc
    simp only [close] at hc
    split at hc
    · simp at hc
    · exact hc
  have hpump : ∀ rm, (s.close.runtimes rm).pumping = (s.runtimes rm).pumping ∧
      (s.close.runtimes rm).roomID = (s.runtimes rm).roomID := by
    intro rm
    simp only [close]
    split <;> exact ⟨rfl, rfl⟩
  refine ⟨⟨fun roomID rm hrm => ?_, fun rm hle => ?_, fun rm c hc => ?_, fun rm rm' c hc hc' => ?_,
    h.sound.logged, fun rm => ?_, fun d hd => ?_, fun k hk => ?_⟩, fun rm c _ hopen _ => ?_⟩
  · simp [close] at hrm
  · refine ⟨(hpump rm).1.trans (h.sound.unmade rm hle).1, Option.eq_none_iff_forall_ne_some.2 fun c hc => ?_⟩
    have := hctl rm c hc
    simp [(h.sound.unmade rm hle).2] at this
  · exact h.sound.made rm c (hctl rm c hc)
  · exact h.sound.distinct rm rm' c (hctl rm c hc) (hctl rm' c hc')
  · rw [(hpump rm).1]
    exact h.sound.chains rm
  · rw [(hpump d.rm).2]
    exact h.sound.segments d hd
  · rw [(hpump k.rm).2]
    exact h.sound.continuations k hk
  · simp [close] at hopen

/-! ## Runs -/

theorem step_inv {e : Event κ ρ} (h : Inv s) (he : s.step e = some s') : Inv s' := by
  cases e with
  | requestPump roomID =>
    obtain rfl := Option.some.inj he
    exact requestPump_inv h
  | ends outcome =>
    rw [step] at he
    split at he
    case h_1 => simp at he
    case h_2 d rest hd =>
      obtain rfl := Option.some.inj he
      refine ends_inv (h.sound.pop hd) (fun rm => (h.served rm).same rfl id rfl rfl) ?_
      exact h.sound.segments d (by simp [hd])
  | drivePump index =>
    simp only [step] at he
    split_ifs at he
    split at he
    case h_1 => simp at he
    case h_2 k hk =>
      obtain rfl := Option.some.inj he
      refine drivePump_inv (h.sound.go hk) (fun rm => (h.served rm).same rfl id rfl rfl) ?_
      exact h.sound.continuations k (List.mem_of_getElem? hk)
  | stopRoom roomID listeners =>
    obtain rfl := Option.some.inj he
    exact stopRoom_inv h
  | deleteRoom roomID =>
    obtain rfl := Option.some.inj he
    exact clearRoom_inv h
  | dropController roomID =>
    obtain rfl := Option.some.inj he
    exact dropController_inv h
  | setRoomMedia roomID =>
    obtain rfl := Option.some.inj he
    exact setRoomMedia_inv h
  | connectHost roomID controller =>
    obtain rfl := Option.some.inj he
    exact connectHost_inv h
  | close =>
    obtain rfl := Option.some.inj he
    exact close_inv h
  | works media =>
    obtain rfl := Option.some.inj he
    exact ⟨⟨h.sound.home, h.sound.unmade, h.sound.made, h.sound.distinct, h.sound.logged,
      h.sound.chains, h.sound.segments, h.sound.continuations⟩,
      fun rm => (h.served rm).same rfl id rfl rfl⟩

/-- A router without rooms. -/
def start (media : Media κ) : Router κ ρ := { media }

theorem start_inv {media : Media κ} : Inv (start media : Router κ ρ) := by
  refine ⟨⟨?_, ?_, ?_, ?_, ?_, ?_, ?_, ?_⟩, fun rm => served_of_controller_none rfl⟩
  all_goals simp [start, Router.chains]

theorem reaches_inv {media : Media κ} {events : List (Event κ ρ)}
    (h : Steps.Reaches step (start media) events s) : Inv s :=
  h.invariant start_inv step_inv

end Router

/-! ## Reservations -/

section Reservations

variable {ρ : Type} {log : List (Obs ρ)} {o : Obs ρ}

/-- The reservations that were made. -/
def admitted (log : List (Obs ρ)) : Multiset ρ :=
  log.filterMap fun o => match o with
    | .admitted reservation => some reservation
    | _ => none

/-- The reservations that a pump went on with. -/
def resumed (log : List (Obs ρ)) : Multiset ρ :=
  log.filterMap fun o => match o with
    | .resumed reservation => some reservation
    | _ => none

/-- The reservations that were given back. -/
def released (log : List (Obs ρ)) : Multiset ρ :=
  log.filterMap fun o => match o with
    | .released reservation => some reservation
    | _ => none

/-- The reservation of a continuation. -/
def Continuation.reservation (k : Continuation ρ) : Option ρ := k.pending.join

/-- The reservations of what was put off. -/
def waiting (continuations : List (Continuation ρ)) : Multiset ρ :=
  continuations.filterMap (·.reservation)

/-- An entry about requests and passes. -/
def Obs.isPump : Obs ρ → Bool
  | .requested _ | .began _ => true
  | _ => false

theorem accounts_append {news : List (Obs ρ)} (h : ∀ o ∈ news, o.isPump) :
    admitted (log ++ news) = admitted log ∧ resumed (log ++ news) = resumed log ∧
      released (log ++ news) = released log := by
  induction news using List.reverseRecOn with
  | nil => simp
  | append_singleton news o ih =>
    obtain ⟨h₁, h₂, h₃⟩ := ih fun o' ho' => h o' (by simp [ho'])
    have ho := h o (by simp)
    cases o <;> simp only [Obs.isPump, Bool.false_eq_true] at ho <;>
      simp_all [admitted, resumed, released]

variable {r : ρ}

theorem coe_snoc (l : List ρ) : ((l ++ [r] : List ρ) : Multiset ρ) = (l : Multiset ρ) + {r} := by
  rw [← Multiset.coe_add, Multiset.coe_singleton]

@[simp] theorem admitted_admitted : admitted (log ++ [.admitted r]) = admitted log + {r} := by
  simpa [admitted] using coe_snoc _
@[simp] theorem resumed_admitted : resumed (log ++ [.admitted r]) = resumed log := by simp [resumed]
@[simp] theorem released_admitted : released (log ++ [.admitted r]) = released log := by
  simp [released]
@[simp] theorem admitted_resumed : admitted (log ++ [.resumed r]) = admitted log := by simp [admitted]
@[simp] theorem resumed_resumed : resumed (log ++ [.resumed r]) = resumed log + {r} := by
  simpa [resumed] using coe_snoc _
@[simp] theorem released_resumed : released (log ++ [.resumed r]) = released log := by simp [released]
@[simp] theorem admitted_released : admitted (log ++ [.released r]) = admitted log := by
  simp [admitted]
@[simp] theorem resumed_released : resumed (log ++ [.released r]) = resumed log := by simp [resumed]
@[simp] theorem released_released : released (log ++ [.released r]) = released log + {r} := by
  simpa [released] using coe_snoc _

end Reservations

namespace Router

variable {κ ρ : Type} {s s' s'' : Router κ ρ} {roomID : String} {rm : ℕ}

/-- Nothing happens to reservations. -/
def Quiet (s s' : Router κ ρ) : Prop :=
  s'.continuations = s.continuations ∧ ∃ news : List (Obs ρ), s'.log = s.log ++ news ∧ ∀ o ∈ news, o.isPump

theorem Quiet.rfl : Quiet s s := ⟨by simp, [], by simp, by simp⟩

theorem Quiet.trans (h : Quiet s s') (h' : Quiet s' s'') : Quiet s s'' := by
  obtain ⟨hcont, news, hlog, hnews⟩ := h
  obtain ⟨hcont', news', hlog', hnews'⟩ := h'
  refine ⟨hcont'.trans hcont, news ++ news', by rw [hlog', hlog, List.append_assoc], ?_⟩
  intro o ho
  exact (List.mem_append.1 ho).elim (hnews o) (hnews' o)

theorem quiet_of_same (hcont : s'.continuations = s.continuations) (hlog : s'.log = s.log) : Quiet s s' :=
  ⟨hcont, [], by simp [hlog], by simp⟩

theorem quiet_requestPump : Quiet s (s.requestPump roomID) := by
  rw [requestPump]
  cases s.rooms roomID with
  | none => exact .rfl
  | some rm =>
    cases hctl : (s.runtimes rm).controller with
    | none => simpa only [hctl] using .rfl
    | some c =>
      simp only [hctl]
      split_ifs
      · exact .rfl
      · exact ⟨by rfl, [.requested c], by rfl, by simp [Obs.isPump]⟩
      · refine ⟨by rfl, [.requested c, .began c], by simp, by simp [Obs.isPump]⟩

theorem quiet_finish : Quiet s (s.finish roomID rm) := by
  have hidle : Quiet s (s.update rm ({ · with pumping := false })) := quiet_of_same (by rfl) (by rfl)
  rw [finish]
  split
  · exact hidle.trans quiet_requestPump
  · exact hidle

theorem quiet_drain {controller : ℕ} : Quiet s (s.drain roomID rm controller) := by
  rw [drain]
  split
  · have hcleared : Quiet s (s.update rm ({ · with requested := false })) :=
      quiet_of_same (by rfl) (by rfl)
    simp only [update_self]
    cases (s.runtimes rm).controller with
    | none => exact hcleared.trans quiet_finish
    | some c => exact ⟨by rfl, [.began c], by rfl, by simp [Obs.isPump]⟩
  · exact quiet_finish

theorem quiet_room : Quiet s (s.room roomID).2 := by
  rw [room]
  cases s.rooms roomID with
  | none => exact quiet_of_same (by rfl) (by rfl)
  | some rm => exact .rfl

theorem quiet_clearRoom : Quiet s (s.clearRoom roomID) := by
  rw [clearRoom]
  cases s.rooms roomID with
  | none => exact .rfl
  | some rm => exact quiet_of_same (by rfl) (by rfl)

theorem quiet_dropController : Quiet s (s.dropController roomID) := by
  rw [dropController]
  cases s.rooms roomID with
  | none => exact .rfl
  | some rm =>
    simp only
    split
    · exact quiet_of_same (by rfl) (by rfl)
    · exact .rfl

theorem quiet_stopRoom {listeners : Bool} : Quiet s (s.stopRoom roomID listeners) := by
  rw [stopRoom]
  cases s.rooms roomID with
  | none => exact .rfl
  | some rm =>
    simp only
    split_ifs
    · exact quiet_requestPump.trans quiet_requestPump
    · exact quiet_dropController
    · exact quiet_clearRoom.trans quiet_room

theorem quiet_connectHost {controller : κ} : Quiet s (s.connectHost roomID controller) := by
  have hroom : Quiet s (s.room roomID).2 := quiet_room
  rw [connectHost]
  generalize s.room roomID = made at hroom
  obtain ⟨rm, s₁⟩ := made
  simp only
  split
  · exact hroom
  · exact hroom.trans (quiet_of_same (by rfl) (by rfl))

/-- What has been admitted has gone on, has been released, or waits; `moving` is on its way. -/
def Accounts (moving : Multiset ρ) (s : Router κ ρ) : Prop :=
  admitted s.log = resumed s.log + released s.log + waiting s.continuations + moving

theorem Accounts.quiet {moving : Multiset ρ} (h : Accounts moving s) (hq : Quiet s s') :
    Accounts moving s' := by
  obtain ⟨hcont, news, hlog, hnews⟩ := hq
  obtain ⟨h₁, h₂, h₃⟩ := @accounts_append _ s.log _ hnews
  rw [Accounts, hcont, hlog, h₁, h₂, h₃]
  exact h

/-- A continuation hands its reservation on, or gives it back. -/
theorem drivePump_accounts {k : Continuation ρ} (hk : k.failed → k.reservation = none)
    (h : Accounts (k.reservation.elim 0 ({·})) s) : Accounts 0 (s.drivePump k) := by
  rcases hpending : k.pending with _ | _ | reservation
  all_goals simp only [Continuation.reservation, hpending, Option.join_none, Option.join_some,
    Option.elim_none, Option.elim_some, reduceCtorEq, imp_false] at h hk
  all_goals simp only [drivePump, hpending]
  · split_ifs
    · exact h.quiet (quiet_of_same (by rfl) (by rfl) |>.trans quiet_requestPump)
    · exact h.quiet (quiet_of_same (by rfl) (by rfl))
    · exact h.quiet quiet_finish
    · exact h.quiet quiet_drain
  · split_ifs
    · exact h.quiet (quiet_of_same (by rfl) (by rfl) |>.trans quiet_requestPump)
    · exact h.quiet (quiet_of_same (by rfl) (by rfl))
    · exact h.quiet quiet_finish
    · exact h.quiet (quiet_of_same (by rfl) (by rfl))
  · have hrel : Accounts 0 ((s.update k.rm ({ · with pumping := false })).note (.released reservation)) := by
      rw [Accounts] at h ⊢
      simp only [note_log, update_log, note_continuations, update_continuations, admitted_released,
        resumed_released, released_released, h, add_zero]
      abel
    have hres : Accounts 0 (s.note (.resumed reservation)) := by
      rw [Accounts] at h ⊢
      simp only [note_log, note_continuations, admitted_resumed, resumed_resumed, released_resumed, h,
        add_zero]
      abel
    split_ifs
    · exact hrel.quiet quiet_requestPump
    · exact hrel
    · exact hres.quiet (quiet_of_same (by rfl) (by rfl))

/-- The accounts balance, and a failed prefix has left nothing to give back. -/
def Balanced (s : Router κ ρ) : Prop :=
  Accounts 0 s ∧ ∀ k ∈ s.continuations, k.failed → k.reservation = none

theorem Balanced.quiet (h : Balanced s) (hq : Quiet s s') : Balanced s' :=
  ⟨h.1.quiet hq, hq.1 ▸ h.2⟩

theorem drivePump_continuations {k : Continuation ρ} :
    (s.drivePump k).continuations = s.continuations := by
  rcases hpending : k.pending with _ | _ | reservation
  all_goals
    simp only [drivePump, hpending]
    split_ifs
  all_goals first
    | exact quiet_requestPump.1
    | exact quiet_finish.1
    | exact quiet_drain.1
    | rfl

theorem ends_balanced {d : Segment} {outcome : Outcome ρ} (h : Balanced s) : Balanced (s.ends d outcome) := by
  have hwait : ∀ {s₁ : Router κ ρ} {k : Continuation ρ}, s₁.continuations = s.continuations →
      Accounts 0 { s₁ with continuations := s.continuations ++ [k] } →
      (k.failed → k.reservation = none) → Balanced { s₁ with continuations := s.continuations ++ [k] } := by
    intro s₁ k _ hacc hk
    refine ⟨hacc, fun k' hk' => ?_⟩
    rcases List.mem_append.1 hk' with hk' | hk'
    · exact h.2 k' hk'
    · obtain rfl := List.mem_singleton.1 hk'
      exact hk
  have hacc := h.1
  rw [Accounts, add_zero] at hacc
  have hsnoc : ∀ {k : Continuation ρ}, k.reservation = none →
      waiting (s.continuations ++ [k]) = waiting s.continuations := by
    intro k hk
    simp [waiting, hk]
  by_cases hsync : d.synchronous
  · rcases outcome with ⟨_ | _ | reservation⟩ | _
    all_goals simp only [ends, hsync, if_true]
    · refine hwait rfl ?_ (by simp)
      rw [Accounts, hsnoc rfl, add_zero]
      exact hacc
    · refine hwait rfl ?_ (by simp)
      rw [Accounts, hsnoc rfl, add_zero]
      exact hacc
    · refine hwait rfl ?_ (by simp)
      have hw : waiting (s.continuations ++ [⟨d.roomID, d.rm, d.controller, some (some reservation), false⟩]) =
          waiting s.continuations + {reservation} := by
        simpa [waiting, Continuation.reservation] using coe_snoc _
      rw [Accounts]
      simp only [note_log, admitted_admitted, resumed_admitted, released_admitted, hw, hacc, add_zero]
      abel
    · refine hwait rfl ?_ fun _ => rfl
      rw [Accounts, hsnoc rfl, add_zero]
      exact hacc
  · cases outcome with
    | returns pending =>
      simp only [ends, hsync, Bool.false_eq_true, if_false]
      exact h.quiet quiet_drain
    | panics =>
      simp only [ends, hsync, Bool.false_eq_true, if_false]
      exact h.quiet quiet_finish

theorem step_balanced {e : Event κ ρ} (h : Balanced s) (he : s.step e = some s') : Balanced s' := by
  cases e with
  | requestPump roomID =>
    obtain rfl := Option.some.inj he
    exact h.quiet quiet_requestPump
  | ends outcome =>
    rw [step] at he
    split at he
    case h_1 => simp at he
    case h_2 d rest hd =>
      obtain rfl := Option.some.inj he
      exact ends_balanced h
  | drivePump index =>
    simp only [step] at he
    split_ifs at he
    split at he
    case h_1 => simp at he
    case h_2 k hk =>
      obtain rfl := Option.some.inj he
      have hmem := List.mem_of_getElem? hk
      have hperm : waiting s.continuations =
          waiting (s.continuations.eraseIdx index) + k.reservation.elim 0 ({·}) := by
        have := Multiset.coe_eq_coe.2 ((continuations_perm hk).filterMap (·.reservation))
        rw [waiting, ← this, List.filterMap_cons]
        cases k.reservation with
        | none => simp [waiting]
        | some r => exact (Multiset.cons_coe ..).symm.trans ((Multiset.singleton_add ..).symm.trans (add_comm ..))
      refine ⟨drivePump_accounts (h.2 k hmem) ?_, fun k' hk' => ?_⟩
      · have hacc := h.1
        rw [Accounts, hperm, add_zero, ← add_assoc] at hacc
        exact hacc
      · rw [drivePump_continuations] at hk'
        exact h.2 k' (List.mem_of_mem_eraseIdx hk')
  | stopRoom roomID listeners =>
    obtain rfl := Option.some.inj he
    exact h.quiet quiet_stopRoom
  | deleteRoom roomID =>
    obtain rfl := Option.some.inj he
    exact h.quiet quiet_clearRoom
  | dropController roomID =>
    obtain rfl := Option.some.inj he
    exact h.quiet quiet_dropController
  | setRoomMedia roomID =>
    obtain rfl := Option.some.inj he
    exact h.quiet (quiet_room.trans (quiet_of_same (by rfl) (by rfl)))
  | connectHost roomID controller =>
    obtain rfl := Option.some.inj he
    exact h.quiet quiet_connectHost
  | close =>
    obtain rfl := Option.some.inj he
    exact h
  | works media =>
    obtain rfl := Option.some.inj he
    exact h

/-! ## Continuations that outlive their share -/

/-- What a continuation does once its share has been retired: its mark and its own reservation, and
    where the same runtime has a request waiting for another controller, the pump is started for it. -/
structure Retires (k : Continuation ρ) (s s' : Router κ ρ) : Prop where
  media : s'.media = s.media
  rooms : s'.rooms = s.rooms
  controllers : ∀ rm, (s'.runtimes rm).controller = (s.runtimes rm).controller
  others : ∀ rm, rm ≠ k.rm → s'.runtimes rm = s.runtimes rm
  released : released s'.log = released s.log + k.reservation.elim 0 ({·})
  segments : s'.segments = s.segments ∨
    ∃ c, s.rooms k.roomID = some k.rm ∧ (s.runtimes k.rm).controller = some c ∧ c ≠ k.controller ∧
      (s.runtimes k.rm).requested ∧ s'.segments = ⟨k.roomID, k.rm, c, true⟩ :: s.segments

theorem drivePump_retires {k : Continuation ρ} (hout : s.outlived k) : Retires k s (s.drivePump k) := by
  have key : ∀ s₁ : Router κ ρ, s₁.media = s.media → s₁.rooms = s.rooms → s₁.segments = s.segments →
      s₁.closing = s.closing →
      s₁.runtimes = (s.update k.rm ({ · with pumping := false })).runtimes →
      released s₁.log = released s.log + k.reservation.elim 0 ({·}) →
      Retires k s (if s₁.rooms k.roomID = some k.rm && (s₁.runtimes k.rm).controller.isSome &&
        (s₁.runtimes k.rm).requested && !s₁.closing then s₁.requestPump k.roomID else s₁) := by
    intro s₁ hmedia hrooms hsegments hclosing hruntimes hreleased
    have hown : s₁.runtimes k.rm = { s.runtimes k.rm with pumping := false } := by
      rw [hruntimes, update_self]
    have hother : ∀ rm, rm ≠ k.rm → s₁.runtimes rm = s.runtimes rm := by
      intro rm hrm
      rw [hruntimes, update_of_ne hrm]
    split
    case isFalse =>
      refine ⟨hmedia, hrooms, fun rm => ?_, hother, hreleased, Or.inl hsegments⟩
      by_cases hrm : rm = k.rm
      · rw [hrm, hown]
      · rw [hother rm hrm]
    case isTrue hagain =>
      simp only [hown, hrooms, hclosing, Bool.and_eq_true, decide_eq_true_eq, Bool.not_eq_true'] at hagain
      obtain ⟨⟨⟨hroom, hsome⟩, hreq⟩, hopen⟩ := hagain
      obtain ⟨c, hc⟩ := Option.isSome_iff_exists.1 hsome
      have hrun : s₁.requestPump k.roomID =
          { ((s₁.update k.rm ({ · with pumping := true, requested := false })).note
              (.requested c)).note (.began c) with
            segments := ⟨k.roomID, k.rm, c, true⟩ :: s₁.segments } := by
        simp only [requestPump, hrooms, hroom, hown, hc, hclosing, hopen, Bool.false_eq_true, if_false]
      have hne : c ≠ k.controller := by
        rintro rfl
        simp [outlived, hroom, hc] at hout
      rw [hrun]
      refine ⟨hmedia, hrooms, fun rm => ?_, fun rm hrm => ?_, ?_, Or.inr ⟨c, hroom, hc, hne, hreq, ?_⟩⟩
      · by_cases hrm : rm = k.rm
        · subst hrm
          simp [hown]
        · simp [update_of_ne hrm, hother rm hrm]
      · simp [update_of_ne hrm, hother rm hrm]
      · simpa [released] using hreleased
      · rw [hsegments]
  rcases hpending : k.pending with _ | _ | reservation
  all_goals simp only [drivePump, hout, if_true, hpending]
  · exact key _ rfl rfl rfl rfl rfl (by simp [Continuation.reservation, hpending])
  · exact key _ rfl rfl rfl rfl rfl (by simp [Continuation.reservation, hpending])
  · exact key _ rfl rfl rfl rfl rfl (by simp [Continuation.reservation, hpending])

/-! ## The pump loses no request -/

/-- In every run: a runtime has one chain while it pumps and none otherwise; while it does not, a pass
    of its controller has begun after the last request for it, and a mark that is left is older than
    the controller; a continuation that outlives its share does no more than retire, and reservations
    are handed on or given back once. -/
theorem loses_no_request {media : Media κ} {events : List (Event κ ρ)}
    (h : Steps.Reaches step (start media) events s) :
    (∀ rm, s.chains rm = if (s.runtimes rm).pumping then 1 else 0) ∧
    (∀ roomID rm c, s.rooms roomID = some rm → (s.runtimes rm).controller = some c →
      s.closing = false → (s.runtimes rm).pumping = false →
      (∀ earlier later, s.log = earlier ++ .requested c :: later → .began c ∈ later) ∧
      ((s.runtimes rm).requested → .requested c ∉ s.log)) ∧
    (∀ index k s', s.continuations[index]? = some k → s.outlived k →
      s.step (.drivePump index) = some s' → Retires k s s') ∧
    admitted s.log = resumed s.log + released s.log + waiting s.continuations := by
  have hinv := reaches_inv h
  have hbal : Balanced s := h.invariant (P := Balanced) ⟨rfl, by simp [start]⟩ step_balanced
  refine ⟨fun rm => by simpa using hinv.sound.chains rm, ?_, ?_, by simpa [Accounts] using hbal.1⟩
  · intro roomID rm c hr hc hopen hidle
    have hlive : s.Live rm := by
      rw [Live, (hinv.sound.home roomID rm hr).1]
      exact hr
    obtain ⟨h₁, h₂⟩ := hinv.served rm c hlive hopen hc
    refine ⟨fun earlier later hlog => ?_, h₂ hidle⟩
    by_contra hlater
    have := (h₁ ⟨earlier, later, hlog, hlater⟩).1
    simp [hidle] at this
  · intro index k s' hk hout he
    simp only [step] at he
    split_ifs at he
    simp only [hk] at he
    obtain rfl := Option.some.inj he
    obtain ⟨h₁, h₂, h₃, h₄, h₅, h₆⟩ :=
      drivePump_retires (s := { s with continuations := s.continuations.eraseIdx index }) hout
    exact ⟨h₁, h₂, h₃, h₄, h₅, h₆⟩

theorem loses_no_request_retired :
    ∃ s : Router Unit ℕ, Steps.run step (start { controllers := fun _ => () })
        [.connectHost "room" (), .requestPump "room", .ends (.returns (some (some 7))),
          .stopRoom "room" false, .drivePump 0] = some s ∧
      admitted s.log = resumed s.log + released s.log + waiting s.continuations ∧
      s.log = [.requested 0, .began 0, .admitted 7, .released 7] := by
  have hmap : (Steps.run step (start { controllers := fun _ => () } : Router Unit ℕ)
      [.connectHost "room" (), .requestPump "room", .ends (.returns (some (some 7))),
        .stopRoom "room" false, .drivePump 0]).map (·.log) =
      some [.requested 0, .began 0, .admitted 7, .released 7] := by decide +kernel
  obtain ⟨s, hrun, hlog⟩ := Option.map_eq_some_iff.1 hmap
  exact ⟨s, hrun, (loses_no_request (Steps.reaches_of_run hrun)).2.2.2, hlog⟩

/-- The mark of a dropped controller outlasts it, and stands beside the next one; and a continuation
    may find a request for the next one to begin with. -/
theorem mark_outlasts_controller :
    (Steps.run step (start { controllers := fun _ => () } : Router Unit ℕ)
        [.connectHost "room" (), .setRoomMedia "room", .requestPump "room", .ends (.returns none),
          .requestPump "room", .dropController "room", .drivePump 0, .connectHost "room" ()]).map
        (fun s => (s.rooms "room", s.closing, s.runtimes 0)) =
      some (some 0, false,
        { roomID := "room", controller := some 1, roomMedia := true, pumping := false, requested := true }) ∧
    (Steps.run step (start { controllers := fun _ => () } : Router Unit ℕ)
        [.connectHost "room" (), .setRoomMedia "room", .requestPump "room", .ends (.returns none),
          .dropController "room", .connectHost "room" (), .requestPump "room"]).map
        (fun s => (s.continuations.map fun k => (k.controller, s.outlived k),
          (s.step (.drivePump 0)).map (·.segments))) =
      some ([(0, true)], some [⟨"room", 0, 1, true⟩]) := by
  constructor <;> decide +kernel

end Router

end Piik.Signal.Pump
