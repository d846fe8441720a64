/-
  What a viewer is shown (`client/media/viewer-presentation.ts`): the facts that
  arrive from the signal, the route and the player, reduced to one state, and
  the presentation derived from it.

  A picture counts as presented from its own `frame-presented` action on.  Every
  binding of media and every proof of a frame has its own number, so that an
  action about an earlier picture is recognised.
-/
import Mathlib
import Piik.Client.RouteTransition

namespace Piik.Client.Presentation

/-! ## Data -/

/-- Whether the viewer was let in. -/
inductive Access
  | checking
  | ready
  | denied
  deriving DecidableEq, Repr

/-- The connection to the server. -/
inductive SignalConnectionState
  | connecting
  | connected
  | reconnecting
  | offline
  deriving DecidableEq, Repr

/-- What is known of the host. -/
inductive ViewerHostState
  | unknown
  | online
  | paused
  | offline
  | stopped
  deriving DecidableEq, Repr

/-- Where the route comes from. -/
inductive ViewerRouteKind
  | none
  | p2p
  | sfu
  deriving DecidableEq, Repr

/-- The connection that the media comes over. -/
inductive ConnectionState
  | idle
  | connecting
  | connected
  | reconnecting
  | failed
  deriving DecidableEq, Repr

/-- Why there is no route. -/
inductive RouteStatus
  | waiting
  | failed
  deriving DecidableEq, Repr

/-- The server's codes that the viewer is told apart. -/
inductive ViewerFailureCode
  | roomNotFound
  | roomAccessDenied
  | invalidToken
  | roomClosed
  | roomFull
  | staleClient
  | serverError
  | sessionReplaced
  | signalTerminated
  | hostStopped
  | hostOffline
  | routeExhausted
  | autoplayBlocked
  | videoRejected
  | playbackFailed
  deriving DecidableEq, Repr

/-- The route, as of a revision. -/
structure ViewerRouteFact where
  revision : ℤ
  phase : MediaRoutePhase
  kind : ViewerRouteKind
  deriving DecidableEq, Repr

/-- The status of the route, as of a revision. -/
structure ViewerRouteStatusFact where
  revision : ℤ
  state : RouteStatus
  deriving DecidableEq, Repr

/-- The media that is bound, and whether a frame of it was presented. -/
structure ViewerMediaFact where
  generation : ℤ
  boundAtRevision : ℤ
  proofEpoch : ℤ
  framePresented : Bool
  deriving DecidableEq, Repr

/-- The state at its first values.  `runtimeFailure` is `SERVER_ERROR` or none,
    `receiveFailure` is `VIDEO_REJECTED` or none. -/
structure ViewerPresentationState where
  access : Access := .checking
  accessFailure : Option ViewerFailureCode := .none
  signal : SignalConnectionState := .offline
  host : ViewerHostState := .unknown
  revision : Option ℤ := .none
  route : Option ViewerRouteFact := .none
  routeStatus : Option ViewerRouteStatusFact := .none
  connection : ConnectionState := .idle
  media : Option ViewerMediaFact := .none
  retainedFrame : Bool := false
  autoplayBlockedGeneration : Option ℤ := .none
  playbackFailedGeneration : Option ℤ := .none
  runtimeFailure : Bool := false
  receiveFailure : Bool := false
  deriving DecidableEq, Repr

/-- The facts as they arrive. -/
inductive ViewerPresentationAction
  /-- `failure` is undefined, null or a code. -/
  | access (access : Access) (failure : Option (Option ViewerFailureCode))
  | signal (signal : SignalConnectionState)
  | receiveFailure (revision : ℤ) (failure : Bool)
  | host (host : ViewerHostState)
  | route (revision : ℤ) (phase : MediaRoutePhase) (kind : ViewerRouteKind) (authoritative : Bool)
  | routeStatus (revision : ℤ) (state : RouteStatus)
  | connection (revision : ℤ) (connection : ConnectionState)
  | mediaBound (generation revision : ℤ)
  | framePresented (generation proofEpoch revision : ℤ)
  | frameProofReset (generation revision : ℤ)
  | frameProofRearm (generation : ℤ)
  | autoplayBlocked (generation revision : ℤ)
  | autoplayCleared (generation : ℤ)
  | playbackFailed (generation revision : ℤ)
  | mediaCleared
  | sharingStopped
  | serverError
  deriving DecidableEq, Repr

/-! ## The reducer -/

/-- A frame of the bound media was presented. -/
def hasCurrentFrame (state : ViewerPresentationState) : Bool :=
  state.media.any (·.framePresented)

/-- The action speaks of a revision before the recorded one. -/
def older (state : ViewerPresentationState) (revision : ℤ) : Bool :=
  state.revision.any fun recorded => revision < recorded

/-- A new epoch of the proof, in which the picture has not been presented. -/
def ViewerMediaFact.unproven (media : ViewerMediaFact) : ViewerMediaFact :=
  { media with proofEpoch := media.proofEpoch + 1, framePresented := false }

/-- A route of an older revision is ignored, unless it comes from the authority. -/
def reduceRoute (state : ViewerPresentationState) (revision : ℤ) (phase : MediaRoutePhase)
    (kind : ViewerRouteKind) (authoritative : Bool) : ViewerPresentationState :=
  if !authoritative && older state revision then state
  else
    let revisionChanged := state.revision ≠ some revision
    let committedRoute := phase = .active ∧ kind ≠ .none
    let failed := state.routeStatus.any fun status => status.state = .failed
    let started : ConnectionState := if kind = .none then .idle else .connecting
    { state with
      revision := some revision
      receiveFailure := if authoritative then false else state.receiveFailure
      route := some { revision, phase, kind }
      routeStatus :=
        if authoritative then .none
        else if ¬committedRoute ∧ (state.routeStatus.any (fun status => status.revision = revision) ∨
            (kind = .none ∧ failed)) then state.routeStatus
        else .none
      connection :=
        if authoritative ∧ state.media = .none then started
        else if committedRoute ∧ failed then
          if state.media.isSome then .reconnecting else .connecting
        else if revisionChanged ∧ state.media = .none then started
        else state.connection }

/-- A status of an older revision is ignored. -/
def reduceRouteStatus (state : ViewerPresentationState) (revision : ℤ) (status : RouteStatus) :
    ViewerPresentationState :=
  if older state revision then state
  else
    let revisionChanged := state.revision ≠ some revision
    let terminal := status = .failed
    { state with
      revision := some revision
      routeStatus := some { revision, state := status }
      connection :=
        if terminal then .failed else if state.media.isSome then state.connection else .connecting
      media := if terminal then state.media.map (·.unproven) else state.media
      autoplayBlockedGeneration :=
        if revisionChanged ∨ terminal then .none else state.autoplayBlockedGeneration
      retainedFrame := state.retainedFrame || (terminal && hasCurrentFrame state) }

/-- Write to the media of exactly this generation. -/
def onMedia (state : ViewerPresentationState) (generation : ℤ)
    (write : ViewerMediaFact → ViewerPresentationState) : ViewerPresentationState :=
  match state.media with
  | .none => state
  | some media => if media.generation ≠ generation then state else write media

/-- What a fact makes of the state. -/
def reduceViewerPresentation (state : ViewerPresentationState) :
    ViewerPresentationAction → ViewerPresentationState
  | .access access failure =>
    { state with
      access
      accessFailure := failure.getD (if access = .ready then .none else state.accessFailure)
      runtimeFailure := if access = .ready then false else state.runtimeFailure }
  | .signal signal => { state with signal }
  | .receiveFailure revision failure =>
    if older state revision then state
    else if state.receiveFailure = failure then state
    else { state with receiveFailure := failure }
  | .host host =>
    if host = .offline ∧ state.host = .stopped then state else { state with host }
  | .route revision phase kind authoritative => reduceRoute state revision phase kind authoritative
  | .routeStatus revision status => reduceRouteStatus state revision status
  | .connection revision connection =>
    if older state revision then state
    else { state with revision := some (max (state.revision.getD 0) revision), connection }
  | .mediaBound generation revision =>
    if state.media.any fun media => generation ≤ media.generation then state
    else { state with
      media := some { generation, boundAtRevision := revision, proofEpoch := 0, framePresented := false }
      retainedFrame := false
      autoplayBlockedGeneration := .none
      playbackFailedGeneration := .none }
  | .framePresented generation proofEpoch _ =>
    onMedia state generation fun media =>
      if media.proofEpoch ≠ proofEpoch then state
      else { state with
        connection := .connected
        media := some { media with framePresented := true }
        retainedFrame := false
        routeStatus := .none
        playbackFailedGeneration := .none
        receiveFailure := false }
  | .frameProofReset generation _ =>
    onMedia state generation fun media =>
      { state with
        media := some media.unproven
        retainedFrame := state.retainedFrame || media.framePresented }
  | .frameProofRearm generation =>
    onMedia state generation fun media =>
      { state with media := some { media with proofEpoch := media.proofEpoch + 1 } }
  | .autoplayBlocked generation _ =>
    onMedia state generation fun _ => { state with autoplayBlockedGeneration := some generation }
  | .autoplayCleared generation =>
    if state.autoplayBlockedGeneration ≠ some generation then state
    else { state with autoplayBlockedGeneration := .none }
  | .playbackFailed generation _ =>
    onMedia state generation fun _ => { state with playbackFailedGeneration := some generation }
  | .mediaCleared =>
    { state with
      media := .none
      retainedFrame := false
      autoplayBlockedGeneration := .none
      playbackFailedGeneration := .none }
  | .sharingStopped =>
    { state with
      host := .stopped
      revision := .none
      route := .none
      routeStatus := .none
      connection := .idle
      media := .none
      retainedFrame := false
      autoplayBlockedGeneration := .none
      playbackFailedGeneration := .none
      runtimeFailure := false
      receiveFailure := false }
  | .serverError => { state with runtimeFailure := true }

/-! ## The presentation -/

/-- The stages that are shown. -/
inductive ViewerStage
  | joining
  | roomNotFound
  | accessDenied
  | invalidInvite
  | roomClosed
  | roomFull
  | staleClient
  | serverError
  | sessionReplaced
  | signalTerminated
  | hostPaused
  | needsPlay
  | playing
  | recovering
  | routeFailed
  | videoRejected
  | playbackFailed
  | waitingHost
  | hostOffline
  | waitingSfu
  | preparingP2p
  | preparingSfu
  | receiving
  | allocating
  deriving DecidableEq, Repr

/-- The keys `viewer.msg.…`. -/
inductive ViewerMessageKey
  | joining
  | notFound
  | denied
  | invalidInvite
  | closed
  | full
  | stale
  | sessionReplaced
  | signalTerminated
  | joinUnavailable
  | hostPaused
  | needsPlay
  | recovering
  | playing
  | videoRejected
  | routeFailed
  | playbackFailed
  | serverError
  | waitingHost
  | hostOffline
  | preparingSfu
  | preparingP2p
  | receiving
  | allocating
  deriving DecidableEq, Repr

/-- The keys `viewer.notice.…`. -/
inductive ViewerNoticeKey
  | hostOffline
  | signalRecovering
  deriving DecidableEq, Repr

/-- What is laid over the picture. -/
inductive Overlay
  | none
  | status
  | blocking
  deriving DecidableEq, Repr

/-- What the viewer sees. -/
structure ViewerPresentation where
  stage : ViewerStage
  messageKey : ViewerMessageKey
  noticeKey : Option ViewerNoticeKey := .none
  overlay : Overlay
  hasCurrentFrame : Bool
  hasRetainedFrame : Bool
  failureCode : Option ViewerFailureCode
  deriving DecidableEq, Repr

/-- A stage with its message; the failure is shown only where access was denied. -/
def presentation (stage : ViewerStage) (messageKey : ViewerMessageKey) (overlay : Overlay)
    (state : ViewerPresentationState)
    (failureCode : Option ViewerFailureCode :=
      if state.access = .denied then state.accessFailure else .none) : ViewerPresentation :=
  { stage, messageKey, overlay, failureCode
    hasCurrentFrame := hasCurrentFrame state
    hasRetainedFrame := state.retainedFrame }

/-- The stage of a denied access. -/
def deriveDenied (state : ViewerPresentationState) : ViewerPresentation :=
  match state.accessFailure with
  | some .roomNotFound => presentation .roomNotFound .notFound .blocking state
  | some .roomAccessDenied => presentation .accessDenied .denied .blocking state
  | some .invalidToken => presentation .invalidInvite .invalidInvite .blocking state
  | some .roomClosed => presentation .roomClosed .closed .blocking state
  | some .roomFull => presentation .roomFull .full .blocking state
  | some .staleClient => presentation .staleClient .stale .blocking state
  | some .sessionReplaced => presentation .sessionReplaced .sessionReplaced .blocking state
  | some .signalTerminated => presentation .signalTerminated .signalTerminated .blocking state
  | _ => presentation .serverError .joinUnavailable .blocking state

/-- The stage while a frame is there. -/
def deriveCurrent (state : ViewerPresentationState) : ViewerPresentation :=
  let signalRecovering := state.signal = .reconnecting ∨ state.signal = .connecting
  let mediaRecovering := state.connection = .reconnecting ∨ state.connection = .failed
  { presentation (if mediaRecovering then .recovering else .playing)
      (if mediaRecovering then .recovering else .playing) .none state with
    noticeKey :=
      if state.host = .offline then some .hostOffline
      else if signalRecovering then some .signalRecovering else .none
    failureCode := if state.host = .offline then some .hostOffline else .none }

/-- Neither a picture nor a failure: the route that is prepared or taken. -/
def derivePreparing (state : ViewerPresentationState) (overlay : Overlay) : ViewerPresentation :=
  match state.route with
  | some { phase := .prepare, kind := .sfu, .. } => presentation .preparingSfu .preparingSfu overlay state
  | some { phase := .prepare, .. } => presentation .preparingP2p .preparingP2p overlay state
  | some { kind := .p2p, .. } => presentation .preparingP2p .preparingP2p overlay state
  | some { kind := .sfu, .. } => presentation .preparingSfu .preparingSfu overlay state
  | _ => presentation .allocating .allocating overlay state

/-- Without a current frame: why there is none. -/
def deriveMissing (state : ViewerPresentationState) : ViewerPresentation :=
  let frameOverlay : Overlay := if state.retainedFrame then .status else .blocking
  if state.host = .online ∧ state.routeStatus.any (fun status => status.state = .failed) then
    if state.receiveFailure then
      presentation .videoRejected .videoRejected frameOverlay state (some .videoRejected)
    else presentation .routeFailed .routeFailed frameOverlay state (some .routeExhausted)
  else if state.media.any (fun media => state.playbackFailedGeneration = some media.generation) then
    presentation .playbackFailed .playbackFailed frameOverlay state (some .playbackFailed)
  else if state.runtimeFailure then
    presentation .serverError .serverError frameOverlay state (some .serverError)
  else if state.host = .stopped ∨ state.host = .unknown then
    presentation .waitingHost .waitingHost frameOverlay state
      (if state.host = .stopped then some .hostStopped else .none)
  else if state.host = .offline then
    presentation .hostOffline .hostOffline frameOverlay state (some .hostOffline)
  else if state.routeStatus.any (fun status => status.state = .waiting) then
    presentation .waitingSfu .preparingSfu frameOverlay state
  else if state.signal = .reconnecting ∨ state.connection = .reconnecting ∨
      state.connection = .failed then
    presentation .recovering .recovering frameOverlay state
  else if state.media.isSome then presentation .receiving .receiving frameOverlay state
  else derivePreparing state frameOverlay

/-- What the viewer sees of a state, the first condition that holds. -/
def deriveViewerPresentation (state : ViewerPresentationState) : ViewerPresentation :=
  if state.access = .checking then presentation .joining .joining .blocking state
  else if state.access = .denied then deriveDenied state
  else if state.host = .paused then
    presentation .hostPaused .hostPaused
      (if hasCurrentFrame state || state.retainedFrame then .status else .blocking) state
  else if state.media.any (fun media => state.autoplayBlockedGeneration = some media.generation) ∧
      state.connection = .connected then
    presentation .needsPlay .needsPlay .status state (some .autoplayBlocked)
  else if hasCurrentFrame state then deriveCurrent state
  else deriveMissing state

/-! ## Runs -/

/-- The state after a sequence of actions. -/
def reduced (actions : List ViewerPresentationAction) : ViewerPresentationState :=
  actions.foldl reduceViewerPresentation {}

@[simp] theorem reduced_nil : reduced [] = {} := rfl

@[simp] theorem reduced_snoc (actions : List ViewerPresentationAction) (action : ViewerPresentationAction) :
    reduced (actions ++ [action]) = reduceViewerPresentation (reduced actions) action := by
  simp [reduced]

variable {state : ViewerPresentationState} {action : ViewerPresentationAction}
  {actions : List ViewerPresentationAction} {media : ViewerMediaFact}

theorem onMedia_some {generation : ℤ} {write : ViewerMediaFact → ViewerPresentationState}
    (h : state.media = some media) : onMedia state generation write =
      if media.generation ≠ generation then state else write media := by
  simp [onMedia, h]

theorem onMedia_none {generation : ℤ} {write : ViewerMediaFact → ViewerPresentationState}
    (h : state.media = .none) : onMedia state generation write = state := by
  simp [onMedia, h]

/-! ## What is shown -/

@[simp] theorem presentation_hasCurrentFrame {stage : ViewerStage} {messageKey : ViewerMessageKey}
    {overlay : Overlay} {failureCode : Option ViewerFailureCode} :
    (presentation stage messageKey overlay state failureCode).hasCurrentFrame =
      hasCurrentFrame state := rfl

theorem deriveDenied_hasCurrentFrame : (deriveDenied state).hasCurrentFrame = hasCurrentFrame state := by
  unfold deriveDenied
  split <;> rfl

theorem derivePreparing_hasCurrentFrame {overlay : Overlay} :
    (derivePreparing state overlay).hasCurrentFrame = hasCurrentFrame state := by
  unfold derivePreparing
  split <;> rfl

theorem deriveMissing_hasCurrentFrame : (deriveMissing state).hasCurrentFrame = hasCurrentFrame state := by
  simp only [deriveMissing, apply_ite ViewerPresentation.hasCurrentFrame, presentation_hasCurrentFrame,
    derivePreparing_hasCurrentFrame, ite_self]

/-- Every presentation reports the frame of the state. -/
theorem derive_hasCurrentFrame :
    (deriveViewerPresentation state).hasCurrentFrame = hasCurrentFrame state := by
  have hcurrent : (deriveCurrent state).hasCurrentFrame = hasCurrentFrame state := rfl
  simp only [deriveViewerPresentation, apply_ite ViewerPresentation.hasCurrentFrame,
    presentation_hasCurrentFrame, deriveDenied_hasCurrentFrame, hcurrent, deriveMissing_hasCurrentFrame,
    ite_self]

/-! ## The proof of a frame -/

theorem reduceRoute_media {revision : ℤ} {phase : MediaRoutePhase} {kind : ViewerRouteKind}
    {authoritative : Bool} :
    (reduceRoute state revision phase kind authoritative).media = state.media := by
  rw [reduceRoute]
  split <;> rfl

theorem reduceRouteStatus_media {revision : ℤ} {status : RouteStatus} :
    (reduceRouteStatus state revision status).media =
      if older state revision = false ∧ status = .failed then state.media.map (·.unproven)
      else state.media := by
  rw [reduceRouteStatus]
  cases older state revision
  · simp
  · simp

theorem onMedia_media {generation : ℤ} {write : ViewerMediaFact → ViewerPresentationState}
    (h : ∀ media, (write media).media = state.media) :
    (onMedia state generation write).media = state.media := by
  unfold onMedia
  split
  · rfl
  · split
    · rfl
    · exact h _

/-- The picture that an action leaves presented was presented by it, or was before:
    then the action began a new epoch or left the proof alone. -/
theorem presented_step {m' : ViewerMediaFact}
    (hmedia : (reduceViewerPresentation state action).media = some m') (hframe : m'.framePresented) :
    (∃ m revision, state.media = some m ∧ m.generation = m'.generation ∧ m.proofEpoch = m'.proofEpoch ∧
      action = .framePresented m'.generation m'.proofEpoch revision) ∨
    ∃ m, state.media = some m ∧ m.framePresented ∧ m.generation = m'.generation ∧
      m'.proofEpoch = m.proofEpoch + if action = .frameProofRearm m'.generation then 1 else 0 := by
  cases action with
  | route revision phase kind authoritative =>
    rw [reduceViewerPresentation, reduceRoute_media] at hmedia
    exact Or.inr ⟨m', hmedia, hframe, rfl, by simp⟩
  | routeStatus revision status =>
    rw [reduceViewerPresentation, reduceRouteStatus_media] at hmedia
    split at hmedia
    · obtain ⟨m, -, rfl⟩ := Option.map_eq_some_iff.1 hmedia
      exact absurd hframe Bool.false_ne_true
    · exact Or.inr ⟨m', hmedia, hframe, rfl, by simp⟩
  | framePresented generation proofEpoch revision =>
    cases hm : state.media with
    | none =>
      rw [reduceViewerPresentation, onMedia_none hm, hm] at hmedia
      cases hmedia
    | some m =>
      rw [reduceViewerPresentation, onMedia_some hm] at hmedia
      split_ifs at hmedia with hg he
      · exact Or.inr ⟨m', hm ▸ hmedia, hframe, rfl, by simp⟩
      · exact Or.inr ⟨m', hm ▸ hmedia, hframe, rfl, by simp⟩
      · obtain rfl := Option.some.inj hmedia
        have hg := not_not.1 hg
        have he := not_not.1 he
        exact Or.inl ⟨m, revision, rfl, rfl, rfl, by rw [← hg, ← he]⟩
  | frameProofRearm generation =>
    cases hm : state.media with
    | none =>
      rw [reduceViewerPresentation, onMedia_none hm, hm] at hmedia
      cases hmedia
    | some m =>
      rw [reduceViewerPresentation, onMedia_some hm] at hmedia
      split_ifs at hmedia with hg
      · rw [hm] at hmedia
        obtain rfl := Option.some.inj hmedia
        exact Or.inr ⟨m, rfl, hframe, rfl, by simp [Ne.symm hg]⟩
      · obtain rfl := Option.some.inj hmedia
        exact Or.inr ⟨m, rfl, hframe, rfl, by simp [not_not.1 hg]⟩
  | frameProofReset generation revision =>
    cases hm : state.media with
    | none =>
      rw [reduceViewerPresentation, onMedia_none hm, hm] at hmedia
      cases hmedia
    | some m =>
      rw [reduceViewerPresentation, onMedia_some hm] at hmedia
      split_ifs at hmedia with hg
      · exact Or.inr ⟨m', hm ▸ hmedia, hframe, rfl, by simp⟩
      · obtain rfl := Option.some.inj hmedia
        exact absurd hframe Bool.false_ne_true
  | mediaBound generation revision =>
    rw [reduceViewerPresentation] at hmedia
    split at hmedia
    · exact Or.inr ⟨m', hmedia, hframe, rfl, by simp⟩
    · obtain rfl := Option.some.inj hmedia
      exact absurd hframe Bool.false_ne_true
  | autoplayBlocked generation revision =>
    rw [reduceViewerPresentation, onMedia_media (by intro _; rfl)] at hmedia
    exact Or.inr ⟨m', hmedia, hframe, rfl, by simp⟩
  | playbackFailed generation revision =>
    rw [reduceViewerPresentation, onMedia_media (by intro _; rfl)] at hmedia
    exact Or.inr ⟨m', hmedia, hframe, rfl, by simp⟩
  | autoplayCleared generation =>
    rw [reduceViewerPresentation, apply_ite ViewerPresentationState.media, ite_self] at hmedia
    exact Or.inr ⟨m', hmedia, hframe, rfl, by simp⟩
  | receiveFailure revision failure =>
    simp only [reduceViewerPresentation, apply_ite ViewerPresentationState.media, ite_self] at hmedia
    exact Or.inr ⟨m', hmedia, hframe, rfl, by simp⟩
  | connection revision connection =>
    simp only [reduceViewerPresentation, apply_ite ViewerPresentationState.media, ite_self] at hmedia
    exact Or.inr ⟨m', hmedia, hframe, rfl, by simp⟩
  | host host =>
    simp only [reduceViewerPresentation, apply_ite ViewerPresentationState.media, ite_self] at hmedia
    exact Or.inr ⟨m', hmedia, hframe, rfl, by simp⟩
  | mediaCleared => simp [reduceViewerPresentation] at hmedia
  | sharingStopped => simp [reduceViewerPresentation] at hmedia
  | access access failure => exact Or.inr ⟨m', hmedia, hframe, rfl, by simp⟩
  | signal signal => exact Or.inr ⟨m', hmedia, hframe, rfl, by simp⟩
  | serverError => exact Or.inr ⟨m', hmedia, hframe, rfl, by simp⟩

/-- The last presentation of a picture, and the epochs begun since. -/
structure PresentedAt (actions : List ViewerPresentationAction) (media : ViewerMediaFact)
    (before : List ViewerPresentationAction) (epoch revision : ℤ)
    (after : List ViewerPresentationAction) : Prop where
  split : actions = before ++ .framePresented media.generation epoch revision :: after
  current : ∃ m, (reduced before).media = some m ∧ m.generation = media.generation ∧ m.proofEpoch = epoch
  epochs : media.proofEpoch = epoch + after.count (.frameProofRearm media.generation)
  kept : ∀ later, later <+: after →
    ∃ m, (reduced (before ++ .framePresented media.generation epoch revision :: later)).media = some m ∧
      m.generation = media.generation ∧ m.framePresented

theorem presentedAt_of_presented (hmedia : (reduced actions).media = some media)
    (hframe : media.framePresented) :
    ∃ before epoch revision after, PresentedAt actions media before epoch revision after := by
  induction actions using List.reverseRecOn generalizing media with
  | nil => cases hmedia
  | append_singleton actions action ih =>
    have hstep := hmedia
    rw [reduced_snoc] at hstep
    rcases presented_step hstep hframe with ⟨m, revision, hm, hg, he, rfl⟩ | ⟨m, hm, hf, hg, he⟩
    · refine ⟨actions, media.proofEpoch, revision, [], rfl, ⟨m, hm, hg, he⟩, by simp, fun later hlater => ?_⟩
      obtain rfl := List.prefix_nil.1 hlater
      exact ⟨media, hmedia, rfl, hframe⟩
    · obtain ⟨before, epoch, revision, after, hat⟩ := ih hm hf
      have hsplit : actions ++ [action] =
          before ++ .framePresented media.generation epoch revision :: (after ++ [action]) := by
        rw [hat.split, hg]
        simp
      refine ⟨before, epoch, revision, after ++ [action], hsplit, hg ▸ hat.current, ?_, fun later hlater => ?_⟩
      · rw [he, hat.epochs, hg, List.count_append, List.count_singleton]
        simp only [beq_iff_eq]
        split <;> push_cast <;> omega
      · rcases List.prefix_concat_iff.1 hlater with rfl | hlater
        · exact ⟨media, hsplit ▸ hmedia, rfl, hframe⟩
        · exact hg ▸ hat.kept later hlater

/-! ## Stale actions -/

/-- The action speaks of an earlier picture, an earlier proof or an earlier revision. -/
def Stale (state : ViewerPresentationState) : ViewerPresentationAction → Prop
  | .mediaBound generation _ => ∃ media, state.media = some media ∧ generation ≤ media.generation
  | .framePresented generation proofEpoch _ => ∀ media, state.media = some media →
    media.generation ≠ generation ∨ media.proofEpoch ≠ proofEpoch
  | .frameProofReset generation _ | .frameProofRearm generation | .autoplayBlocked generation _
  | .autoplayCleared generation | .playbackFailed generation _ =>
    ∀ media, state.media = some media → media.generation ≠ generation
  | .receiveFailure revision _ | .routeStatus revision _ | .connection revision _
  | .route revision _ _ false => ∃ recorded, state.revision = some recorded ∧ revision < recorded
  | _ => False

/-- Playback is blocked for the current picture or for none. -/
def BlockedCurrent (state : ViewerPresentationState) : Prop :=
  ∀ generation, state.autoplayBlockedGeneration = some generation →
    ∃ media, state.media = some media ∧ media.generation = generation

/-- The same generation of media, with nothing newly blocked. -/
theorem BlockedCurrent.of_same {state' : ViewerPresentationState} (h : BlockedCurrent state)
    (hmedia : state'.media.map (·.generation) = state.media.map (·.generation))
    (hblocked : state'.autoplayBlockedGeneration = .none ∨
      state'.autoplayBlockedGeneration = state.autoplayBlockedGeneration) : BlockedCurrent state' := by
  intro generation hgen
  rcases hblocked with hblocked | hblocked
  · rw [hblocked] at hgen
    cases hgen
  · obtain ⟨media, hm, hg⟩ := h generation (hblocked ▸ hgen)
    rw [hm] at hmedia
    obtain ⟨media', hm', hg'⟩ := Option.map_eq_some_iff.1 hmedia
    exact ⟨media', hm', hg'.trans hg⟩

theorem blocked_step (h : BlockedCurrent state) : BlockedCurrent (reduceViewerPresentation state action) := by
  have hnone : ∀ state' : ViewerPresentationState, state'.autoplayBlockedGeneration = .none →
      BlockedCurrent state' := fun state' hs generation hgen => by
    rw [hs] at hgen
    cases hgen
  cases action with
  | route revision phase kind authoritative =>
    refine h.of_same (congrArg _ reduceRoute_media) (Or.inr ?_)
    rw [reduceViewerPresentation, reduceRoute]
    split <;> rfl
  | routeStatus revision status =>
    refine h.of_same ?_ ?_
    · rw [reduceViewerPresentation, reduceRouteStatus_media]
      split
      · rw [Option.map_map]
        rfl
      · rfl
    · rw [reduceViewerPresentation, reduceRouteStatus]
      split
      · exact Or.inr rfl
      · by_cases hc : state.revision ≠ some revision ∨ status = .failed
        · exact Or.inl (if_pos hc)
        · exact Or.inr (if_neg hc)
  | framePresented generation proofEpoch revision =>
    rw [reduceViewerPresentation]
    cases hm : state.media with
    | none => rwa [onMedia_none hm]
    | some m =>
      rw [onMedia_some hm]
      split_ifs
      · exact h
      · exact h
      · exact h.of_same (by rw [hm]; rfl) (Or.inr rfl)
  | frameProofRearm generation =>
    rw [reduceViewerPresentation]
    cases hm : state.media with
    | none => rwa [onMedia_none hm]
    | some m =>
      rw [onMedia_some hm]
      split_ifs
      · exact h
      · exact h.of_same (by rw [hm]; rfl) (Or.inr rfl)
  | frameProofReset generation revision =>
    rw [reduceViewerPresentation]
    cases hm : state.media with
    | none => rwa [onMedia_none hm]
    | some m =>
      rw [onMedia_some hm]
      split_ifs
      · exact h
      · exact h.of_same (by rw [hm]; rfl) (Or.inr rfl)
  | autoplayBlocked generation revision =>
    rw [reduceViewerPresentation]
    cases hm : state.media with
    | none => rwa [onMedia_none hm]
    | some m =>
      rw [onMedia_some hm]
      split_ifs with hg
      · exact h
      · rintro generation' hgen
        obtain rfl := Option.some.inj hgen
        exact ⟨m, rfl, not_not.1 hg⟩
  | playbackFailed generation revision =>
    rw [reduceViewerPresentation]
    cases hm : state.media with
    | none => rwa [onMedia_none hm]
    | some m =>
      rw [onMedia_some hm]
      split_ifs
      · exact h
      · exact h.of_same (by rw [hm]) (Or.inr rfl)
  | mediaBound generation revision =>
    rw [reduceViewerPresentation]
    split
    · exact h
    · exact hnone _ rfl
  | autoplayCleared generation =>
    rw [reduceViewerPresentation]
    split
    · exact h
    · exact hnone _ rfl
  | receiveFailure revision failure =>
    rw [reduceViewerPresentation]
    split_ifs <;> exact h
  | connection revision connection =>
    rw [reduceViewerPresentation]
    split <;> exact h
  | host host =>
    rw [reduceViewerPresentation]
    split <;> exact h
  | mediaCleared => exact hnone _ rfl
  | sharingStopped => exact hnone _ rfl
  | access access failure => exact h
  | signal signal => exact h
  | serverError => exact h

theorem blocked_current : BlockedCurrent (reduced actions) := by
  induction actions using List.reverseRecOn with
  | nil =>
    intro generation h
    cases h
  | append_singleton actions action ih =>
    rw [reduced_snoc]
    exact blocked_step ih

theorem older_of_lt {revision recorded : ℤ} (h : state.revision = some recorded) (hlt : revision < recorded) :
    older state revision = true := by
  simp [older, h, hlt]

/-- An action about another picture changes nothing. -/
theorem onMedia_other {generation : ℤ} {write : ViewerMediaFact → ViewerPresentationState}
    (h : ∀ media, state.media = some media → media.generation ≠ generation) :
    onMedia state generation write = state := by
  cases hm : state.media with
  | none => exact onMedia_none hm
  | some m => rw [onMedia_some hm, if_pos (h m hm)]

theorem stale_unchanged (h : Stale (reduced actions) action) :
    reduceViewerPresentation (reduced actions) action = reduced actions := by
  generalize hs : reduced actions = s at h
  have hblocked : BlockedCurrent s := hs ▸ blocked_current
  cases action with
  | mediaBound generation revision =>
    obtain ⟨media, hm, hle⟩ := h
    simp [reduceViewerPresentation, hm, hle]
  | framePresented generation proofEpoch revision =>
    rw [reduceViewerPresentation]
    cases hm : s.media with
    | none => exact onMedia_none hm
    | some m =>
      rw [onMedia_some hm]
      rcases h m hm with hg | he
      · rw [if_pos hg]
      · rw [if_pos he, ite_self]
  | frameProofReset generation revision => exact onMedia_other h
  | frameProofRearm generation => exact onMedia_other h
  | autoplayBlocked generation revision => exact onMedia_other h
  | playbackFailed generation revision => exact onMedia_other h
  | autoplayCleared generation =>
    have hne : s.autoplayBlockedGeneration ≠ some generation := by
      intro heq
      obtain ⟨media, hm, hg⟩ := hblocked generation heq
      exact h media hm hg
    rw [reduceViewerPresentation, if_pos hne]
  | receiveFailure revision failure =>
    obtain ⟨recorded, hr, hlt⟩ := h
    rw [reduceViewerPresentation, if_pos (older_of_lt hr hlt)]
  | routeStatus revision status =>
    obtain ⟨recorded, hr, hlt⟩ := h
    rw [reduceViewerPresentation, reduceRouteStatus, if_pos (older_of_lt hr hlt)]
  | connection revision connection =>
    obtain ⟨recorded, hr, hlt⟩ := h
    rw [reduceViewerPresentation, if_pos (older_of_lt hr hlt)]
  | route revision phase kind authoritative =>
    cases authoritative with
    | true => exact h.elim
    | false =>
      obtain ⟨recorded, hr, hlt⟩ := h
      rw [reduceViewerPresentation, reduceRoute, if_pos (by simp [older_of_lt hr hlt])]
  | access access failure => exact h.elim
  | signal signal => exact h.elim
  | host host => exact h.elim
  | mediaCleared => exact h.elim
  | sharingStopped => exact h.elim
  | serverError => exact h.elim

/-! ## Revisions -/

theorem le_of_not_older {revision recorded : ℤ} (h : state.revision = some recorded)
    (hold : ¬older state revision = true) : recorded ≤ revision := by
  by_contra hlt
  exact hold (older_of_lt h (not_le.1 hlt))

theorem onMedia_revision {generation : ℤ} {write : ViewerMediaFact → ViewerPresentationState}
    (h : ∀ media, (write media).revision = state.revision) :
    (onMedia state generation write).revision = state.revision := by
  unfold onMedia
  split
  · rfl
  · split
    · rfl
    · exact h _

theorem revision_mono {recorded : ℤ} (h : state.revision = some recorded)
    (hroute : ∀ revision phase kind, action ≠ .route revision phase kind true)
    (hstop : action ≠ .sharingStopped) : ∃ recorded',
      (reduceViewerPresentation state action).revision = some recorded' ∧ recorded ≤ recorded' := by
  have hsame : ∀ state' : ViewerPresentationState, state'.revision = state.revision →
      ∃ recorded', state'.revision = some recorded' ∧ recorded ≤ recorded' :=
    fun state' hs => ⟨recorded, hs.trans h, le_rfl⟩
  cases action with
  | route revision phase kind authoritative =>
    cases authoritative with
    | true => exact absurd rfl (hroute revision phase kind)
    | false =>
      rw [reduceViewerPresentation, reduceRoute]
      split
      · exact hsame _ rfl
      · next hold => exact ⟨revision, rfl, le_of_not_older h (by simpa using hold)⟩
  | routeStatus revision status =>
    rw [reduceViewerPresentation, reduceRouteStatus]
    split
    · exact hsame _ rfl
    · next hold => exact ⟨revision, rfl, le_of_not_older h hold⟩
  | connection revision connection =>
    rw [reduceViewerPresentation]
    split
    · exact hsame _ rfl
    · exact ⟨_, rfl, by simp [h]⟩
  | receiveFailure revision failure =>
    rw [reduceViewerPresentation]
    split_ifs <;> exact hsame _ rfl
  | framePresented generation proofEpoch revision =>
    refine hsame _ (onMedia_revision fun media => ?_)
    split <;> rfl
  | frameProofReset generation revision => exact hsame _ (onMedia_revision fun _ => rfl)
  | frameProofRearm generation => exact hsame _ (onMedia_revision fun _ => rfl)
  | autoplayBlocked generation revision => exact hsame _ (onMedia_revision fun _ => rfl)
  | playbackFailed generation revision => exact hsame _ (onMedia_revision fun _ => rfl)
  | mediaBound generation revision =>
    rw [reduceViewerPresentation]
    split <;> exact hsame _ rfl
  | autoplayCleared generation =>
    rw [reduceViewerPresentation]
    split <;> exact hsame _ rfl
  | host host =>
    rw [reduceViewerPresentation]
    split <;> exact hsame _ rfl
  | mediaCleared => exact hsame _ rfl
  | sharingStopped => exact absurd rfl hstop
  | access access failure => exact hsame _ rfl
  | signal signal => exact hsame _ rfl
  | serverError => exact hsame _ rfl

/-! ## The presentation proof -/

/-- A frame is reported from its own `frame-presented` on, through epochs that only
    re-arm the proof; stale actions change nothing; the revision goes back only with
    an authoritative route or the end of sharing. -/
theorem presentation_proof (actions : List ViewerPresentationAction) :
    ((deriveViewerPresentation (reduced actions)).hasCurrentFrame = true →
      ∃ media before epoch revision after, (reduced actions).media = some media ∧
        PresentedAt actions media before epoch revision after) ∧
    (∀ action, Stale (reduced actions) action →
      reduceViewerPresentation (reduced actions) action = reduced actions) ∧
    ∀ action recorded, (reduced actions).revision = some recorded →
      (∀ revision phase kind, action ≠ .route revision phase kind true) → action ≠ .sharingStopped →
      ∃ recorded', (reduceViewerPresentation (reduced actions) action).revision = some recorded' ∧
        recorded ≤ recorded' := by
  refine ⟨fun hframe => ?_, fun action => stale_unchanged, fun action recorded => revision_mono⟩
  rw [derive_hasCurrentFrame] at hframe
  rcases hm : (reduced actions).media with _ | media
  · simp [hasCurrentFrame, hm] at hframe
  · have hf : media.framePresented := by simpa [hasCurrentFrame, hm] using hframe
    obtain ⟨before, epoch, revision, after, hat⟩ := presentedAt_of_presented hm hf
    exact ⟨media, before, epoch, revision, after, rfl, hat⟩

theorem presentation_proof_playing : ∃ media before epoch revision after,
    PresentedAt [.mediaBound 1 5, .framePresented 1 0 5] media before epoch revision after := by
  obtain ⟨media, before, epoch, revision, after, -, hat⟩ :=
    (presentation_proof [.mediaBound 1 5, .framePresented 1 0 5]).1 (by decide)
  exact ⟨media, before, epoch, revision, after, hat⟩

/-- A re-armed proof reports the frame of the epoch before; a presentation of an older
    revision still counts. -/
theorem rearmed_frame_reported :
    let actions : List ViewerPresentationAction :=
      [.access .ready .none, .route 5 .active .p2p false, .mediaBound 1 5, .framePresented 1 0 1,
        .frameProofRearm 1]
    (deriveViewerPresentation (reduced actions)).hasCurrentFrame = true ∧
      (reduced actions).media = some ⟨1, 5, 1, true⟩ ∧
      (∀ revision, .framePresented 1 1 revision ∉ actions) ∧
      reduced (actions.take 4) ≠ reduced (actions.take 3) := by
  refine ⟨by decide, by decide, fun revision h => ?_, by decide⟩
  simp at h

end Piik.Client.Presentation
