/-
  `ConsecutiveCandidateQualityProbe` (`client/media/candidate-quality-probe.ts`):
  a candidate route is approved once it has kept up with the current one for
  three windows in a row.  Numbers are exact.
-/
import Mathlib

namespace Piik.Client

/-! ## Samples -/

/-- A reading of a clock or a counter: a number, or one that is not finite. -/
inductive Reading
  | finite (value : ℚ)
  | notFinite
  deriving DecidableEq

/-- What the probe reads of the metrics; `none` is `null`. -/
structure ConnectionMetrics where
  sampleTimestampMs : Option Reading := none
  sampleWindowMs : Option Reading := none
  frameWidth : Option Reading := none
  frameHeight : Option Reading := none
  bitrateKbps : Option Reading := none
  intervalFramesDecoded : Option Reading := none
  intervalFreezeCount : Option Reading := none
  intervalFreezeDurationMs : Option Reading := none
  intervalPauseCount : Option Reading := none
  intervalPauseDurationMs : Option Reading := none
  deriving DecidableEq

/-- The pictures that were delivered in a window. -/
structure DeliveredVideoSample where
  timestampMs : ℚ
  windowMs : ℚ
  pixels : ℚ
  framesDecoded : ℚ
  bitrateKbps : Option ℚ

/-- A reading that is there and finite. -/
def number : Option Reading → Option ℚ
  | some (.finite value) => some value
  | _ => none

/-- A window of one to five seconds. -/
def windowFits (windowMs : ℚ) : Bool := !(windowMs < 1000) && !(windowMs > 5000)

/-- A window in which no picture was decoded. -/
def deliveredNothingSample (metrics : ConnectionMetrics) : Option DeliveredVideoSample :=
  match number metrics.sampleTimestampMs, number metrics.sampleWindowMs with
  | some timestampMs, some windowMs =>
    if !windowFits windowMs || metrics.intervalFramesDecoded ≠ some (.finite 0) then none
    else some { timestampMs, windowMs, pixels := 0, framesDecoded := 0, bitrateKbps := some 0 }
  | _, _ => none

/-- A window with pictures, whose numbers are all there. -/
def deliveredVideoSample (metrics : ConnectionMetrics) : Option DeliveredVideoSample :=
  match number metrics.sampleTimestampMs, number metrics.sampleWindowMs, number metrics.frameWidth,
      number metrics.frameHeight, number metrics.intervalFramesDecoded with
  | some timestampMs, some windowMs, some frameWidth, some frameHeight, some framesDecoded =>
    if frameWidth ≤ 0 || frameHeight ≤ 0 || !windowFits windowMs || framesDecoded ≤ 0 then none
    else some { timestampMs, windowMs, pixels := frameWidth * frameHeight, framesDecoded
                bitrateKbps := (number metrics.bitrateKbps).filter (0 < ·) }
  | _, _, _, _, _ => none

/-- `Math.round`. -/
def round (x : ℚ) : ℚ := ⌊x + 1 / 2⌋

/-- The frames the candidate lacks, normalized to its window. -/
def frameCountDeficit (currentFrames currentWindowMs candidateFrames candidateWindowMs : ℚ) : ℚ :=
  round (currentFrames * candidateWindowMs / currentWindowMs) - candidateFrames

/-- At most one frame less than the current connection would have delivered. -/
def frameRateDoesNotRegress (current candidate : DeliveredVideoSample) : Bool :=
  frameCountDeficit current.framesDecoded current.windowMs candidate.framesDecoded
    candidate.windowMs ≤ 1

/-- A dead incumbent is comparable only when the candidate actually delivers. -/
def comparableSamples (current candidate : ConnectionMetrics) :
    Option (DeliveredVideoSample × DeliveredVideoSample) :=
  match deliveredVideoSample current <|> deliveredNothingSample current,
      deliveredVideoSample candidate with
  | some currentVideo, some candidateVideo =>
    if max (currentVideo.timestampMs - currentVideo.windowMs)
        (candidateVideo.timestampMs - candidateVideo.windowMs) ≥
          min currentVideo.timestampMs candidateVideo.timestampMs ||
      candidate.intervalFreezeCount.isNone || candidate.intervalFreezeDurationMs.isNone ||
      candidate.intervalPauseCount.isNone || candidate.intervalPauseDurationMs.isNone then none
    else some (currentVideo, candidateVideo)
  | _, _ => none

/-- No freeze and no pause in the window. -/
def unbroken (candidate : ConnectionMetrics) : Bool :=
  candidate.intervalFreezeCount = some (.finite 0) &&
    candidate.intervalFreezeDurationMs = some (.finite 0) &&
    candidate.intervalPauseCount = some (.finite 0) &&
    candidate.intervalPauseDurationMs = some (.finite 0)

/-- A candidate through the SFU against the current connection; `none` where they cannot be
    compared. -/
def sfuCandidateDoesNotRegress (current candidate : ConnectionMetrics) : Option Bool :=
  match comparableSamples current candidate with
  | none => none
  | some (currentVideo, candidateVideo) =>
    match currentVideo.bitrateKbps, candidateVideo.bitrateKbps with
    | some currentKbps, some candidateKbps =>
      some (unbroken candidate && candidateVideo.pixels ≥ currentVideo.pixels &&
        frameRateDoesNotRegress currentVideo candidateVideo && candidateKbps ≥ currentKbps)
    | _, _ => none

/-- A direct candidate against the current connection; `none` where they cannot be compared. -/
def p2pCandidateDoesNotRegress (current candidate : ConnectionMetrics) : Option Bool :=
  match comparableSamples current candidate with
  | none => none
  | some (currentVideo, candidateVideo) =>
    some (unbroken candidate && candidateVideo.pixels ≥ currentVideo.pixels &&
      frameRateDoesNotRegress currentVideo candidateVideo)

/-! ## The probe -/

/-- `SfuQualityProbe` and `P2pQualityProbe`. -/
inductive QualityProbe
  | sfu
  | p2p
  deriving DecidableEq

/-- The comparison of a probe. -/
def QualityProbe.compare : QualityProbe → ConnectionMetrics → ConnectionMetrics → Option Bool
  | sfu => sfuCandidateDoesNotRegress
  | p2p => p2pCandidateDoesNotRegress

/-- The verdict on a candidate. -/
inductive CandidateQualityProbeResult
  | pending
  | approved
  | rejected
  deriving DecidableEq

/-- The last samples, and the runs that end with them. -/
structure ProbeState where
  lastCandidateTimestampMs : Option ℚ := none
  lastCurrentTimestampMs : Option ℚ := none
  consecutiveApprovedWindows : ℕ := 0
  consecutiveRejectedWindows : ℕ := 0
  consecutiveFrameDeficit : ℚ := 0

/-- The windows in a row that make a verdict. -/
def persistentNativeEdgeDegradedWindows : ℕ := 3

/-- The deficit of a window, whose readings are there once it compares. -/
def windowDeficit (current candidate : ConnectionMetrics) : ℚ :=
  frameCountDeficit ((number current.intervalFramesDecoded).getD 0)
    ((number current.sampleWindowMs).getD 0) ((number candidate.intervalFramesDecoded).getD 0)
    ((number candidate.sampleWindowMs).getD 0)

namespace ProbeState

variable (q : QualityProbe) (p : ProbeState)

/-- All runs start anew. -/
def resetRuns : ProbeState :=
  { p with consecutiveApprovedWindows := 0, consecutiveRejectedWindows := 0
           consecutiveFrameDeficit := 0 }

/-- The runs and the samples start anew. -/
def reset : ProbeState :=
  { p with lastCandidateTimestampMs := none, lastCurrentTimestampMs := none }.resetRuns

/-- A comparable window. -/
def settle (current candidate : ConnectionMetrics) (approved : Bool) :
    CandidateQualityProbeResult × ProbeState :=
  if approved then
    -- The whole run shares one frame of resolution, not one per window.
    let deficit := p.consecutiveFrameDeficit + windowDeficit current candidate
    if deficit > 1 then (.pending, p.resetRuns)
    else
      let windows := p.consecutiveApprovedWindows + 1
      (if windows ≥ persistentNativeEdgeDegradedWindows then .approved else .pending,
        { p with consecutiveFrameDeficit := deficit, consecutiveApprovedWindows := windows
                 consecutiveRejectedWindows := 0 })
  else
    let windows := p.consecutiveRejectedWindows + 1
    (if windows ≥ persistentNativeEdgeDegradedWindows then .rejected else .pending,
      { p with consecutiveApprovedWindows := 0, consecutiveFrameDeficit := 0
               consecutiveRejectedWindows := windows })

/-- One window of both connections. -/
def observe (current : Option ConnectionMetrics) (candidate : ConnectionMetrics) :
    CandidateQualityProbeResult × ProbeState :=
  match number candidate.sampleTimestampMs with
  | none => (.pending, p.resetRuns)
  | some candidateTimestampMs =>
    if p.lastCandidateTimestampMs = some candidateTimestampMs then (.pending, p)
    else if p.lastCandidateTimestampMs.any (candidateTimestampMs < ·) then (.pending, p.resetRuns)
    else
      let p := { p with lastCandidateTimestampMs := some candidateTimestampMs }
      match current with
      | none => (.pending, p.resetRuns)
      | some current => match number current.sampleTimestampMs with
        | none => (.pending, p.resetRuns)
        | some currentTimestampMs =>
          if p.lastCurrentTimestampMs.any (currentTimestampMs ≤ ·) then (.pending, p.resetRuns)
          else
            let p := { p with lastCurrentTimestampMs := some currentTimestampMs }
            match q.compare current candidate with
            | none => (.pending, p.resetRuns)
            | some approved => p.settle current candidate approved

end ProbeState

/-! ## Runs -/

/-- The calls of the quality monitor. -/
inductive ProbeEvent
  | observe (current : Option ConnectionMetrics) (candidate : ConnectionMetrics)
  | reset

/-- One call. -/
def ProbeState.step (q : QualityProbe) (p : ProbeState) : ProbeEvent → ProbeState
  | .observe current candidate => (p.observe q current candidate).2
  | .reset => p.reset

/-- The probe after a history of events. -/
def ProbeState.after (q : QualityProbe) (events : List ProbeEvent) : ProbeState :=
  events.foldl (step q) {}

/-- A pair of samples of both routes. -/
structure QualityWindow where
  current : ConnectionMetrics
  candidate : ConnectionMetrics

namespace QualityWindow

/-- The call that a window makes. -/
def event (w : QualityWindow) : ProbeEvent := .observe (some w.current) w.candidate

/-- How many frames the candidate is behind in a window. -/
def deficit (w : QualityWindow) : ℚ := windowDeficit w.current w.candidate

/-- Both sides' timestamps are there and later than before. -/
def Later (w w' : QualityWindow) : Prop := ∃ t t' u u',
  number w.candidate.sampleTimestampMs = some t ∧ number w'.candidate.sampleTimestampMs = some t' ∧
  number w.current.sampleTimestampMs = some u ∧ number w'.current.sampleTimestampMs = some u' ∧
  t < t' ∧ u < u'

/-- The candidate does not regress in any compared metric. -/
def NotRegressed (q : QualityProbe) (w : QualityWindow) : Prop := ∃ currentVideo candidateVideo,
  comparableSamples w.current w.candidate = some (currentVideo, candidateVideo) ∧
  unbroken w.candidate = true ∧ currentVideo.pixels ≤ candidateVideo.pixels ∧
  frameCountDeficit currentVideo.framesDecoded currentVideo.windowMs candidateVideo.framesDecoded
    candidateVideo.windowMs ≤ 1 ∧
  (q = .sfu → ∃ currentKbps candidateKbps, currentVideo.bitrateKbps = some currentKbps ∧
    candidateVideo.bitrateKbps = some candidateKbps ∧ currentKbps ≤ candidateKbps)

end QualityWindow

open QualityWindow

theorem compare_eq_true {q : QualityProbe} {current candidate : ConnectionMetrics} :
    q.compare current candidate = some true ↔ NotRegressed q ⟨current, candidate⟩ := by
  unfold NotRegressed
  cases q with
  | sfu =>
    simp only [QualityProbe.compare, sfuCandidateDoesNotRegress]
    cases comparableSamples current candidate with
    | none => simp
    | some videos =>
      obtain ⟨currentVideo, candidateVideo⟩ := videos
      cases hc : currentVideo.bitrateKbps with
      | none => simp [hc]
      | some currentKbps =>
        cases hd : candidateVideo.bitrateKbps with
        | none => simp [hc, hd]
        | some candidateKbps => simp [hc, hd, frameRateDoesNotRegress, and_assoc]
  | p2p =>
    simp only [QualityProbe.compare, p2pCandidateDoesNotRegress]
    cases comparableSamples current candidate with
    | none => simp
    | some videos =>
      obtain ⟨currentVideo, candidateVideo⟩ := videos
      simp [frameRateDoesNotRegress, and_assoc]

/-- The events of a run: a window each, or a sample of the candidate seen before. -/
inductive Evidence : List ProbeEvent → List QualityWindow → Prop
  | nil : Evidence [] []
  | window {events ws} (w : QualityWindow) : Evidence events ws →
      Evidence (events ++ [w.event]) (ws ++ [w])
  | repeated {events ws w} (current : Option ConnectionMetrics) (candidate : ConnectionMetrics) :
      Evidence events (ws ++ [w]) →
      number candidate.sampleTimestampMs = number w.candidate.sampleTimestampMs →
      Evidence (events ++ [.observe current candidate]) (ws ++ [w])

/-- What the probe knows of its run. -/
structure Running (q : QualityProbe) (events : List ProbeEvent) (p : ProbeState)
    (before segment : List ProbeEvent) (ws : List QualityWindow) : Prop where
  split : events = before ++ segment
  evidence : Evidence segment ws
  windows : p.consecutiveApprovedWindows = ws.length
  deficit : p.consecutiveFrameDeficit = (ws.map QualityWindow.deficit).sum
  bounded : (ws.map QualityWindow.deficit).sum ≤ 1
  rising : ws.IsChain Later
  kept : ∀ w ∈ ws, NotRegressed q w
  last : ∀ w, ws.getLast? = some w → ∃ t u,
    number w.candidate.sampleTimestampMs = some t ∧ p.lastCandidateTimestampMs = some t ∧
    number w.current.sampleTimestampMs = some u ∧ p.lastCurrentTimestampMs = some u

/-- A state without a run. -/
theorem Running.restart {q : QualityProbe} {p : ProbeState} (events : List ProbeEvent)
    (hw : p.consecutiveApprovedWindows = 0) (hd : p.consecutiveFrameDeficit = 0) :
    Running q events p events [] [] where
  split := (List.append_nil events).symm
  evidence := .nil
  windows := hw
  deficit := hd
  bounded := zero_le_one
  rising := .nil
  kept _ h := absurd h List.not_mem_nil
  last _ h := by cases h

/-- The candidate's sample is there and not the last one again. -/
def Fresh (p : ProbeState) (candidate : ConnectionMetrics) : Prop :=
  (number candidate.sampleTimestampMs).isSome ∧
    p.lastCandidateTimestampMs ≠ number candidate.sampleTimestampMs

/-- The samples that restart the run: missing, late or repeated on the current side,
    incomparable or regressing ones. -/
inductive Restarts (q : QualityProbe) (p : ProbeState) :
    Option ConnectionMetrics → ConnectionMetrics → Prop
  | candidateMissing {current candidate} : number candidate.sampleTimestampMs = none →
      Restarts q p current candidate
  | candidateLate {current candidate t last} : number candidate.sampleTimestampMs = some t →
      p.lastCandidateTimestampMs = some last → t < last → Restarts q p current candidate
  | currentMissing {current candidate} : Fresh p candidate →
      (current.bind fun m => number m.sampleTimestampMs) = none → Restarts q p current candidate
  | currentStale {current : ConnectionMetrics} {candidate u last} : Fresh p candidate →
      number current.sampleTimestampMs = some u → p.lastCurrentTimestampMs = some last → u ≤ last →
      Restarts q p (some current) candidate
  | regresses {current candidate} : Fresh p candidate → ¬ NotRegressed q ⟨current, candidate⟩ →
      Restarts q p (some current) candidate

namespace ProbeState

variable {q : QualityProbe} {p : ProbeState} {current : Option ConnectionMetrics}
variable {candidate : ConnectionMetrics}

/-- The state and the answer leave no run behind. -/
def NoRun (r : CandidateQualityProbeResult × ProbeState) : Prop :=
  r.1 ≠ .approved ∧ r.2.consecutiveApprovedWindows = 0 ∧ r.2.consecutiveFrameDeficit = 0

theorem noRun_resetRuns (p : ProbeState) : NoRun (.pending, p.resetRuns) :=
  ⟨nofun, rfl, rfl⟩

/-- What one observation does: it leaves no run, it ignores a sample, or it counts a window. -/
theorem observe_cases (q : QualityProbe) (p : ProbeState) (current : Option ConnectionMetrics)
    (candidate : ConnectionMetrics) :
    NoRun (p.observe q current candidate) ∨
    (p.observe q current candidate = (.pending, p) ∧
      ∃ t, number candidate.sampleTimestampMs = some t ∧ p.lastCandidateTimestampMs = some t) ∨
    ∃ m t u, current = some m ∧ number candidate.sampleTimestampMs = some t ∧
      number m.sampleTimestampMs = some u ∧ (∀ last, p.lastCandidateTimestampMs = some last → last < t) ∧
      (∀ last, p.lastCurrentTimestampMs = some last → last < u) ∧ NotRegressed q ⟨m, candidate⟩ ∧
      p.consecutiveFrameDeficit + windowDeficit m candidate ≤ 1 ∧
      p.observe q current candidate =
        (if p.consecutiveApprovedWindows + 1 ≥ persistentNativeEdgeDegradedWindows then .approved
          else .pending,
        { lastCandidateTimestampMs := some t, lastCurrentTimestampMs := some u
          consecutiveFrameDeficit := p.consecutiveFrameDeficit + windowDeficit m candidate
          consecutiveApprovedWindows := p.consecutiveApprovedWindows + 1
          consecutiveRejectedWindows := 0 }) := by
  unfold observe
  cases ht : number candidate.sampleTimestampMs with
  | none => exact .inl (noRun_resetRuns p)
  | some t =>
    dsimp only
    by_cases hrepeated : p.lastCandidateTimestampMs = some t
    · rw [if_pos hrepeated]
      exact .inr (.inl ⟨rfl, t, rfl, hrepeated⟩)
    rw [if_neg hrepeated]
    by_cases hlate : p.lastCandidateTimestampMs.any (t < ·) = true
    · rw [if_pos hlate]
      exact .inl (noRun_resetRuns p)
    rw [if_neg hlate]
    cases current with
    | none => exact .inl (noRun_resetRuns _)
    | some m =>
      dsimp only
      cases hu : number m.sampleTimestampMs with
      | none => exact .inl (noRun_resetRuns _)
      | some u =>
        dsimp only
        by_cases hstale : p.lastCurrentTimestampMs.any (u ≤ ·) = true
        · rw [if_pos hstale]
          exact .inl (noRun_resetRuns _)
        rw [if_neg hstale]
        cases happroved : q.compare m candidate with
        | none => exact .inl (noRun_resetRuns _)
        | some approved =>
          dsimp only
          unfold settle
          cases approved with
          | false =>
            refine .inl ⟨?_, rfl, rfl⟩
            simp only [Bool.false_eq_true, if_false]
            split <;> decide
          | true =>
            simp only [if_true]
            by_cases hdeficit : p.consecutiveFrameDeficit + windowDeficit m candidate > 1
            · rw [if_pos hdeficit]
              exact .inl (noRun_resetRuns _)
            · rw [if_neg hdeficit]
              refine .inr (.inr ⟨m, t, u, rfl, rfl, hu, ?_, ?_, compare_eq_true.1 happroved,
                not_lt.1 hdeficit, rfl⟩)
              · intro last hlast
                rw [hlast, Option.any_some, decide_eq_true_eq, not_lt] at hlate
                exact lt_of_le_of_ne hlate fun heq => hrepeated (hlast.trans (congrArg some heq))
              · intro last hlast
                rw [hlast, Option.any_some, decide_eq_true_eq, not_le] at hstale
                exact hstale

/-- A sample that restarts the run leaves no run behind. -/
theorem noRun_of_restarts (h : Restarts q p current candidate) :
    NoRun (p.observe q current candidate) := by
  have hfresh {t : ℚ} (hf : Fresh p candidate) (ht : number candidate.sampleTimestampMs = some t)
      (hlast : p.lastCandidateTimestampMs = some t) : False := hf.2 (hlast.trans ht.symm)
  rcases observe_cases q p current candidate with hnone | ⟨-, t, ht, hlast⟩ |
    ⟨m, t, u, rfl, ht, hu, hcandidate, hcurrent, hkept, -, -⟩
  · exact hnone
  · exfalso
    cases h with
    | candidateMissing hmissing => rw [hmissing] at ht; cases ht
    | candidateLate ht' hlast' hlt =>
      rw [ht'] at ht
      rw [hlast'] at hlast
      obtain rfl := Option.some.inj (ht.trans hlast.symm)
      exact lt_irrefl _ hlt
    | currentMissing hf _ => exact hfresh hf ht hlast
    | currentStale hf _ _ _ => exact hfresh hf ht hlast
    | regresses hf _ => exact hfresh hf ht hlast
  · exfalso
    cases h with
    | candidateMissing hmissing => rw [hmissing] at ht; cases ht
    | candidateLate ht' hlast' hlt =>
      rw [ht'] at ht
      obtain rfl := Option.some.inj ht
      exact lt_asymm hlt (hcandidate _ hlast')
    | currentMissing _ hmissing =>
      rw [Option.bind_some, hu] at hmissing
      cases hmissing
    | currentStale _ hu' hlast' hle =>
      rw [hu'] at hu
      obtain rfl := Option.some.inj hu
      exact absurd (hcurrent _ hlast') (not_lt.2 hle)
    | regresses _ hregressed => exact hregressed hkept

/-- A window that counts prolongs the run. -/
theorem running_window {events before segment : List ProbeEvent} {ws : List QualityWindow}
    (h : Running q events p before segment ws) {m : ConnectionMetrics} {t u : ℚ}
    (ht : number candidate.sampleTimestampMs = some t) (hu : number m.sampleTimestampMs = some u)
    (hcandidate : ∀ last, p.lastCandidateTimestampMs = some last → last < t)
    (hcurrent : ∀ last, p.lastCurrentTimestampMs = some last → last < u)
    (hkept : NotRegressed q ⟨m, candidate⟩)
    (hdeficit : p.consecutiveFrameDeficit + windowDeficit m candidate ≤ 1) :
    Running q (events ++ [.observe (some m) candidate])
      { lastCandidateTimestampMs := some t, lastCurrentTimestampMs := some u
        consecutiveFrameDeficit := p.consecutiveFrameDeficit + windowDeficit m candidate
        consecutiveApprovedWindows := p.consecutiveApprovedWindows + 1
        consecutiveRejectedWindows := 0 }
      before (segment ++ [.observe (some m) candidate]) (ws ++ [⟨m, candidate⟩]) := by
  have hsum : ((ws ++ [QualityWindow.mk m candidate]).map QualityWindow.deficit).sum =
      p.consecutiveFrameDeficit + windowDeficit m candidate := by
    rw [List.map_append, List.sum_append, ← h.deficit, List.map_singleton, List.sum_singleton]
    rfl
  refine ⟨?_, .window ⟨m, candidate⟩ h.evidence, ?_, hsum.symm, hsum.trans_le hdeficit, ?_, ?_, ?_⟩
  · rw [h.split, List.append_assoc]
  · rw [List.length_append, ← h.windows]
    rfl
  · refine List.isChain_append.2 ⟨h.rising, .singleton _, ?_⟩
    intro w hw w' hw'
    obtain ⟨t₀, u₀, ht₀, hlast, hu₀, hlast'⟩ := h.last w hw
    obtain rfl := Option.some.inj hw'
    exact ⟨t₀, t, u₀, u, ht₀, ht, hu₀, hu, hcandidate t₀ hlast, hcurrent u₀ hlast'⟩
  · intro w hw
    rcases List.mem_append.1 hw with hw | hw
    · exact h.kept w hw
    · obtain rfl := List.mem_singleton.1 hw
      exact hkept
  · intro w hw
    rw [List.getLast?_concat] at hw
    obtain rfl := Option.some.inj hw
    exact ⟨t, u, ht, rfl, hu, rfl⟩

/-- One event keeps what the probe knows of its run. -/
theorem step_running {events before segment : List ProbeEvent} {ws : List QualityWindow}
    (h : Running q events p before segment ws) (e : ProbeEvent) :
    ∃ before' segment' ws', Running q (events ++ [e]) (p.step q e) before' segment' ws' := by
  cases e with
  | reset => exact ⟨_, [], [], .restart _ rfl rfl⟩
  | observe current candidate =>
    show ∃ before' segment' ws',
      Running q _ (p.observe q current candidate).2 before' segment' ws'
    rcases observe_cases q p current candidate with ⟨-, hw, hd⟩ | ⟨hsame, t, ht, hlast⟩ |
      ⟨m, t, u, rfl, ht, hu, hcandidate, hcurrent, hkept, hdeficit, hcounted⟩
    · exact ⟨_, [], [], .restart _ hw hd⟩
    · rw [hsame]
      rcases List.eq_nil_or_concat' ws with rfl | ⟨ws, w, rfl⟩
      · exact ⟨_, [], [], .restart _ h.windows h.deficit⟩
      · obtain ⟨t', -, ht', hlast', -⟩ := h.last w (List.getLast?_concat ..)
        refine ⟨before, segment ++ [.observe current candidate], ws ++ [w], { h with
          split := ?_, evidence := .repeated current candidate h.evidence ?_ }⟩
        · rw [h.split, List.append_assoc]
        · rw [ht, ht', ← hlast, hlast']
    · rw [hcounted]
      exact ⟨_, _, _, running_window h ht hu hcandidate hcurrent hkept hdeficit⟩

theorem after_concat (q : QualityProbe) (events : List ProbeEvent) (e : ProbeEvent) :
    after q (events ++ [e]) = (after q events).step q e := by
  rw [after, List.foldl_append]
  rfl

/-- After every history the probe knows its run. -/
theorem after_running (q : QualityProbe) (events : List ProbeEvent) :
    ∃ before segment ws, Running q events (after q events) before segment ws := by
  induction events using List.reverseRecOn with
  | nil => exact ⟨[], [], [], .restart [] rfl rfl⟩
  | append_singleton events e ih =>
    obtain ⟨before, segment, ws, h⟩ := ih
    rw [after_concat]
    exact step_running h e

/-- The candidate is approved at the end of a run of at least three windows only, whose
    events are windows or samples of the candidate seen before; every other sample
    restarts the run, and a sample seen before changes nothing. -/
theorem approved_after_run (q : QualityProbe) (events : List ProbeEvent)
    (current : Option ConnectionMetrics) (candidate : ConnectionMetrics) :
    (((after q events).observe q current candidate).1 = .approved →
      ∃ before segment ws m, events ++ [.observe current candidate] = before ++ segment ∧
        Evidence segment (ws ++ [⟨m, candidate⟩]) ∧ current = some m ∧ 2 ≤ ws.length ∧
        (ws ++ [QualityWindow.mk m candidate]).IsChain Later ∧
        (∀ w ∈ ws ++ [QualityWindow.mk m candidate], w.NotRegressed q) ∧
        ((ws ++ [QualityWindow.mk m candidate]).map QualityWindow.deficit).sum ≤ 1) ∧
    (Restarts q (after q events) current candidate →
      NoRun ((after q events).observe q current candidate)) ∧
    (number candidate.sampleTimestampMs ≠ none →
      (after q events).lastCandidateTimestampMs = number candidate.sampleTimestampMs →
      (after q events).observe q current candidate = (.pending, after q events)) := by
  refine ⟨fun happroved => ?_, noRun_of_restarts, fun hthere hrepeated => ?_⟩
  · obtain ⟨before, segment, ws, h⟩ := after_running q events
    rcases observe_cases q (after q events) current candidate with ⟨hanswer, -⟩ | ⟨hsame, -⟩ |
      ⟨m, t, u, rfl, ht, hu, hcandidate, hcurrent, hkept, hdeficit, hcounted⟩
    · exact absurd happroved hanswer
    · rw [hsame] at happroved
      cases happroved
    · have hrun := running_window h ht hu hcandidate hcurrent hkept hdeficit
      refine ⟨before, _, ws, m, hrun.split, hrun.evidence, rfl, ?_, hrun.rising, hrun.kept, hrun.bounded⟩
      rw [hcounted] at happroved
      by_contra hshort
      have hfew : ¬ (after q events).consecutiveApprovedWindows + 1 ≥
          persistentNativeEdgeDegradedWindows := by
        rw [h.windows, persistentNativeEdgeDegradedWindows]
        omega
      rw [if_neg hfew] at happroved
      cases happroved
  · obtain ⟨t, ht⟩ := Option.ne_none_iff_exists'.1 hthere
    unfold observe
    rw [ht] at hrepeated ⊢
    exact if_pos hrepeated

/-- A window of two seconds that plays smoothly. -/
def smoothMetrics (timestampMs : ℚ) : ConnectionMetrics where
  sampleTimestampMs := some (.finite timestampMs)
  sampleWindowMs := some (.finite 2000)
  frameWidth := some (.finite 1920)
  frameHeight := some (.finite 1080)
  bitrateKbps := some (.finite 5000)
  intervalFramesDecoded := some (.finite 120)
  intervalFreezeCount := some (.finite 0)
  intervalFreezeDurationMs := some (.finite 0)
  intervalPauseCount := some (.finite 0)
  intervalPauseDurationMs := some (.finite 0)

/-- Two windows, and a sample of the candidate that was seen before. -/
def repeatedSamples : List ProbeEvent :=
  [.observe (some (smoothMetrics 1000)) (smoothMetrics 1100),
    .observe (some (smoothMetrics 3000)) (smoothMetrics 3100),
    .observe (some (smoothMetrics 5000)) (smoothMetrics 3100)]

theorem repeatedSamples_approved : ((after .p2p repeatedSamples).observe .p2p
    (some (smoothMetrics 7000)) (smoothMetrics 7100)).1 = .approved := by
  decide +kernel

theorem approved_after_run_repeatedSamples : ∃ before segment ws m,
    repeatedSamples ++ [.observe (some (smoothMetrics 7000)) (smoothMetrics 7100)] =
      before ++ segment ∧
    Evidence segment (ws ++ [⟨m, smoothMetrics 7100⟩]) ∧ some (smoothMetrics 7000) = some m ∧
    2 ≤ ws.length ∧ (ws ++ [QualityWindow.mk m (smoothMetrics 7100)]).IsChain Later ∧
    (∀ w ∈ ws ++ [QualityWindow.mk m (smoothMetrics 7100)], NotRegressed .p2p w) ∧
    ((ws ++ [QualityWindow.mk m (smoothMetrics 7100)]).map QualityWindow.deficit).sum ≤ 1 :=
  (approved_after_run .p2p repeatedSamples (some (smoothMetrics 7000)) (smoothMetrics 7100)).1
    repeatedSamples_approved

/-- A sample of the candidate seen before does not restart the run. -/
theorem repeated_kept : ¬ ∀ (q : QualityProbe) (events : List ProbeEvent)
    (current : Option ConnectionMetrics) (candidate : ConnectionMetrics),
    ((after q events).observe q current candidate).1 = .approved →
    ∃ (before : List ProbeEvent) (ws : List QualityWindow),
      events ++ [.observe current candidate] = before ++ ws.map QualityWindow.event ∧
      3 ≤ ws.length ∧ ws.IsChain Later ∧ (∀ w ∈ ws, NotRegressed q w) ∧
      (ws.map QualityWindow.deficit).sum ≤ 1 := by
  intro h
  obtain ⟨before, ws, hsplit, hlength, hchain, -⟩ := h .p2p _ _ _ repeatedSamples_approved
  -- The second and the third sample are windows of the run, with the candidate at one time.
  have hlater {w w' : QualityWindow} (hw : w.event = .observe (some (smoothMetrics 3000)) (smoothMetrics 3100))
      (hw' : w'.event = .observe (some (smoothMetrics 5000)) (smoothMetrics 3100)) : ¬ Later w w' := by
    rintro ⟨t, t', -, -, ht, ht', -, -, hlt, -⟩
    simp only [QualityWindow.event, ProbeEvent.observe.injEq] at hw hw'
    rw [hw.2] at ht
    rw [hw'.2] at ht'
    obtain rfl := Option.some.inj ht
    obtain rfl := Option.some.inj ht'
    exact lt_irrefl _ hlt
  rcases before with _ | ⟨b, _ | ⟨b', before⟩⟩
  · rcases ws with _ | ⟨w, _ | ⟨w₁, _ | ⟨w₂, ws⟩⟩⟩
    · exact absurd hlength (by decide)
    · exact absurd hlength (by simp)
    · exact absurd hlength (by simp)
    · simp only [repeatedSamples, List.cons_append, List.nil_append, List.map_cons,
        List.cons.injEq] at hsplit
      exact hlater hsplit.2.1.symm hsplit.2.2.1.symm (List.isChain_cons_cons.1
        (List.isChain_cons_cons.1 hchain).2).1
  · rcases ws with _ | ⟨w, _ | ⟨w₁, ws⟩⟩
    · exact absurd hlength (by decide)
    · exact absurd hlength (by simp)
    · simp only [repeatedSamples, List.cons_append, List.nil_append, List.map_cons,
        List.cons.injEq] at hsplit
      exact hlater hsplit.2.1.symm hsplit.2.2.1.symm (List.isChain_cons_cons.1 hchain).1
  · have htotal := congrArg List.length hsplit
    simp [repeatedSamples] at htotal
    omega

end ProbeState

end Piik.Client
