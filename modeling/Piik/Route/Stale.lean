/-
  Stale messages are inert: a guarded call whose guard names nothing live does
  what the expiry of the operation does at the same time, and no more.
-/
import Piik.Route.Invariant

namespace Piik.Route

/-- The live attempt is the guarded one. -/
def Core.Awaits (c : Core) (guard : CandidateGuard) : Prop :=
  ∃ op att, c.operation = some op ∧ op.current = some att ∧ op.guardMatches att guard

/-- The candidate at the cursor is the guarded one, and no attempt is live. -/
def Core.Offers (c : Core) (guard : CandidateCursorGuard) : Prop :=
  ∃ op, c.operation = some op ∧ op.current = none ∧ op.cursorGuardMatches guard

/-- The same state, and the same resources released. -/
def SameOutcome (x y : Reply × Controller) : Prop := y.2 = x.2 ∧ y.1.released = x.1.released

namespace Controller

variable (c : Controller) (now : Int)

/-! ## A failure that names nothing live -/

variable {c} in
theorem not_guardFailed {guard : CandidateGuard} {op : Operation} {att : Attempt}
    (h : ¬c.Awaits guard) (ho : c.operation = some op) (hc : op.current = some att) :
    op.guardMatches att guard = false := by
  cases hm : op.guardMatches att guard with
  | false => rfl
  | true => exact absurd ⟨op, att, ho, hc, hm⟩ h

theorem advanceOperation_unguarded {guard : CandidateGuard} {op : Operation} (h : ¬c.Awaits guard)
    (ho : c.operation = some op) (start : Int) :
    c.advanceOperation op now (some guard) start = c.advanceOperation op now none start := by
  unfold advanceOperation
  cases hc : op.current with
  | none => rfl
  | some att =>
    have hg : guardFailed op att (some guard) = guardFailed op att none := not_guardFailed h ho hc
    simp only [hg]

/-- **A failure that names nothing live is an expiry.** -/
theorem validateOrAdvance_unguarded {guard : CandidateGuard} (h : ¬c.Awaits guard) :
    c.validateOrAdvance now (some guard) = c.validateOrAdvance now none := by
  unfold validateOrAdvance
  cases ho : c.operation with
  | none => rfl
  | some op =>
    dsimp only
    split
    · have hg : op.guardConsumed (some guard) = false := by
        unfold Operation.guardConsumed
        cases hc : op.current with
        | none => rfl
        | some att => exact not_guardFailed h ho hc
      have hn : op.guardConsumed none = false := by
        unfold Operation.guardConsumed
        rfl
      simp only [validatePublicationAttach, hg, hn]
    · split
      · rfl
      · split
        · rfl
        · split
          · rfl
          · -- the head start leaves the attempt alone or retires it
            have hhead : ¬(c.advanceExpiredDirectHeadStart op now).2.2.Awaits guard := by
              rcases c.advanceExpiredDirectHeadStart_cases ho now with he | ⟨op', ho', hc⟩
              · rw [he]
                exact h
              · rintro ⟨op₁, att, ho₁, hc₁, -⟩
                cases ho'.symm.trans ho₁
                cases hc.symm.trans hc₁
            generalize c.advanceExpiredDirectHeadStart op now = x at hhead ⊢
            obtain ⟨expired, released, c₁⟩ := x
            dsimp only at hhead ⊢
            split
            · rfl
            · next op₁ ho₁ => rw [c₁.advanceOperation_unguarded now hhead ho₁]

theorem noteFailedCandidate_unguarded {guard : CandidateGuard} (h : ¬c.Awaits guard) :
    c.noteFailedCandidate guard now = c := by
  unfold noteFailedCandidate
  split
  · rfl
  · next op ho =>
    split
    · rfl
    · next att hc => simp [not_guardFailed h ho hc]

/-! ## The calls -/

theorem candidateFailed_stale {guard : CandidateGuard} (h : ¬c.Awaits guard) :
    SameOutcome (c.run (.operationExpired now)) (c.run (.candidateFailed guard now)) := by
  simp [run, SameOutcome, candidateFailed, operationExpired, c.noteFailedCandidate_unguarded now h,
    c.validateOrAdvance_unguarded now h, Reply.ofSettle]

theorem candidateReady_stale {guard : CandidateGuard} (proof : CandidateProof) (commit : Bool)
    (h : ¬(c.run (.operationExpired now)).2.Awaits guard) :
    SameOutcome (c.run (.operationExpired now)) (c.run (.candidateReady guard now proof commit)) := by
  simp only [run, operationExpired, candidateReady, Reply.ofSettle, SameOutcome] at h ⊢
  generalize c.validateOrAdvance now none = x at h ⊢
  obtain ⟨checked, c₁⟩ := x
  dsimp only at h ⊢
  cases ho : c₁.operation with
  | none => exact ⟨rfl, rfl⟩
  | some op =>
    dsimp only
    cases hc : op.current with
    | none => exact ⟨rfl, rfl⟩
    | some att => simp [not_guardFailed h ho hc]

theorem candidateTransportConnected_stale {guard : CandidateGuard}
    (h : ¬(c.run (.operationExpired now)).2.Awaits guard) :
    SameOutcome (c.run (.operationExpired now)) (c.run (.candidateTransportConnected guard now)) := by
  simp only [run, operationExpired, candidateTransportConnected, Reply.ofSettle, SameOutcome] at h ⊢
  generalize c.validateOrAdvance now none = x at h ⊢
  obtain ⟨checked, c₁⟩ := x
  dsimp only at h ⊢
  cases ho : c₁.operation with
  | none => exact ⟨rfl, rfl⟩
  | some op =>
    dsimp only
    cases hc : op.current with
    | none => exact ⟨rfl, rfl⟩
    | some att => simp [not_guardFailed h ho hc]

variable {c} in
theorem not_offered {guard : CandidateCursorGuard} {op : Operation} (h : ¬c.Offers guard)
    (ho : c.operation = some op) : (op.current.isSome || !op.cursorGuardMatches guard) = true := by
  cases hc : op.current with
  | some att => rfl
  | none =>
    cases hm : op.cursorGuardMatches guard with
    | false => rfl
    | true => exact absurd ⟨op, ho, hc, hm⟩ h

theorem beginCurrentCandidate_stale {input : BeginInput}
    (h : ¬(c.run (.operationExpired input.nowMs)).2.Offers input.guard) :
    (c.run (.beginCurrentCandidate input)).2 = (c.run (.operationExpired input.nowMs)).2 ∧
      (c.run (.beginCurrentCandidate input)).1.released =
        (c.run (.operationExpired input.nowMs)).1.released ++ reservationResources input.reservation := by
  simp only [run, operationExpired, beginCurrentCandidate, Reply.ofSettle, Reply.ofBegin] at h ⊢
  generalize c.validateOrAdvance input.nowMs none = x at h ⊢
  obtain ⟨checked, c₁⟩ := x
  dsimp only at h ⊢
  cases ho : c₁.operation with
  | none => exact ⟨rfl, rfl⟩
  | some op =>
    have hg := not_offered h ho
    have hg' : (op.current.isSome || decide (op.baseRevision ≠ c₁.revision) ||
        !op.cursorGuardMatches input.guard) = true := by
      simp only [Bool.or_eq_true] at hg ⊢
      exact hg.imp_left Or.inl
    dsimp only
    rw [if_pos hg']
    exact ⟨rfl, rfl⟩

theorem skipCurrentCandidate_stale {guard : CandidateCursorGuard} (bucket : RejectionBucket)
    (h : ¬(c.run (.operationExpired now)).2.Offers guard) :
    SameOutcome (c.run (.operationExpired now)) (c.run (.skipCurrentCandidate guard now bucket)) := by
  simp only [run, operationExpired, skipCurrentCandidate, Reply.ofSettle, Reply.ofBegin,
    SameOutcome] at h ⊢
  generalize c.validateOrAdvance now none = x at h ⊢
  obtain ⟨checked, c₁⟩ := x
  dsimp only at h ⊢
  cases ho : c₁.operation with
  | none => exact ⟨rfl, rfl⟩
  | some op =>
    dsimp only
    rw [if_pos (not_offered h ho)]
    exact ⟨rfl, rfl⟩

theorem retireCurrentCandidateProducer_stale {guard : CandidateCursorGuard}
    (h : ¬(c.run (.operationExpired now)).2.Offers guard) :
    SameOutcome (c.run (.operationExpired now))
      (c.run (.retireCurrentCandidateProducer guard now)) := by
  simp only [run, operationExpired, retireCurrentCandidateProducer, Reply.ofSettle, Reply.ofBegin,
    SameOutcome] at h ⊢
  generalize c.validateOrAdvance now none = x at h ⊢
  obtain ⟨checked, c₁⟩ := x
  dsimp only at h ⊢
  cases ho : c₁.operation with
  | none => exact ⟨rfl, rfl⟩
  | some op =>
    dsimp only
    rw [if_pos (not_offered h ho)]
    exact ⟨rfl, rfl⟩

/-- **Stale messages are inert.**  A call whose guard names nothing that is live
    once the controller was validated at this time does what `operationExpired`
    does then; a failure, if its guard names nothing live before. -/
theorem stale_inert (now : Int) :
    (∀ guard, ¬(c.run (.operationExpired now)).2.Awaits guard →
      (∀ proof commit, SameOutcome (c.run (.operationExpired now))
        (c.run (.candidateReady guard now proof commit))) ∧
      SameOutcome (c.run (.operationExpired now)) (c.run (.candidateTransportConnected guard now))) ∧
    (∀ guard, ¬c.Awaits guard →
      SameOutcome (c.run (.operationExpired now)) (c.run (.candidateFailed guard now))) ∧
    ∀ guard, ¬(c.run (.operationExpired now)).2.Offers guard →
      (∀ input : BeginInput, input.guard = guard → input.nowMs = now →
        (c.run (.beginCurrentCandidate input)).2 = (c.run (.operationExpired now)).2 ∧
        (c.run (.beginCurrentCandidate input)).1.released =
          (c.run (.operationExpired now)).1.released ++ reservationResources input.reservation) ∧
      (∀ bucket, SameOutcome (c.run (.operationExpired now))
        (c.run (.skipCurrentCandidate guard now bucket))) ∧
      SameOutcome (c.run (.operationExpired now))
        (c.run (.retireCurrentCandidateProducer guard now)) := by
  refine ⟨fun guard h => ⟨fun proof commit => c.candidateReady_stale now proof commit h,
    c.candidateTransportConnected_stale now h⟩, fun guard h => c.candidateFailed_stale now h,
    fun guard h => ⟨?_, fun bucket => c.skipCurrentCandidate_stale now bucket h,
      c.retireCurrentCandidateProducer_stale now h⟩⟩
  rintro input rfl rfl
  exact c.beginCurrentCandidate_stale h

/-- A report for another revision than the live attempt's. -/
theorem stale_inert_viewerBegun : ∃ c : Controller, ∃ guard : CandidateGuard, c.Reachable ∧
    (∃ op att, c.operation = some op ∧ op.current = some att) ∧
    SameOutcome (c.run (.operationExpired 5)) (c.run (.candidateReady guard 5 {} true)) := by
  have h : ∃ c : Controller, c.Reachable ∧ (∃ op att, c.operation = some op ∧ op.current = some att) ∧
      ∃ op att, (c.run (.operationExpired 5)).2.operation = some op ∧ op.current = some att ∧
        att.revision = 1 :=
    ⟨_, ⟨smallRoom, 0, _, .upsertParticipant hostInput (some 0) :: viewerServed.take 3, rfl, rfl⟩,
      ⟨_, _, rfl, rfl⟩, _, _, rfl, rfl, rfl⟩
  obtain ⟨c, hc, hlive, op, att, ho, hcur, hrev⟩ := h
  let guard : CandidateGuard :=
    { childPeerID := "viewer", childSessionID := "v1", revision := 2, connectionID := "c1" }
  refine ⟨c, guard, hc, hlive, ((c.stale_inert 5).1 guard ?_).1 {} true⟩
  rintro ⟨op', att', ho', hcur', hm⟩
  cases ho.symm.trans ho'
  cases hcur.symm.trans hcur'
  simp [Operation.guardMatches, guard, hrev] at hm

/-- The Host is gone, so its attempt no longer holds and an expiry drops it; the
    late failure of that attempt charges the viewer's ledger all the same. -/
theorem late_failure_charges : ∃ c : Controller, ∃ guard : CandidateGuard, c.Reachable ∧
    ¬(c.run (.operationExpired 5)).2.Awaits guard ∧
    ¬SameOutcome (c.run (.operationExpired 5)) (c.run (.candidateFailed guard 5)) := by
  have h : ∃ c : Controller, ∃ guard : CandidateGuard, c.Reachable ∧
      (c.run (.operationExpired 5)).2.operation = none ∧
      ((c.run (.operationExpired 5)).2.ledger "viewer").consumedCandidateOpportunities.len = 0 ∧
      ((c.run (.candidateFailed guard 5)).2.ledger "viewer").consumedCandidateOpportunities.len = 1 :=
    ⟨_, { childPeerID := "viewer", childSessionID := "v1", revision := 1, connectionID := "c1" },
      ⟨smallRoom, 0, _, .upsertParticipant hostInput (some 0) ::
        (viewerServed.take 3 ++ [.disconnectSession "host" "h1"]), rfl, rfl⟩, rfl, rfl, rfl⟩
  obtain ⟨c, guard, hc, hnone, hexpired, hfailed⟩ := h
  refine ⟨c, guard, hc, ?_, fun hsame => ?_⟩
  · rintro ⟨op, att, ho, -⟩
    cases hnone.symm.trans ho
  · rw [hsame.1, hexpired] at hfailed
    cases hfailed

end Controller

end Piik.Route
