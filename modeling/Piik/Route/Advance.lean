/-
  `validateOrAdvance` as a run of maintenance steps, and what it means that an
  attempt is still live after it.
-/
import Piik.Route.Upkeep

namespace Piik.Route

variable {v : Licence}

theorem SameDemand.refl (op : Operation) : SameDemand op op := ⟨rfl, rfl, rfl, rfl, rfl, rfl⟩

theorem SameDemand.trans {op₁ op₂ op₃ : Operation} (h : SameDemand op₁ op₂)
    (h' : SameDemand op₂ op₃) : SameDemand op₁ op₃ :=
  ⟨h'.1.trans h.1, h'.2.trans h.2, h'.3.trans h.3, h'.4.trans h.4, h'.5.trans h.5, h'.6.trans h.6⟩

/-- Only the candidates of an operation without an attempt changed, and the
    continuations. -/
def Replanned (op : Operation) (c c' : Core) : Prop :=
  ∃ op' m, SameDemand op op' ∧ op'.current = none ∧
    (c.Outward → op.Outward → op'.Outward ∧ (c.Narrow op → c.Narrow op')) ∧
    (c.Outward → Patient m) ∧ c' = { c with operation := some op', directContinuations := m }

namespace Replanned

variable {op : Operation} {c c' : Core}

theorem chain (ho : c.operation = some op) (hc : op.current = none)
    (hr : op.Attends → op.reason ≠ .publicationAttach) (h : Replanned op c c') (b : Bool) :
    Chain (Upkeep v) b b [] [] c c' := by
  obtain ⟨op', m, hs, hc', hout, hm, rfl⟩ := h
  have h₁ : Upkeep v b b [] [] c { c with operation := some op' } :=
    .plan ho hs (hc'.trans hc.symm) (by simp [hc]) hout hr
  exact .quiet (.single h₁) (.single (.defers fun h => hm ⟨h.edge, h.host, h.patient⟩))

theorem runs (ho : c.operation = some op) (hc : op.current = none)
    (hr : op.Attends → op.reason ≠ .publicationAttach) (h : Replanned op c c') :
    Runs (Upkeep v) [] [] c c' := fun b => ⟨b, h.chain ho hc hr b⟩

theorem of_defers (ho : c.operation = some op) (hc : op.current = none) (h : Defers c c') :
    Replanned op c c' := by
  obtain ⟨m, hm, rfl⟩ := h
  exact ⟨op, m, .refl op, hc, fun _ h => ⟨h, id⟩, hm, by rw [ho]⟩

theorem of_eq (ho : c.operation = some op) (hc : op.current = none) (h : c' = c) :
    Replanned op c c' := of_defers ho hc (.of_eq h)

theorem trans {c'' : Core} (h : Replanned op c c')
    (h' : ∀ op', c'.operation = some op' → op'.current = none → Replanned op' c' c'') :
    Replanned op c c'' := by
  obtain ⟨op', m, hs, hc, hout, hm, rfl⟩ := h
  obtain ⟨op'', m', hs', hc', hout', hm', rfl⟩ := h' op' rfl hc
  have hstep : c.Outward → { c with operation := some op', directContinuations := m }.Outward :=
    fun h => ⟨h.edge, h.host, hm h⟩
  exact ⟨op'', m', hs.trans hs', hc', fun h ho =>
    ⟨(hout' (hstep h) (hout h ho).1).1, fun hn => (hout' (hstep h) (hout h ho).1).2 ((hout h ho).2 hn)⟩,
    fun h => hm' (hstep h), rfl⟩

theorem operation (h : Replanned op c c') :
    ∃ op', c'.operation = some op' ∧ op'.current = none ∧ SameDemand op op' := by
  obtain ⟨op', m, hs, hc, -, -, rfl⟩ := h
  exact ⟨op', rfl, hc, hs⟩

theorem revision (h : Replanned op c c') : c'.revision = c.revision := by
  obtain ⟨op', m, -, -, -, -, rfl⟩ := h; rfl

end Replanned

/-- A shorter list of candidates is as good. -/
theorem Operation.Outward.of_subset {op op' : Operation} (h : op.Outward)
    (hc : op'.childPeerID = op.childPeerID) (hs : ∀ plan ∈ op'.candidates, plan ∈ op.candidates)
    (hd : ∀ p ∈ op'.deferredParentPeerIDs, p ∈ op.deferredParentPeerIDs) : op'.Outward :=
  ⟨fun plan hp => hc ▸ h.candidates plan (hs plan hp), fun hm => h.deferred (hc ▸ hd _ hm)⟩

/-- No more candidates for the same demand. -/
theorem narrow_of_length {c : Core} {op op' : Operation} (hs : SameDemand op op')
    (hl : op'.candidates.length ≤ op.candidates.length) (h : c.Narrow op) : c.Narrow op' := by
  intro hr e he ha
  rw [hs.childPeerID] at he
  exact hl.trans (h (hs.reason ▸ hr) e he ha)

namespace Controller

variable (c : Controller) {op : Operation}

/-! ## Changing the candidates -/

theorem modifyOperation_replanned {f : Operation → Operation} (ho : c.operation = some op)
    (hs : SameDemand op (f op)) (hc : (f op).current = none)
    (hout : c.Outward → op.Outward → (f op).Outward ∧ (c.Narrow op → c.Narrow (f op))) :
    Replanned op c.toCore (c.modifyOperation f).toCore :=
  ⟨f op, _, hs, hc, hout, Core.Outward.patient, by simp [ho]⟩

theorem mem_remainingTuples {first restore : Option CandidateTuple} {t : CandidateTuple}
    (h : t ∈ remainingTuples op first restore) :
    first = some t ∨ restore = some t ∨ ∃ plan ∈ op.candidates, plan.tuple = t := by
  have hplan : ∀ t ∈ (op.candidates.drop op.cursor).map CandidatePlan.tuple,
      ∃ plan ∈ op.candidates, plan.tuple = t := fun t h => by
    obtain ⟨plan, hm, rfl⟩ := List.mem_map.1 h
    exact ⟨plan, List.mem_of_mem_drop hm, rfl⟩
  have key : ∀ tuples : List CandidateTuple,
      (∀ t ∈ tuples, first = some t ∨ ∃ plan ∈ op.candidates, plan.tuple = t) →
      (t ∈ tuples → first = some t ∨ restore = some t ∨ ∃ plan ∈ op.candidates, plan.tuple = t) ∧
      ∀ r, restore = some r →
        t ∈ (if tuples.any fun t => tupleKey t == tupleKey r then tuples else tuples ++ [r]) →
        first = some t ∨ restore = some t ∨ ∃ plan ∈ op.candidates, plan.tuple = t := by
    intro tuples ht
    refine ⟨fun h => (ht t h).imp_right Or.inr, fun r hr h => ?_⟩
    split at h
    · exact (ht t h).imp_right Or.inr
    · rcases List.mem_append.1 h with h | h
      · exact (ht t h).imp_right Or.inr
      · exact Or.inr (Or.inl (by rw [hr, List.mem_singleton.1 h]))
  unfold remainingTuples at h
  cases first with
  | none =>
    obtain ⟨hstay, hrestore⟩ := key _ fun t h => Or.inr (hplan t h)
    cases restore with
    | none => exact hstay h
    | some r => exact hrestore r rfl h
  | some first =>
    obtain ⟨hstay, hrestore⟩ := key
      (first :: ((op.candidates.drop op.cursor).map CandidatePlan.tuple).tail) fun t h => by
        rcases List.mem_cons.1 h with rfl | h
        · exact Or.inl rfl
        · exact Or.inr (hplan t (List.mem_of_mem_tail h))
    cases restore with
    | none => exact hstay h
    | some r => exact hrestore r rfl h

theorem length_remainingTuples (first : Option CandidateTuple)
    (h : first.isSome → op.cursor < op.candidates.length) :
    (remainingTuples op first none).length ≤ op.candidates.length - op.cursor := by
  unfold remainingTuples
  cases first with
  | none => simp
  | some t =>
    have := h rfl
    simp only [List.length_cons, List.length_tail, List.length_map, List.length_drop]
    omega

theorem replanRemaining_replanned (ho : c.operation = some op) (hc : op.current = none)
    (first restore : Option CandidateTuple) (hcur : first.isSome → op.cursor < op.candidates.length)
    (hf : c.Outward → op.Outward → ∀ t, first = some t → t.Outward op.childPeerID)
    (hr : c.Outward → op.Outward → ∀ t, restore = some t → t.Outward op.childPeerID ∧
      ∀ e, c.edge op.childPeerID = some e → e.physicalActive = false) :
    Replanned op c.toCore (c.replanRemaining first restore).toCore := by
  unfold replanRemaining
  refine c.modifyOperation_replanned ho ⟨rfl, rfl, rfl, rfl, rfl, rfl⟩ hc fun hcore hout =>
    ⟨⟨fun plan hm => ?_, hout.deferred⟩, ?_⟩
  · rcases List.mem_append.1 hm with hm | hm
    · exact hout.candidates plan (List.mem_of_mem_take hm)
    · obtain ⟨t, ht, hp⟩ := List.mem_filterMap.1 hm
      split at hp
      · next plan' hplan =>
        split at hp
        · cases hp
          refine planCandidate_outward hplan ?_
          rcases mem_remainingTuples ht with h | h | ⟨plan'', hm, rfl⟩
          · exact hf hcore hout t h
          · exact (hr hcore hout t h).1
          · exact (hout.candidates plan'' hm).tuple
        · cases hp
      · cases hp
  · cases restore with
    | none =>
      refine narrow_of_length ⟨rfl, rfl, rfl, rfl, rfl, rfl⟩ ?_
      have h₁ := length_remainingTuples first hcur
      simp only [List.length_append, List.length_take]
      refine (Nat.add_le_add_left (List.length_filterMap_le _ _) _).trans ?_
      omega
    | some t =>
      -- what is restored was cut
      intro _ _ e he ha
      have := (hr hcore hout t rfl).2 e he
      simp [this] at ha

/-- Replanning without new candidates. -/
theorem replan_replanned (ho : c.operation = some op) (hc : op.current = none) :
    Replanned op c.toCore (c.replanRemaining none none).toCore :=
  c.replanRemaining_replanned ho hc none none (fun h => by cases h) (fun _ _ _ h => by cases h)
    (fun _ _ _ h => by cases h)

theorem dropInvalidCandidates_replanned : ∀ (n : ℕ) (c : Controller) {op : Operation},
    c.operation = some op → op.current = none →
      Replanned op c.toCore (dropInvalidCandidates n c).toCore
  | 0, _, _, ho, hc => .of_eq ho hc rfl
  | n + 1, c, op, ho, hc => by
    unfold dropInvalidCandidates
    simp only [ho]
    split
    · exact .of_eq ho hc rfl
    · split
      · exact .of_eq ho hc rfl
      · have h₁ : Replanned op c.toCore
            ((c.noteRejection op.demandPeerID .stale).consumeDirectContinuationCandidate op).toCore :=
          .of_defers ho hc (consumeDirectContinuationCandidate_defers
            (c.noteRejection op.demandPeerID .stale) op)
        set c₁ := (c.noteRejection op.demandPeerID .stale).consumeDirectContinuationCandidate op
        have h₂ : Replanned op c.toCore (c₁.modifyOperation fun op =>
            { op with candidates := op.candidates.eraseIdx op.cursor }).toCore :=
          h₁.trans fun op' ho' hc' => c₁.modifyOperation_replanned ho'
            ⟨rfl, rfl, rfl, rfl, rfl, rfl⟩ hc'
            fun _ h => ⟨h.of_subset rfl (fun _ => List.mem_of_mem_eraseIdx) fun _ => id,
              narrow_of_length ⟨rfl, rfl, rfl, rfl, rfl, rfl⟩ (List.length_eraseIdx_le _ _)⟩
        exact h₂.trans fun op' ho' hc' => dropInvalidCandidates_replanned n
          ((c₁.modifyOperation _).clearCandidateTiming op.demandPeerID) ho' hc'

/-- Promoting a later direct candidate leaves the one at the cursor alone. -/
theorem promoteNextDirectWithinHeadStart_toCore (ho : c.operation = some op) (now : Int) :
    ∃ op', (c.promoteNextDirectWithinHeadStart op now).toCore =
        { c.toCore with operation := some op' } ∧
      SameDemand op op' ∧ op'.current = op.current ∧
      (op.Outward → op'.Outward ∧ (c.Narrow op → c.Narrow op')) ∧
      op'.planAt op'.cursor = op.planAt op.cursor := by
  unfold promoteNextDirectWithinHeadStart
  have hsame : ∃ op', c.toCore = { c.toCore with operation := some op' } ∧
      SameDemand op op' ∧ op'.current = op.current ∧
      (op.Outward → op'.Outward ∧ (c.Narrow op → c.Narrow op')) ∧
      op'.planAt op'.cursor = op.planAt op.cursor :=
    ⟨op, by rw [← ho], .refl op, rfl, fun h => ⟨h, id⟩, rfl⟩
  split
  · exact hsame
  · next sfuIndex _ =>
    split
    · exact hsame
    · next hi =>
      split
      · exact hsame
      · next offset _ =>
        dsimp only
        split
        · exact hsame
        · next plan hplan =>
          let moved := (op.candidates.eraseIdx (sfuIndex + 1 + offset)).insertIdx sfuIndex plan
          refine ⟨{ op with candidates := moved }, by simp [ho, moved],
            ⟨rfl, rfl, rfl, rfl, rfl, rfl⟩, rfl, fun h => ⟨h.of_subset rfl (fun x hx => ?_)
              fun _ => id, narrow_of_length ⟨rfl, rfl, rfl, rfl, rfl, rfl⟩ ?_⟩, ?_⟩
          · rcases List.eq_or_mem_of_mem_insertIdx hx with rfl | hx
            · exact List.mem_of_getElem? hplan
            · exact List.mem_of_mem_eraseIdx hx
          · have hlt := (List.getElem?_eq_some_iff.1 hplan).1
            have herase := List.length_eraseIdx_of_lt hlt
            have hinsert : moved.length = _ := List.length_insertIdx
            have heq : moved.length = op.candidates.length := by
              split at hinsert <;> omega
            rw [heq]
          simp only [Bool.or_eq_true, decide_eq_true_eq, ne_eq, not_or, not_not] at hi
          have hlt : op.cursor < sfuIndex := by omega
          simp only [Operation.planAt, moved]
          rw [List.getElem?_insertIdx_of_lt hlt, List.getElem?_eraseIdx_of_lt (by omega)]

theorem promoteNextDirectWithinHeadStart_runs (ho : c.operation = some op)
    (hr : op.reason ≠ .publicationAttach) (now : Int) :
    Runs (Upkeep v) [] [] c.toCore (c.promoteNextDirectWithinHeadStart op now).toCore := by
  obtain ⟨op', h, hs, hc, hout, hp⟩ := c.promoteNextDirectWithinHeadStart_toCore ho now
  rw [h]
  exact .single fun b => ⟨b, .plan ho hs hc (fun _ => hp) (fun _ => hout) fun _ => hr⟩

/-! ## Charging the ledgers -/

theorem settleCandidateOpportunity_toCore (op : Operation) :
    (c.settleCandidateOpportunity op).toCore = c.toCore ∨
      (c.settleCandidateOpportunity op).toCore = c.toCore.raise .nilDereference := by
  unfold settleCandidateOpportunity
  split
  · exact Or.inl rfl
  · split
    · exact Or.inl rfl
    · split
      · exact Or.inl (by simp)
      · exact Or.inr rfl

theorem settleCandidateOpportunity_runs (op : Operation) :
    Runs (Upkeep v) [] [] c.toCore (c.settleCandidateOpportunity op).toCore := by
  rcases c.settleCandidateOpportunity_toCore op with h | h
  · exact .of_eq h
  · rw [h]
    exact .single fun b => ⟨true, .halts rfl rfl⟩

@[simp] theorem settleCandidateOpportunity_operation (op : Operation) :
    (c.settleCandidateOpportunity op).operation = c.operation := by
  rcases c.settleCandidateOpportunity_toCore op with h | h
  · rw [h]
  · rw [h]; rfl

@[simp] theorem chargeTerminal_toCore (op : Operation) (now : Int) (bucket : RejectionBucket) :
    (c.chargeTerminal op now bucket).2.2.toCore = c.toCore := by
  unfold chargeTerminal
  dsimp only
  split
  · simp
  · split <;> simp

/-! ## Ending the operation -/

theorem finishOperation_chain (op : Operation) (now : Int) (bucket : RejectionBucket)
    (revisionAdvanced : Bool) {b : Bool} (hb : revisionAdvanced = true → b = true) :
    ∃ b', Chain (Upkeep v) b b' [] (c.finishOperation op now bucket revisionAdvanced).2.1
      { c.toCore with operation := none }
      (c.finishOperation op now bucket revisionAdvanced).2.2.toCore := by
  unfold finishOperation
  dsimp only
  have h := blockAndClear_chain (v := v) (c.chargeTerminal op now bucket).2.2 op
    (!isBackgroundConvergence op.reason && !op.reason == .sfuBootstrap) revisionAdvanced hb
  rw [chargeTerminal_toCore] at h
  split <;> simpa using h

theorem dropStaleOperation_runs (ho : c.operation = some op) (now : Int) (bucket : RejectionBucket) :
    Runs (Upkeep v) [] (c.dropStaleOperation op now bucket).1.released c.toCore
      (c.dropStaleOperation op now bucket).2.toCore := by
  simpa [dropStaleOperation] using retireAttempt_runs (v := v) c ho

theorem expireOperation_runs (ho : c.operation = some op) (now : Int) :
    Runs (Upkeep v) [] (c.expireOperation op now).1.released c.toCore
      (c.expireOperation op now).2.toCore := by
  intro b
  unfold expireOperation
  dsimp only
  set c₀ := (c.settleCandidateOpportunity op).consumeCurrentCandidateOpportunity op with hc₀
  set c₁ := c₀.consumeDirectContinuationCandidate op with hc₁
  set c₂ := if op.reason = .qualityConvergence then c₁.consumeQualityOperationCandidates op else c₁
    with hc₂
  have ht₀ : c₀.toCore = (c.settleCandidateOpportunity op).toCore := by simp [hc₀]
  have ht₂ : c₂.toCore = c₁.toCore := by
    rw [hc₂]
    split <;> simp
  have hd : Defers (c.settleCandidateOpportunity op).toCore c₂.toCore := by
    rw [ht₂, ← ht₀]
    exact c₀.consumeDirectContinuationCandidate_defers op
  have ho₂ : c₂.operation = some op := hd.operation.trans (by simpa using ho)
  obtain ⟨b₁, h₁⟩ := ((settleCandidateOpportunity_runs (v := v) c op).quiet hd.runs) b
  have h₂ := retireAttempt_chain (v := v) c₂ ho₂ b₁
  obtain ⟨b₃, h₃⟩ := finishOperation_chain (v := v) (c₂.retireAttempt op).2 op now
    (if op.builtAtFactVersion ≠ (c₂.retireAttempt op).2.factVersion then .stale
      else .operationDeadline) op.current.isSome (b := b₁ || op.current.isSome) (by simp_all)
  exact ⟨b₃, by simpa using (h₁.trans h₂).trans h₃⟩

theorem exhaustOperation_chain (ho : c.operation = some op) (hc : op.current = none) (now : Int)
    (revisionAdvanced : Bool) {b : Bool} (hb : revisionAdvanced = true → b = true) :
    ∃ b', Chain (Upkeep v) b b' [] (c.exhaustOperation op now revisionAdvanced).1.released c.toCore
      (c.exhaustOperation op now revisionAdvanced).2.toCore := by
  unfold exhaustOperation
  dsimp only
  obtain ⟨b', h⟩ := finishOperation_chain (v := v) c op now _ revisionAdvanced hb
  exact ⟨b', by simpa using (Chain.single (.closes ho hc)).trans h⟩

/-! ## Going on to the next candidate -/

theorem advanceCandidates_chain (ho : c.operation = some op) (hc : op.current = none)
    (hreason : op.reason ≠ .publicationAttach) (now : Int) (revisionAdvanced : Bool) {b : Bool}
    (hb : revisionAdvanced = true → b = true) :
    ∃ b', Chain (Upkeep v) b b' [] (c.advanceCandidates now revisionAdvanced).1.released c.toCore
      (c.advanceCandidates now revisionAdvanced).2.toCore := by
  unfold advanceCandidates
  simp only [ho]
  set c₁ := dropInvalidCandidates op.candidates.length c with hc₁
  have hr := dropInvalidCandidates_replanned op.candidates.length c ho hc
  obtain ⟨op₁, ho₁, hcur, -⟩ := hr.operation
  rw [← hc₁] at hr ho₁
  have hd := hr.chain (v := v) ho hc (fun _ => hreason) b
  simp only [ho₁]
  split
  · exact ⟨b, hd⟩
  · obtain ⟨b', h⟩ := exhaustOperation_chain (v := v) c₁ ho₁ hcur now revisionAdvanced hb
    exact ⟨b', by simpa using hd.trans h⟩

/-- The live candidate is abandoned, and the rest is planned anew. -/
theorem retireCandidate_chain {att : Attempt} (ho : c.operation = some op)
    (hc : op.current = some att) (guardFailed noProgress : Bool) (b : Bool) :
    (op.reason ≠ .publicationAttach →
      Chain (Upkeep v) b true [] (reservationResources att.reservation) c.toCore
        (c.retireCandidate op guardFailed noProgress).toCore) ∧
      ∃ op', (c.retireCandidate op guardFailed noProgress).operation = some op' ∧
        op'.current = none ∧ op'.reason = op.reason := by
  unfold retireCandidate
  dsimp only
  set c₁ : Controller := if guardFailed then c else
    c.noteRejection op.demandPeerID (if noProgress then .firstFrameTimeout else .stale) with hc₁
  set c₂ : Controller := if (guardFailed || noProgress) = true then
    ((c₁.settleCandidateOpportunity op).consumeCurrentCandidateOpportunity op)
      |>.consumeQualityCandidateOpportunity op (op.planAt op.cursor) else c₁ with hc₂
  have ht₁ : c₁.toCore = c.toCore := by
    rw [hc₁]
    split <;> rfl
  have ht₂ : Runs (Upkeep v) [] [] c.toCore c₂.toCore ∧ c₂.operation = some op := by
    rw [hc₂]
    split
    · refine ⟨?_, ?_⟩
      · simpa [ht₁] using c₁.settleCandidateOpportunity_runs op
      · exact (congrArg Core.operation (by simp :
          _ = (c₁.settleCandidateOpportunity op).toCore)).trans
            (by simpa using (congrArg Core.operation ht₁).trans ho)
    · exact ⟨.of_eq ht₁, (congrArg Core.operation ht₁).trans ho⟩
  set c₃ := c₂.consumeDirectContinuationCandidate op with hc₃
  have hd : Defers c₂.toCore c₃.toCore := c₂.consumeDirectContinuationCandidate_defers op
  have ho₃ : c₃.operation = some op := hd.operation.trans ht₂.2
  obtain ⟨b₁, h₁⟩ := (ht₂.1.quiet hd.runs) b
  have h₂ := h₁.trans (.single (.abandons ho₃ hc))
  set next : Operation → Operation := fun op =>
    if (guardFailed || noProgress) = true then { op with current := none, cursor := op.cursor + 1 }
    else { op with current := none, candidates := op.candidates.eraseIdx op.cursor } with hnext
  set c₄ := (c₃.advanceActiveRevision op).modifyOperation next with hc₄
  set based : Operation := { op with current := none, baseRevision := c₃.toCore.bump.revision }
  have hnextb : SameDemand based (next based) ∧ (next based).current = none ∧
      (next based).candidates.length ≤ based.candidates.length ∧
      (based.Outward → (next based).Outward) := by
    simp only [hnext]
    split
    · exact ⟨⟨rfl, rfl, rfl, rfl, rfl, rfl⟩, rfl, le_rfl,
        fun h => h.of_subset rfl (fun _ => id) fun _ => id⟩
    · exact ⟨⟨rfl, rfl, rfl, rfl, rfl, rfl⟩, rfl, List.length_eraseIdx_le _ _,
        fun h => h.of_subset rfl (fun _ => List.mem_of_mem_eraseIdx) fun _ => id⟩
  have hn : next { op with baseRevision := c₃.toCore.bump.revision } = next based := by
    simp only [hnext, based]
  have ht₄ : c₄.toCore = { c₃.toCore.bump with operation := some (next based) } := by
    simp [hc₄, Core.rebased, ho₃, hn]
  have hpass : Replanned based { c₃.toCore.bump with operation := some based } c₄.toCore :=
    ⟨next based, _, hnextb.1, hnextb.2.1, fun _ h => ⟨hnextb.2.2.2 h,
      narrow_of_length hnextb.1 hnextb.2.2.1⟩, Core.Outward.patient, ht₄⟩
  have hr := hpass.trans fun op' ho' hc' =>
    (c₄.clearCandidateTiming op.demandPeerID).replan_replanned ho' hc'
  obtain ⟨op', ho', hcur, hsame⟩ := hr.operation
  refine ⟨fun hreason => ?_, op', ho', hcur, hsame.reason⟩
  have hbased : based.Attends → based.reason ≠ .publicationAttach := fun _ => hreason
  exact h₂.quiet (hr.chain rfl rfl hbased true)

theorem advanceOperation_chain (ho : c.operation = some op)
    (hreason : op.reason ≠ .publicationAttach) (now : Int)
    (failed : Option CandidateGuard) (start : Int) {b : Bool}
    (hb : c.revision ≠ start → b = true) :
    ∃ b', Chain (Upkeep v) b b' [] (c.advanceOperation op now failed start).1.released c.toCore
      (c.advanceOperation op now failed start).2.toCore := by
  unfold advanceOperation
  cases hc : op.current with
  | none =>
    dsimp only
    set c₁ := if op.builtAtFactVersion ≠ c.factVersion then c.replanRemaining none none else c with hc₁
    have hr : Replanned op c.toCore c₁.toCore := by
      rw [hc₁]
      split
      · exact c.replan_replanned ho hc
      · exact .of_eq ho hc rfl
    obtain ⟨op₁, ho₁, hcur, hsame⟩ := hr.operation
    have hrev : c₁.revision = c.revision := hr.revision
    have hd := hr.chain (v := v) ho hc (fun _ => hreason) b
    obtain ⟨b', h⟩ := advanceCandidates_chain (v := v) c₁ ho₁ hcur (hsame.reason ▸ hreason) now
      (c₁.revision ≠ start) (b := b) (by simpa [hrev] using hb)
    exact ⟨b', by simpa using hd.trans h⟩
  | some att =>
    dsimp only
    split
    · exact ⟨b, .refl _ _⟩
    · obtain ⟨h₁, op₁, ho₁, hcur, hsame⟩ := retireCandidate_chain (v := v) c ho hc
        (guardFailed op att failed) (c.noProgress op att now) b
      obtain ⟨b', h₂⟩ := (c.retireCandidate op (guardFailed op att failed)
        (c.noProgress op att now)).advanceCandidates_chain ho₁ hcur (hsame ▸ hreason) now _
          (b := true) (fun _ => rfl)
      exact ⟨b', by simpa using (h₁ hreason).trans h₂⟩

/-! ## The direct head start -/

theorem retireHeadStart_chain (ho : c.operation = some op) (b : Bool) :
    ∃ b', Chain (Upkeep v) b b' [] (c.retireHeadStart op).1 c.toCore (c.retireHeadStart op).2.toCore ∧
      ∃ op', (c.retireHeadStart op).2.operation = some op' ∧ op'.current = none ∧
        op'.candidates = op.candidates ∧ op'.reason = op.reason := by
  unfold retireHeadStart
  cases hc : op.current with
  | none => exact ⟨b, .refl _ _, op, ho, hc, rfl, rfl⟩
  | some att =>
    set c₁ := ((c.settleCandidateOpportunity op).noteRejection op.demandPeerID
      .firstFrameTimeout).consumeCurrentCandidateOpportunity op with hc₁
    have ht₁ : c₁.toCore = (c.settleCandidateOpportunity op).toCore := by simp [hc₁]
    have ho₁ : c₁.operation = some op := (congrArg Core.operation ht₁).trans (by simpa using ho)
    obtain ⟨b₁, h₁⟩ := settleCandidateOpportunity_runs (v := v) c op b
    rw [← ht₁] at h₁
    refine ⟨true, ?_, { op with current := none, baseRevision := c₁.toCore.bump.revision },
      by simp [Core.rebased, ho₁, ← hc₁], rfl, rfl, rfl⟩
    simpa [Core.rebased, ho₁, ← hc₁] using h₁.trans (.single (.abandons ho₁ hc))

theorem advanceExpiredDirectHeadStart_chain (ho : c.operation = some op)
    (hreason : op.reason ≠ .publicationAttach) (now : Int) (b : Bool) :
    ∃ b', Chain (Upkeep v) b b' [] (c.advanceExpiredDirectHeadStart op now).2.1 c.toCore
        (c.advanceExpiredDirectHeadStart op now).2.2.toCore ∧
      ∃ op', (c.advanceExpiredDirectHeadStart op now).2.2.operation = some op' ∧
        op'.reason = op.reason := by
  unfold advanceExpiredDirectHeadStart
  split
  · split
    · exact ⟨b, .refl _ _, op, ho, rfl⟩
    · next sfuIndex _ _ _ =>
      obtain ⟨b₁, h₁, op₁, ho₁, hcur, hcand, hsame⟩ := retireHeadStart_chain (v := v) c ho b
      refine ⟨b₁, h₁.quiet ?_, _, by simp [ho₁]; rfl, by exact hsame⟩
      have hr₁ : op₁.Attends → op₁.reason ≠ .publicationAttach := fun _ => hsame ▸ hreason
      refine (modifyOperation_replanned _ ho₁ ⟨rfl, rfl, rfl, rfl, rfl, rfl⟩ hcur
        fun _ hout => ⟨⟨hout.candidates, fun hm => ?_⟩, narrow_of_length
          ⟨rfl, rfl, rfl, rfl, rfl, rfl⟩ le_rfl⟩).chain (v := v) ho₁ hcur hr₁ b₁
      rcases List.mem_append.1 hm with hm | hm
      · exact hout.deferred hm
      · obtain ⟨plan, hp, hpp⟩ := List.mem_map.1 hm
        obtain ⟨hp, hk⟩ := List.mem_filter.1 hp
        have hp : plan ∈ op₁.candidates := hcand ▸ List.mem_of_mem_take (List.mem_of_mem_drop hp)
        exact (hout.candidates plan hp).tuple (by simpa using hk) hpp
  · exact ⟨b, .refl _ _, op, ho, rfl⟩

/-! ## Attachments -/

theorem failPublicationAttach_runs (ho : c.operation = some op) (hr : op.reason = .publicationAttach) :
    Runs (Upkeep v) [] [] c.toCore (c.failPublicationAttach op).2.toCore := by
  unfold failPublicationAttach setVideoFacet
  dsimp only
  cases he : c.edge op.childPeerID with
  | none =>
    refine .single fun b => ⟨true, .halts (f := .nilDereference) rfl ?_⟩
    cases hf : c.fault <;> simp [Core.rebased, Core.bump, Core.allocateRevision, Core.raise, hf]
  | some e =>
    refine .single fun b => ⟨true, ?_⟩
    simpa [Core.rebased, Core.bump, Core.allocateRevision] using Upkeep.unattached (v := v) (b := b) ho hr

theorem rebased_closed (c : Core) : { c.rebased with operation := none } =
    { c.bump with operation := none } := rfl

theorem validatePublicationAttach_runs (ho : c.operation = some op)
    (hr : op.reason = .publicationAttach) (now : Int) (failed : Option CandidateGuard) :
    Runs (Upkeep v) [] (c.validatePublicationAttach op now failed).1.released c.toCore
      (c.validatePublicationAttach op now failed).2.toCore := by
  unfold validatePublicationAttach
  dsimp only
  split
  · refine .single fun b => ⟨true, ?_⟩
    simp only [advanceActiveRevision_toCore, rebased_closed]
    exact .detaches ho hr
  · split
    · simpa using c.failPublicationAttach_runs ho hr
    · exact .refl _

/-! ## The whole -/

/-- **`validateOrAdvance` is a run of maintenance steps.** -/
theorem validateOrAdvance_runs (now : Int) (failed : Option CandidateGuard) :
    Runs (Upkeep v) [] (c.validateOrAdvance now failed).1.released c.toCore
      (c.validateOrAdvance now failed).2.toCore := by
  intro b
  unfold validateOrAdvance
  cases ho : c.operation with
  | none => exact ⟨b, .refl _ _⟩
  | some op =>
    dsimp only
    split
    · next hr => exact c.validatePublicationAttach_runs ho hr now failed b
    · next hr =>
      split
      · exact c.dropStaleOperation_runs ho now .stale b
      · split
        · exact c.abortOperation_runs (some now) .aborted b
        · split
          · exact c.expireOperation_runs ho now b
          · obtain ⟨b₁, h₁, op₁, ho₁, hsame⟩ :=
              advanceExpiredDirectHeadStart_chain (v := v) c ho hr now b
            set c₁ := (c.advanceExpiredDirectHeadStart op now).2.2
            simp only [ho₁]
            split
            · obtain ⟨b₂, h₂⟩ := dropStaleOperation_runs (v := v) c₁ ho₁ now .aborted b₁
              exact ⟨b₂, by simpa using h₁.trans h₂⟩
            · have hb : c₁.revision ≠ c.revision → b₁ = true := by
                intro hne
                by_contra hb
                exact hne (h₁.unmarked (fun h => h.unmarked) (by simpa using hb)).2
              obtain ⟨b₂, h₂⟩ := advanceOperation_chain (v := v) c₁ ho₁ (hsame ▸ hr) now failed
                c.revision hb
              exact ⟨b₂, by simpa using h₁.trans h₂⟩

/-! ## A live attempt -/

@[simp] theorem blockAndClear_operation (op : Operation) (block revisionAdvanced : Bool) :
    (c.blockAndClear op block revisionAdvanced).2.operation = none := by
  unfold blockAndClear
  dsimp only
  split
  · rfl
  · have h := retireInvalidOperationEdge_operation { c with operation := none } op.childPeerID rfl
    have hu : ∀ (d : Controller) (p : ID) (f : ParticipantLedger → ParticipantLedger),
        (d.updateLedger p f).operation = d.operation := fun d p f =>
      congrArg Core.operation (d.updateLedger_toCore p f)
    rw [hu]
    split <;> split <;> exact h

@[simp] theorem finishOperation_operation (op : Operation) (now : Int) (bucket : RejectionBucket)
    (revisionAdvanced : Bool) :
    (c.finishOperation op now bucket revisionAdvanced).2.2.operation = none := by
  unfold finishOperation
  dsimp only
  have h := (c.chargeTerminal op now bucket).2.2.blockAndClear_operation op
    (!isBackgroundConvergence op.reason && !op.reason == .sfuBootstrap) revisionAdvanced
  split
  · exact (congrArg Core.operation (rememberUnavailableSfuBootstrap_toCore _ _)).trans h
  · exact h

theorem advanceCandidates_idle (ho : c.operation = some op) (hc : op.current = none) (now : Int)
    (revisionAdvanced : Bool) : (c.advanceCandidates now revisionAdvanced).2.Idle := by
  unfold advanceCandidates
  simp only [ho]
  obtain ⟨op₁, ho₁, hcur, -⟩ :=
    (dropInvalidCandidates_replanned op.candidates.length c ho hc).operation
  simp only [ho₁]
  split
  · intro op' h
    cases ho₁.symm.trans h
    exact hcur
  · intro op' h
    simp [exhaustOperation] at h

/-- What `advanceOperation` leaves live is the attempt it was given. -/
theorem advanceOperation_live (ho : c.operation = some op) (now : Int)
    (failed : Option CandidateGuard) (start : Int)
    (h : ¬(c.advanceOperation op now failed start).2.Idle) :
    c.advanceOperation op now failed start = ({}, c) ∧
      ∃ att, op.current = some att ∧ c.attemptValid op att := by
  unfold advanceOperation at h ⊢
  cases hc : op.current with
  | none =>
    simp only [hc] at h
    refine absurd ?_ h
    split
    · obtain ⟨op₁, ho₁, hcur, -⟩ := (c.replan_replanned ho hc).operation
      exact advanceCandidates_idle _ ho₁ hcur now _
    · exact c.advanceCandidates_idle ho hc now _
  | some att =>
    simp only [hc] at h ⊢
    split at h
    · next hv =>
      simp only [Bool.and_eq_true] at hv
      rw [if_pos (by simpa using hv)]
      exact ⟨rfl, att, rfl, hv.2⟩
    · obtain ⟨-, op₁, ho₁, hcur, -⟩ := retireCandidate_chain (v := .all) c ho hc
        (guardFailed op att failed) (c.noProgress op att now) false
      exact absurd (advanceCandidates_idle _ ho₁ hcur now _) h

/-- A head start either leaves everything alone or retires the attempt. -/
theorem advanceExpiredDirectHeadStart_cases (ho : c.operation = some op) (now : Int) :
    c.advanceExpiredDirectHeadStart op now = (false, [], c) ∨
      ∃ op', (c.advanceExpiredDirectHeadStart op now).2.2.operation = some op' ∧
        op'.current = none := by
  unfold advanceExpiredDirectHeadStart
  split
  · split
    · exact Or.inl rfl
    · obtain ⟨-, -, op₁, ho₁, hcur, -⟩ := retireHeadStart_chain (v := .all) c ho false
      refine Or.inr ⟨_, by simp [ho₁]; rfl, ?_⟩
      exact hcur
  · exact Or.inl rfl

/-- The attempt's claim on its candidate, whichever kind of operation it is. -/
def LiveValid (c : Controller) (op : Operation) (att : Attempt) : Prop :=
  if op.reason = .publicationAttach then c.publicationAttachOwned op = true
  else c.attemptValid op att = true

/-- **An attempt that survives `validateOrAdvance` was valid, and nothing else
    happened.** -/
theorem validateOrAdvance_live (now : Int) (failed : Option CandidateGuard) {op : Operation}
    {att : Attempt} (ho : (c.validateOrAdvance now failed).2.operation = some op)
    (hc : op.current = some att) :
    (c.validateOrAdvance now failed).2 = c ∧ (c.validateOrAdvance now failed).1.released = [] ∧
      (c.validateOrAdvance now failed).1.exhaustedPeerIDs = [] ∧ c.LiveValid op att := by
  unfold validateOrAdvance at ho ⊢
  cases hop : c.operation with
  | none => simp [hop] at ho
  | some op₀ =>
    simp only [hop] at ho ⊢
    split at ho
    · next hr =>
      simp only [if_pos hr]
      unfold validatePublicationAttach at ho ⊢
      split at ho
      · simp at ho
      · next hown =>
        simp only [if_neg hown] at ho ⊢
        split at ho
        · simp [failPublicationAttach] at ho
        · next hx =>
          simp only [if_neg hx]
          cases hop.symm.trans ho
          simpa [LiveValid, hr] using hown
    · next hr =>
      simp only [if_neg hr]
      split at ho
      · simp [dropStaleOperation] at ho
      · next hb =>
        rw [if_neg hb]
        split at ho
        · simp at ho
        · next hq =>
          rw [if_neg hq]
          split at ho
          · simp [expireOperation] at ho
          · next hd =>
            rw [if_neg hd]
            rcases c.advanceExpiredDirectHeadStart_cases hop now with he | ⟨op₁, ho₁, hcur⟩
            · simp only [he, hop] at ho ⊢
              split at ho
              · simp [dropStaleOperation] at ho
              · next hs =>
                rw [if_neg hs]
                have hlive : ¬(c.advanceOperation op₀ now failed c.revision).2.Idle := fun hi => by
                  simp [hi op ho] at hc
                obtain ⟨heq, att', hatt, hv⟩ := c.advanceOperation_live hop now failed _ hlive
                simp only [heq] at ho ⊢
                cases hop.symm.trans ho
                cases hc.symm.trans hatt
                simpa [LiveValid, hr] using hv
            · exfalso
              set c₁ := (c.advanceExpiredDirectHeadStart op₀ now).2.2
              simp only [ho₁] at ho
              split at ho
              · simp [dropStaleOperation] at ho
              · have hlive : ¬(c₁.advanceOperation op₁ now failed c.revision).2.Idle := fun hi => by
                  simp [hi op ho] at hc
                obtain ⟨-, att', hatt, -⟩ := c₁.advanceOperation_live ho₁ now failed _ hlive
                simp [hcur] at hatt

end Controller

end Piik.Route
