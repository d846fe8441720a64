/-
  `candidateReady`: the commit as one step, after the maintenance steps that
  come before it.
-/
import Piik.Route.Maintain

namespace Piik.Route

variable {v : Licence}

theorem runs_of_upkeep {a r : List Resource} {c c' : Core} (h : Runs (Upkeep v) a r c c') :
    Runs (Step v) a r c c' := h.mono .upkeep

theorem quiet_of_upkeep {a r : List Resource} {c c' : Core} (h : Runs (Upkeep v) a r c c') :
    Runs (Quiet v) a r c c' :=
  h.mono .upkeep

/-! ## What validity does not read -/

namespace Core

variable (c : Core)

theorem peerCandidateValid_withOperation (o : Option Operation) (p : ID) (t : CandidateTuple)
    (att : Option Attempt) :
    ({ c with operation := o } : Core).peerCandidateValid p t att = c.peerCandidateValid p t att := by
  rfl

theorem candidateValid_withOperation (o : Option Operation) (p : ID) (plan : CandidatePlan)
    (att : Option Attempt) :
    ({ c with operation := o } : Core).candidateValid p plan att = c.candidateValid p plan att := by
  unfold candidateValid
  rw [peerCandidateValid_withOperation]
  rfl

/-- Validity reads the sessions and the generation of an attempt. -/
theorem candidateValid_sameAttempt {att att' : Attempt} (h : SameAttempt att att') (p : ID)
    (plan : CandidatePlan) :
    c.candidateValid p plan (some att') = c.candidateValid p plan (some att) := by
  simp only [candidateValid, peerCandidateValid, sfuCandidateValid, h.childSessionID,
    h.parentSessionID, h.hostSessionID, h.publicationGeneration]

end Core

namespace Controller

variable (c : Controller) {op : Operation} {att : Attempt}

/-! ## Removing a generation -/

/-- The subscriptions of one generation. -/
def subscribersOf (generation : ID) : List (ID × CommittedEdge) :=
  c.upstreamByViewer.entries.filter fun e =>
    e.2.kind == .sfu && e.2.publicationGeneration == generation

/-- The retired edges are gone or inactive, the others untouched. -/
theorem releaseEach_retire_edge (l : List (ID × CommittedEdge)) (q : ID) (e : CommittedEdge)
    (h : (releaseEach (fun c p e => c.retireSfuEdge p e (c.retainsAnchor p)) l c).2.edge q = some e) :
    (∀ x ∈ l, x.1 ≠ q) ∧ c.edge q = some e ∨ e.physicalActive = false := by
  induction l generalizing c with
  | nil => exact Or.inl ⟨by simp, h⟩
  | cons x l ih =>
    obtain ⟨p, e₀⟩ := x
    unfold releaseEach at h
    dsimp only at h
    rcases ih _ h with ⟨hl, he⟩ | hi
    · rw [retireSfuEdge_toCore, Core.edge_dropSfuEdge] at he
      split at he
      · next hq =>
        right
        split at he
        · obtain ⟨e', -, rfl⟩ := Option.map_eq_some_iff.1 he
          rfl
        · cases he
      · next hq =>
        refine Or.inl ⟨fun y hy => ?_, he⟩
        rcases List.mem_cons.1 hy with rfl | hy
        · exact fun h => hq h.symm
        · exact hl y hy
    · exact Or.inr hi

theorem retireSubscribers_cuts (generation : ID) :
    Cuts (Core.OfGeneration generation)
      (releaseEach (fun c p e => c.retireSfuEdge p e (c.retainsAnchor p))
        (c.subscribersOf generation) c).1 c.toCore
      (releaseEach (fun c p e => c.retireSfuEdge p e (c.retainsAnchor p))
        (c.subscribersOf generation) c).2.toCore := by
  obtain ⟨hn, hl⟩ := c.filter_entries_edge fun e =>
    e.2.kind == .sfu && e.2.publicationGeneration == generation
  refine releaseEach_cuts (fun c p e he h => ?_) (fun c p e q hq => ?_) (fun _ _ _ _ _ h => h) _ _ hn
    fun x hx => ?_
  · rw [retireSfuEdge_toCore, retireSfuEdge_released]
    exact .sfu he h.1 h
  · rw [retireSfuEdge_toCore, Core.edge_dropSfuEdge, if_neg hq]
  · obtain ⟨h₁, h₂⟩ := hl x hx
    simp only [Bool.and_eq_true, beq_iff_eq] at h₂
    exact ⟨h₁, h₂⟩

/-- After them, nobody subscribes to the generation. -/
theorem retireSubscribers_unsubscribed (p : HostPublication) :
    (releaseEach (fun c p e => c.retireSfuEdge p e (c.retainsAnchor p))
      (c.subscribersOf p.generation) c).2.Unsubscribed p := by
  intro q e he hk ha hg
  rcases c.releaseEach_retire_edge _ q e he with ⟨hl, he⟩ | hi
  · refine hl (q, e) ?_ rfl
    simpa [subscribersOf, hk, hg] using OMap.get_eq_some.1 he
  · simp [ha] at hi

theorem releaseEach_publication {f : Controller → ID → CommittedEdge → List Resource × Controller}
    (hf : ∀ c p e, (f c p e).2.hostPublication = c.hostPublication)
    (l : List (ID × CommittedEdge)) : (releaseEach f l c).2.hostPublication = c.hostPublication := by
  induction l generalizing c with
  | nil => rfl
  | cons x l ih => exact (ih _).trans (hf c x.1 x.2)

theorem retireSubscribers_publication (l : List (ID × CommittedEdge)) :
    (releaseEach (fun c p e => c.retireSfuEdge p e (c.retainsAnchor p)) l c).2.hostPublication =
      c.hostPublication := by
  refine c.releaseEach_publication (fun c p e => ?_) l
  rw [retireSfuEdge_toCore, Core.dropSfuEdge]
  split <;> rfl

/-- Removing the current publication's generation. -/
theorem removePublicationGeneration_trim {p : HostPublication} (hp : c.hostPublication = some p) :
    Trim (Core.OfGeneration p.generation) (c.removePublicationGeneration p.generation).1 c.toCore
        (c.removePublicationGeneration p.generation).2.toCore ∧
      (c.removePublicationGeneration p.generation).2.hostPublication = none := by
  have hcuts := c.retireSubscribers_cuts p.generation
  have hun := c.retireSubscribers_unsubscribed p
  have hpub := c.retireSubscribers_publication (c.subscribersOf p.generation)
  unfold subscribersOf at hcuts hun hpub
  unfold removePublicationGeneration
  dsimp only
  set c₁ := (releaseEach (fun c p e => c.retireSfuEdge p e (c.retainsAnchor p))
    (c.upstreamByViewer.entries.filter fun e =>
      e.2.kind == .sfu && e.2.publicationGeneration == p.generation) c).2
  rw [hpub, hp]
  simp only [if_true]
  have hdrop := c₁.dropPublication_cuts (L := Core.OfGeneration p.generation) fun q hq => by
    cases (hpub.trans hp).symm.trans hq
    exact hun
  have hnone := c₁.dropPublication_publication
  refine ⟨⟨by simpa using (hcuts.trans hdrop).trans (.single .anchors),
    fun _ => Core.anchored_prune _, fun _ => Core.served_prune _ (Core.served_of_none _ hnone)⟩, ?_⟩
  simp only [prune_toCore]
  exact hnone

/-! ## The commit -/

theorem removeReplaced_replaced (h : ¬(att.tuple.kind = .sfu ∧ att.tuple.publication = .replace ∧
    c.hostPublication = none)) : Replaced att c.toCore (c.removeReplaced att).toCore := by
  unfold Replaced removeReplaced
  split
  · next hr =>
    cases hp : c.hostPublication with
    | none => exact absurd ⟨hr.1, hr.2, hp⟩ h
    | some p =>
      obtain ⟨ht, hn⟩ := c.removePublicationGeneration_trim hp
      exact ⟨p, _, rfl, hn, ht⟩
  · rfl

/-- The parents staged behind a new SFU edge are not the child. -/
theorem remainingParents_outward (ho : op.Outward) {old : Option CommittedEdge}
    (hold : ∀ e, old = some e → e.kind = .peer → e.parentPeerID ≠ op.childPeerID) :
    op.childPeerID ∉ c.remainingParents op old := by
  have hrest : op.childPeerID ∉ (if op.reason = .directConvergence then [] else
      let start := if c.natPredictionEnabled then 0 else op.cursor + 1
      let untried := (op.candidates.drop start).filter fun plan =>
        plan.tuple.kind == .peer &&
          (!c.natPredictionEnabled || c.candidateOpportunityAvailable op.childPeerID plan)
      untried.map (fun plan => plan.tuple.parentPeerID) ++ op.deferredParentPeerIDs) := by
    split
    · simp
    · intro hm
      rcases List.mem_append.1 hm with hm | hm
      · obtain ⟨plan, hp, hpp⟩ := List.mem_map.1 hm
        obtain ⟨hp, hk⟩ := List.mem_filter.1 hp
        simp only [Bool.and_eq_true, beq_iff_eq] at hk
        exact (ho.candidates plan (List.mem_of_mem_drop hp)).tuple hk.1 hpp
      · exact ho.deferred hm
  unfold remainingParents
  cases old with
  | none => exact hrest
  | some e =>
    dsimp only
    split
    · next parent hparent =>
      split at hparent
      · next hk =>
        cases hparent
        simp only [Bool.and_eq_true, beq_iff_eq] at hk
        intro hm
        exact hold e rfl hk.1.1.2 (List.mem_singleton.1 hm).symm
      · cases hparent
    · exact hrest

theorem installContinuation_toCore (old : Option CommittedEdge) :
    (c.installContinuation op att old).toCore = { c.toCore with
      directContinuations := (c.installContinuation op att old).directContinuations } := by
  unfold installContinuation
  dsimp only
  split <;> split <;> rfl

theorem installAttempt_toCore (old : Option CommittedEdge) :
    (c.installAttempt op att old).toCore = { c.toCore.install op att with
      directContinuations := (c.installAttempt op att old).directContinuations } :=
  installContinuation_toCore _ old

@[simp] theorem publishAttempt_toCore (old : Option CommittedEdge) :
    (c.publishAttempt op att old).toCore = c.toCore.publish att := rfl

theorem installContinuation_patient {old : Option CommittedEdge} (h : Patient c.directContinuations)
    (ho : op.Outward)
    (hold : ∀ e, old = some e → e.kind = .peer → e.parentPeerID ≠ op.childPeerID) :
    Patient (c.installContinuation op att old).directContinuations := by
  have key : ∀ parents : List ID, op.childPeerID ∉ parents → Patient
      (if parents.isEmpty || !c.allowsIncoming op.childPeerID .peer then
        c.deleteContinuation op.childPeerID
      else
        let continuation : DirectContinuation :=
          { childSessionID := op.childSessionID, sfuConnectionID := att.connectionID
            publicationGeneration := att.publicationGeneration, parentPeerIDs := dedupeStrings parents }
        { c with directContinuations :=
            c.directContinuations.set op.childPeerID continuation }).directContinuations := by
    intro parents hp
    split
    · exact h.delete _
    · exact h.set fun hm => hp (mem_dedupeStrings hm)
  refine key _ ?_
  split
  · simp
  · exact c.remainingParents_outward ho hold

end Controller

/-! ### Removals keep everybody from feeding itself -/

theorem Cut.outward {L : Core → ID → CommittedEdge → Prop} {r : List Resource} {c c' : Core}
    (h : Cut L r c c') (ho : c.Outward) : c'.Outward := by
  have hdeact : ∀ p, (c.deactivateEdge p).Outward := fun p => by
    refine ⟨fun q e he hk => ?_, ?_, ho.patient⟩
    · rw [Core.edge_deactivateEdge] at he
      split at he
      · next hq =>
        obtain ⟨e', he', rfl⟩ := Option.map_eq_some_iff.1 he
        exact ho.edge q e' (hq ▸ he') hk
      · exact ho.edge q e he hk
    · have : (c.deactivateEdge p).edge c.hostPeerID = none := by
        rw [Core.edge_deactivateEdge]
        split
        · next hq => rw [← hq, ho.host]; rfl
        · exact ho.host
      exact this
  have hdel : ∀ p, (c.deleteEdge p).Outward := fun p => by
    refine ⟨fun q e he hk => ?_, ?_, ho.patient⟩
    · rw [Core.edge_deleteEdge] at he
      split at he
      · cases he
      · exact ho.edge q e he hk
    · have : (c.deleteEdge p).edge c.hostPeerID = none := by
        rw [Core.edge_deleteEdge, ho.host]
        split <;> rfl
      exact this
  cases h with
  | peer => exact hdeact _
  | sfu =>
    unfold Core.dropSfuEdge
    split
    · exact ⟨(hdeact _).edge, (hdeact _).host, ho.patient⟩
    · exact hdel _
  | publication => exact ⟨ho.edge, ho.host, ho.patient⟩
  | leaf => exact ⟨(hdel _).edge, (hdel _).host, ho.patient.delete _⟩
  | anchors =>
    refine ⟨fun q e he hk => ?_, ?_, ho.patient⟩
    · rw [Core.edge_prune, Option.filter_eq_some_iff] at he
      exact ho.edge q e he.1 hk
    · have : c.pruneRetiringSfuAnchors.edge c.hostPeerID = none := by
        rw [Core.edge_prune, ho.host]; rfl
      exact this

theorem Cuts.outward {L : Core → ID → CommittedEdge → Prop} {r : List Resource} {c c' : Core}
    (h : Cuts L r c c') (ho : c.Outward) : c'.Outward := by
  induction h with
  | refl => exact ho
  | head hd _ ih => exact ih (hd.outward ho)

theorem Replaced.outward {att : Attempt} {c c' : Core} (h : Replaced att c c') (ho : c.Outward) :
    c'.Outward := by
  unfold Replaced at h
  split at h
  · obtain ⟨p, r, -, -, ht⟩ := h
    exact ht.1.outward ho
  · exact h ▸ ho

theorem Core.install_continuations (c : Core) (op : Operation) (att : Attempt) :
    (c.install op att).directContinuations = c.directContinuations := by
  unfold Core.install
  split
  · unfold Core.installPeer
    split
    · rfl
    · split <;> rfl
  · unfold Core.installSfu Core.installPublication
    dsimp only
    split_ifs <;> rfl

namespace Controller

variable (c : Controller) {op : Operation} {att : Attempt}

@[simp] theorem convergeCreatedRoot_toCore (op : Operation) (att : Attempt)
    (old : Option CommittedEdge) : (c.convergeCreatedRoot op att old).toCore = c.toCore := by
  unfold convergeCreatedRoot
  dsimp only
  generalize (_ && _ : Bool) = created
  cases created
  · rfl
  · exact c.stageRootConvergence_toCore _

@[simp] theorem rebaseline_toCore (op : Operation) (att : Attempt) (old : Option CommittedEdge) :
    (c.rebaseline op att old).toCore = c.toCore := by
  unfold rebaseline
  dsimp only
  rw [requireSenderQualityBaseline_toCore]
  exact foldl_toCore (fun c a => by simp) _ _

@[simp] theorem settleBootstrap_toCore (op : Operation) (att : Attempt) :
    (c.settleBootstrap op att).toCore = c.toCore := by
  unfold settleBootstrap
  split
  · dsimp only
    split <;> split <;> simp
  · split <;> simp

theorem settleCandidateOpportunity_valid {plan : CandidatePlan} (hc : op.current = some att)
    (hp : op.planAt op.cursor = some plan)
    (hv : c.candidateValid op.childPeerID plan (some att) = true) :
    (c.settleCandidateOpportunity op).toCore = c.toCore := by
  have hchild : (c.participant op.childPeerID).isSome := by
    unfold Core.candidateValid at hv
    simp only [Bool.and_eq_true] at hv
    have := hv.1.1.2
    split at this
    · next h => simp [h]
    · cases this
  obtain ⟨child, hchild⟩ := Option.isSome_iff_exists.1 hchild
  unfold settleCandidateOpportunity
  simp only [hc, hp, hchild]
  split
  · rfl
  · simp

/-- What a commit leaves: the attempt on the graph that was cleared for it. -/
theorem commitAttempt_toCore {plan : CandidatePlan} (hc : op.current = some att)
    (hp : op.planAt op.cursor = some plan) (ht : plan.tuple = att.tuple)
    (hv : c.candidateValid op.childPeerID plan (some att) = true) :
    ∃ c₁ m, Replaced att c.toCore c₁ ∧ (c.Outward → op.Outward → Patient m) ∧
      (c.commitAttempt op att).2.toCore = c₁.committed op att (c.edge op.childPeerID) m := by
  have hs := c.settleCandidateOpportunity_valid hc hp hv
  set c₀ := c.settleCandidateOpportunity op with hc₀
  set c₁ := (c₀.clearQualityForParticipant op.childPeerID).removeReplaced att with hc₁
  have hrep : Replaced att c.toCore c₁.toCore := by
    have : Replaced att _ c₁.toCore := removeReplaced_replaced _ (by
      rintro ⟨hk, hpub, hn⟩
      simp only [clearQualityForParticipant_toCore, hs] at hn
      unfold Core.candidateValid Core.sfuCandidateValid at hv
      simp [ht, hk, hpub, hn] at hv)
    rwa [clearQualityForParticipant_toCore, hs] at this
  set old := c.edge op.childPeerID with hold
  set c₂ := c₁.installAttempt op att old with hc₂
  refine ⟨c₁.toCore, c₂.directContinuations, hrep, fun hco hop => ?_, ?_⟩
  · refine installContinuation_patient _ ?_ hop fun e he hk => hco.edge _ e he hk
    rw [Core.install_continuations]
    exact (hrep.outward hco).patient
  · unfold commitAttempt Core.committed
    dsimp only
    rw [← c₁.installAttempt_toCore, ← hc₀, ← hc₁, hs, ← hold, ← hc₂]
    simp only [settleBootstrap_toCore, updateLedger_toCore, convergeCreatedRoot_toCore,
      publishAttempt_toCore]

theorem commitAttempt_accepted {plan : CandidatePlan} (ho : c.operation = some op)
    (hr : op.reason ≠ .publicationAttach) (hc : op.current = some att)
    (hp : op.planAt op.cursor = some plan) (ht : plan.tuple = att.tuple)
    (hv : c.candidateValid op.childPeerID plan (some att) = true) :
    Accepted (c.commitAttempt op att).1 c.toCore (c.commitAttempt op att).2.toCore := by
  obtain ⟨c₁, m, hrep, hpat, hcore⟩ := c.commitAttempt_toCore hc hp ht hv
  have hrel : (c.commitAttempt op att).1 =
      ((dedupeResources (c.settleCandidateOpportunity op).committedResources).filter fun r =>
        !resourceIn r (c.commitAttempt op att).2.committedResources) ++
      att.reservation.overlap.toList := rfl
  rw [hrel, hcore, c.settleCandidateOpportunity_valid hc hp hv]
  exact .commits ho hr hc hp hv hrep hpat

/-! ## The commit gate -/

theorem approveAttempt_same (now : Int) (proof : CandidateProof) :
    SameAttempt att (approveAttempt op att now proof) := by
  unfold approveAttempt
  dsimp only
  split_ifs <;> exact ⟨rfl, rfl, rfl, rfl, rfl, rfl, rfl, rfl, rfl⟩

/-- The evidence on the live attempt changes, or nothing. -/
def Noted (c c' : Core) : Prop :=
  ∃ op att att', c.operation = some op ∧ op.current = some att ∧ SameAttempt att att' ∧
    c' = { c with operation := some { op with current := some att' } }

theorem Noted.refl {c : Core} (ho : c.operation = some op) (hc : op.current = some att) : Noted c c := by
  refine ⟨op, att, att, ho, hc, .refl att, ?_⟩
  cases c
  cases op
  simp_all

theorem Noted.runs {c c' : Core} (hv : v.Records) (h : Noted c c') : Runs (Step v) [] [] c c' := by
  obtain ⟨op, att, att', ho, hc, hs, rfl⟩ := h
  exact .single fun b => ⟨b, .upkeep (.note ho hc hs (hv _ _))⟩

theorem Noted.trans {c c' c'' : Core} (h : Noted c c') (h' : Noted c' c'') : Noted c c'' := by
  obtain ⟨op, att, att₁, ho, hc, hs, rfl⟩ := h
  obtain ⟨op', att', att₂, ho', hc', hs', rfl⟩ := h'
  cases ho'
  cases hc'
  exact ⟨op, att, att₂, ho, hc, hs.trans hs', rfl⟩

/-- How a call that may commit ends: maintenance, or the commit of the live
    attempt with the new evidence on it. -/
inductive Settles (v : Licence) : Bool → List Resource → Core → Core → Prop
  | maintains {r c c'} : Runs (Upkeep v) [] r c c' → Settles v false r c c'
  | accepts {r c c₁ c'} : Noted c c₁ → Accepted r c₁ c' → Settles v true r c c'

namespace Settles

variable {k : Bool} {r : List Resource} {c c₁ c' : Core}

theorem runs (hrec : v.Records) (h : Settles v k r c c') (hv : v.commits = false → k = false) :
    Runs (Step v) [] r c c' := by
  cases h with
  | maintains h => exact runs_of_upkeep h
  | accepts hn h =>
    exact ((hn.runs hrec).trans (.single fun b => ⟨true, .accepts (by simpa using hv) h⟩)).cast rfl rfl

theorem note (hv : v.Records) (hn : Noted c c₁) (h : Settles v k r c₁ c') : Settles v k r c c' := by
  cases h with
  | maintains h =>
    obtain ⟨op, att, att', ho, hc, hs, rfl⟩ := hn
    exact .maintains ((Runs.single fun b => ⟨b, .note ho hc hs (hv _ _)⟩ : Runs (Upkeep v) [] [] c _).trans h)
  | accepts hn' h => exact .accepts (hn.trans hn') h

theorem cast {k' : Bool} {r' : List Resource} (h : Settles v k r c c') (hk : k = k') (hr : r = r') :
    Settles v k' r' c c' := hk ▸ hr ▸ h

end Settles

/-- A live attempt whose plan holds can be committed. -/
structure Committable (c : Core) (op : Operation) (att : Attempt) : Prop where
  operation : c.operation = some op
  reason : op.reason ≠ .publicationAttach
  current : op.current = some att
  plan : ∃ plan, op.planAt op.cursor = some plan ∧ plan.tuple = att.tuple ∧
    c.candidateValid op.childPeerID plan (some att) = true

theorem Committable.note {c : Core} (h : Committable c op att) {att' : Attempt}
    (hs : SameAttempt att att') :
    Committable { c with operation := some { op with current := some att' } }
      { op with current := some att' } att' := by
  obtain ⟨plan, hp, ht, hv⟩ := h.plan
  refine ⟨rfl, h.reason, rfl, plan, hp, ht.trans hs.tuple.symm, ?_⟩
  rw [Core.candidateValid_withOperation, Core.candidateValid_sameAttempt _ hs]
  exact hv

theorem foldl_ensureDemand_toCore (l : List ID) (now : Int) (r : DemandReason) :
    (l.foldl (fun c child => c.ensureDemand child now r) c).toCore = c.toCore :=
  foldl_toCore (fun c p => c.ensureDemand_toCore p now r) l c

theorem settleReady_settles {σ : Type} (h : Committable c.toCore op att) (guard : CandidateGuard)
    (now : Int) (commitReservation : CandidateReservation → σ → Bool × σ) (s : σ)
    (checked : Validation) (hrel : checked.released = []) :
    Settles v (c.settleReady op att guard now commitReservation s checked).1.committed
      (c.settleReady op att guard now commitReservation s checked).1.released c.toCore
      (c.settleReady op att guard now commitReservation s checked).2.2.toCore := by
  unfold settleReady
  generalize commitReservation att.reservation s = x
  obtain ⟨committed, s⟩ := x
  dsimp only
  split
  · have h₁ := promoteNextDirectWithinHeadStart_runs (v := v) c h.operation h.reason now
    have h₂ := validateOrAdvance_runs (v := v) ((c.promoteNextDirectWithinHeadStart op now).noteRejection
      op.demandPeerID .candidateFailed) now (some guard)
    rw [hrel]
    exact .maintains (h₁.trans h₂)
  · obtain ⟨plan, hp, ht, hv⟩ := h.plan
    set c₁ : Controller := if op.reason ≠ .sfuBootstrap then
      c.finishTiming op.demandPeerID now (if att.tuple.kind = .peer then .direct else .sfu) .none true
      else c with hc₁
    have ht₁ : c₁.toCore = c.toCore := by
      rw [hc₁]
      split <;> rfl
    have hs := c₁.commitAttempt_accepted (by rw [ht₁]; exact h.operation) h.reason h.current hp ht
      (by rw [ht₁]; exact hv)
    rw [foldl_ensureDemand_toCore, hrel, ← ht₁]
    exact .accepts (.refl (by rw [ht₁]; exact h.operation) h.current) hs

theorem LiveValid.committable {c : Controller} (h : c.LiveValid op att) (ha : c.Aligned)
    (ho : c.operation = some op) (hr : op.reason ≠ .publicationAttach) (hc : op.current = some att) :
    Committable c.toCore op att := by
  rw [LiveValid, if_neg hr, attemptValid] at h
  split at h
  · next plan hp =>
    simp only [operationCandidateValid, Bool.and_eq_true] at h
    exact ⟨ho, hr, hc, plan, hp, ha op att plan ho hr hc hp, h.1⟩
  · cases h

theorem commitPublicationAttach_accepted (ho : c.operation = some op)
    (hr : op.reason = .publicationAttach) (hc : op.current = some att)
    (hown : c.publicationAttachOwned op = true) :
    Accepted [] c.toCore (c.commitPublicationAttach op att).toCore := by
  have he : ∃ e, c.edge op.childPeerID = some e := by
    unfold publicationAttachOwned at hown
    simp only [Bool.and_eq_true] at hown
    have := hown.2
    split at this
    · next e _ _ he _ => exact ⟨e, he⟩
    · cases this
  obtain ⟨e, he⟩ := he
  have := Accepted.attached ho hr hc he
  unfold commitPublicationAttach setVideoFacet
  simpa [he] using this

/-- **How `candidateReady` ends.** -/
theorem candidateReady_settles {σ : Type} (hv : v.Records) (ha : c.Aligned) (guard : CandidateGuard) (now : Int)
    (commitReservation : CandidateReservation → σ → Bool × σ) (s : σ) (proof : CandidateProof) :
    Settles v (c.candidateReady guard now commitReservation s proof).1.committed
      (c.candidateReady guard now commitReservation s proof).1.released c.toCore
      (c.candidateReady guard now commitReservation s proof).2.2.toCore := by
  have h : Runs (Upkeep v) [] _ c.toCore _ := c.validateOrAdvance_runs now none
  have hlive := fun {op att} => @validateOrAdvance_live c now none op att
  unfold candidateReady
  generalize c.validateOrAdvance now none = x at h hlive ⊢
  obtain ⟨checked, c₁⟩ := x
  dsimp only at h hlive ⊢
  split
  · exact .maintains h
  · next op ho =>
    split
    · exact .maintains h
    · next att hc =>
      obtain ⟨rfl, hrel, -, hvalid⟩ := hlive ho hc
      split
      · exact .maintains h
      · split
        · exact .maintains h
        · split
          · exact .maintains h
          · split
            · next hr =>
              rw [LiveValid, if_pos hr] at hvalid
              rw [hrel]
              exact .accepts (.refl ho hc) (c₁.commitPublicationAttach_accepted ho hr hc hvalid)
            · next hr =>
              have hs := @approveAttempt_same op att now proof
              have hcm := (hvalid.committable ha ho hr hc).note hs
              have hnote : Noted c₁.toCore _ := ⟨op, att, _, ho, hc, hs, rfl⟩
              split
              · exact .note hv hnote (.maintains (candidateFailed_runs _ guard now))
              · rw [hrel]
                exact .note hv hnote (.maintains (.refl _))
              · exact .note hv hnote (settleReady_settles _ hcm guard now _ _ _ hrel)

end Controller

end Piik.Route
