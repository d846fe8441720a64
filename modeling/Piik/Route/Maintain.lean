/-
  The calls that never commit are runs of maintenance steps: the scheduler,
  then begin, skip, and the settling calls that only validate.
-/
import Piik.Route.Advance

namespace Piik.Route

variable {v : Licence}

namespace Controller

variable (c : Controller)

/-! ## The child of a pick -/

theorem isChild_of_available {b : Bool} {p : Participant} (h : p ∈ c.availableViewers b) :
    c.IsChild p.peerID := by
  simp only [availableViewers, List.mem_sortStable, List.mem_filter, Bool.and_eq_true,
    beq_iff_eq] at h
  exact Or.inl ⟨p, h.1, rfl, h.2.1.1.1⟩

theorem isChild_of_childrenOf {p q : ID} (h : q ∈ c.childrenOf p) : c.IsChild q := by
  simp only [Core.childrenOf, List.mem_map, List.mem_filter] at h
  obtain ⟨e, ⟨he, -⟩, rfl⟩ := h
  exact Or.inr (by simp [Core.edge, OMap.get_eq_some.2 he])

theorem isChild_of_overflow {p q : ID} (h : q ∈ c.overflowPeerChildren p) : c.IsChild q := by
  unfold Core.overflowPeerChildren at h
  split at h
  · cases h
  · have h := List.mem_of_mem_drop h
    rw [List.mem_sortStable] at h
    exact c.isChild_of_childrenOf (List.mem_filter.1 h).1

theorem selectNextChild_isChild (h : c.selectNextChild ≠ "") : c.IsChild c.selectNextChild := by
  unfold selectNextChild at h ⊢
  dsimp only at h ⊢
  split at h
  · exact absurd rfl h
  · next child l hl =>
    have hm := mem_dedupeStrings (List.mem_sortStable.1 (hl ▸ List.mem_cons_self))
    have hv : ∀ p : Participant → Bool,
        child ∈ ((c.availableViewers false).filter p).map Participant.peerID → c.IsChild child := by
      intro p hp
      obtain ⟨v, hv, rfl⟩ := List.mem_map.1 hp
      exact c.isChild_of_available (List.mem_filter.1 hv).1
    simp only [List.mem_append] at hm
    rcases hm with (((hm | hm) | hm) | hm) | hm
    · exact hv _ hm
    · simp only [overflowChildren, List.mem_flatMap, List.mem_reverse, List.mem_filter] at hm
      obtain ⟨p, -, hm, -⟩ := hm
      exact c.isChild_of_overflow hm
    · exact hv _ hm
    · exact hv _ hm
    · exact hv _ hm

theorem takeSfuBootstrapCarrier_isChild (now : Int) {carrier : SfuBootstrapCarrier}
    (h : (c.takeSfuBootstrapCarrier now).1 = some carrier) : c.IsChild carrier.carrierPeerID := by
  unfold takeSfuBootstrapCarrier at h
  split at h
  · cases h
  · split at h
    · next heq =>
      cases h
      unfold peekSfuBootstrapCarrier at heq
      split at heq
      · cases heq
      · next intent d hd =>
        have ht := c.currentSfuBootstrapIntent_toCore
        rw [hd] at ht
        simp only [Prod.mk.injEq, Option.map_eq_some_iff] at heq
        obtain ⟨⟨carrierPeerID, hm, rfl⟩, -⟩ := heq
        have hm := List.mem_of_mem_head? hm
        unfold safeSfuBootstrapCarriers at hm
        split at hm
        · simp only [sfuBootstrapCarriers, List.mem_sortStable, List.mem_filter] at hm
          exact ht ▸ d.isChild_of_childrenOf hm.1
        · cases hm
    · cases h

theorem selectContinuationLoop_isChild (l : List (ID × DirectContinuation)) {child : ID}
    {plan : CandidatePlan} (h : (selectContinuationLoop l c).1 = some (child, plan)) :
    c.IsChild child := by
  induction l generalizing c with
  | nil => cases h
  | cons d l ih =>
    obtain ⟨p, d⟩ := d
    unfold selectContinuationLoop at h
    split at h
    · exact ih (c.deleteContinuation p) h
    · next hd =>
      split at h
      · simp only [Option.some.injEq, Prod.mk.injEq] at h
        obtain ⟨rfl, -⟩ := h
        unfold continuationCurrent at hd
        split at hd
        · next he => exact Or.inr (by simp [he])
        · simp at hd
      · refine Eq.mp ?_ (ih _ h)
        split <;> rfl

/-- A fold that only ever adds the viewer it is at. -/
theorem mem_of_mem_targets {f : List Participant × Controller → Participant → List Participant × Controller}
    (hf : ∀ s viewer, ∀ w ∈ (f s viewer).1, w ∈ s.1 ∨ w = viewer) {l viewers : List Participant}
    {s : List Participant × Controller} (hs : ∀ w ∈ s.1, w ∈ viewers) (hl : ∀ w ∈ l, w ∈ viewers) :
    ∀ w ∈ (l.foldl f s).1, w ∈ viewers := by
  induction l generalizing s with
  | nil => exact hs
  | cons viewer l ih =>
    refine ih (fun w hw => ?_) fun w hw => hl w (List.mem_cons_of_mem _ hw)
    rcases hf s viewer w hw with hw | rfl
    · exact hs w hw
    · exact hl w List.mem_cons_self

theorem selectQualityChild_isChild (now : Int) {child : ID}
    (h : (c.selectQualityChild now).1 = some child) : c.IsChild child := by
  unfold selectQualityChild at h
  split at h
  · cases h
  · dsimp only at h
    obtain ⟨v, hv, rfl⟩ := Option.map_eq_some_iff.1 h
    have hv := List.mem_sortStable.1 (List.mem_of_mem_head? hv)
    refine c.isChild_of_available (b := false) ?_
    -- every target comes from the folded list
    refine mem_of_mem_targets (fun s viewer w hw => ?_) (by simp) (fun w hw => hw) v hv
    obtain ⟨targets, d⟩ := s
    dsimp only at hw
    split at hw
    · exact Or.inl hw
    · split at hw
      · dsimp only at hw
        split at hw
        · exact Or.inl hw
        · exact (List.mem_append.1 hw).imp_right List.mem_singleton.1
      · exact Or.inl hw

theorem takeRootConvergenceIntent_isChild {convergence : RootConvergence}
    (h : c.takeRootConvergenceIntent.1 = some convergence) : c.IsChild convergence.childPeerID := by
  unfold takeRootConvergenceIntent at h
  dsimp only at h
  split at h
  · cases h
  · unfold rootConvergencePlan at h
    split at h
    · cases h
    · split at h
      · cases h
      · dsimp only at h
        split at h
        · cases h
        · next donor _ _ =>
          split at h
          · cases h
          · next child l hl =>
            have hm : child ∈ c.activeDirectChildren donor :=
              List.mem_sortStable.1 (hl ▸ List.mem_cons_self)
            split at h
            · cases h
            · split at h
              · cases h
                exact c.isChild_of_childrenOf (List.mem_filter.1 hm).1
              · cases h

theorem takeRootConvergenceIntent_outward (ho : c.Outward) {convergence : RootConvergence}
    (h : c.takeRootConvergenceIntent.1 = some convergence) :
    convergence.plan.Outward convergence.childPeerID := by
  unfold takeRootConvergenceIntent at h
  dsimp only at h
  split at h
  · cases h
  · exact rootConvergencePlan_outward _ ho h

/-! ## What is picked -/

/-- The plan a pick brings with it does not feed the child from itself. -/
def PickOutward : Pick → Prop
  | .continuation child plan => plan.Outward child
  | .root convergence => convergence.plan.Outward convergence.childPeerID
  | _ => True

theorem pickBackground_defers (now : Int) : Defers c.toCore (c.pickBackground now).2.toCore := by
  have h := c.selectContinuationLoop_defers (c.directContinuations.entries.sortStable
    fun left right => c.viewerAttemptsStarted left.1 < c.viewerAttemptsStarted right.1)
  unfold pickBackground selectDirectContinuation
  split
  · next heq => rwa [heq] at h
  · next c₁ heq =>
    rw [heq] at h
    have hq := c₁.selectQualityChild_toCore now
    split
    · exact h
    · split
      · next heq' => rw [heq'] at hq; exact h.trans (.of_eq hq)
      · next c₂ heq' =>
        rw [heq'] at hq
        exact h.trans (.of_eq (by simpa using hq))

theorem pickBackground_spec (now : Int) {pick : Pick} (h : (c.pickBackground now).1 = some pick) :
    c.IsChild pick.childPeerID ∧ (c.Outward → PickOutward pick) := by
  have hd := c.selectContinuationLoop_defers (c.directContinuations.entries.sortStable
    fun left right => c.viewerAttemptsStarted left.1 < c.viewerAttemptsStarted right.1)
  unfold pickBackground at h
  split at h
  · next child plan _ heq =>
    cases h
    exact ⟨c.selectContinuationLoop_isChild _ (congrArg Prod.fst heq),
      fun ho => c.selectDirectContinuation_outward ho (congrArg Prod.fst heq)⟩
  · next c₁ heq =>
    unfold selectDirectContinuation at heq
    rw [heq] at hd
    rw [← hd.isChild]
    split at h
    · cases h
    · split at h
      · next heq' =>
        cases h
        exact ⟨c₁.selectQualityChild_isChild now (congrArg Prod.fst heq'), fun _ => trivial⟩
      · next c₂ heq' =>
        have h₂ : c₂.toCore = c₁.toCore := by simpa [heq'] using c₁.selectQualityChild_toCore now
        obtain ⟨convergence, hc, rfl⟩ := Option.map_eq_some_iff.1 h
        rw [← h₂]
        refine ⟨c₂.takeRootConvergenceIntent_isChild hc, fun ho => ?_⟩
        exact c₂.takeRootConvergenceIntent_outward (h₂ ▸ hd.outward ho) hc

theorem pickWork_defers (now : Int) : Defers c.toCore (c.pickWork now).2.2.toCore := by
  have h := c.takeSfuBootstrapCarrier_toCore now
  unfold pickWork
  split
  · next heq => rw [heq] at h; exact .of_eq h
  · next c₁ heq =>
    rw [heq] at h
    dsimp only
    split
    · exact .of_eq h
    · exact (Defers.of_eq h).trans (c₁.pickBackground_defers now)

/-- A pick is about a viewer or the child of an edge. -/
theorem pickWork_spec (now : Int) {pick : Pick} (h : (c.pickWork now).1 = some pick) :
    c.IsChild pick.childPeerID ∧ (c.Outward → PickOutward pick) := by
  unfold pickWork at h
  split at h
  · next heq =>
    cases h
    exact ⟨c.takeSfuBootstrapCarrier_isChild now (congrArg Prod.fst heq), fun _ => trivial⟩
  · next c₁ heq =>
    have h₁ : c₁.toCore = c.toCore := by simpa [heq] using c.takeSfuBootstrapCarrier_toCore now
    rw [← h₁]
    dsimp only at h
    split at h
    · next hne =>
      cases h
      exact ⟨c₁.selectNextChild_isChild hne, fun _ => trivial⟩
    · exact c₁.pickBackground_spec now h

/-! ## Opening an operation -/

@[simp] theorem pickCandidates_toCore (pick : Pick) (now : Int) :
    (c.pickCandidates pick now).2.toCore = c.toCore := by
  unfold pickCandidates
  split <;> simp

theorem pickCandidates_outward (ho : c.Outward) {pick : Pick} (hp : PickOutward pick) (now : Int) :
    ∀ plan ∈ (c.pickCandidates pick now).1, plan.Outward pick.childPeerID := by
  intro plan hm
  cases pick with
  | continuation child plan' => exact List.mem_singleton.1 hm ▸ hp
  | quality child => exact c.buildQualityCandidates_outward ho hm
  | root convergence => exact List.mem_singleton.1 hm ▸ hp
  | route child => exact c.buildCandidates_outward hm
  | bootstrap carrier => exact c.buildCandidates_outward hm

theorem mem_orderCandidates {pick : Pick} {l : List CandidatePlan} {plan : CandidatePlan}
    (h : plan ∈ c.orderCandidates pick l) : plan ∈ l := by
  unfold orderCandidates at h
  split at h
  · exact h
  · exact (List.mem_filter.1 h).1
  · split at h
    · exact mem_moveToFront h
    · exact h

theorem openOperation_toCore (pick : Pick) (candidates : List CandidatePlan) (now : Int) :
    ∃ op, (c.openOperation pick candidates now).toCore = { c.toCore with operation := some op } ∧
      op.current = none ∧ op.baseRevision = c.revision ∧ op.childPeerID = pick.childPeerID ∧
      op.reason = c.pickReason pick ∧ op.candidates = candidates ∧ op.deferredParentPeerIDs = [] :=
  ⟨_, rfl, rfl, rfl, rfl, rfl, rfl, rfl⟩

/-- A root convergence and a bootstrap are picked with one candidate. -/
theorem length_orderCandidates (d e : Controller) {pick : Pick} (now : Int)
    (hr : d.pickReason pick = .rootConvergence ∨ d.pickReason pick = .sfuBootstrap) :
    (e.orderCandidates pick (c.pickCandidates pick now).1).length ≤ 1 := by
  cases pick with
  | continuation | quality => rcases hr with hr | hr <;> cases hr
  | root convergence =>
    simp only [orderCandidates, pickCandidates]
    split
    · rw [length_moveToFront]
      exact le_rfl
    · exact le_rfl
  | route child =>
    have hne : d.routeDemandReason child ≠ .rootConvergence ∧
        d.routeDemandReason child ≠ .sfuBootstrap := by
      unfold Core.routeDemandReason
      split
      · exact ⟨nofun, nofun⟩
      · split_ifs <;> exact ⟨nofun, nofun⟩
    exact (hr.elim hne.1 hne.2).elim
  | bootstrap carrier => exact (List.length_filter_le _ _).trans (c.length_buildCandidates_sfu _)

theorem pickReason_ne (pick : Pick) : c.pickReason pick ≠ .publicationAttach := by
  cases pick with
  | route child =>
    show c.routeDemandReason child ≠ .publicationAttach
    unfold Core.routeDemandReason
    split
    · nofun
    · split_ifs <;> nofun
  | _ => nofun

/-- The operation of a pick is opened on the state the pick was made in. -/
theorem openOperation_runs (ho : c.operation = none) {d : Controller} (hd : Defers c.toCore d.toCore)
    {pick : Pick} {candidates : List CandidatePlan} (now : Int) (hp : c.IsChild pick.childPeerID)
    (hout : c.Outward → ∀ plan ∈ candidates, plan.Outward pick.childPeerID)
    (hone : d.pickReason pick = .rootConvergence ∨ d.pickReason pick = .sfuBootstrap →
      candidates.length ≤ 1) :
    Runs (Upkeep v) [] [] c.toCore (d.openOperation pick candidates now).toCore := by
  obtain ⟨op, heq, hc, hb, hchild, hreason, hcand, hdef⟩ := d.openOperation_toCore pick candidates now
  obtain ⟨m, hm, hdm⟩ := hd
  rw [heq, hdm]
  have h₁ : Runs (Upkeep v) [] [] c.toCore { c.toCore with operation := some op } :=
    .single fun b => ⟨b, .opens ho hc (by rw [hb, hdm]) (hchild ▸ hp)
      (fun h => ⟨by rw [hcand, hchild]; exact hout h, by simp [hdef]⟩)
      (fun hr _ _ _ => hcand ▸ hone (hreason ▸ hr))
      fun hr => absurd (hreason ▸ hr) (d.pickReason_ne pick)⟩
  exact h₁.quiet (.single fun b => ⟨b, .defers fun h => hm ⟨h.edge, h.host, h.patient⟩⟩)

/-- A route that cannot be found may cost the child its edge. -/
theorem pickUnavailable_runs (ho : c.operation = none) (pick : Pick) (now : Int) :
    Runs (Upkeep v) [] (c.pickUnavailable pick now).2.1 c.toCore (c.pickUnavailable pick now).2.2.toCore ∧
      (c.pickUnavailable pick now).2.2.operation = none := by
  cases pick with
  | bootstrap carrier =>
    have ht := c.completeSfuBootstrapCarrier_toCore carrier.carrierPeerID now .candidateFailed none
    exact ⟨.of_eq ht, (congrArg Core.operation ht).trans ho⟩
  | continuation child plan =>
    refine ⟨(c.deleteContinuation_defers child).runs, ?_⟩
    simpa [pickUnavailable] using ho
  | quality child => exact ⟨.of_eq (by simp [pickUnavailable]), by simpa [pickUnavailable]⟩
  | root convergence => exact ⟨.of_eq (by simp [pickUnavailable]), by simpa [pickUnavailable]⟩
  | route child =>
    set r := c.retireInvalidOperationEdge child with hr
    set c₁ : Controller := if r.1 then r.2.2.bump.touchFacts else r.2.2 with hc₁
    have hrun : Runs (Upkeep v) [] r.2.1 c.toCore c₁.toCore := by
      cases h : r.1 with
      | false =>
        have h₀ := c.retireInvalidOperationEdge_false child h
        rw [← hr] at h₀
        exact (Runs.refl _).cast rfl (by rw [h₀]) |>.quiet (.of_eq (by simp [hc₁, h, h₀]))
      | true =>
        have ht := c.retireInvalidOperationEdge_trim child h
        refine .single fun b => ⟨true, ?_⟩
        have hs := Upkeep.trims (v := v) (b := b) (fun op h => by simp [ho] at h) ht
        rw [Core.rebased_of_none _ (ht.1.operation_eq.trans ho)] at hs
        simpa [hc₁, h] using hs
    have hop : c₁.operation = none := by
      have := c.retireInvalidOperationEdge_operation child ho
      rw [hc₁]
      split <;> exact this
    have h₁ : (c.pickUnavailable (.route child) now).2.1 = r.2.1 := by
      unfold pickUnavailable
      dsimp only
      split_ifs <;> rfl
    have h₂ : (c.pickUnavailable (.route child) now).2.2.toCore = c₁.toCore := by
      rw [hc₁, hr]
      unfold pickUnavailable
      dsimp only [Pick.childPeerID, Pick.demandPeerID]
      split_ifs <;> simp
    rw [h₁]
    exact ⟨h₂ ▸ hrun, (congrArg Core.operation h₂).trans hop⟩

/-- **A scheduling turn after the other.** -/
theorem reconcileLoop_runs (now : Int) : ∀ (n : ℕ) (c : Controller), c.operation = none →
    Runs (Upkeep v) [] (reconcileLoop now n c).2.1 c.toCore (reconcileLoop now n c).2.2.toCore
  | 0, c, _ => .refl _
  | n + 1, c, ho => by
    unfold reconcileLoop
    have hd := c.pickWork_defers now
    have hi : ∀ pick, (c.pickWork now).1 = some pick →
        c.IsChild pick.childPeerID ∧ (c.Outward → PickOutward pick) := fun pick => c.pickWork_spec now
    generalize c.pickWork now = x at hd hi ⊢
    obtain ⟨pick, failed, c₁⟩ := x
    dsimp only at hd hi ⊢
    have ho₁ : c₁.operation = none := hd.operation.trans ho
    split
    · exact hd.runs
    · next pick =>
      split
      · exact hd.runs
      · split
        · exact hd.runs.quiet (.single fun b => ⟨true, .halts (f := .nilDereference) rfl rfl⟩)
        · set c₂ := c₁.ensureDemand pick.demandPeerID now (c₁.pickReason pick) with hc₂
          set c₃ := (c₂.pickCandidates pick now).2 with hc₃
          have ht₂ : c₂.toCore = c₁.toCore := by simp [hc₂]
          have ht₃ : c₃.toCore = c₁.toCore := by simp [hc₃, hc₂]
          have ho₃ : c₃.operation = none := (congrArg Core.operation ht₃).trans ho₁
          have h₃ : Runs (Upkeep v) [] [] c.toCore c₃.toCore := ht₃ ▸ hd.runs
          obtain ⟨hchild, hpick⟩ := hi pick rfl
          split
          · obtain ⟨h₁, ho₄⟩ := pickUnavailable_runs (v := v) c₃ ho₃ pick now
            exact h₃.trans (h₁.trans (reconcileLoop_runs now n _ ho₄))
          · refine openOperation_runs c ho (d := c₃) (ht₃ ▸ hd) now hchild (fun h plan hm => ?_)
              (c₂.length_orderCandidates c₃ c₃ now)
            have h₂ : c₂.Outward := ht₂ ▸ hd.outward h
            exact c₂.pickCandidates_outward h₂ (hpick h) now plan (mem_orderCandidates _ hm)

/-! ## The scheduler -/

theorem attachTuple_outward (ho : c.Outward) {p : ID} {e : CommittedEdge} {t : CandidateTuple}
    (he : c.edge p = some e) (h : c.attachTuple p e = some t) : t.Outward p := by
  intro hk
  unfold attachTuple at h
  split at h
  · cases h
  · split at h
    · cases h
    · split at h
      · next hkind =>
        split at h <;> cases h
        exact ho.edge p e he hkind
      · split at h <;> cases h
        cases hk

theorem attends_of_single {op : Operation} {plan : CandidatePlan}
    (hd : op.demandPeerID = op.childPeerID) (hcursor : op.cursor = 0) (hp : op.candidates = [plan])
    (hk : plan.endpointTransition.kind ≠ .boundedGap) (hc : op.current = none) : op.Attends :=
  fun _ => ⟨hd, hcursor, plan, by simp [Operation.planAt, hp], hk, by simp [hc]⟩

theorem startPublicationAttach_runs (ho : c.operation = none) (now : Int) :
    Runs (Upkeep v) [] [] c.toCore (c.startPublicationAttach now).2.toCore := by
  unfold startPublicationAttach
  split
  · exact .refl _
  · split
    · exact .refl _
    · next child e tuple heq =>
      obtain ⟨x, hx, h⟩ := List.exists_of_findSome?_eq_some heq
      obtain ⟨t, _, ht⟩ := Option.map_eq_some_iff.1 h
      simp only [Prod.mk.injEq] at ht
      obtain ⟨rfl, rfl, rfl⟩ := ht
      have he : c.edge x.1 = some x.2 := OMap.get_eq_some.2 hx
      refine .single fun b => ⟨b, .opens ho rfl rfl (Or.inr (by simp [he])) (fun hout => ⟨?_, ?_⟩)
        (fun hr => by rcases hr with hr | hr <;> cases hr)
        (attends_of_single rfl rfl rfl nofun rfl)⟩
      · intro plan hm
        cases List.mem_singleton.1 hm
        exact ⟨c.attachTuple_outward hout he ‹_›, fun r hr => by cases hr⟩
      · simp

theorem foldl_restore_defers (l : List ID) :
    Defers c.toCore (l.foldl (fun c p => c.restoreDirectContinuation p) c).toCore := by
  induction l generalizing c with
  | nil => exact .of_eq rfl
  | cons p l ih => exact (c.restoreDirectContinuation_defers p).trans (ih _)

theorem schedule_runs (ho : c.operation = none) (now : Int) :
    Runs (Upkeep v) [] (c.schedule now).2.1 c.toCore (c.schedule now).2.2.toCore := by
  have hrun := startPublicationAttach_runs (v := v) c ho now
  have hcases : (c.startPublicationAttach now).1 = false → (c.startPublicationAttach now).2 = c := by
    unfold startPublicationAttach
    split
    · exact fun _ => rfl
    · split
      · exact fun _ => rfl
      · exact fun h => by cases h
  unfold schedule
  generalize c.startPublicationAttach now = x at hrun hcases ⊢
  obtain ⟨attached, c₁⟩ := x
  dsimp only at hrun hcases ⊢
  cases attached with
  | true => exact hrun
  | false =>
    rw [hcases rfl]
    set c₂ := c.upstreamByViewer.keys.foldl (fun c p => c.restoreDirectContinuation p) c
    have hd : Defers c.toCore c₂.toCore := foldl_restore_defers c _
    exact hd.runs.trans (reconcileLoop_runs now c₂.participants.len c₂ (hd.operation.trans ho))

/-- What the scheduler opens has no attempt yet. -/
theorem reconcileLoop_idle (now : Int) : ∀ (n : ℕ) (c : Controller), c.operation = none →
    (reconcileLoop now n c).2.2.Idle
  | 0, c, ho => fun op h => by
    cases ho.symm.trans h
  | n + 1, c, ho => by
    have hidle : ∀ d : Controller, d.operation = none → d.Idle := fun d hd op h => by
      cases hd.symm.trans h
    unfold reconcileLoop
    have hd := c.pickWork_defers now
    generalize c.pickWork now = x at hd ⊢
    obtain ⟨pick, failed, c₁⟩ := x
    dsimp only at hd ⊢
    have ho₁ : c₁.operation = none := hd.operation.trans ho
    split
    · exact hidle _ ho₁
    · next pick =>
      split
      · exact hidle _ ho₁
      · split
        · exact hidle _ ho₁
        · set c₂ := c₁.ensureDemand pick.demandPeerID now (c₁.pickReason pick) with hc₂
          set c₃ := (c₂.pickCandidates pick now).2 with hc₃
          have ht₃ : c₃.toCore = c₁.toCore := by simp [hc₃, hc₂]
          have ho₃ : c₃.operation = none := (congrArg Core.operation ht₃).trans ho₁
          split
          · exact reconcileLoop_idle now n _ (pickUnavailable_runs (v := .all) c₃ ho₃ pick now).2
          · obtain ⟨op, heq, hc, -⟩ := c₃.openOperation_toCore pick
              (c₃.orderCandidates pick (c₂.pickCandidates pick now).1) now
            intro op' h
            rw [heq] at h
            cases h
            exact hc

theorem schedule_idle (ho : c.operation = none) (now : Int) : (c.schedule now).2.2.Idle := by
  have hattach : (c.startPublicationAttach now).2.Idle ∧
      ((c.startPublicationAttach now).1 = false → (c.startPublicationAttach now).2 = c) := by
    have hidle : c.Idle := fun op h => by cases ho.symm.trans h
    unfold startPublicationAttach
    split
    · exact ⟨hidle, fun _ => rfl⟩
    · split
      · exact ⟨hidle, fun _ => rfl⟩
      · refine ⟨fun op h => ?_, nofun⟩
        cases h
        rfl
  unfold schedule
  generalize c.startPublicationAttach now = x at hattach ⊢
  obtain ⟨attached, c₁⟩ := x
  obtain ⟨hidle, hsame⟩ := hattach
  dsimp only at hidle hsame ⊢
  cases attached with
  | true => exact hidle
  | false =>
    rw [hsame rfl]
    exact reconcileLoop_idle now _ _ ((foldl_restore_defers c _).operation.trans ho)

theorem preemptBackground_runs (now : Int) :
    Runs (Upkeep v) [] (c.preemptBackground now).1 c.toCore (c.preemptBackground now).2.toCore := by
  unfold preemptBackground
  split
  · exact .refl _
  · split
    · exact .refl _
    · dsimp only
      split
      · simpa using c.hasSfuBootstrapWork.2.abortOperation_runs (some now) .aborted
      · exact .of_eq c.hasSfuBootstrapWork_toCore

theorem pruneWhenIdle_runs :
    Runs (Upkeep v) [] c.pruneWhenIdle.2.1 c.toCore c.pruneWhenIdle.2.2.toCore := by
  unfold pruneWhenIdle
  split
  · next h => exact c.pruneDepartedLeaves_runs (Option.isNone_iff_eq_none.1 h)
  · exact .refl _

/-- **`Reconcile` is a run of maintenance steps.** -/
theorem reconcile_runs (now : Int) :
    Runs (Upkeep v) [] (c.reconcile now).1.released c.toCore (c.reconcile now).2.toCore := by
  unfold reconcile
  dsimp only
  have h₁ := retireDepartedEdges_runs (v := v) c now
  set c₁ := (c.retireDepartedEdges now).2
  have h₂ := h₁.trans (c₁.validateOrAdvance_runs now none)
  set c₂ := (c₁.validateOrAdvance now none).2
  have h₃ := h₂.trans (c₂.preemptBackground_runs now)
  set c₃ := (c₂.preemptBackground now).2
  have h₄ := h₃.trans c₃.pruneWhenIdle_runs
  set c₄ := c₃.pruneWhenIdle.2.2
  split
  · exact h₄
  · next h =>
    simp only [Bool.or_eq_true, not_or, Bool.not_eq_true, Option.isSome_eq_false_iff,
      Option.isNone_iff_eq_none] at h
    exact h₄.trans (c₄.schedule_runs h.2 now)

/-! ## Beginning a candidate -/

theorem rejectBegin_runs (now : Int) (checked : Validation) (input : BeginInput)
    (operation : Option Operation)
    (h : Runs (Upkeep v) [] checked.released c.toCore (c.validateOrAdvance now none).2.toCore) :
    Runs (Upkeep v) (reservationResources input.reservation)
      (rejectBegin checked input operation).released c.toCore
      (c.validateOrAdvance now none).2.toCore := by
  simpa [rejectBegin] using h.trans (.single fun b => ⟨b, .echoes (reservationResources input.reservation)⟩)

theorem reservationResources_empty {r : CandidateReservation} (h : emptyReservation r = true) :
    reservationResources r = [] := by
  simp only [emptyReservation, Bool.and_eq_true, beq_iff_eq, Option.isNone_iff_eq_none] at h
  simp [reservationResources, h]

theorem beginPublicationAttach_runs (input : BeginInput) (ho : c.operation = some op)
    (hc : op.current = none) (hb : op.baseRevision = c.revision) (hr : op.reason = .publicationAttach)
    (checked : Validation) :
    ∃ a r, reservationResources input.reservation = a ∧
      (c.beginPublicationAttach input op checked).1.released = checked.released ++ r ∧
      Runs (Upkeep v) a r c.toCore (c.beginPublicationAttach input op checked).2.toCore := by
  have hecho : Runs (Upkeep v) (reservationResources input.reservation)
      (reservationResources input.reservation) c.toCore c.toCore :=
    .single fun b => ⟨b, .echoes _⟩
  unfold beginPublicationAttach
  split
  · next e plan _ hplan =>
    split
    · exact ⟨_, _, rfl, rfl, hecho⟩
    · next h =>
      simp only [Bool.or_eq_true, Bool.not_eq_true', not_or, Bool.not_eq_false] at h
      refine ⟨[], [], reservationResources_empty h.1.2, by simp, .single fun b => ⟨b, ?_⟩⟩
      refine .attaches ho hc hb hr rfl rfl fun plan' hp => ?_
      cases hplan.symm.trans hp
      rfl
  · exact ⟨_, _, rfl, rfl, hecho⟩

theorem begun_of_beginFault {input : BeginInput} {plan : CandidatePlan}
    (hv : c.operationCandidateValid op plan none) (hg : plan.endpointTransition.kind ≠ .boundedGap)
    (hh : (plan.tuple.kind == .sfu && (input.hostSessionID = "" ||
      input.hostSessionID ≠ c.sessionOf c.hostPeerID)) = false)
    (hf : c.beginFault plan input = none) :
    Begun c.toCore op plan (c.newAttempt op plan input (c.latest + 1)) := by
  obtain ⟨hk, hgen, hing⟩ : assertReservation plan.tuple input.reservation
        (plan.endpointTransition.kind == .overlap) = none ∧
      ¬(plan.tuple.kind == .sfu && c.attemptGeneration plan.tuple input = "") = true ∧
      ¬(plan.tuple.kind == .sfu && plan.tuple.publication ≠ .reuse &&
        input.publicationConnectionID = "") = true := by
    simpa [beginFault] using hf
  simp only [Bool.and_eq_true, beq_iff_eq, decide_eq_true_eq, not_and, ne_eq] at hgen hing
  simp only [Bool.and_eq_false_iff, beq_eq_false_iff_ne, Bool.or_eq_false_iff,
    decide_eq_false_iff_not] at hh
  simp only [operationCandidateValid, Bool.and_eq_true] at hv
  refine ⟨hv.1, hg, rfl, rfl, rfl, fun hs => ?_, fun hs => ?_, fun hs hp => ?_, ?_⟩
  · have hs : plan.tuple.kind = .sfu := hs
    simpa [newAttempt, hs] using (hh.resolve_left (by simp [hs])).1
  · exact hgen hs
  · exact hing ⟨hs, hp⟩
  · by_contra hne
    have hne : input.reservation.kind ≠ expectedKind plan.tuple := hne
    rw [assertReservation, if_pos hne] at hk
    cases hk

theorem beginFault_isGraph {plan : CandidatePlan} {input : BeginInput} {f : Fault}
    (h : c.beginFault plan input = some f) : f.isGraph = false := by
  simp only [beginFault, assertReservation, Option.orElse_eq_some] at h
  rcases h with h | ⟨-, h | ⟨-, h⟩⟩
  · split at h
    · cases h; rfl
    · split at h <;> cases h; rfl
  · split at h <;> cases h; rfl
  · split at h <;> cases h; rfl

/-- The operation notes that a peer was tried, and the attempt is live. -/
theorem begins_runs {op : Operation} {plan : CandidatePlan} {att : Attempt}
    (ho : c.operation = some op) (hcur : op.current = none) (hb : op.baseRevision = c.revision)
    (hr : op.reason ≠ .publicationAttach) (hp : op.planAt op.cursor = some plan)
    (hbegun : Begun c.toCore op plan att) (hq : v.reserves att.reservation) (started : Bool) :
    Runs (Upkeep v) (reservationResources att.reservation) [] c.toCore
      { c.allocateRevision with
        operation := some { op with current := some att, peerAttemptStarted := started } } := by
  let op' : Operation := { op with peerAttemptStarted := started }
  let c' : Core := { c.toCore with operation := some op' }
  have hnote : ∀ b, Upkeep v b b [] [] c.toCore c' := fun b =>
    .plan ho ⟨rfl, rfl, rfl, rfl, rfl, rfl⟩ rfl (fun _ => rfl) (fun _ h => ⟨⟨h.1, h.2⟩, id⟩)
      fun _ => hr
  have hbegun' : Begun c' op' plan att :=
    { hbegun with valid := hbegun.valid, revision := hbegun.revision }
  have hbegins : ∀ b, Upkeep v b b (reservationResources att.reservation) [] c'
      { c'.allocateRevision with operation := some { op' with current := some att } } := fun b =>
    .begins rfl hcur hb hr hp hbegun' hq
  exact (Runs.single fun b => ⟨b, hnote b⟩).trans (.single fun b => ⟨b, hbegins b⟩)

/-- **Beginning a candidate takes the reservation, or hands it back.** -/
theorem beginCurrentCandidate_runs (input : BeginInput) (hq : v.reserves input.reservation) :
    Runs (Upkeep v) (reservationResources input.reservation)
      (c.beginCurrentCandidate input).1.released c.toCore (c.beginCurrentCandidate input).2.toCore := by
  have h : Runs (Upkeep v) _ _ _ _ := c.validateOrAdvance_runs input.nowMs none
  unfold beginCurrentCandidate
  dsimp only
  set c₁ := (c.validateOrAdvance input.nowMs none).2 with hc₁
  set checked := (c.validateOrAdvance input.nowMs none).1
  have hrej : ∀ operation, Runs (Upkeep v) (reservationResources input.reservation)
      (rejectBegin checked input operation).released c.toCore c₁.toCore :=
    fun operation => c.rejectBegin_runs input.nowMs checked input operation h
  split
  · exact hrej _
  · next op ho =>
    split
    · exact hrej _
    · next hg =>
      simp only [Bool.or_eq_true, not_or, decide_eq_true_eq, Option.isSome_iff_ne_none, ne_eq,
        not_not, Bool.not_eq_true] at hg
      obtain ⟨⟨hcur, hb⟩, -⟩ := hg
      split
      · next hr =>
        obtain ⟨a, r, ha, hr', hrun⟩ := beginPublicationAttach_runs (v := v) c₁ input ho hcur hb hr checked
        rw [hr', ha]
        simpa using h.trans hrun
      · next hr =>
        split
        · exact hrej _
        · next plan hp =>
          split
          · exact hrej _
          · next hv =>
            split
            · exact hrej _
            · next hgap =>
              split
              · exact hrej _
              · next hh =>
                split
                · next f hf =>
                  have hs : Runs (Upkeep v) (reservationResources input.reservation)
                      (reservationResources input.reservation) c₁.toCore (c₁.raise f).toCore :=
                    .single fun b => ⟨true, .halts (c₁.beginFault_isGraph hf) rfl⟩
                  simpa [rejectBegin] using h.trans hs
                · next hf =>
                  have hbegun := c₁.begun_of_beginFault (by simpa using hv) hgap (by simpa using hh) hf
                  exact (h.trans (c₁.begins_runs ho hcur hb hr hp hbegun hq _)).cast rfl
                    (List.append_nil _)

/-! ## Passing over a candidate -/

@[simp] theorem noteCurrentCandidateRejection_toCore (guard : CandidateCursorGuard)
    (bucket : RejectionBucket) :
    (c.noteCurrentCandidateRejection guard bucket).2.toCore = c.toCore := by
  unfold noteCurrentCandidateRejection
  split
  · rfl
  · split <;> rfl

theorem passCandidate_replanned (ho : c.operation = some op) (hc : op.current = none) (now : Int)
    (bucket : RejectionBucket) : Replanned op c.toCore (c.passCandidate op now bucket).toCore := by
  unfold passCandidate
  dsimp only
  have hcons : ∀ d : Controller, d.toCore = c.toCore →
      Replanned op c.toCore (d.promoteNextDirectWithinHeadStart op now).toCore := by
    intro d hd
    obtain ⟨op', h, hs, hcur, hout, -⟩ := d.promoteNextDirectWithinHeadStart_toCore
      ((congrArg Core.operation hd).trans ho) now
    rw [hd] at hout
    exact ⟨op', _, hs, hcur.trans hc, fun _ => hout, Core.Outward.patient, by rw [h, hd]⟩
  -- the tail that both branches share
  have hnext : ∀ d : Controller, Replanned op c.toCore d.toCore → Replanned op c.toCore
      ((((d.consumeQualityCandidateOpportunity op (op.planAt op.cursor)).consumeDirectContinuationCandidate
        op).noteRejection op.demandPeerID bucket).modifyOperation
          fun op => { op with cursor := op.cursor + 1 }).toCore := by
    intro d hd
    have h₁ := (d.consumeQualityCandidateOpportunity op
      (op.planAt op.cursor)).consumeDirectContinuationCandidate_defers op
    rw [consumeQualityCandidateOpportunity_toCore] at h₁
    have h₂ := hd.trans fun op' ho' hc' => .of_defers ho' hc' h₁
    exact h₂.trans fun op' ho' hc' => modifyOperation_replanned (noteRejection _ op.demandPeerID bucket)
      ho' ⟨rfl, rfl, rfl, rfl, rfl, rfl⟩ hc' fun _ h => ⟨h.of_subset rfl (fun _ => id) fun _ => id,
        narrow_of_length ⟨rfl, rfl, rfl, rfl, rfl, rfl⟩ le_rfl⟩
  split
  · refine hnext _ (hcons _ ?_)
    split
    · split <;> simp
    · rfl
  · exact hnext c (.of_eq ho hc rfl)

/-- **Skipping a candidate is a run of maintenance steps.** -/
theorem skipCurrentCandidate_runs (guard : CandidateCursorGuard) (now : Int)
    (bucket : RejectionBucket) :
    Runs (Upkeep v) [] (c.skipCurrentCandidate guard now bucket).1.released c.toCore
      (c.skipCurrentCandidate guard now bucket).2.toCore := by
  have h := validateOrAdvance_runs (v := v) c now none
  unfold skipCurrentCandidate
  dsimp only
  set c₁ := (c.validateOrAdvance now none).2
  split
  · exact h
  · next op ho =>
    split
    · exact h
    · next hg =>
      simp only [Bool.or_eq_true, not_or, Option.isSome_iff_ne_none, ne_eq, not_not] at hg
      split
      · next hr => exact h.quiet (c₁.failPublicationAttach_runs ho hr)
      · next hr =>
        have hp := (c₁.passCandidate_replanned ho hg.1 now bucket).runs (v := v) ho hg.1 fun _ => hr
        exact (h.quiet hp).trans (validateOrAdvance_runs _ now none)

/-! ## Settling without a commit -/

/-- Rewriting the evidence of the live attempt. -/
theorem noteAttempt_runs {op : Operation} {att att' : Attempt} (ho : c.operation = some op)
    (hc : op.current = some att) (hs : SameAttempt att att') (hv : v.notes att att') :
    Runs (Upkeep v) [] [] c.toCore
      { c.toCore with operation := some { op with current := some att' } } :=
  .single fun b => ⟨b, .note ho hc hs hv⟩

theorem candidateTransportConnected_runs (hv : v.Records) (guard : CandidateGuard) (now : Int) :
    Runs (Upkeep v) [] (c.candidateTransportConnected guard now).1.released c.toCore
      (c.candidateTransportConnected guard now).2.toCore := by
  have h := validateOrAdvance_runs (v := v) c now none
  unfold candidateTransportConnected
  dsimp only
  split
  · exact h
  · next op ho =>
    split
    · exact h
    · next att hc =>
      split
      · exact h
      · exact h.quiet (noteAttempt_runs _ ho hc ⟨rfl, rfl, rfl, rfl, rfl, rfl, rfl, rfl, rfl⟩ (hv _ _))

theorem noteFailedCandidate_runs (guard : CandidateGuard) (now : Int) :
    Runs (Upkeep v) [] [] c.toCore (c.noteFailedCandidate guard now).toCore := by
  unfold noteFailedCandidate
  split
  · exact .refl _
  · next op ho =>
    split
    · exact .refl _
    · split
      · next h =>
        simp only [Bool.and_eq_true, decide_eq_true_eq] at h
        exact c.promoteNextDirectWithinHeadStart_runs ho h.1 now
      · exact .refl _

theorem candidateFailed_runs (guard : CandidateGuard) (now : Int) :
    Runs (Upkeep v) [] (c.candidateFailed guard now).1.released c.toCore
      (c.candidateFailed guard now).2.toCore :=
  (c.noteFailedCandidate_runs guard now).trans (validateOrAdvance_runs _ now (some guard))

theorem operationExpired_runs (now : Int) :
    Runs (Upkeep v) [] (c.operationExpired now).1.released c.toCore (c.operationExpired now).2.toCore :=
  c.validateOrAdvance_runs now none

end Controller

end Piik.Route
