/-
  No child is ever offered to itself as a parent: not by the candidate lists,
  and not by the continuations, which outlive the operation that staged them.
-/
import Piik.Route.Step

namespace Piik.Route

variable {v : Licence}

/-! ## Changing the continuations -/

/-- Only the continuations changed, and none returns a child to itself. -/
def Defers (c c' : Core) : Prop :=
  ∃ m, (c.Outward → Patient m) ∧ c' = { c with directContinuations := m }

namespace Defers

variable {c c' c'' : Core}

theorem of_eq (h : c' = c) : Defers c c' := ⟨c.directContinuations, Core.Outward.patient, h⟩

theorem outward (h : Defers c c') (hc : c.Outward) : c'.Outward := by
  obtain ⟨m, hm, rfl⟩ := h
  exact ⟨hc.edge, hc.host, hm hc⟩

theorem trans (h : Defers c c') (h' : Defers c' c'') : Defers c c'' := by
  have ho := h.outward
  obtain ⟨m, -, rfl⟩ := h
  obtain ⟨m', hm', rfl⟩ := h'
  exact ⟨m', fun hc => hm' (ho hc), rfl⟩

theorem operation (h : Defers c c') : c'.operation = c.operation := by
  obtain ⟨m, -, rfl⟩ := h; rfl

theorem isChild (h : Defers c c') {p : ID} : c'.IsChild p ↔ c.IsChild p := by
  obtain ⟨m, -, rfl⟩ := h; exact Iff.rfl

theorem runs (h : Defers c c') : Runs (Upkeep v) [] [] c c' := by
  obtain ⟨m, hm, rfl⟩ := h
  exact .single fun b => ⟨b, .defers hm⟩

end Defers

theorem Patient.delete {m : OMap ID DirectContinuation} (h : Patient m) (p : ID) :
    Patient (m.delete p) := by
  intro q d hq
  rw [OMap.get_delete] at hq
  split at hq
  · cases hq
  · exact h q d hq

theorem Patient.set {m : OMap ID DirectContinuation} (h : Patient m) {p : ID}
    {d : DirectContinuation} (hd : p ∉ d.parentPeerIDs) : Patient (m.set p d) := by
  intro q d' hq
  rw [OMap.get_set] at hq
  split at hq
  · next hqp => cases hq; exact hqp ▸ hd
  · exact h q d' hq

theorem mem_dedupeStrings {a : ID} : ∀ {l : List ID}, a ∈ Controller.dedupeStrings l → a ∈ l
  | [], h => h
  | b :: l, h => by
    rcases List.mem_cons.1 h with rfl | h
    · simp
    · exact List.mem_cons_of_mem _ (mem_dedupeStrings (List.mem_filter.1 h).1)

theorem mem_moveToFront {α : Type} {p : α → Bool} {l : List α} {a : α}
    (h : a ∈ Controller.moveToFront p l) : a ∈ l := by
  unfold Controller.moveToFront at h
  split at h
  · exact h
  · next b hb =>
    rcases List.mem_cons.1 h with rfl | h
    · exact List.mem_of_find?_eq_some hb
    · exact List.eraseP_subset h

theorem length_moveToFront {α : Type} (p : α → Bool) (l : List α) :
    (Controller.moveToFront p l).length = l.length := by
  unfold Controller.moveToFront
  split
  · rfl
  · next b hb =>
    obtain ⟨hpb, hmem⟩ : p b = true ∧ b ∈ l := ⟨List.find?_some hb, List.mem_of_find?_eq_some hb⟩
    have hpos := List.length_pos_of_mem hmem
    rw [List.length_cons, List.length_eraseP_of_mem hmem hpb]
    omega

namespace Controller

variable (c : Controller)

/-! ## The candidate lists -/

theorem planCandidate_tuple {c : Core} {p : ID} {t : CandidateTuple} {plan : CandidatePlan}
    (h : c.planCandidate p t = some plan) : plan.tuple = t := by
  unfold Core.planCandidate at h
  dsimp only at h
  split at h
  · cases h; rfl
  · generalize (if (t.kind == .peer) = true then t.parentPeerID else c.hostPeerID) = producer at h
    split at h
    · cases h
    · split at h
      · cases h
      · split at h
        · cases h; rfl
        · split at h
          · cases h; rfl
          · split at h
            · cases h
            · split at h <;> cases h
              rfl

theorem retirementFor_child {c : Core} {p producer : ID} {t : CandidateTuple} {r : EndpointRetirement}
    (h : c.retirementFor p producer t = some r) (hk : r.kind = .edge) : r.childPeerID = p := by
  have hpub : ∀ b, Core.retirementFor.publicationRetirement c producer t b = some r → False := by
    intro b hb
    unfold Core.retirementFor.publicationRetirement at hb
    split at hb
    · cases hb
    · split_ifs at hb
      cases hb
      cases hk
  unfold Core.retirementFor at h
  split at h
  · split at h
    · cases h
      rfl
    · exact (hpub _ h).elim
  · exact (hpub _ h).elim

theorem planCandidate_outward {c : Core} {p : ID} {t : CandidateTuple} {plan : CandidatePlan}
    (h : c.planCandidate p t = some plan) (ht : t.Outward p) : plan.Outward p := by
  refine ⟨planCandidate_tuple h ▸ ht, fun r hr hk => ?_⟩
  unfold Core.planCandidate at h
  dsimp only at h
  split at h
  · cases h
    cases hr
  · generalize (if (t.kind == .peer) = true then t.parentPeerID else c.hostPeerID) = producer at h
    split at h
    · cases h
    · split at h
      · cases h
      · split at h
        · cases h
          cases hr
        · split at h
          · cases h
            cases hr
          · split at h
            · cases h
            · next retire hretire =>
              split at h <;> cases h
              cases hr
              exact retirementFor_child hretire hk

theorem mem_dedupeTuples {t : CandidateTuple} {l : List CandidateTuple} {seen : List String}
    (h : t ∈ dedupeTuples seen l) : t ∈ l := by
  induction l generalizing seen with
  | nil => exact h
  | cons a l ih =>
    unfold dedupeTuples at h
    split at h
    · exact List.mem_cons_of_mem _ (ih h)
    · rcases List.mem_cons.1 h with rfl | h
      · simp
      · exact List.mem_cons_of_mem _ (ih h)

theorem sfuCandidate_kind {p : ID} {t : CandidateTuple} (h : c.sfuCandidate p = some t) :
    t.kind = .sfu := by
  unfold sfuCandidate at h
  split_ifs at h <;> cases h <;> rfl

/-- The offered parents are not the child. -/
theorem buildCandidatePlans_outward {p : ID} {b b' : Bool} {plan : CandidatePlan}
    (h : plan ∈ c.buildCandidatePlans p b b') : plan.Outward p := by
  unfold buildCandidatePlans at h
  obtain ⟨t, ht, hp⟩ := List.mem_filterMap.1 h
  split at hp
  · next plan' hplan =>
    split at hp
    · cases hp
      refine planCandidate_outward hplan fun hk => ?_
      have hdirect : t ∈ (((c.participants.values.filter (c.parentEligible p)).sortStable
          (c.parentLess p b')).map fun parent : Participant =>
            ({ kind := .peer, parentPeerID := parent.peerID, transport := .direct } :
              CandidateTuple)) := by
        have hsfu : ∀ s, c.sfuCandidate p = some s → t ≠ s := fun s hs h => by
          rw [h, c.sfuCandidate_kind hs] at hk
          cases hk
        have ht := mem_dedupeTuples ht
        split at ht
        · exact absurd rfl (hsfu t (by simpa using ht))
        · split at ht
          · next sfu first rest hs hd =>
            simp only [List.mem_cons] at ht
            rcases ht with rfl | rfl | ht
            · rw [hd]; simp
            · exact absurd rfl (hsfu t hs)
            · rw [hd]; simp [ht]
          · next sfu hs hd => exact absurd (List.mem_singleton.1 ht) (hsfu sfu hs)
          · exact ht
      obtain ⟨parent, hparent, rfl⟩ := List.mem_map.1 hdirect
      rw [List.mem_sortStable, List.mem_filter] at hparent
      have := hparent.2
      simp only [parentEligible, Bool.and_eq_true, decide_eq_true_eq] at this
      exact this.1.1.1.1.1.2
    · cases hp
  · cases hp

theorem buildCandidates_outward {p : ID} {b : Bool} {plan : CandidatePlan}
    (h : plan ∈ c.buildCandidates p b) : plan.Outward p := by
  unfold buildCandidates at h
  dsimp only at h
  suffices hm : plan ∈ c.buildCandidatePlans p b true from c.buildCandidatePlans_outward hm
  split at h
  · split at h
    · exact (List.mem_filter.1 (mem_moveToFront h)).1
    · exact (List.mem_filter.1 h).1
  · exact (List.mem_filter.1 h).1

theorem length_dedupeTuples (l : List CandidateTuple) : ∀ seen : List String,
    (dedupeTuples seen l).length ≤ l.length := by
  induction l with
  | nil => exact fun _ => le_rfl
  | cons t l ih =>
    intro seen
    unfold dedupeTuples
    split
    · exact (ih seen).trans (Nat.le_succ _)
    · exact Nat.succ_le_succ (ih _)

/-- There is one SFU candidate at most. -/
theorem length_buildCandidates_sfu (p : ID) : (c.buildCandidates p true).length ≤ 1 := by
  have hplans : (c.buildCandidatePlans p true true).length ≤ 1 := by
    unfold buildCandidatePlans
    dsimp only
    refine (List.length_filterMap_le _ _).trans ((length_dedupeTuples _ _).trans ?_)
    rw [if_pos (by simp)]
    cases c.sfuCandidate p <;> simp
  have hout := (List.length_filter_le (c.candidateOpportunityAvailable p)
    (c.buildCandidatePlans p true true)).trans hplans
  unfold buildCandidates
  dsimp only
  split
  · split
    · rw [length_moveToFront]
      exact hout
    · exact hout
  · exact hout

theorem buildQualityCandidates_outward {p : ID} {now : Int} {plan : CandidatePlan}
    (ho : c.Outward) (h : plan ∈ (c.buildQualityCandidates p now).1) : plan.Outward p := by
  unfold buildQualityCandidates at h
  split at h
  · cases h
  · next e he =>
    split at h
    · cases h
    · next hk =>
      dsimp only at h
      have h := (List.mem_filter.1 h).1
      simp only [List.mem_append] at h
      have hbuild : ∀ {q : CandidatePlan → Bool} {l : List CandidatePlan},
          plan ∈ l.filter q → (∀ x ∈ l, x.Outward p) → plan.Outward p :=
        fun hm hl => hl plan (List.mem_filter.1 hm).1
      have hplans : ∀ {q : CandidatePlan → Bool},
          ∀ x ∈ (c.buildCandidatePlans p false false).filter q, x.Outward p :=
        fun x hx => c.buildCandidatePlans_outward (List.mem_filter.1 hx).1
      rcases h with ((h | h) | h) | h
      · exact hplans plan (List.mem_filter.1 (List.mem_filter.1 h).1).1
      · exact hplans plan (List.mem_filter.1 (List.mem_filter.1 h).1).1
      · split at h
        · exact hplans plan (List.mem_filter.1 h).1
        · cases h
      · split at h
        · cases h
        · split at h
          · next plan' hplan =>
            split at h
            · cases List.mem_singleton.1 h
              exact planCandidate_outward hplan fun _ => ho.edge p e he (by simpa using hk)
            · cases h
          · cases h

theorem continuationPlan_outward {p : ID} {d : DirectContinuation} {plan : CandidatePlan}
    (hd : p ∉ d.parentPeerIDs) (h : c.continuationPlan p d = some plan) : plan.Outward p := by
  unfold continuationPlan at h
  obtain ⟨parent, hm, h⟩ := List.exists_of_findSome?_eq_some h
  rw [List.mem_sortStable] at hm
  split at h
  · cases h
  · next plan' hplan =>
    split at h
    · cases h
      exact planCandidate_outward hplan fun _ hp => hd (hp ▸ hm)
    · cases h

/-- The donor is another Host root, so its child is not the fresh root. -/
theorem rootConvergencePlan_outward {root : ID} {convergence : RootConvergence} (ho : c.Outward)
    (h : c.rootConvergencePlan root = some convergence) :
    convergence.plan.Outward convergence.childPeerID := by
  unfold rootConvergencePlan at h
  split at h
  · cases h
  · split at h
    · cases h
    · next hroot =>
      dsimp only at h
      split at h
      · cases h
      · next donor l hl =>
        have hd : donor ∈ (c.childrenOf c.hostPeerID).filter fun peerID =>
            peerID ≠ root && c.isActiveHostRoot peerID && (c.activeDirectChildren peerID).length ≥ 2 :=
          List.mem_sortStable.1 (hl ▸ List.mem_cons_self)
        simp only [List.mem_filter, Bool.and_eq_true, decide_eq_true_eq] at hd
        split at h
        · cases h
        · next child l' hl' =>
          have hc : child ∈ c.activeDirectChildren donor :=
            List.mem_sortStable.1 (hl' ▸ List.mem_cons_self)
          split at h
          · cases h
          · next plan hplan =>
            split at h
            · cases h
              refine planCandidate_outward hplan fun _ hrc => ?_
              -- the child's edge comes from the donor, the root's from the Host
              simp only [Bool.or_eq_true, not_or, Bool.not_eq_true', Bool.not_eq_false] at hroot
              have hr := hroot.1.2
              unfold Core.isActiveHostRoot at hr
              split at hr
              · next e he =>
                simp only [Bool.and_eq_true, beq_iff_eq] at hr
                have hchild := (List.mem_filter.1 hc).1
                simp only [Core.childrenOf, List.mem_map, List.mem_filter, Bool.and_eq_true,
                  beq_iff_eq] at hchild
                obtain ⟨x, ⟨hx, -, hxp⟩, rfl⟩ := hchild
                have hex : c.edge x.1 = some x.2 := OMap.get_eq_some.2 hx
                have hrc : root = x.1 := hrc
                rw [hrc, hex] at he
                cases he
                have hdh : donor = c.hostPeerID := hxp.symm.trans hr.1.1.2
                have hdonor := hd.2.1.2
                simp [Core.isActiveHostRoot, hdh, ho.host] at hdonor
              · cases hr
            · cases h

/-! ## The continuations -/

theorem deleteContinuation_defers (p : ID) : Defers c.toCore (c.deleteContinuation p).toCore :=
  ⟨_, fun h => h.patient.delete p, rfl⟩

theorem restoreDirectContinuation_defers (p : ID) :
    Defers c.toCore (c.restoreDirectContinuation p).toCore := by
  unfold restoreDirectContinuation
  split
  · next child e hc he =>
    split
    · exact .of_eq rfl
    · dsimp only
      split
      · exact .of_eq rfl
      · refine ⟨_, fun ho => ho.patient.set fun hm => ?_, rfl⟩
        rcases List.mem_append.1 (mem_dedupeStrings hm) with hm | hm
        · unfold retainedParents at hm
          split at hm
          · next d hd => exact ho.patient p d hd hm
          · cases hm
        · simp only [List.mem_map, List.mem_filter, Bool.and_eq_true, beq_iff_eq] at hm
          obtain ⟨plan, ⟨hplan, hk, -⟩, hp⟩ := hm
          exact (c.buildCandidates_outward hplan).tuple hk hp
  · exact .of_eq rfl

theorem selectContinuationLoop_defers (l : List (ID × DirectContinuation)) :
    Defers c.toCore (selectContinuationLoop l c).2.toCore := by
  induction l generalizing c with
  | nil => exact .of_eq rfl
  | cons d l ih =>
    obtain ⟨p, d⟩ := d
    unfold selectContinuationLoop
    split
    · exact (c.deleteContinuation_defers p).trans (ih _)
    · split
      · exact .of_eq rfl
      · refine Defers.trans ?_ (ih _)
        split
        · exact c.deleteContinuation_defers p
        · exact .of_eq rfl

theorem selectContinuationLoop_outward (l : List (ID × DirectContinuation))
    (hl : ∀ x ∈ l, x.1 ∉ x.2.parentPeerIDs) {p : ID} {plan : CandidatePlan}
    (h : (selectContinuationLoop l c).1 = some (p, plan)) : plan.Outward p := by
  induction l generalizing c with
  | nil => cases h
  | cons d l ih =>
    obtain ⟨q, d⟩ := d
    unfold selectContinuationLoop at h
    have hl' : ∀ x ∈ l, x.1 ∉ x.2.parentPeerIDs := fun x hx => hl x (List.mem_cons_of_mem _ hx)
    split at h
    · exact ih (c.deleteContinuation q) hl' h
    · split at h
      · next plan' hplan =>
        simp only [Option.some.injEq, Prod.mk.injEq] at h
        obtain ⟨rfl, rfl⟩ := h
        exact c.continuationPlan_outward (hl (q, d) (by simp)) hplan
      · exact ih _ hl' h

theorem selectDirectContinuation_outward (ho : c.Outward) {p : ID} {plan : CandidatePlan}
    (h : c.selectDirectContinuation.1 = some (p, plan)) : plan.Outward p := by
  refine c.selectContinuationLoop_outward _ (fun x hx => ?_) h
  rw [List.mem_sortStable] at hx
  exact ho.patient x.1 x.2 (OMap.get_eq_some.2 hx)

theorem mem_parentsAfter {op : Operation} {l : List ID} {tried p : ID} (ht : tried ∈ l)
    (h : p ∈ c.parentsAfter op l tried) : p ∈ l := by
  have key : ∀ retry : Bool, p ∈ (if retry then l.erase tried ++ [tried] else l.erase tried) →
      p ∈ l := by
    intro retry h
    split at h
    · rcases List.mem_append.1 h with h | h
      · exact List.mem_of_mem_erase h
      · exact List.mem_singleton.1 h ▸ ht
    · exact List.mem_of_mem_erase h
  exact key _ h

theorem consumeDirectContinuationCandidate_defers (op : Operation) :
    Defers c.toCore (c.consumeDirectContinuationCandidate op).toCore := by
  unfold consumeDirectContinuationCandidate
  split
  · next tuple d _ hd =>
    dsimp only
    split
    · exact .of_eq rfl
    · next hg =>
      split
      · exact c.deleteContinuation_defers _
      · refine ⟨_, fun ho => (ho.patient.delete _).set fun hm => ?_, rfl⟩
        have hn := ho.patient op.childPeerID d hd
        simp only [Bool.or_eq_true, not_or, Bool.not_eq_true', Bool.not_eq_false,
          List.contains_iff_mem] at hg
        exact hn (c.mem_parentsAfter hg.2 hm)
  · exact .of_eq rfl

end Controller

end Piik.Route
