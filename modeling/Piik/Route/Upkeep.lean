/-
  The maintenance calls are runs of maintenance steps: one lemma for each
  function, down from the graph to `validateOrAdvance` and `reconcile`.
-/
import Piik.Route.Offers

namespace Piik.Route

variable {v : Licence}

variable {L : Core → ID → CommittedEdge → Prop}

/-! ## Removals -/

namespace Cuts

variable {r r' : List Resource} {c c₁ c₂ : Core}

theorem single (h : Cut L r c c₁) : Cuts L r c c₁ := by
  simpa using head h (refl c₁)

theorem of_eq (h : c₁ = c) : Cuts L [] c c₁ := by
  subst h; exact refl _

theorem trans (h : Cuts L r c c₁) (h' : Cuts L r' c₁ c₂) : Cuts L (r ++ r') c c₂ := by
  induction h with
  | refl => simpa using h'
  | head hd _ ih => simpa only [List.append_assoc] using head hd (ih h')

theorem cast (h : Cuts L r c c₁) (hr : r = r') : Cuts L r' c c₁ := hr ▸ h

theorem mono {L' : Core → ID → CommittedEdge → Prop} (hL : ∀ c p e, L c p e → L' c p e)
    (h : Cuts L r c c₁) : Cuts L' r c c₁ := by
  induction h with
  | refl c => exact refl c
  | head hd _ ih =>
    refine head ?_ ih
    cases hd with
    | peer h₁ h₂ h₃ => exact .peer h₁ h₂ (hL _ _ _ h₃)
    | sfu h₁ h₂ h₃ => exact .sfu h₁ h₂ (hL _ _ _ h₃)
    | publication h₁ h₂ => exact .publication h₁ h₂
    | leaf h₁ h₂ h₃ h₄ h₅ => exact .leaf h₁ h₂ h₃ h₄ fun e he => (h₅ e he).imp_right (hL _ _ _)
    | anchors => exact .anchors

/-- Removals do not touch the operation. -/
theorem operation_eq (h : Cuts L r c c₁) : c₁.operation = c.operation := by
  induction h with
  | refl => rfl
  | head hd _ ih =>
    refine ih.trans ?_
    cases hd <;> first | rfl | (unfold Core.dropSfuEdge; split <;> rfl)

end Cuts

namespace Core

variable (c : Core)

@[simp] theorem edge_deactivateEdge (p q : ID) :
    (c.deactivateEdge p).edge q =
      if q = p then (c.edge p).map fun e => { e with usable := false, physicalActive := false }
      else c.edge q := by
  simp only [edge, deactivateEdge, OMap.get_modify]
  split
  · next h => rw [h]
  · rfl

@[simp] theorem edge_deleteEdge (p q : ID) :
    (c.deleteEdge p).edge q = if q = p then none else c.edge q := by
  simp [edge, deleteEdge]

theorem edge_dropSfuEdge (p q : ID) (e : CommittedEdge) (b : Bool) :
    (c.dropSfuEdge p e b).edge q =
      if q = p then (if b then (c.edge p).map fun e => { e with usable := false, physicalActive := false }
        else none)
      else c.edge q := by
  unfold dropSfuEdge
  split
  · exact c.edge_deactivateEdge p q
  · exact c.edge_deleteEdge p q

theorem edge_prune (q : ID) :
    c.pruneRetiringSfuAnchors.edge q = (c.edge q).filter fun e => !c.spentAnchor q e := by
  simp [edge, pruneRetiringSfuAnchors, OMap.get_filter]

theorem rebased_of_none (h : c.operation = none) : c.rebased = c.bump := by
  cases c
  simp_all [rebased, bump, allocateRevision]

theorem prune_bump : c.bump.pruneRetiringSfuAnchors = c.pruneRetiringSfuAnchors.bump := rfl

theorem prune_rebased :
    c.rebased.pruneRetiringSfuAnchors = c.pruneRetiringSfuAnchors.rebased := rfl

theorem hasRetiringAnchor_iff {g : ID} : c.hasRetiringAnchor g ↔
    ∃ q e, c.edge q = some e ∧ e.kind = .sfu ∧ e.physicalActive = false ∧
      e.publicationGeneration = g := by
  simp only [hasRetiringAnchor, List.any_eq_true, Bool.and_eq_true, beq_iff_eq,
    Bool.not_eq_true', and_assoc]
  constructor
  · rintro ⟨⟨q, e⟩, he, h⟩
    exact ⟨q, e, OMap.get_eq_some.2 he, h⟩
  · rintro ⟨q, e, he, h⟩
    exact ⟨(q, e), OMap.get_eq_some.1 he, h⟩

/-- Pruning drops the generations that lost their last anchor. -/
theorem anchored_prune : c.pruneRetiringSfuAnchors.Anchored := by
  intro g hg
  simp only [pruneRetiringSfuAnchors, OMap.keys, OMap.filter, List.mem_map, List.mem_filter] at hg
  obtain ⟨e, ⟨-, he⟩, rfl⟩ := hg
  exact he

theorem hasSfuSubscribers_iff : c.hasSfuSubscribers = true ↔
    ∃ q e, c.edge q = some e ∧ e.kind = .sfu ∧ e.physicalActive := by
  simp only [hasSfuSubscribers, sfuSubscriberCount, decide_eq_true_eq, List.length_pos_iff_exists_mem,
    List.mem_filter, Bool.and_eq_true, beq_iff_eq]
  constructor
  · rintro ⟨⟨q, e⟩, he, hk, ha⟩
    exact ⟨q, e, OMap.get_eq_some.2 he, hk, ha⟩
  · rintro ⟨q, e, he, hk, ha⟩
    exact ⟨(q, e), OMap.get_eq_some.1 he, hk, ha⟩

@[simp] theorem hasSfuSubscribers_prune :
    c.pruneRetiringSfuAnchors.hasSfuSubscribers = c.hasSfuSubscribers := by
  rw [Bool.eq_iff_iff, hasSfuSubscribers_iff, hasSfuSubscribers_iff]
  constructor
  · rintro ⟨q, e, he, hk, ha⟩
    rw [edge_prune, Option.filter_eq_some_iff] at he
    exact ⟨q, e, he.1, hk, ha⟩
  · rintro ⟨q, e, he, hk, ha⟩
    refine ⟨q, e, ?_, hk, ha⟩
    rw [edge_prune, he]
    simp [spentAnchor, ha]

theorem served_prune (h : c.Served) : c.pruneRetiringSfuAnchors.Served := fun hp =>
  (c.hasSfuSubscribers_prune).trans (h hp)

theorem served_of_none (h : c.hostPublication = none) : c.Served := fun hp => by simp [h] at hp

end Core

namespace Controller

variable (c : Controller)

@[simp] theorem raise_toCore (f : Fault) : (c.raise f).toCore = c.toCore.raise f := rfl

@[simp] theorem bump_toCore : c.bump.toCore = c.toCore.bump := rfl

@[simp] theorem prune_toCore :
    c.pruneRetiringSfuAnchors.toCore = c.toCore.pruneRetiringSfuAnchors := rfl

@[simp] theorem deactivateEdge_toCore (p : ID) :
    (c.deactivateEdge p).toCore = c.toCore.deactivateEdge p := rfl

@[simp] theorem modifyOperation_toCore (f : Operation → Operation) :
    (c.modifyOperation f).toCore = { c.toCore with operation := c.operation.map f } := rfl

@[simp] theorem resetProducerBaselines_toCore (op : Operation) :
    (c.resetProducerBaselines op).toCore = c.toCore := by
  unfold resetProducerBaselines
  split
  · rfl
  · split <;> simp

@[simp] theorem advanceActiveRevision_toCore (op : Operation) :
    (c.advanceActiveRevision op).toCore = c.toCore.rebased := by
  simp [advanceActiveRevision, Core.rebased, Core.bump, Core.allocateRevision]

@[simp] theorem retireSfuEdge_toCore (p : ID) (e : CommittedEdge) (b : Bool) :
    (c.retireSfuEdge p e b).2.toCore = c.toCore.dropSfuEdge p e b := by
  simp [retireSfuEdge]

@[simp] theorem retireSfuEdge_released (p : ID) (e : CommittedEdge) (b : Bool) :
    (c.retireSfuEdge p e b).1 = e.held := rfl

/-! ### Cutting one edge after another -/

/-- A list of edges, each with its own removal. -/
theorem releaseEach_cuts {f : Controller → ID → CommittedEdge → List Resource × Controller}
    (hf : ∀ c p e, c.edge p = some e → L c.toCore p e →
      Cut L (f c p e).1 c.toCore (f c p e).2.toCore)
    (hframe : ∀ c p e q, q ≠ p → (f c p e).2.edge q = c.edge q)
    (hL : ∀ c p e q e', L c.toCore q e' → L (f c p e).2.toCore q e') :
    ∀ (l : List (ID × CommittedEdge)) (c : Controller), (l.map Prod.fst).Nodup →
      (∀ x ∈ l, c.edge x.1 = some x.2 ∧ L c.toCore x.1 x.2) →
      Cuts L (releaseEach f l c).1 c.toCore (releaseEach f l c).2.toCore
  | [], c, _, _ => Cuts.refl _
  | (p, e) :: l, c, hn, hl => by
    obtain ⟨hp, hn⟩ := List.nodup_cons.1 hn
    obtain ⟨he, hLe⟩ := hl (p, e) (by simp)
    refine Cuts.head (hf c p e he hLe) (releaseEach_cuts hf hframe hL l _ hn fun x hx => ?_)
    obtain ⟨hx₁, hx₂⟩ := hl x (by simp [hx])
    have hne : x.1 ≠ p := fun h => hp (h ▸ List.mem_map.2 ⟨x, hx, rfl⟩)
    exact ⟨(hframe c p e x.1 hne).trans hx₁, hL c p e x.1 x.2 hx₂⟩

/-- The edges of a filtered entry list are distinct and committed. -/
theorem filter_entries_edge (p : ID × CommittedEdge → Bool) :
    ((c.upstreamByViewer.entries.filter p).map Prod.fst).Nodup ∧
      ∀ x ∈ c.upstreamByViewer.entries.filter p, c.edge x.1 = some x.2 ∧ p x = true := by
  refine ⟨c.upstreamByViewer.nodup.sublist (List.filter_sublist.map _), fun x hx => ?_⟩
  obtain ⟨h₁, h₂⟩ := List.mem_filter.1 hx
  exact ⟨OMap.get_eq_some.2 h₁, h₂⟩

/-! ### The publication -/

theorem dropPublication_cuts (h : ∀ p, c.hostPublication = some p → c.Unsubscribed p) :
    Cuts L c.dropPublication.1 c.toCore c.dropPublication.2.toCore := by
  unfold dropPublication
  split
  · exact .refl _
  · next p hp => exact .single (.publication hp (h p hp))

theorem unsubscribed_of_hasSfuSubscribers (c : Core) (h : c.hasSfuSubscribers = false)
    (p : HostPublication) : c.Unsubscribed p := by
  intro q e he hk ha
  simp only [Core.hasSfuSubscribers, Core.sfuSubscriberCount, decide_eq_false_iff_not,
    List.length_pos_iff, ne_eq, not_not] at h
  have := List.filter_eq_nil_iff.1 h (q, e) (OMap.get_eq_some.1 he)
  simp [hk, ha] at this

theorem dropOrphanedPublication_cuts :
    Cuts L c.dropOrphanedPublication.1 c.toCore c.dropOrphanedPublication.2.toCore := by
  unfold dropOrphanedPublication
  split
  · exact .refl _
  · next h =>
    simp only [Bool.or_eq_true, not_or, Bool.not_eq_true] at h
    have := dropPublication_cuts (L := L) c.clearSfuQuality fun p _ =>
      unsubscribed_of_hasSfuSubscribers _ (by simpa using h.1) p
    simpa using this

theorem dropPublication_publication : c.dropPublication.2.hostPublication = none := by
  unfold dropPublication
  split
  · next h => exact h
  · rfl

theorem dropOrphanedPublication_served : c.dropOrphanedPublication.2.Served := by
  unfold dropOrphanedPublication
  split
  · next h =>
    intro hp
    rw [Bool.or_eq_true] at h
    rcases h with h | h
    · exact h
    · simp [Option.isNone_iff_eq_none.1 h] at hp
  · exact Core.served_of_none _ (dropPublication_publication _)

/-! ### Ending an attempt -/

theorem retireAttempt_toCore (op : Operation) :
    (c.retireAttempt op).2.toCore = if op.current.isSome then c.toCore.rebased else c.toCore := by
  unfold retireAttempt
  split <;> simp_all

/-- Clearing the operation, its attempt retired first. -/
theorem retireAttempt_chain {op : Operation} (h : c.operation = some op) (b : Bool) :
    Chain (Upkeep v) b (b || op.current.isSome) [] (c.retireAttempt op).1 c.toCore
      { (c.retireAttempt op).2.toCore with operation := none } := by
  rw [retireAttempt_toCore]
  unfold retireAttempt
  cases hc : op.current with
  | none => simpa using Chain.single (Upkeep.closes h hc)
  | some att =>
    have h₁ : Chain (Upkeep v) b true [] (reservationResources att.reservation) c.toCore
        { c.toCore.bump with
          operation := some { op with current := none, baseRevision := c.toCore.bump.revision } } :=
      .single (.abandons h hc)
    have h₂ := h₁.trans (.single (.closes rfl rfl))
    simpa [Core.rebased, h] using h₂

theorem retireAttempt_runs {op : Operation} (h : c.operation = some op) :
    Runs (Upkeep v) [] (c.retireAttempt op).1 c.toCore
      { (c.retireAttempt op).2.toCore with operation := none } :=
  fun b => ⟨_, c.retireAttempt_chain h b⟩

theorem abortOperation_toCore (now : Option Int) (bucket : RejectionBucket) :
    (c.abortOperation now bucket).2.toCore =
      match c.operation with
      | none => c.toCore
      | some op => { (if op.current.isSome then c.toCore.rebased else c.toCore) with
          operation := none } := by
  unfold abortOperation
  cases h : c.operation with
  | none => rfl
  | some op => cases now <;> simp [retireAttempt_toCore]

theorem abortOperation_released (now : Option Int) (bucket : RejectionBucket) :
    (c.abortOperation now bucket).1 =
      match c.operation with
      | none => []
      | some op => attemptResources op := by
  unfold abortOperation
  cases h : c.operation with
  | none => rfl
  | some op => cases hc : op.current <;> simp [retireAttempt, attemptResources, hc]

@[simp] theorem abortOperation_operation (now : Option Int) (bucket : RejectionBucket) :
    (c.abortOperation now bucket).2.operation = none := by
  rw [abortOperation_toCore]
  split <;> simp_all

theorem abortOperation_runs (now : Option Int) (bucket : RejectionBucket) :
    Runs (Upkeep v) [] (c.abortOperation now bucket).1 c.toCore (c.abortOperation now bucket).2.toCore := by
  rw [abortOperation_toCore, abortOperation_released]
  cases h : c.operation with
  | none => exact .refl _
  | some op =>
    have := retireAttempt_runs (v := v) c h
    rw [retireAttempt_toCore] at this
    cases hc : op.current <;> simpa [retireAttempt, attemptResources, hc] using this

/-! ### Retiring edges -/

theorem retireDepartedEdge_cut (p : ID) (e : CommittedEdge) (he : c.edge p = some e)
    (hL : L c.toCore p e) :
    Cut L (c.retireDepartedEdge p e).1 c.toCore (c.retireDepartedEdge p e).2.toCore := by
  unfold retireDepartedEdge
  cases hk : e.kind with
  | sfu => simpa [hk] using Cut.sfu he hk hL
  | peer => simpa [hk] using Cut.peer he hk hL

theorem retireDepartedEdge_toCore (p : ID) (e : CommittedEdge) :
    (c.retireDepartedEdge p e).2.toCore =
      if e.kind = .sfu then c.toCore.dropSfuEdge p e (c.retainsAnchor p)
      else c.toCore.deactivateEdge p := by
  unfold retireDepartedEdge
  cases hk : e.kind <;> simp

@[simp] theorem abortOperation_upstream (now : Option Int) (bucket : RejectionBucket) :
    (c.abortOperation now bucket).2.upstreamByViewer = c.upstreamByViewer := by
  rw [abortOperation_toCore]
  split
  · rfl
  · split <;> rfl

@[simp] theorem abortOperation_participants (now : Option Int) (bucket : RejectionBucket) :
    (c.abortOperation now bucket).2.participants = c.participants := by
  rw [abortOperation_toCore]
  split
  · rfl
  · split <;> rfl

/-- A child whose departure is confirmed. -/
def Departed (c : Core) (p : ID) (_ : CommittedEdge) : Prop :=
  ∃ q, c.participant p = some q ∧ q.departureConfirmed

theorem departed_retireDepartedEdge (p q : ID) (e e' : CommittedEdge)
    (h : Departed c.toCore q e') : Departed (c.retireDepartedEdge p e).2.toCore q e' := by
  rw [retireDepartedEdge_toCore]
  split
  · unfold Core.dropSfuEdge
    split <;> exact h
  · exact h

theorem retireDepartedEdges_runs (now : Int) :
    Runs (Upkeep v) [] (c.retireDepartedEdges now).1 c.toCore (c.retireDepartedEdges now).2.toCore := by
  unfold retireDepartedEdges
  dsimp only
  split
  · exact .refl _
  · set departed := c.upstreamByViewer.entries.filter fun e => c.departedEdge e.1 e.2 with hd
    set c₁ := (c.abortOperation (some now) .aborted).2 with hc₁
    have hcuts : Cuts Departed (releaseEach retireDepartedEdge departed c₁).1 c₁.toCore
        (releaseEach retireDepartedEdge departed c₁).2.toCore := by
      obtain ⟨hn, hl⟩ := c.filter_entries_edge fun e => c.departedEdge e.1 e.2
      refine releaseEach_cuts (fun c p e => c.retireDepartedEdge_cut p e) (fun c p e q hq => ?_)
        (fun c p e q e' => c.departed_retireDepartedEdge p q e e') _ _ hn fun x hx => ?_
      · rw [retireDepartedEdge_toCore]
        split
        · simp [Core.edge_dropSfuEdge, hq]
        · simp [hq]
      · obtain ⟨h₁, h₂⟩ := hl x hx
        refine ⟨by simpa [Core.edge, hc₁] using h₁, ?_⟩
        unfold departedEdge at h₂
        split at h₂
        · next p hp =>
          simp only [Bool.and_eq_true] at h₂
          exact ⟨p, by simpa [Core.participant, hc₁] using hp, h₂.1⟩
        · cases h₂
    set c₂ := (releaseEach retireDepartedEdge departed c₁).2
    have hop : c₁.operation = none := abortOperation_operation _ _ _
    have htrim : Trim Core.MayCut ((releaseEach retireDepartedEdge departed c₁).1 ++
        c₂.dropOrphanedPublication.1) c₁.toCore
        c₂.dropOrphanedPublication.2.toCore.pruneRetiringSfuAnchors := by
      refine ⟨?_, fun _ => Core.anchored_prune _, fun _ =>
        Core.served_prune _ c₂.dropOrphanedPublication_served⟩
      have hmay : Cuts Core.MayCut (releaseEach retireDepartedEdge departed c₁).1 c₁.toCore c₂.toCore :=
        hcuts.mono fun _ _ _ h => Or.inl h
      simpa using (hmay.trans c₂.dropOrphanedPublication_cuts).trans (.single .anchors)
    have hop₂ : c₂.dropOrphanedPublication.2.toCore.pruneRetiringSfuAnchors.operation = none :=
      htrim.1.operation_eq.trans hop
    have h₁ := abortOperation_runs (v := v) c (some now) .aborted
    have h₂ := h₁.trans (.single fun b => ⟨true, .trims (fun op h => by simp [← hc₁, hop] at h) htrim⟩)
    rw [Core.rebased_of_none _ hop₂] at h₂
    simpa [List.append_assoc] using h₂

/-! ### Departed leaves -/

theorem dropLeafEdge_toCore (p : ID) : (c.dropLeafEdge p).2.toCore = c.toCore.deleteEdge p := by
  unfold dropLeafEdge
  split
  · next he =>
    have hd : c.upstreamByViewer.delete p = c.upstreamByViewer := OMap.delete_eq_self he
    simp [Core.deleteEdge, hd]
  · split <;> simp [Core.dropSfuEdge]

theorem removeLeaf_toCore (p : ID) :
    (c.removeLeaf p).2.toCore =
      { c.toCore.deleteEdge p with
        participants := c.participants.delete p
        directContinuations := c.directContinuations.delete p } := by
  have h := c.dropLeafEdge_toCore p
  simp only [removeLeaf, clearSfuBootstrapForDemand_toCore, clearQualityForParticipant_toCore, h]
  rfl

theorem removeLeaf_released (p : ID) :
    (c.removeLeaf p).1 = match c.edge p with
      | some e => if e.kind = .sfu then e.held else []
      | none => [] := by
  unfold removeLeaf dropLeafEdge
  cases he : c.edge p with
  | none => rfl
  | some e => dsimp only; split <;> rfl

theorem childrenOf_deleteEdge (c : Core) {p : ID} (q : ID)
    (h : ∀ e, c.edge p = some e → e.kind = .sfu) :
    (c.deleteEdge p).childrenOf q = c.childrenOf q := by
  unfold Core.childrenOf Core.deleteEdge OMap.delete OMap.filter
  simp only [List.filter_filter]
  congr 1
  refine List.filter_congr fun e he => ?_
  by_cases hp : e.1 = p
  · have hk := h e.2 (OMap.get_eq_some.2 (hp ▸ he))
    simp [hp, hk]
  · simp [hp]

theorem removeLeaf_cuts (p : ID) (h : c.departedLeaf p = true) :
    Cuts Core.MayCut (c.removeLeaf p).1 c.toCore (c.removeLeaf p).2.toCore := by
  rw [removeLeaf_toCore, removeLeaf_released]
  unfold departedLeaf at h
  split at h
  · next q hq =>
    simp only [Bool.and_eq_true, beq_iff_eq, List.isEmpty_iff] at h
    obtain ⟨⟨hrole, hdep⟩, hch⟩ := h
    cases he : c.edge p with
    | none => exact .single (.leaf hq hrole hdep hch (by simp [he]))
    | some e =>
      cases hk : e.kind with
      | peer =>
        have hL : Core.MayCut c.toCore p e := Or.inl ⟨q, hq, hdep⟩
        simpa [hk] using Cuts.single (.leaf hq hrole hdep hch (by simp [he, hk, hL]))
      | sfu =>
        have hr : c.retainsAnchor p = false := by simp [Core.retainsAnchor, hch]
        have h₁ : Cut Core.MayCut e.held c.toCore (c.toCore.deleteEdge p) := by
          simpa [Core.dropSfuEdge, hr] using Cut.sfu he hk (Or.inl ⟨q, hq, hdep⟩)
        have hch' : (c.toCore.deleteEdge p).childrenOf p = [] :=
          (childrenOf_deleteEdge _ p (by simp [he, hk])).trans hch
        have hdd : (c.toCore.deleteEdge p).deleteEdge p = c.toCore.deleteEdge p := by
          have hn : (c.upstreamByViewer.delete p).get p = none := by simp
          simp [Core.deleteEdge, OMap.delete_eq_self hn]
        have h₂ := Cut.leaf (L := Core.MayCut) (c := c.toCore.deleteEdge p) hq hrole hdep hch' (by simp)
        rw [hdd] at h₂
        exact (Cuts.head h₁ (.single h₂)).cast (by simp [hk])
  · cases h

theorem pruneLeafPass_cuts : ∀ (l : List ID) (c : Controller),
    Cuts Core.MayCut (pruneLeafPass l c).2.1 c.toCore (pruneLeafPass l c).2.2.toCore ∧
      ((pruneLeafPass l c).1 = [] → (pruneLeafPass l c).2 = ([], c))
  | [], c => ⟨.refl _, fun _ => rfl⟩
  | p :: l, c => by
    unfold pruneLeafPass
    split
    · exact pruneLeafPass_cuts l c
    · next h =>
      refine ⟨?_, fun h => by simp at h⟩
      exact (c.removeLeaf_cuts p (by simpa using h)).trans (pruneLeafPass_cuts l _).1

theorem pruneLeafLoop_cuts : ∀ (n : ℕ) (c : Controller),
    Cuts Core.MayCut (pruneLeafLoop n c).2.1 c.toCore (pruneLeafLoop n c).2.2.toCore ∧
      ((pruneLeafLoop n c).1 = [] → (pruneLeafLoop n c).2 = ([], c))
  | 0, c => ⟨.refl _, fun _ => rfl⟩
  | n + 1, c => by
    obtain ⟨h₁, h₂⟩ := pruneLeafPass_cuts c.participants.keys c
    unfold pruneLeafLoop
    dsimp only
    split
    · next h => exact ⟨h₁, fun _ => h₂ (by simpa using h)⟩
    · next h =>
      refine ⟨h₁.trans (pruneLeafLoop_cuts n _).1, fun h' => ?_⟩
      simp only [List.append_eq_nil_iff] at h'
      simp [h'.1] at h

theorem pruneDepartedLeaves_runs (ho : c.operation = none) :
    Runs (Upkeep v) [] c.pruneDepartedLeaves.2.1 c.toCore c.pruneDepartedLeaves.2.2.toCore := by
  obtain ⟨h₁, h₂⟩ := pruneLeafLoop_cuts (c.participants.len + 1) c
  unfold pruneDepartedLeaves
  dsimp only
  split
  · next h =>
    have := h₂ (by simpa using h)
    rw [this]
    exact .refl _
  · set c₁ := (pruneLeafLoop (c.participants.len + 1) c).2.2
    have htrim : Trim Core.MayCut ((pruneLeafLoop (c.participants.len + 1) c).2.1 ++
        c₁.dropOrphanedPublication.1) c.toCore
        c₁.dropOrphanedPublication.2.toCore.pruneRetiringSfuAnchors := by
      refine ⟨?_, fun _ => Core.anchored_prune _, fun _ =>
        Core.served_prune _ c₁.dropOrphanedPublication_served⟩
      simpa using (h₁.trans c₁.dropOrphanedPublication_cuts).trans (.single .anchors)
    have h : Runs (Upkeep v) [] _ c.toCore _ :=
      .single fun b => ⟨true, .trims (fun op hop => by simp [ho] at hop) htrim⟩
    rw [Core.rebased_of_none _ (htrim.1.operation_eq.trans ho)] at h
    simpa only [prune_toCore, touchFacts_toCore, bump_toCore, Core.prune_bump] using h

/-! ### The edge of a failed operation -/

theorem anchored_deactivateEdge (c : Core) {p : ID} {e : CommittedEdge} (he : c.edge p = some e)
    (hk : e.kind = .peer) (h : c.Anchored) : (c.deactivateEdge p).Anchored := by
  intro g hg
  obtain ⟨q, e', he', hk', h'⟩ := c.hasRetiringAnchor_iff.1 (h g hg)
  refine (Core.hasRetiringAnchor_iff _).2 ⟨q, e', ?_, hk', h'⟩
  have hq : q ≠ p := by
    rintro rfl
    rw [he] at he'
    cases he'
    rw [hk] at hk'
    cases hk'
  simpa [hq] using he'

theorem served_deactivateEdge (c : Core) {p : ID} {e : CommittedEdge} (he : c.edge p = some e)
    (hk : e.kind = .peer) (h : c.Served) : (c.deactivateEdge p).Served := by
  intro hp
  obtain ⟨q, e', he', hk', ha'⟩ := c.hasSfuSubscribers_iff.1 (h hp)
  have hq : q ≠ p := by
    rintro rfl
    rw [he] at he'
    cases he'
    rw [hk] at hk'
    cases hk'
  exact (Core.hasSfuSubscribers_iff _).2 ⟨q, e', by simpa [hq] using he', hk', ha'⟩

theorem dropPublication_anchored (h : c.Anchored) : c.dropPublication.2.Anchored := by
  unfold dropPublication
  split <;> exact h

theorem retireInvalidOperationEdge_trim (p : ID) (h : (c.retireInvalidOperationEdge p).1 = true) :
    Trim Core.MayCut (c.retireInvalidOperationEdge p).2.1 c.toCore
      (c.retireInvalidOperationEdge p).2.2.toCore := by
  unfold retireInvalidOperationEdge at h ⊢
  cases he : c.edge p with
  | none => simp [he] at h
  | some e =>
    cases hm : c.edgeRequiresMove p e with
    | false => simp [he, hm] at h
    | true =>
      cases hk : e.kind with
      | peer =>
        have ht : Trim Core.MayCut [] c.toCore (c.toCore.deactivateEdge p) :=
          ⟨.single (.peer he hk (Or.inr hm)), anchored_deactivateEdge _ he hk,
            served_deactivateEdge _ he hk⟩
        simpa [hm, hk] using ht
      | sfu =>
        have h₁ : Cuts Core.MayCut e.held c.toCore
            (c.toCore.dropSfuEdge p e (c.retainsAnchor p)).pruneRetiringSfuAnchors := by
          simpa using (Cuts.single (Cut.sfu he hk (Or.inr hm))).trans (.single .anchors)
        set c₁ := (c.retireSfuEdge p e (c.retainsAnchor p)).2.pruneRetiringSfuAnchors with hc₁
        have ht : c₁.toCore =
            (c.toCore.dropSfuEdge p e (c.retainsAnchor p)).pruneRetiringSfuAnchors := by
          simp [hc₁]
        have ha : c₁.Anchored := Core.anchored_prune _
        rw [← ht] at h₁
        cases hs : c₁.hasSfuSubscribers with
        | true =>
          have ht : Trim Core.MayCut e.held c.toCore c₁.toCore :=
            ⟨h₁, fun _ => ha, fun _ _ => hs⟩
          simpa [hm, hk, ← hc₁, hs] using ht
        | false =>
          have h₂ := h₁.trans (c₁.dropPublication_cuts fun q _ =>
            unsubscribed_of_hasSfuSubscribers _ hs q)
          have ht : Trim Core.MayCut (e.held ++ c₁.dropPublication.1) c.toCore
              c₁.dropPublication.2.toCore := ⟨h₂, fun _ => c₁.dropPublication_anchored ha,
            fun _ => Core.served_of_none _ c₁.dropPublication_publication⟩
          simpa [hm, hk, ← hc₁, hs] using ht

theorem retireInvalidOperationEdge_false (p : ID) (h : (c.retireInvalidOperationEdge p).1 = false) :
    (c.retireInvalidOperationEdge p).2 = ([], c) := by
  unfold retireInvalidOperationEdge at h ⊢
  cases he : c.edge p with
  | none => rfl
  | some e =>
    cases hm : c.edgeRequiresMove p e with
    | false => simp [hm]
    | true =>
      cases hk : e.kind with
      | peer => simp [he, hm, hk] at h
      | sfu =>
        exfalso
        revert h
        simp only [he, hm, hk, beq_self_eq_true, Bool.not_true, if_true, Bool.false_eq_true, if_false]
        split <;> simp

theorem retireInvalidOperationEdge_operation (p : ID) (ho : c.operation = none) :
    (c.retireInvalidOperationEdge p).2.2.operation = none := by
  cases h : (c.retireInvalidOperationEdge p).1 with
  | false => rw [c.retireInvalidOperationEdge_false p h]; exact ho
  | true => exact (c.retireInvalidOperationEdge_trim p h).1.operation_eq.trans ho

/-- Clearing the operation and cutting its child's edge.  The cut is published
    by a new revision, unless the mark says that one was allocated already. -/
theorem blockAndClear_chain (op : Operation) (block revisionAdvanced : Bool) {b : Bool}
    (hb : revisionAdvanced = true → b = true) :
    ∃ b', Chain (Upkeep v) b b' [] (c.blockAndClear op block revisionAdvanced).1
      { c.toCore with operation := none } (c.blockAndClear op block revisionAdvanced).2.toCore := by
  unfold blockAndClear
  dsimp only
  split
  · exact ⟨b, .refl _ _⟩
  · set c₀ : Controller := { c with operation := none }
    have hop := c₀.retireInvalidOperationEdge_operation op.childPeerID rfl
    cases hr : (c₀.retireInvalidOperationEdge op.childPeerID).1 with
    | false =>
      have h₀ := c₀.retireInvalidOperationEdge_false op.childPeerID hr
      refine ⟨b, ?_⟩
      simpa [h₀] using Chain.refl b c₀.toCore
    | true =>
      have ht := c₀.retireInvalidOperationEdge_trim op.childPeerID hr
      cases revisionAdvanced with
      | true =>
        cases hb rfl
        exact ⟨true, by simpa using Chain.single (Upkeep.trimsMarked rfl ht)⟩
      | false =>
        refine ⟨true, ?_⟩
        have h := Chain.single (Upkeep.trims (v := v) (b := b) (fun op h => by simp [c₀] at h) ht)
        rw [Core.rebased_of_none _ hop] at h
        simpa using h

end Controller

end Piik.Route
