/-
  Departure is final.  Pruning removes the departed participants that have no
  one left below them, in whatever order it finds them; a reconciliation ends the
  media of whoever departed, and only a return brings it back.
-/
import Piik.Route.Frame
import Piik.Route.Safety

namespace Piik.Route

variable {v : Licence} {b b' : Bool} {a r : List Resource} {c c' c'' : Core}

namespace Core

variable (c : Core)

/-- The participant's departure is confirmed. -/
def HasDeparted (p : ID) : Prop := ∃ x, c.participant p = some x ∧ x.departureConfirmed

/-- The participant departed, and everybody that it fed. -/
def Vacated (p : ID) : Prop := c.HasDeparted p ∧ ∀ q, c.Descends p q → c.HasDeparted q

/-- No edge of a departed participant is active. -/
def Quieted : Prop :=
  ∀ p e, c.HasDeparted p → c.edge p = some e → e.physicalActive = false

/-- Only viewers depart. -/
def ViewersDepart : Prop :=
  ∀ p x, c.participant p = some x → x.departureConfirmed → x.role = .viewer

end Core

/-! ## Pruning -/

/-- `R` is gone, and nobody below it is left. -/
structure Pruned (c c' : Core) (R : List ID) : Prop where
  nodup : R.Nodup
  participant : ∀ q, c'.participant q = if q ∈ R then none else c.participant q
  edge : ∀ q, c'.edge q = if q ∈ R then none else c.edge q
  departed : ∀ q ∈ R, c.HasDeparted q
  closed : ∀ q ∈ R, ∀ p e, c.edge p = some e → e.kind = .peer → e.parentPeerID = q → p ∈ R

namespace Pruned

variable {R R' : List ID}

theorem refl (c : Core) : Pruned c c [] :=
  ⟨List.nodup_nil, fun _ => rfl, fun _ => rfl, nofun, nofun⟩

theorem trans (h : Pruned c c' R) (h' : Pruned c' c'' R') : Pruned c c'' (R ++ R') := by
  have hdis : ∀ q ∈ R', q ∉ R := fun q hq hR => by
    obtain ⟨x, hx, -⟩ := h'.departed q hq
    rw [h.participant, if_pos hR] at hx
    cases hx
  refine ⟨List.nodup_append.2 ⟨h.nodup, h'.nodup, fun x hx y hy e => hdis y hy (e ▸ hx)⟩,
    fun q => ?_, fun q => ?_, fun q hq => ?_, fun q hq p e he hk hp => ?_⟩
  · rw [h'.participant, h.participant]
    by_cases hq' : q ∈ R' <;> by_cases hq : q ∈ R <;> simp [hq, hq']
  · rw [h'.edge, h.edge]
    by_cases hq' : q ∈ R' <;> by_cases hq : q ∈ R <;> simp [hq, hq']
  · rcases List.mem_append.1 hq with hq | hq
    · exact h.departed q hq
    · obtain ⟨x, hx, hd⟩ := h'.departed q hq
      rw [h.participant, if_neg (hdis q hq)] at hx
      exact ⟨x, hx, hd⟩
  · rcases List.mem_append.1 hq with hq | hq
    · exact List.mem_append_left _ (h.closed q hq p e he hk hp)
    · by_cases hpR : p ∈ R
      · exact List.mem_append_left _ hpR
      · refine List.mem_append_right _ (h'.closed q hq p e ?_ hk hp)
        rw [h.edge, if_neg hpR, he]

/-- Who is pruned is vacated. -/
theorem vacated (h : Pruned c c' R) {p : ID} (hp : p ∈ R) : c.Vacated p := by
  refine ⟨h.departed p hp, fun q hq => h.departed q ?_⟩
  induction hq with
  | single hq =>
    obtain ⟨e, he, hk, hpar⟩ := hq
    exact h.closed p hp _ e he hk hpar
  | tail _ hq ih =>
    obtain ⟨e, he, hk, hpar⟩ := hq
    exact h.closed _ ih _ e he hk hpar

end Pruned

namespace Controller

variable (c : Controller)

theorem removeLeaf_pruned {p : ID} (h : c.departedLeaf p = true) :
    Pruned c.toCore (c.removeLeaf p).2.toCore [p] ∧
      (c.removeLeaf p).2.participants.len + 1 = c.participants.len := by
  unfold departedLeaf at h
  split at h
  · next x hx =>
    simp only [Bool.and_eq_true, List.isEmpty_iff] at h
    obtain ⟨⟨-, hd⟩, hch⟩ := h
    rw [removeLeaf_toCore]
    refine ⟨⟨List.nodup_singleton _, fun q => ?_, fun q => ?_, fun q hq => ?_, fun q hq y e he hk hp => ?_⟩,
      OMap.len_delete (OMap.mem_keys.2 ⟨x, hx⟩)⟩
    · simp [Core.participant, OMap.get_delete]
    · simp [Core.edge, Core.deleteEdge, OMap.get_delete]
    · cases List.mem_singleton.1 hq
      exact ⟨x, hx, hd⟩
    · cases List.mem_singleton.1 hq
      have : y ∈ c.childrenOf p := Core.mem_childrenOf.2 ⟨e, he, hk, hp⟩
      simp [hch] at this
  · cases h

/-- A pass removes departed leaves only; when it removes nobody, it found none. -/
theorem pruneLeafPass_pruned : ∀ (l : List ID) (c : Controller),
    Pruned c.toCore (pruneLeafPass l c).2.2.toCore (pruneLeafPass l c).1 ∧
      (pruneLeafPass l c).2.2.participants.len + (pruneLeafPass l c).1.length = c.participants.len ∧
      ((pruneLeafPass l c).1 = [] → ∀ p ∈ l, c.departedLeaf p = false)
  | [], c => ⟨.refl _, rfl, nofun⟩
  | p :: l, c => by
    unfold pruneLeafPass
    split
    · next h =>
      obtain ⟨h₁, h₂, h₃⟩ := pruneLeafPass_pruned l c
      refine ⟨h₁, h₂, fun hn q hq => ?_⟩
      rcases List.mem_cons.1 hq with rfl | hq
      · simpa using h
      · exact h₃ hn q hq
    · next h =>
      obtain ⟨hp, hlen⟩ := c.removeLeaf_pruned (p := p) (by simpa using h)
      obtain ⟨h₁, h₂, -⟩ := pruneLeafPass_pruned l (c.removeLeaf p).2
      refine ⟨hp.trans h₁, ?_, fun hn => by simp at hn⟩
      show (pruneLeafPass l (c.removeLeaf p).2).2.2.participants.len +
        ((pruneLeafPass l (c.removeLeaf p).2).1.length + 1) = _
      omega

/-- With a pass for every participant no departed leaf is left. -/
theorem pruneLeafLoop_pruned : ∀ (n : ℕ) (c : Controller),
    Pruned c.toCore (pruneLeafLoop n c).2.2.toCore (pruneLeafLoop n c).1 ∧
      (c.participants.len < n → ∀ p, (pruneLeafLoop n c).2.2.departedLeaf p = false)
  | 0, c => ⟨.refl _, nofun⟩
  | n + 1, c => by
    obtain ⟨h₁, h₂, h₃⟩ := pruneLeafPass_pruned c.participants.keys c
    unfold pruneLeafLoop
    dsimp only
    split
    · next h =>
      have hn : (pruneLeafPass c.participants.keys c).1 = [] := by simpa using h
      have hsame := (pruneLeafPass_cuts c.participants.keys c).2 hn
      rw [hn] at h₁
      refine ⟨h₁, fun _ p => ?_⟩
      rw [hsame]
      cases hx : c.participant p with
      | none => simp [departedLeaf, hx]
      | some x => exact h₃ hn p (OMap.mem_keys.2 ⟨x, hx⟩)
    · next h =>
      obtain ⟨h₄, h₅⟩ := pruneLeafLoop_pruned n (pruneLeafPass c.participants.keys c).2.2
      refine ⟨h₁.trans h₄, fun hlt => h₅ ?_⟩
      have : (pruneLeafPass c.participants.keys c).1.length ≠ 0 := by simpa using h
      omega

variable {c}

theorem mem_keys_of_rootStep (hf : c.Forest) {p q : ID} (h : c.rootStep p = .inr q) :
    p ∈ c.participants.keys := by
  unfold Core.rootStep at h
  split at h
  · cases h
  · split at h
    · cases h
    · next e he => exact OMap.mem_keys.2 (Option.isSome_iff_exists.1 (hf.child p e he))

theorem rootStep_of_edge (hf : c.Forest) {p : ID} {e : CommittedEdge} (he : c.edge p = some e)
    (hk : e.kind = .peer) : c.rootStep p = .inr e.parentPeerID := by
  have hp : p ≠ c.hostPeerID := by
    rintro rfl
    simp [hf.outward.host] at he
  simp [Core.rootStep, hp, he, hk]

/-- Who is vacated is pruned: otherwise somebody below is vacated and not pruned
    either, and the graph is not that deep. -/
theorem pruned_of_vacated {d : Controller} {R : List ID} (hf : c.Forest) (hv : c.ViewersDepart)
    (h : Pruned c.toCore d.toCore R) (hleaf : ∀ p, d.departedLeaf p = false) (k : ℕ) :
    ∀ (n : ℕ) (p : ID) (b : Bool), Walk.EndsIn c.rootStep n p b → c.participants.len < n + k →
      c.Vacated p → p ∈ R := by
  induction k with
  | zero =>
    intro n p b hn hlen _
    have := hn.le_length fun x y => mem_keys_of_rootStep hf
    rw [OMap.length_keys] at this
    omega
  | succ k ih =>
    intro n p b hn hlen hp
    by_contra hR
    obtain ⟨⟨x, hx, hd⟩, hbelow⟩ := hp
    have hx' : d.participant p = some x := by rw [h.participant, if_neg hR, hx]
    have hchildren : d.childrenOf p ≠ [] := fun hn => by
      have := hleaf p
      simp [departedLeaf, hx', hv p x hx hd, hd, hn] at this
    obtain ⟨q, hq⟩ := List.exists_mem_of_ne_nil _ hchildren
    obtain ⟨e, he, hk, rfl⟩ := Core.mem_childrenOf.1 hq
    have hqR : q ∉ R := fun hq => by
      rw [h.edge, if_pos hq] at he
      cases he
    have he : c.edge q = some e := by rwa [h.edge, if_neg hqR] at he
    have hfeeds : c.Descends e.parentPeerID q := .single ⟨e, he, hk, rfl⟩
    exact hqR (ih (n + 1) q b (.next (rootStep_of_edge hf he hk) hn) (by omega)
      ⟨hbelow q hfeeds, fun y hy => hbelow y (.trans hfeeds hy)⟩)

theorem dropOrphanedPublication_participants (c : Controller) :
    c.dropOrphanedPublication.2.participants = c.participants := by
  unfold dropOrphanedPublication dropPublication
  split
  · rfl
  · split <;> simp

/-- **Pruning is exact**, whatever the order of the participants. -/
theorem pruneDepartedLeaves_exact (hf : c.Forest) (hv : c.ViewersDepart) :
    c.pruneDepartedLeaves.1.Nodup ∧ (∀ p, p ∈ c.pruneDepartedLeaves.1 ↔ c.Vacated p) ∧
      ∀ p, c.pruneDepartedLeaves.2.2.participant p =
        if p ∈ c.pruneDepartedLeaves.1 then none else c.participant p := by
  obtain ⟨h, hleaf⟩ := pruneLeafLoop_pruned (c.participants.len + 1) c
  have hleaf := hleaf (Nat.lt_succ_self _)
  have hp : c.pruneDepartedLeaves.1 = (pruneLeafLoop (c.participants.len + 1) c).1 ∧
      c.pruneDepartedLeaves.2.2.participants =
        (pruneLeafLoop (c.participants.len + 1) c).2.2.participants := by
    unfold pruneDepartedLeaves
    generalize pruneLeafLoop (c.participants.len + 1) c = x
    obtain ⟨removed, released, d⟩ := x
    dsimp only
    split
    · exact ⟨rfl, rfl⟩
    · have h := d.dropOrphanedPublication_participants
      generalize d.dropOrphanedPublication = y at h
      exact ⟨rfl, h⟩
  refine ⟨hp.1 ▸ h.nodup, fun p => ?_, fun p => ?_⟩
  · rw [hp.1]
    refine ⟨h.vacated, fun hvac => ?_⟩
    cases he : c.edge p with
    | none =>
      have hend : ∃ b, c.rootStep p = .inl b := by
        unfold Core.rootStep
        split
        · exact ⟨_, rfl⟩
        · rw [he]
          exact ⟨_, rfl⟩
      obtain ⟨b, hb⟩ := hend
      exact pruned_of_vacated hf hv h hleaf (c.participants.len + 1) 0 p b (.here hb) (by omega) hvac
    | some e =>
      obtain ⟨n, hn⟩ := Walk.Ends.exists_in (hf.rooted p e he)
      exact pruned_of_vacated hf hv h hleaf (c.participants.len + 1) n p true hn (by omega) hvac
  · rw [hp.1, Core.participant, hp.2]
    exact h.participant p

/-! ## Retiring -/

variable (c)

theorem retireDepartedEdge_edge {p q : ID} {e e' : CommittedEdge}
    (h : (c.retireDepartedEdge p e).2.edge q = some e') (ha : e'.physicalActive) :
    q ≠ p ∧ c.edge q = some e' := by
  unfold retireDepartedEdge retireSfuEdge at h
  split at h
  · dsimp only at h
    rw [clearQualityForParticipant_toCore, Core.edge_dropSfuEdge] at h
    split at h
    · split at h
      · obtain ⟨_, -, rfl⟩ := Option.map_eq_some_iff.1 h
        cases ha
      · cases h
    · next hq => exact ⟨hq, h⟩
  · rw [deactivateEdge_toCore, Core.edge_deactivateEdge] at h
    split at h
    · obtain ⟨_, -, rfl⟩ := Option.map_eq_some_iff.1 h
      cases ha
    · next hq => exact ⟨hq, h⟩

theorem retireDepartedEdge_participants (p : ID) (e : CommittedEdge) :
    (c.retireDepartedEdge p e).2.participants = c.participants := by
  unfold retireDepartedEdge retireSfuEdge
  split
  · simp only [clearQualityForParticipant_toCore]
    unfold Core.dropSfuEdge
    split <;> rfl
  · rfl

/-- What is still active was not on the list. -/
theorem releaseEach_retired (l : List (ID × CommittedEdge)) :
    ∀ c : Controller, (releaseEach retireDepartedEdge l c).2.participants = c.participants ∧
      ∀ q e', (releaseEach retireDepartedEdge l c).2.edge q = some e' → e'.physicalActive →
        q ∉ l.map Prod.fst ∧ c.edge q = some e' := by
  induction l with
  | nil => exact fun c => ⟨rfl, fun q e' he' _ => ⟨by simp, he'⟩⟩
  | cons x l ih =>
    intro c
    obtain ⟨hp, he⟩ := ih (c.retireDepartedEdge x.1 x.2).2
    refine ⟨hp.trans (c.retireDepartedEdge_participants x.1 x.2), fun q e' he' ha => ?_⟩
    obtain ⟨hl, he₁⟩ := he q e' he' ha
    obtain ⟨hne, he₂⟩ := c.retireDepartedEdge_edge he₁ ha
    simp only [List.map_cons, List.mem_cons, not_or]
    exact ⟨⟨hne, hl⟩, he₂⟩

theorem retireDepartedEdges_quieted (now : Int) : (c.retireDepartedEdges now).2.Quieted := by
  have hlist : ∀ p e, c.HasDeparted p → c.edge p = some e → e.physicalActive →
      p ∈ (c.upstreamByViewer.entries.filter fun e => c.departedEdge e.1 e.2).map Prod.fst := by
    rintro p e ⟨x, hx, hd⟩ he ha
    refine List.mem_map.2 ⟨(p, e), List.mem_filter.2 ⟨OMap.get_eq_some.1 he, ?_⟩, rfl⟩
    simp [departedEdge, hx, hd, ha]
  intro p e hp he
  by_contra ha
  simp only [Bool.not_eq_false] at ha
  unfold retireDepartedEdges at hp he
  generalize (c.upstreamByViewer.entries.filter fun e => c.departedEdge e.1 e.2) = l at hlist hp he
  dsimp only at hp he
  split at he
  · next hn =>
    rw [if_pos hn] at hp
    have := hlist p e hp he ha
    simp [List.isEmpty_iff.1 hn] at this
  · next hn =>
    rw [if_neg hn] at hp
    have habort : (c.abortOperation (some now) .aborted).2.participants = c.participants ∧
        (c.abortOperation (some now) .aborted).2.upstreamByViewer = c.upstreamByViewer := by
      obtain ⟨rev, lat, f, h⟩ := aborted_eq c.toCore
      rw [abortOperation_eq, h]
      exact ⟨rfl, rfl⟩
    obtain ⟨hpeople, hedges⟩ := releaseEach_retired l (c.abortOperation (some now) .aborted).2
    set d := (releaseEach retireDepartedEdge l (c.abortOperation (some now) .aborted).2).2
    have hdrop : d.dropOrphanedPublication.2.upstreamByViewer = d.upstreamByViewer := by
      unfold dropOrphanedPublication dropPublication
      split
      · rfl
      · split <;> simp
    simp only [touchFacts_toCore, bump_toCore, prune_toCore] at hp he
    have he₁ : d.edge p = some e := by
      have he : d.dropOrphanedPublication.2.toCore.pruneRetiringSfuAnchors.edge p = some e := he
      rw [Core.edge_prune, Option.filter_eq_some_iff] at he
      rw [Core.edge, ← hdrop]
      exact he.1
    obtain ⟨hl, he₂⟩ := hedges p e he₁ ha
    refine hl (hlist p e ?_ (by rwa [Core.edge, ← habort.2]) ha)
    obtain ⟨x, hx, hd⟩ := hp
    refine ⟨x, ?_, hd⟩
    have hx : d.dropOrphanedPublication.2.participants.get p = some x := hx
    rwa [dropOrphanedPublication_participants, hpeople, habort.1] at hx

end Controller

/-! ## Reconciling -/

/-- Maintenance adds nobody and changes nobody. -/
theorem Upkeep.participant (h : Upkeep v b b' a r c c') (hf : c'.fault = none) {p : ID}
    {x : Participant} (hx : c'.participant p = some x) : c.participant p = some x := by
  have hcuts : ∀ {r : List Resource} {L : Core → ID → CommittedEdge → Prop} {d d' : Core},
      Cuts L r d d' → d'.participant p = some x → d.participant p = some x := by
    intro r L d d' hc hx
    induction hc with
    | refl => exact hx
    | head hd _ ih =>
      rcases hd.participant p with h | ⟨hn, -⟩
      · exact h ▸ ih hx
      · cases hn.symm.trans (ih hx)
  cases h with
  | trims _ ht => exact hcuts ht.cuts hx
  | trimsMarked _ ht => exact hcuts ht.cuts hx
  | halts _ h => simp [h] at hf
  | _ => exact hx

theorem Upkeep.quieted (h : Upkeep v b b' a r c c') (hf : c'.fault = none) (hq : c.Quieted) :
    c'.Quieted := by
  rintro p e' ⟨x, hx, hd⟩ he'
  rcases (h.frame (S := fun _ _ => False) (E := fun _ => False) (D := fun _ => False) hf).wire p e' he' with hE | ⟨e, he, hs⟩
  · exact hE.elim
  · cases ha : e'.physicalActive with
    | false => rfl
    | true => exact (hs.active ha).symm.trans (hq p e ⟨x, h.participant hf hx, hd⟩ he)

theorem quieted_of_runs (h : Runs (Upkeep v) a r c c') (hf : c'.fault = none) (hq : c.Quieted) :
    c'.Quieted := by
  obtain ⟨_, h⟩ := h false
  have key : ∀ {b b' a r d d'}, Chain (Upkeep v) b b' a r d d' → d'.fault = none → d.Quieted →
      d'.Quieted := by
    intro b b' a r d d' h
    induction h with
    | refl => exact fun _ h => h
    | head hd ht ih =>
      intro hf hq
      exact ih hf (hd.quieted (fault_before_of_chain (ht.mono fun h => .upkeep h) hf) hq)
  exact key h hf hq

/-- Every attachment keeps to its child and its plan. -/
def Core.Attending (c : Core) : Prop := ∀ op, c.operation = some op → op.Attends

theorem Core.Attending.of_none (h : c.operation = none) : c.Attending := fun op ho => by
  cases h.symm.trans ho

theorem Core.Attending.rebased (h : c.Attending) : c.rebased.Attending := by
  intro op ho
  obtain ⟨op', ho', rfl⟩ := Option.map_eq_some_iff.1 ho
  exact h op' ho'

theorem Core.Attending.of_trim {L : Core → ID → CommittedEdge → Prop} (h : c.Attending)
    (ht : Trim L r c c') : c'.Attending := by
  intro op ho
  rw [show c'.operation = c.operation from ht.sameCourse.operation] at ho
  exact h op ho

theorem Upkeep.attending (h : Upkeep v b b' a r c c') (hf : c'.fault = none) (ha : c.Attending) :
    c'.Attending := by
  cases h with
  | @plan _ _ op op' ho hsame _ _ _ hr =>
    intro op₁ h₁ hattach
    cases h₁
    exact absurd (hsame.reason ▸ hattach) (hr (ha op ho))
  | @note _ _ op att att' ho hc hsame =>
    intro op₁ h₁ hattach
    cases h₁
    obtain ⟨hd, hcursor, plan, hp, hk, ht⟩ := ha op ho hattach
    refine ⟨hd, hcursor, plan, hp, hk, fun att₁ h₁ => ?_⟩
    cases h₁
    exact hsame.tuple.trans (ht att hc)
  | opens _ _ _ _ _ _ h =>
    intro op₁ h₁
    cases h₁
    exact h
  | begins _ _ _ hr =>
    intro op₁ h₁ hattach
    cases h₁
    exact absurd hattach hr
  | @attaches _ _ op att ho _ _ _ _ _ hplan =>
    intro op₁ h₁ hattach
    cases h₁
    obtain ⟨hd, hcursor, plan, hp, hk, -⟩ := ha op ho hattach
    refine ⟨hd, hcursor, plan, hp, hk, fun att₁ h₁ => ?_⟩
    cases h₁
    exact hplan plan hp
  | @abandons _ _ op att ho =>
    intro op₁ h₁ hattach
    cases h₁
    obtain ⟨hd, hcursor, plan, hp, hk, -⟩ := ha op ho hattach
    refine ⟨hd, hcursor, plan, hp, hk, fun att₁ h₁ => ?_⟩
    cases h₁
  | closes | detaches | unattached => exact .of_none rfl
  | trims _ ht => exact (ha.of_trim ht).rebased
  | trimsMarked _ ht => exact ha.of_trim ht
  | halts _ h => simp [h] at hf
  | _ => exact ha

theorem Step.attending (h : Step v b b' a r c c') (hf : c'.fault = none) (ha : c.Attending) :
    c'.Attending := by
  cases h with
  | upkeep h => exact h.attending hf ha
  | gap _ ht => exact (ha.of_trim ht).rebased
  | accepts _ h =>
    refine .of_none ?_
    cases h with
    | attached => rfl
    | commits =>
      obtain ⟨_, _, _, _, heq⟩ := committed_eq _ _ _ _ _
      rw [heq]
  | reshapes h _ =>
    intro op ho
    exact ha op (h.operation ▸ ho)
  | moves =>
    refine .of_none ?_
    unfold Core.checkGraph
    split <;> exact aborted_operation c
  | disposes => exact .of_none rfl

theorem Controller.Reachable.attending {c : Controller} (h : c.Reachable) : c.Attending :=
  h.invariant (fun hd _ hf => hd.attending hf) fun o latest c hnew => by
    obtain ⟨-, rfl⟩ := Controller.new_eq hnew
    exact .of_none rfl

/-- Nobody that the attempt needs has departed. -/
structure Core.Attended (c : Core) (op : Operation) (att : Attempt) : Prop where
  child : ¬c.HasDeparted op.childPeerID
  demand : ¬c.HasDeparted op.demandPeerID
  parent : att.tuple.kind = .peer → ¬c.HasDeparted att.tuple.parentPeerID

namespace Controller

variable {c : Controller} {op : Operation} {att : Attempt}

/-- Who has a session did not depart. -/
theorem present_of_session (hp : c.Peopled) {p : ID} {x : Participant} (hx : c.participant p = some x)
    (hs : x.sessionID ≠ "") : ¬c.HasDeparted p := by
  rintro ⟨y, hy, hd⟩
  cases hx.symm.trans hy
  exact hs ((hp.rated p x hx).2 hd)

/-- An attempt that is valid and whose sessions are current is attended. -/
theorem LiveValid.attended (hs : c.Sound) (hattend : c.Attending) (ho : c.operation = some op)
    (hc : op.current = some att) (hv : c.LiveValid op att)
    (hcur : op.reason ≠ .publicationAttach → c.operationSessionsCurrent op) :
    c.Attended op att := by
  have hpeople := hs.forest.peopled
  have hsession : ∀ {p : ID} {x : Participant} {s : ID}, c.participant p = some x →
      x.sessionIs s = true → ¬c.HasDeparted p := fun hx h => by
    refine present_of_session hpeople hx ?_
    simp only [Participant.sessionIs, Bool.and_eq_true, decide_eq_true_eq] at h
    exact h.1
  by_cases hr : op.reason = .publicationAttach
  · rw [LiveValid, if_pos hr] at hv
    obtain ⟨hd, -, plan, hp, -, ht⟩ := hattend op ho hr
    unfold publicationAttachOwned at hv
    rw [hp] at hv
    simp only [Bool.and_eq_true] at hv
    have hv := hv.2
    split at hv
    · next child e plan' hchild he hp' =>
      cases hp'
      simp only [Bool.and_eq_true] at hv
      obtain ⟨⟨⟨⟨⟨⟨⟨hs, -⟩, -⟩, -⟩, -⟩, -⟩, -⟩, hparent⟩ := hv
      refine ⟨hsession hchild hs, hd ▸ hsession hchild hs, fun hk => ?_⟩
      rw [ht att hc] at hk ⊢
      rw [hk] at hparent
      simp only [Bool.and_eq_true] at hparent
      have hparent := hparent.1.1.2
      split at hparent
      · next parent hpar => exact hsession hpar hparent
      · cases hparent
    · cases hv
  · rw [LiveValid, if_neg hr, attemptValid] at hv
    have hcur := hcur hr
    split at hv
    · next plan hp =>
      have hcv : c.candidateValid op.childPeerID plan (some att) = true := by
        unfold operationCandidateValid at hv
        rw [Bool.and_eq_true] at hv
        exact hv.1
      have ht : plan.tuple = att.tuple := hs.working.aligned op att plan ho hr hc hp
      unfold operationSessionsCurrent at hcur
      rw [Bool.and_eq_true] at hcur
      refine ⟨?_, ?_, fun hk => ?_⟩
      · have := hcur.1
        split at this
        · next child hchild => exact hsession hchild this
        · cases this
      · have := hcur.2
        split at this
        · next demand hdemand => exact hsession hdemand this
        · cases this
      · rw [← ht] at hk ⊢
        unfold Core.candidateValid at hcv
        simp only [hk, Bool.and_eq_true] at hcv
        have hpeer := hcv.1.2
        unfold Core.peerCandidateValid at hpeer
        split at hpeer
        · cases hpeer
        · next parent hpar =>
          simp only [Bool.and_eq_true, decide_eq_true_eq] at hpeer
          exact present_of_session hpeople hpar hpeer.1.1.1.1.1.1.1.2
    · cases hv

variable (c)

/-- The state in which a reconciliation prunes. -/
def beforePruning (now : Int) : Controller :=
  (((c.retireDepartedEdges now).2.validateOrAdvance now none).2.preemptBackground now).2

/-- What precedes the pruning. -/
theorem beforePruning_runs (now : Int) :
    ∃ r, Runs (Upkeep v) [] r c.toCore (c.beforePruning now).toCore := by
  have h₁ := retireDepartedEdges_runs (v := v) c now
  have h₂ := h₁.trans ((c.retireDepartedEdges now).2.validateOrAdvance_runs now none)
  exact ⟨_, h₂.trans (preemptBackground_runs _ now)⟩

theorem reconcile_removed (now : Int) :
    (c.reconcile now).1.removedPeerIDs = (c.beforePruning now).pruneWhenIdle.1 ∧
      ∃ r, Runs (Upkeep v) [] r (c.beforePruning now).toCore (c.reconcile now).2.toCore := by
  unfold reconcile
  dsimp only
  have h₄ := (c.beforePruning now).pruneWhenIdle_runs (v := v)
  rw [show (((c.retireDepartedEdges now).2.validateOrAdvance now none).2.preemptBackground now).2 =
    c.beforePruning now from rfl]
  split
  · exact ⟨rfl, _, h₄⟩
  · next h =>
    simp only [Bool.or_eq_true, not_or, Bool.not_eq_true, Option.isSome_eq_false_iff,
      Option.isNone_iff_eq_none] at h
    exact ⟨rfl, _, h₄.trans ((c.beforePruning now).pruneWhenIdle.2.2.schedule_runs h.2 now)⟩

/-- What follows the retirements. -/
theorem reconcile_rest (now : Int) : ∃ r,
    Runs (Upkeep v) [] r (c.retireDepartedEdges now).2.toCore (c.reconcile now).2.toCore := by
  unfold reconcile
  dsimp only
  set c₁ := (c.retireDepartedEdges now).2
  have h₂ := c₁.validateOrAdvance_runs (v := v) now none
  set c₂ := (c₁.validateOrAdvance now none).2
  have h₃ := h₂.trans (c₂.preemptBackground_runs now)
  set c₃ := (c₂.preemptBackground now).2
  have h₄ := h₃.trans c₃.pruneWhenIdle_runs
  set c₄ := c₃.pruneWhenIdle.2.2
  split
  · exact ⟨_, h₄⟩
  · next h =>
    simp only [Bool.or_eq_true, not_or, Bool.not_eq_true, Option.isSome_eq_false_iff,
      Option.isNone_iff_eq_none] at h
    exact ⟨_, h₄.trans (c₄.schedule_runs h.2 now)⟩

/-- What survives `validateOrAdvance` has its sessions. -/
theorem validateOrAdvance_current (now : Int) (failed : Option CandidateGuard)
    (ho : (c.validateOrAdvance now failed).2.operation = some op) (hc : op.current = some att)
    (hr : op.reason ≠ .publicationAttach) : c.operationSessionsCurrent op := by
  have hop : c.operation = some op := by
    rw [← (c.validateOrAdvance_live now failed ho hc).1, ho]
  unfold validateOrAdvance at ho
  simp only [hop, if_neg hr] at ho
  split at ho
  · simp [dropStaleOperation] at ho
  · split at ho
    · simp at ho
    · split at ho
      · simp [expireOperation] at ho
      · rcases c.advanceExpiredDirectHeadStart_cases hop now with he | ⟨op₁, ho₁, hcur⟩
        · simp only [he, hop] at ho
          split at ho
          · simp [dropStaleOperation] at ho
          · next hs => simpa using hs
        · exfalso
          set c₁ := (c.advanceExpiredDirectHeadStart op now).2.2
          simp only [ho₁] at ho
          split at ho
          · simp [dropStaleOperation] at ho
          · have hlive : ¬(c₁.advanceOperation op₁ now failed c.revision).2.Idle := fun hi => by
              simp [hi op ho] at hc
            obtain ⟨-, att', hatt, -⟩ := c₁.advanceOperation_live ho₁ now failed _ hlive
            simp [hcur] at hatt

theorem pruneDepartedLeaves_operation : c.pruneDepartedLeaves.2.2.operation = c.operation := by
  have hcuts := (pruneLeafLoop_cuts (c.participants.len + 1) c).1.operation_eq
  unfold pruneDepartedLeaves
  generalize pruneLeafLoop (c.participants.len + 1) c = x at hcuts ⊢
  obtain ⟨removed, released, d⟩ := x
  have hdrop := (d.dropOrphanedPublication_cuts (L := AnyEdge)).operation_eq
  dsimp only at hcuts ⊢
  split
  · exact hcuts
  · simp only [prune_toCore, touchFacts_toCore, bump_toCore]
    exact hdrop.trans hcuts

/-- A background operation is left alone, or aborted. -/
theorem preemptBackground_kept (now : Int) (ho : (c.preemptBackground now).2.operation = some op) :
    (c.preemptBackground now).2.toCore = c.toCore := by
  unfold preemptBackground at ho ⊢
  split
  · rfl
  · next op' h =>
    simp only [h] at ho
    split
    · rfl
    · next hb =>
      rw [if_neg hb] at ho
      dsimp only at ho ⊢
      split
      · next hw =>
        rw [if_pos hw] at ho
        simp at ho
      · exact c.hasSfuBootstrapWork_toCore

/-- An attempt that is live after a reconciliation was so before, and survived
    its validation. -/
theorem reconcile_live (now : Int) (ho : (c.reconcile now).2.operation = some op)
    (hc : op.current = some att) :
    (c.reconcile now).2.toCore = (c.retireDepartedEdges now).2.toCore ∧
      (c.retireDepartedEdges now).2.LiveValid op att ∧
      (op.reason ≠ .publicationAttach → (c.retireDepartedEdges now).2.operationSessionsCurrent op) := by
  unfold reconcile at ho ⊢
  dsimp only at ho ⊢
  set c₁ := (c.retireDepartedEdges now).2
  set c₂ := (c₁.validateOrAdvance now none).2 with hc₂
  set c₃ := (c₂.preemptBackground now).2 with hc₃
  have hidle : ∀ d : Controller, d.operation = some op → ¬d.Idle := fun d hd hi => by
    simp [hi op hd] at hc
  -- the scheduler runs without an operation and starts no attempt
  have hkept : c₃.pruneWhenIdle.2.2.operation = some op ∧
      (if (c₃.pruneWhenIdle.2.2.paused || c₃.pruneWhenIdle.2.2.operation.isSome) = true then
        c₃.pruneWhenIdle.2.2 else (c₃.pruneWhenIdle.2.2.schedule now).2.2) = c₃.pruneWhenIdle.2.2 := by
    split at ho
    · next h => exact ⟨ho, by rw [if_pos h]⟩
    · next h =>
      simp only [Bool.or_eq_true, not_or, Bool.not_eq_true, Option.isSome_eq_false_iff,
        Option.isNone_iff_eq_none] at h
      exact absurd (schedule_idle _ h.2 now) (hidle _ ho)
  have hprune : c₃.pruneWhenIdle.2.2 = c₃ := by
    unfold pruneWhenIdle
    split
    · next h =>
      have hn := c₃.pruneDepartedLeaves_operation
      have := hkept.1
      unfold pruneWhenIdle at this
      rw [if_pos h, hn, Option.isNone_iff_eq_none.1 h] at this
      cases this
    · rfl
  have ho₃ : c₃.operation = some op := hprune ▸ hkept.1
  have hpre : c₃.toCore = c₂.toCore := c₂.preemptBackground_kept now ho₃
  have ho₂ : c₂.operation = some op := hpre ▸ ho₃
  obtain ⟨hsame, -, -, hv⟩ := c₁.validateOrAdvance_live now none ho₂ hc
  refine ⟨?_, hv, c₁.validateOrAdvance_current now none ho₂ hc⟩
  have hall : c₃.pruneWhenIdle.2.2.toCore = c₁.toCore := by
    rw [hprune, hpre]
    exact congrArg Controller.toCore hsame
  rw [apply_ite Prod.snd]
  exact (congrArg Controller.toCore hkept.2).trans hall

end Controller

/-! ## Until it returns -/

/-- The participant has no session, unless it became the Host, and no active edge. -/
structure Core.Gone (c : Core) (p : ID) : Prop where
  session : ∀ x, c.participant p = some x → x.sessionID = "" ∨ p = c.hostPeerID
  edge : ∀ e, c.edge p = some e → e.physicalActive = false

/-- The call brings the participant back. -/
def Call.Upserts (k : Call) (p : ID) : Prop :=
  match k with
  | .upsertParticipant input _ => input.peerID = p
  | _ => False

namespace Controller

variable (c : Controller)

theorem raise_fault_ne (f : Fault) : (c.raise f).fault ≠ none := by
  cases hf : c.fault <;> simp [Core.raise, hf]

theorem setViewerRoutePreference_host (p s : ID) (pref : ViewerRoutePreference) (now : Option Int) :
    (c.setViewerRoutePreference p s pref now).2.hostPeerID = c.hostPeerID := by
  unfold setViewerRoutePreference
  split
  · rfl
  · split
    · rfl
    · have h : (if c.operationOwnedBy p then c.abortOperation now .aborted else ([], c)).2.hostPeerID =
          c.hostPeerID := by
        split
        · obtain ⟨rev, lat, f, h⟩ := aborted_eq c.toCore
          rw [abortOperation_eq, h]
        · rfl
      generalize (if c.operationOwnedBy p then c.abortOperation now .aborted else ([], c)) = x at h
      simpa [modifyParticipant] using h

/-- A participant that comes leaves the Host where it is. -/
theorem upsertParticipant_host (input : ParticipantInput) (now : Option Int) :
    (c.upsertParticipant input now).2.hostPeerID = c.hostPeerID := by
  unfold upsertParticipant
  split
  · rfl
  · split
    · rfl
    · split
      · unfold addParticipant
        dsimp only
        split <;> simp
      · next current _ =>
        split
        · rfl
        · unfold updateParticipant
          have h : (if current.sessionID ≠ input.sessionID then c.replaceSession input now
              else ([], c)).2.hostPeerID = c.hostPeerID := by
            split
            · obtain ⟨d, -, ⟨o, rev, lat, f, hd⟩, heq⟩ := c.replaceSession_runs (v := .all) input now
              rw [heq, hd]
              rfl
            · rfl
          generalize (if current.sessionID ≠ input.sessionID then c.replaceSession input now
            else ([], c)) = x at h
          dsimp only
          split
          · rw [setViewerRoutePreference_host, demandReturned_toCore]
            exact h
          · rw [demandReturned_toCore]
            exact h

/-- Whoever gets a Host session is the Host. -/
theorem rebindHostIdentity_host {p s : ID} {now : Option Int}
    (hf : (c.rebindHostIdentity p s now).2.fault = none) :
    (c.rebindHostIdentity p s now).2.hostPeerID = p := by
  unfold rebindHostIdentity at hf ⊢
  split at hf
  · next hp => rw [if_pos hp, upsertParticipant_host, hp]
  · next hp =>
    rw [if_neg hp]
    split at hf
    · exact absurd hf (raise_fault_ne c _)
    · next hnew =>
      rw [if_neg hnew]
      split at hf
      · exact absurd hf (raise_fault_ne c _)
      · next host hhost =>
        split at hf
        · exact absurd hf (raise_fault_ne c _)
        · next hrole =>
          rw [if_neg hrole]
          split at hf
          · exact absurd hf (raise_fault_ne c _)
          · next hcap =>
            rw [if_neg hcap, moveHost_toCore, (checkGraph_participants _).2]
            rfl

variable {c}

/-- A commit gives no edge to who is gone. -/
theorem Accepted.gone {d c' : Core} (h : Accepted r d c') (hs : d.Sound) {op : Operation}
    (ho : d.operation = some op) (hg : d.Gone op.childPeerID) :
    ∀ e, c'.edge op.childPeerID = some e → e.physicalActive = false := by
  intro e' he'
  cases h with
  | attached ho' =>
    cases ho.symm.trans ho'
    rw [Core.edge, OMap.get_modify_self] at he'
    obtain ⟨e, he, rfl⟩ := Option.map_eq_some_iff.1 he'
    exact hg.edge e he
  | commits ho' _ _ _ hv =>
    cases ho.symm.trans ho'
    unfold Core.candidateValid at hv
    simp only [Bool.and_eq_true] at hv
    have hchild := hv.1.1.2
    split at hchild
    · next x hx =>
      simp only [Bool.and_eq_true, decide_eq_true_eq] at hchild
      rcases hg.session x hx with h | h
      · exact absurd h hchild.1.1
      · exact absurd h (hs.working.child op ho)
    · cases hchild

/-- Only an active edge gets another connection. -/
theorem edge_of_adopted (c : Controller) {guard : EdgeGuard} {id : ID} {now : Int}
    (h : (c.adoptDirectConnection guard id now).1.accepted) :
    ∃ e, c.edge guard.childPeerID = some e ∧ e.physicalActive := by
  unfold adoptDirectConnection at h
  split at h
  · cases h
  · next e he => exact ⟨e, c.adoptableEdge_edge he⟩

/-- **Who is gone stays gone** until it is upserted. -/
theorem Good.call_gone {c c' : Controller} {k : Call} {reply : Reply} (h : c.Good)
    (hk : c.call k = .ok (reply, c')) {p : ID} (hu : ¬k.Upserts p) (hp : c.Gone p) : c'.Gone p := by
  obtain ⟨hg, hr⟩ := h.call hk
  have hframe := c.run_frame h k (by rw [hr]; exact hg.fault)
  rw [hr] at hframe
  have hnew : ∀ s, k.Introduces p s → p = c'.hostPeerID := by
    intro s hi
    cases k with
    | upsertParticipant input now => exact absurd hi.1.symm hu
    | rebindHostIdentity q t now =>
      obtain ⟨rfl, -⟩ := hi
      have hr : (c.rebindHostIdentity p t now).2 = c' := congrArg Prod.snd hr
      rw [← hr]
      exact (c.rebindHostIdentity_host (by rw [hr]; exact hg.fault)).symm
    | _ => cases hi
  refine ⟨fun x' hx' => ?_, fun e' he' => ?_⟩
  · by_cases hs : x'.sessionID = ""
    · exact Or.inl hs
    · refine Or.inr ?_
      rcases hframe.session p x' hx' hs with hi | ⟨x, hx, heq⟩
      · exact hnew _ hi
      · have hhost : p = c.hostPeerID := (hp.session x hx).resolve_left (heq ▸ hs)
        rcases hframe.host with hh | ⟨-, hi⟩
        · exact hhost.trans hh.symm
        · exact hnew _ (hhost ▸ hi x' (hhost ▸ hx') hs)
  · rcases hframe.wire p e' he' with hw | ⟨e, he, hsame⟩
    · cases k with
      | adoptDirectConnection guard id now =>
        obtain ⟨-, haccept, rfl, -⟩ := hw
        have hr : (c.adoptDirectConnection guard id now).1.accepted = reply.accepted :=
          congrArg (fun x => x.1.accepted) hr
        obtain ⟨e, he, ha⟩ := c.edge_of_adopted (hr.trans haccept)
        exact absurd ha (by simp [hp.edge e he])
      | _ =>
        obtain ⟨hcommit, op, ho, -, rfl⟩ := hw
        obtain ⟨d, ⟨op₁, att, att', ho₁, -, -, rfl⟩, hsound, ha⟩ := h.call_accepted hk hcommit
        cases ho.symm.trans ho₁
        have ho' : some { op with current := some att' } =
            some ({ op with current := some att' } : Operation) := rfl
        exact Accepted.gone ha hsound ho' ⟨hp.session, hp.edge⟩ e' he'
    · cases ha : e'.physicalActive with
      | false => rfl
      | true => exact (hsame.active ha).symm.trans (hp.edge e he)

/-- Only viewers depart, call after call. -/
theorem Good.call_viewersDepart {c c' : Controller} {k : Call} {reply : Reply} (h : c.Good)
    (hk : c.call k = .ok (reply, c')) (hv : c.ViewersDepart) : c'.ViewersDepart := by
  obtain ⟨hg, hr⟩ := h.call hk
  have hframe := c.run_frame h k (by rw [hr]; exact hg.fault)
  rw [hr] at hframe
  intro p x' hx' hd
  rcases hframe.departed p x' hx' hd with hrole | ⟨x, hx, hd, hrole⟩
  · exact hrole
  · rw [← hrole]
    exact hv p x hx hd

theorem Reachable.viewersDepart {c : Controller} (h : c.Reachable) : c.ViewersDepart := by
  obtain ⟨o, latest, c₀, ks, hnew, hk⟩ := h
  have hg := new_good hnew
  have h₀ : c₀.ViewersDepart := by
    obtain ⟨-, rfl⟩ := new_eq hnew
    intro p x hx
    simp [Core.participant] at hx
  clear hnew
  induction ks generalizing c₀ with
  | nil =>
    cases hk
    exact h₀
  | cons k ks ih =>
    unfold Controller.calls at hk
    split at hk
    · cases hk
    · next reply c₁ h₁ => exact ih c₁ hk (hg.call h₁).1 (hg.call_viewersDepart h₁ h₀)

theorem Good.calls_gone {c c' : Controller} {ks : List Call} (h : c.Good)
    (hk : c.calls ks = .ok c') {p : ID} (hu : ∀ k ∈ ks, ¬k.Upserts p) (hp : c.Gone p) :
    c'.Gone p := by
  induction ks generalizing c with
  | nil =>
    cases hk
    exact hp
  | cons k ks ih =>
    unfold Controller.calls at hk
    split at hk
    · cases hk
    · next reply c₁ h₁ =>
      exact ih (h.call h₁).1 hk (fun k hk => hu k (List.mem_cons_of_mem _ hk))
        (h.call_gone h₁ (hu k List.mem_cons_self) hp)

/-- A run of maintenance adds nobody. -/
theorem participant_of_runs {c c' : Core} (h : Runs (Upkeep v) a r c c') (hf : c'.fault = none)
    {p : ID} {x : Participant} (hx : c'.participant p = some x) : c.participant p = some x := by
  obtain ⟨_, h⟩ := h false
  have key : ∀ {b b' a r d d'}, Chain (Upkeep v) b b' a r d d' → d'.fault = none →
      d'.participant p = some x → d.participant p = some x := by
    intro b b' a r d d' h
    induction h with
    | refl => exact fun _ h => h
    | head hd ht ih =>
      intro hf hx
      exact hd.participant (fault_before_of_chain (ht.mono fun h => .upkeep h) hf) (ih hf hx)
  exact key h hf hx

/-- **Departure is final.**  Pruning removes exactly the departed participants
    with nobody left below them.  After a reconciliation, paused or not, whoever
    departed has no active edge, no live attempt needs it, and no call gives it an
    active edge before it is upserted. -/
theorem departure_final {c : Controller} (h : c.Reachable) :
    (c.pruneDepartedLeaves.1.Nodup ∧ (∀ p, p ∈ c.pruneDepartedLeaves.1 ↔ c.Vacated p) ∧
      ∀ p, c.pruneDepartedLeaves.2.2.participant p =
        if p ∈ c.pruneDepartedLeaves.1 then none else c.participant p) ∧
    ∀ now reply c', c.call (.reconcile now) = .ok (reply, c') →
      (∀ p, p ∈ reply.removedPeerIDs ↔
        (c.beforePruning now).operation = none ∧ (c.beforePruning now).Vacated p) ∧
      (∀ op att, c'.operation = some op → op.current = some att → c'.Attended op att) ∧
      ∀ p, c.HasDeparted p ∨ c'.HasDeparted p →
        (∀ e, c'.edge p = some e → e.physicalActive = false) ∧
        ∀ ks c'', c'.calls ks = .ok c'' → (∀ k ∈ ks, ¬k.Upserts p) →
          ∀ e, c''.edge p = some e → e.physicalActive = false := by
  have hgood := h.good
  have hv := h.viewersDepart
  refine ⟨pruneDepartedLeaves_exact hgood.sound.forest hv, fun now reply c' hk => ?_⟩
  obtain ⟨hg, hr⟩ := hgood.call hk
  have hc' : (c.reconcile now).2 = c' := congrArg Prod.snd hr
  have hf : (c.reconcile now).2.fault = none := hc' ▸ hg.fault
  refine ⟨fun p => ?_, fun op att ho hc => ?_, fun p hp => ?_⟩
  · have hreply : reply.removedPeerIDs = (c.reconcile now).1.removedPeerIDs :=
      (congrArg (fun x => x.1.removedPeerIDs) hr).symm
    obtain ⟨hremoved, r, hafter⟩ := c.reconcile_removed (v := .all) now
    obtain ⟨r', hbefore⟩ := c.beforePruning_runs (v := .all) now
    set d := c.beforePruning now
    have hfd : d.fault = none := by
      obtain ⟨_, hafter⟩ := hafter false
      exact fault_before_of_chain (hafter.mono fun h => .upkeep h) hf
    have hsound : d.Sound := (invariant_of_runs (P := fun _ => True) (fun _ _ _ h => h)
      (runs_of_upkeep hbefore) hgood.safe fun _ => trivial).1.sound hfd
    have hviewers : d.ViewersDepart := fun q x hx => hv q x (participant_of_runs hbefore hfd hx)
    rw [hreply, hremoved]
    unfold pruneWhenIdle
    split
    · next ho =>
      simp only [Option.isNone_iff_eq_none.1 ho, true_and]
      exact (pruneDepartedLeaves_exact hsound.forest hviewers).2.1 p
    · next ho =>
      have ho : d.operation ≠ none := fun hn => ho (by simp [hn])
      simp [ho]
  · have hattend : c'.Attending := hgood.call_invariant (fun h _ hf => h.attending hf) hk h.attending
    rw [← hc'] at ho
    obtain ⟨hsame, hlive, hcur⟩ := c.reconcile_live now ho hc
    have hcore : c'.toCore = (c.retireDepartedEdges now).2.toCore := hc' ▸ hsame
    rw [hcore]
    exact LiveValid.attended (hcore ▸ hg.sound) (hcore ▸ hattend) (hsame ▸ ho) hc hlive hcur
  · have hall := hc' ▸ c.reconcile_runs (v := .all) now
    have hquiet : c'.Quieted := by
      obtain ⟨r, hrest⟩ := c.reconcile_rest (v := .all) now
      exact quieted_of_runs (hc' ▸ hrest) hg.fault (c.retireDepartedEdges_quieted now)
    have hback : ∀ x, c'.participant p = some x → c.participant p = some x := fun x hx =>
      participant_of_runs hall hg.fault hx
    have hdep : ∀ x, c'.participant p = some x → x.departureConfirmed := fun x hx => by
      rcases hp with ⟨y, hy, hd⟩ | ⟨y, hy, hd⟩
      · cases (hback x hx).symm.trans hy
        exact hd
      · cases hx.symm.trans hy
        exact hd
    have hgone : c'.Gone p := by
      refine ⟨fun x hx => Or.inl ((hg.sound.forest.peopled.rated p x hx).2 (hdep x hx)), fun e he => ?_⟩
      obtain ⟨x, hx⟩ := Option.isSome_iff_exists.1 (hg.sound.forest.child p e he)
      exact hquiet p e ⟨x, hx, hdep x hx⟩ he
    exact ⟨hgone.edge, fun ks c'' hks hu => (hg.calls_gone hks hu hgone).edge⟩

/-- The viewer that was served leaves, and its edge is inactive or gone. -/
theorem departure_final_viewerServed : ∃ c : Controller, ∃ reply c', c.Reachable ∧
    c.call (.reconcile 6) = .ok (reply, c') ∧ (c.edge "viewer").isSome ∧ c.HasDeparted "viewer" ∧
      ∀ e, c'.edge "viewer" = some e → e.physicalActive = false := by
  have h : ∃ c : Controller, ∃ reply c', c.Reachable ∧ c.call (.reconcile 6) = .ok (reply, c') ∧
      (c.edge "viewer").isSome ∧ c.HasDeparted "viewer" :=
    ⟨_, _, _, ⟨smallRoom, 0, _, .upsertParticipant hostInput (some 0) ::
      (viewerServed ++ [.confirmDeparture "viewer" (some 5)]), rfl, rfl⟩, rfl, rfl, _, rfl, rfl⟩
  obtain ⟨c, reply, c', hc, hk, he, hd⟩ := h
  exact ⟨c, reply, c', hc, hk, he, hd, (((departure_final hc).2 6 reply c' hk).2.2 "viewer" (Or.inl hd)).1⟩

end Controller

end Piik.Route
