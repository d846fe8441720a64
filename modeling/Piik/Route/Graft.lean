/-
  A commit keeps the graph sound: the child is grafted onto its new upstream.
-/
import Piik.Route.Sound

namespace Piik.Route

open Piik.Route.Core

variable {c c' : Core} {op : Operation} {att : Attempt}

/-! ## What a valid attempt relies on -/

/-- The part of an attempt's validity that the graph needs. -/
structure Ready (c : Core) (childPeerID : ID) (att : Attempt) : Prop where
  child : ∃ x, c.participant childPeerID = some x ∧ x.departureConfirmed = false
  peer : att.tuple.kind = .peer → ∃ parent, c.participant att.tuple.parentPeerID = some parent ∧
    parent.sessionID ≠ "" ∧ att.tuple.parentPeerID ∉ c.descendantsOf childPeerID ∧
    c.sourceUsable att.tuple.parentPeerID ∧ c.targetFits att.tuple.parentPeerID childPeerID
  host : att.tuple.kind = .sfu → att.hostSessionID ≠ "" → c.hostSessionID = att.hostSessionID ∧
    (c.participant c.hostPeerID).isSome
  reuse : att.tuple.kind = .sfu → att.tuple.publication = .reuse →
    ∃ p, c.hostPublication = some p ∧ p.generation = att.publicationGeneration
  replace : att.tuple.kind = .sfu → att.tuple.publication = .replace →
    c.hostPublication.isSome ∧ c.publicationFits childPeerID true
  create : att.tuple.kind = .sfu → att.tuple.publication ≠ .reuse → att.tuple.publication ≠ .replace →
    c.hostPublication = none ∧ c.publicationFits childPeerID false

theorem ready_of_candidateValid {p : ID} {plan : CandidatePlan} (hpeople : c.Peopled)
    (ht : plan.tuple = att.tuple) (hv : c.candidateValid p plan (some att) = true) :
    Ready c p att := by
  unfold candidateValid at hv
  rw [ht] at hv
  simp only [Bool.and_eq_true] at hv
  obtain ⟨⟨⟨-, hchild⟩, hkind⟩, -⟩ := hv
  refine ⟨?_, fun hk => ?_, fun hk hs => ?_, fun hk hp => ?_, fun hk hp => ?_, fun hk hp hp' => ?_⟩
  · split at hchild
    · next x hx => exact ⟨x, hx, by simp_all⟩
    · cases hchild
  all_goals simp only [hk] at hkind
  · unfold peerCandidateValid at hkind
    split at hkind
    · cases hkind
    · next parent hparent =>
      simp only [Bool.and_eq_true, decide_eq_true_eq, hpeople.peerID _ _ hparent] at hkind
      obtain ⟨⟨⟨⟨⟨⟨⟨⟨-, h₁⟩, -⟩, -⟩, h₂⟩, h₃⟩, -⟩, -⟩, h₄⟩ := hkind
      exact ⟨parent, hparent, h₁, h₂, h₃, h₄⟩
  all_goals
    simp only [sfuCandidateValid, Bool.and_eq_true] at hkind
    obtain ⟨⟨-, hhost⟩, hpub⟩ := hkind
  · simp only [Bool.or_eq_true, beq_iff_eq, hs, false_or] at hhost
    split at hhost
    · next host hh =>
      simp only [Participant.sessionIs, Bool.and_eq_true, beq_iff_eq] at hhost
      exact ⟨by simp [hostSessionID, sessionOf, hh, hhost.2], by simp [hh]⟩
    · cases hhost
  · simp only [hp] at hpub
    split at hpub
    · next p hp =>
      simp only [Bool.and_eq_true, beq_iff_eq] at hpub
      exact ⟨p, hp, hpub.2.symm⟩
    · cases hpub
  · simp only [hp] at hpub
    split at hpub
    · next p hp =>
      simp only [Bool.and_eq_true] at hpub
      exact ⟨by simp [hp], hpub.2⟩
    · cases hpub
  · simpa using hpub

/-- The Host of a publication that fits is present. -/
theorem publicationFits_host {p : ID} {b : Bool} (h : c.publicationFits p b = true) :
    ∃ x, c.participant c.hostPeerID = some x ∧ x.departureConfirmed = false := by
  unfold publicationFits at h
  dsimp only at h
  split at h
  · cases h
  · next x hx => exact ⟨x, hx, by simp_all⟩

/-! ## The walk up -/

theorem nodup_childrenOf (c : Core) (p : ID) : (c.childrenOf p).Nodup :=
  c.upstreamByViewer.nodup.sublist (List.filter_sublist.map Prod.fst)

theorem childrenOf_subset (c : Core) (p : ID) : c.childrenOf p ⊆ c.upstreamByViewer.keys := by
  intro q hq
  obtain ⟨e, he, -⟩ := mem_childrenOf.1 hq
  exact OMap.mem_keys.2 ⟨e, he⟩

/-- Whose walk passes the child is below it. -/
theorem mem_descendantsOf {p q : ID} (h : Walk.Passes c.rootStep q p) :
    q = p ∨ q ∈ c.descendantsOf p := by
  have : q = p ∨ q ∈ Walk.collect c.childrenOf _ [] [p] :=
    Walk.mem_collect_of_passes (childrenOf_subset c) (nodup_childrenOf c) (fun y z hs => rootStep_inr hs) h
  simpa [descendantsOf] using this

/-- A usable source is the Host or has an edge. -/
theorem edge_of_sourceUsable {p : ID} (h : c.sourceUsable p = true) :
    p = c.hostPeerID ∨ ∃ e, c.edge p = some e := by
  by_cases hp : p = c.hostPeerID
  · exact Or.inl hp
  · right
    unfold sourceUsable at h
    simp only [hp, decide_false, Bool.false_or] at h
    unfold pathFuel at h
    rw [Walk.walk] at h
    simp only [List.not_mem_nil, if_false] at h
    cases he : c.edge p with
    | none => simp [sourceStep, he] at h
    | some e => exact ⟨e, rfl⟩

/-! ## The new edge -/

/-- The graph with the child's new edge. -/
def graft (c : Core) (p : ID) (e : CommittedEdge) (pub : Option HostPublication) : Core :=
  { c with upstreamByViewer := c.upstreamByViewer.set p e, hostPublication := pub }

@[simp] theorem edge_graft (p q : ID) (e : CommittedEdge) (pub : Option HostPublication) :
    (graft c p e pub).edge q = if q = p then some e else c.edge q := by
  simp [graft, Core.edge]

@[simp] theorem graft_hostPeerID (p : ID) (e : CommittedEdge) (pub : Option HostPublication) :
    (graft c p e pub).hostPeerID = c.hostPeerID := rfl

theorem rootStep_graft {p q : ID} (e : CommittedEdge) (pub : Option HostPublication) (h : q ≠ p) :
    (graft c p e pub).rootStep q = c.rootStep q :=
  rootStep_congr rfl (by simp [h])

/-- The new edge does not lead back to the child. -/
structure Attachable (c : Core) (p : ID) (e : CommittedEdge) : Prop where
  active : e.physicalActive
  known : e.kind = .peer → (c.participant e.parentPeerID).isSome
  outward : e.kind = .peer → e.parentPeerID ≠ p
  below : e.kind = .peer → e.parentPeerID ∉ c.descendantsOf p
  ends : e.kind = .peer → e.parentPeerID = c.hostPeerID ∨ ∃ e', c.edge e.parentPeerID = some e'

/-- **Everything still ends at the Host or at an SFU edge.** -/
theorem rooted_graft (hf : c.Forest) {p : ID} {e : CommittedEdge} (hp : p ≠ c.hostPeerID)
    (ha : Attachable c p e) (pub : Option HostPublication) (q : ID) (e' : CommittedEdge)
    (he' : (graft c p e pub).edge q = some e') : (graft c p e pub).Rooted q := by
  have hoff : ∀ y, y ≠ p → (graft c p e pub).rootStep y = c.rootStep y := fun y hy =>
    rootStep_graft e pub hy
  have hchild : (graft c p e pub).Rooted p := by
    have hstep : (graft c p e pub).rootStep p =
        if e.kind = .sfu then .inl true else .inr e.parentPeerID := by
      unfold rootStep
      simp [hp]
    cases hk : e.kind with
    | sfu => exact .here (by rw [hstep, if_pos hk])
    | peer =>
      refine .next (by rw [hstep, if_neg (by simp [hk])]) ?_
      rcases ha.ends hk with hh | ⟨e₀, he₀⟩
      · refine .here ((hoff _ (ha.outward hk)).trans ?_)
        simp [rootStep, hh]
      · refine (hf.rooted _ e₀ he₀).off hoff fun hpass => ?_
        exact (mem_descendantsOf hpass).elim (ha.outward hk) (ha.below hk)
  by_cases hq : q = p
  · exact hq ▸ hchild
  · rw [edge_graft, if_neg hq] at he'
    exact Walk.Ends.graft hoff hchild (hf.rooted q e' he')

theorem copiesOf_graft {p : ID} {e : CommittedEdge} (pub : Option HostPublication) (x : ID) :
    (graft c p e pub).copiesOf x ⊆
      if e.kind = .peer ∧ e.parentPeerID = x then insert p (c.copiesOf x)
      else (c.copiesOf x).erase p := by
  intro q hq
  obtain ⟨e', he', hk, hx, ha⟩ := mem_copiesOf.1 hq
  rw [edge_graft] at he'
  split at he'
  · next hqp =>
    cases he'
    rw [if_pos ⟨hk, hx⟩]
    exact hqp ▸ Finset.mem_insert_self _ _
  · next hqp =>
    have hmem : q ∈ c.copiesOf x := mem_copiesOf.2 ⟨e', he', hk, hx, ha⟩
    split
    · exact Finset.mem_insert_of_mem hmem
    · exact Finset.mem_erase.2 ⟨hqp, hmem⟩

/-- **The forest after the graft**, with the publication that is left. -/
theorem forest_graft (hf : c.Forest) {p : ID} {e : CommittedEdge} {pub : Option HostPublication}
    {m : OMap ID DirectContinuation} (hm : Patient m) (hp : p ≠ c.hostPeerID)
    (hchild : (c.participant p).isSome) (ha : Attachable c p e)
    (hhost : (c.participant c.hostPeerID).isSome) (hpub : ∀ q, pub = some q → q.physicalActive)
    (hact : ∀ q e', (graft c p e pub).edge q = some e' → e'.kind = .sfu → e'.physicalActive →
      ∃ x, pub = some x ∧ x.generation = e'.publicationGeneration)
    (hcopies : ∀ x, (graft c p e pub).physicalCopies x ≤ maxRelayVolunteerChildren) :
    { graft c p e pub with directContinuations := m }.Forest := by
  have hedge : ∀ q e', (graft c p e pub).edge q = some e' → q = p ∧ e' = e ∨ c.edge q = some e' := by
    intro q e' he'
    rw [edge_graft] at he'
    split at he'
    · cases he'
      exact Or.inl ⟨‹_›, rfl⟩
    · exact Or.inr he'
  refine ⟨hf.peopled.of_eq rfl rfl rfl rfl,
    ⟨fun q e' he' hk => ?_, ?_, hm⟩, fun q e' he' => ?_, fun q e' he' hk => ?_, fun q e' he' => ?_, hact,
    fun q e' he' hk hi => ?_, hpub, Or.inl hhost, hcopies⟩
  · rcases hedge q e' he' with ⟨rfl, rfl⟩ | he
    · exact ha.outward hk
    · exact hf.outward.edge q e' he hk
  · have : (graft c p e pub).edge c.hostPeerID = none := by
      rw [edge_graft, if_neg (Ne.symm hp)]
      exact hf.outward.host
    exact this
  · rcases hedge q e' he' with ⟨rfl, rfl⟩ | he
    · exact hchild
    · exact hf.child q e' he
  · rcases hedge q e' he' with ⟨rfl, rfl⟩ | he
    · exact ha.known hk
    · exact hf.parent q e' he hk
  · exact rooted_graft hf hp ha pub q e' he'
  · rcases hedge q e' he' with ⟨rfl, rfl⟩ | he
    · simp [ha.active] at hi
    · exact hf.retiring q e' he hk hi

/-! ## The copies of a valid attempt -/

/-- An endpoint sends no more copies than before, or it has the capacity for them. -/
def Bounded (c c' : Core) : Prop := ∀ p, c'.physicalCopies p ≤ c.physicalCopies p ∨
  ∃ q, c'.participant p = some q ∧ c'.physicalCopies p ≤ q.effectiveDownstreamCapacity

theorem Bounded.copies (h : Bounded c c') (hp : c'.Peopled)
    (hc : ∀ p, c.physicalCopies p ≤ maxRelayVolunteerChildren) (p : ID) :
    c'.physicalCopies p ≤ maxRelayVolunteerChildren := by
  rcases h p with h | ⟨q, hq, h⟩
  · exact h.trans (hc p)
  · exact h.trans (hp.copies hq)

theorem alreadyChild_iff {p q : ID} : c.alreadyChild p q = true ↔ q ∈ c.copiesOf p := by
  rw [mem_copiesOf]
  unfold alreadyChild
  cases c.edge q <;> simp [and_assoc]

theorem lastSubscriber_alone {p q : ID} {e : CommittedEdge} (h : c.lastSubscriber p = true)
    (he : c.edge q = some e) (hk : e.kind = .sfu) (ha : e.physicalActive) : q = p := by
  unfold lastSubscriber at h
  split at h
  · next e₀ he₀ =>
    simp only [Bool.and_eq_true, beq_iff_eq, sfuSubscriberCount] at h
    rw [← OMap.card_keysWhere c.upstreamByViewer
      fun _ e => e.kind == .sfu && e.physicalActive] at h
    obtain ⟨x, hx⟩ := Finset.card_eq_one.1 h.2
    have hmem : ∀ y f, c.edge y = some f → f.kind = .sfu → f.physicalActive → y = x := by
      intro y f hy hk ha
      have : y ∈ c.upstreamByViewer.keysWhere fun _ e => e.kind == .sfu && e.physicalActive :=
        OMap.mem_keysWhere.2 ⟨f, hy, by simp [hk, ha]⟩
      rw [hx] at this
      exact Finset.mem_singleton.1 this
    exact (hmem q e he hk ha).trans (hmem p e₀ he₀ h.1.1 h.1.2).symm
  · cases h

theorem publicationActive_eq (hf : c.Forest) : c.publicationActive = c.hostPublication.isSome := by
  unfold publicationActive
  cases hp : c.hostPublication with
  | none => rfl
  | some p => simpa using hf.publication p hp

/-- The last subscription has a publication. -/
theorem lastSubscriber_publication (hf : c.Forest) {p : ID} (h : c.lastSubscriber p = true) :
    c.hostPublication.isSome := by
  unfold lastSubscriber at h
  split at h
  · next e he =>
    simp only [Bool.and_eq_true, beq_iff_eq] at h
    obtain ⟨q, hq, -⟩ := hf.active p e he h.1.1 h.1.2
    simp [hq]
  · cases h

/-- The copies a fitting parent sends once it feeds the child: its publication
    goes with the last subscription. -/
theorem copies_le_of_targetFits (hf : c.Forest) {p q : ID} (h : c.targetFits p q = true) :
    ∃ parent, c.participant p = some parent ∧
      ((c.copiesOf p).card : Int) + (if c.alreadyChild p q then 0 else 1) +
        (if p = c.hostPeerID ∧ c.hostPublication.isSome ∧ ¬c.lastSubscriber q then 1 else 0) ≤
      parent.effectiveDownstreamCapacity := by
  unfold targetFits at h
  split at h
  · cases h
  · next parent hparent =>
    have hrole := hf.peopled.role _ parent hparent
    refine ⟨parent, hparent, ?_⟩
    have hlast := lastSubscriber_publication hf (p := q)
    simp only [usedSlots, physicalCopies_eq, publicationActive_eq hf, decide_eq_true_eq,
      Bool.and_eq_true, beq_iff_eq, hrole] at h
    by_cases hp : p = c.hostPeerID <;> by_cases hl : c.lastSubscriber q = true <;>
      by_cases hs : c.hostPublication.isSome = true <;> cases ha : c.alreadyChild p q <;>
      simp_all

/-- A peer child fits: the parent's copies stay within its bound, the last
    subscription gone with its publication. -/
theorem copies_peer (hf : c.Forest) {p : ID} {e : CommittedEdge} (hk : e.kind = .peer)
    {pub : Option HostPublication} (hpub : pub.isSome → c.hostPublication.isSome)
    (hpa : ∀ q, pub = some q → q.physicalActive) (hlast : c.lastSubscriber p = true → pub = none)
    (hfits : c.targetFits e.parentPeerID p = true) : Bounded c (graft c p e pub) := by
  intro x
  have hactive : (graft c p e pub).publicationActive = pub.isSome := by
    unfold publicationActive
    cases hq : pub with
    | none => rfl
    | some q => simpa [graft] using hpa q hq
  have hsub := copiesOf_graft (c := c) (p := p) (e := e) pub x
  by_cases hx : e.parentPeerID = x
  · subst hx
    rw [if_pos ⟨hk, rfl⟩] at hsub
    have hcard : ((graft c p e pub).copiesOf e.parentPeerID).card ≤
        (c.copiesOf e.parentPeerID).card + if c.alreadyChild e.parentPeerID p then 0 else 1 := by
      refine (Finset.card_le_card hsub).trans ?_
      split
      · next h => rw [Finset.insert_eq_self.2 (alreadyChild_iff.1 h)]; omega
      · exact Finset.card_insert_le _ _
    have hcopy : (if e.parentPeerID = c.hostPeerID ∧ pub.isSome then (1 : Int) else 0) ≤
        if e.parentPeerID = c.hostPeerID ∧ c.hostPublication.isSome ∧ ¬c.lastSubscriber p then 1
        else 0 := by
      split
      · next h =>
        rw [if_pos ⟨h.1, hpub h.2, fun hl => by simp [hlast hl] at h⟩]
      · split <;> omega
    obtain ⟨parent, hparent, h⟩ := copies_le_of_targetFits hf hfits
    refine Or.inr ⟨parent, hparent, ?_⟩
    rw [physicalCopies_eq, hactive]
    change ((graft c p e pub).copiesOf e.parentPeerID).card +
      (if e.parentPeerID = c.hostPeerID ∧ pub.isSome then (1 : Int) else 0) ≤ _
    cases ha : c.alreadyChild e.parentPeerID p <;>
      simp only [ha, if_true, Bool.false_eq_true, if_false] at hcard h <;> omega
  · rw [if_neg fun h => hx h.2] at hsub
    refine Or.inl (physicalCopies_le (fun q hq => Finset.mem_of_mem_erase (hsub hq)) rfl fun h => ?_)
    rw [publicationActive_eq hf]
    exact hpub (hactive ▸ h)

/-- The Host's copies once its publication is replaced or created. -/
theorem copies_le_of_publicationFits (hf : c.Forest) {p : ID} {replacing : Bool}
    (h : c.publicationFits p replacing = true)
    (hr : c.hostPublication.isSome = replacing) :
    ∃ host, c.participant c.hostPeerID = some host ∧ host.departureConfirmed = false ∧
      (((c.copiesOf c.hostPeerID).erase p).card : Int) + 1 ≤ host.effectiveDownstreamCapacity := by
  unfold publicationFits at h
  dsimp only at h
  split at h
  · cases h
  · next host hh =>
    simp only [Bool.and_eq_true, decide_eq_true_eq, usedSlots, physicalCopies_eq,
      publicationActive_eq hf] at h
    have hcard : ((c.copiesOf c.hostPeerID).erase p).card +
        (if c.alreadyChild c.hostPeerID p then 1 else 0) = (c.copiesOf c.hostPeerID).card := by
      split
      · next ha => exact Finset.card_erase_add_one (alreadyChild_iff.1 ha)
      · next ha => rw [Finset.erase_eq_of_notMem fun hm => ha (alreadyChild_iff.2 hm)]; rfl
    refine ⟨host, hh, by simpa using h.1.2, ?_⟩
    cases ha : c.alreadyChild c.hostPeerID p <;> cases replacing <;> simp_all <;> omega

/-- An SFU child fits behind a new publication. -/
theorem copies_sfu {c₁ : Core} {p : ID} {e : CommittedEdge} (hk : e.kind = .sfu)
    (pub : Option HostPublication) (hsub : ∀ x, c₁.copiesOf x ⊆ c.copiesOf x)
    (hhost : c₁.hostPeerID = c.hostPeerID) {host : Participant}
    (hpresent : c₁.participant c.hostPeerID = some host)
    (hfits : (((c.copiesOf c.hostPeerID).erase p).card : Int) + 1 ≤ host.effectiveDownstreamCapacity) :
    Bounded c (graft c₁ p e pub) := by
  intro x
  have hcard : ((graft c₁ p e pub).copiesOf x).card ≤ ((c.copiesOf x).erase p).card := by
    refine Finset.card_le_card fun q hq => ?_
    have := copiesOf_graft pub x hq
    rw [if_neg fun h => by simp [hk] at h] at this
    exact Finset.erase_subset_erase p (hsub x) this
  by_cases hx : x = c.hostPeerID
  · subst hx
    refine Or.inr ⟨host, hpresent, ?_⟩
    rw [physicalCopies_eq]
    split <;> omega
  · left
    have := Finset.card_erase_le (s := c.copiesOf x) (a := p)
    rw [physicalCopies_eq, physicalCopies_eq, graft_hostPeerID, hhost, if_neg fun h => hx h.1,
      if_neg fun h => hx h.1]
    omega

/-! ## Installing -/

/-- What the attempt installs: the child's edge, and the publication. -/
structure Installs (c : Core) (op : Operation) (att : Attempt) (e : CommittedEdge)
    (pub : Option HostPublication) : Prop where
  install : c.install op att = graft c op.childPeerID e pub
  kind : e.kind = att.tuple.kind
  active : e.physicalActive
  parent : att.tuple.kind = .peer → e.parentPeerID = att.tuple.parentPeerID
  generation : att.tuple.kind = .sfu → e.publicationGeneration = att.publicationGeneration
  kept : att.tuple.kind = .peer ∨ att.tuple.publication = .reuse → pub = c.hostPublication
  new : att.tuple.kind = .sfu → att.tuple.publication ≠ .reuse → pub = some (c.newPublication att)
  resource : att.tuple.kind = .sfu → e.resource = att.reservation.edge
  key : e.opportunityKey = c.candidateOpportunityBase op.childPeerID
    { kind := e.kind, parentPeerID := e.parentPeerID }

theorem installs_peer (hk : att.tuple.kind = .peer) {parent : Participant}
    (hp : c.participant att.tuple.parentPeerID = some parent) (hs : parent.sessionID ≠ "") :
    Installs c op att (c.committedPeerEdge op att parent.sessionID) c.hostPublication := by
  refine ⟨?_, hk.symm, rfl, fun _ => rfl, fun h => ?_, fun _ => rfl, fun h => ?_, fun h => ?_, rfl⟩
  · unfold Core.install installPeer
    rw [if_pos hk, hp]
    dsimp only
    rw [if_neg hs]
    rfl
  all_goals simp [hk] at h

theorem installs_reuse (hk : att.tuple.kind = .sfu) (hp : att.tuple.publication = .reuse) :
    Installs c op att (c.committedSfuEdge op att) c.hostPublication := by
  refine ⟨?_, hk.symm, rfl, fun h => ?_, fun _ => rfl, fun _ => rfl, fun _ h => absurd hp h,
    fun _ => rfl, by simp [committedSfuEdge, candidateOpportunityBase, hk]⟩
  · unfold Core.install installSfu installPublication
    rw [if_neg (by simp [hk]), if_pos hp]
    rfl
  · simp [hk] at h

theorem installs_new (hk : att.tuple.kind = .sfu) (hp : att.tuple.publication ≠ .reuse)
    (hhost : c.hostSessionID = att.hostSessionID) (hs : att.hostSessionID ≠ "")
    (hc : att.publicationConnectionID ≠ "") :
    Installs c op att ((c.installPublication att).committedSfuEdge op att)
      (some (c.newPublication att)) := by
  have hpub : c.installPublication att = { c with hostPublication := some (c.newPublication att) } := by
    unfold installPublication
    rw [if_neg hp, if_neg (by simp [hhost, hs, hc]), if_neg (by simp [hhost])]
  refine ⟨?_, hk.symm, rfl, fun h => ?_, fun _ => rfl, fun h => ?_, fun _ _ => rfl, fun _ => rfl,
    by simp [committedSfuEdge, candidateOpportunityBase, hk, hpub, sessionOf, participant]⟩
  · unfold Core.install installSfu
    rw [if_neg (by simp [hk]), hpub]
    rfl
  · simp [hk] at h
  · rcases h with h | h
    · simp [hk] at h
    · exact absurd h hp

/-! ## What is left of the publication -/

/-- The publication after the graft: none when the old edge was its last
    subscription. -/
def leftPublication (c : Core) (p : ID) (e : CommittedEdge) (pub : Option HostPublication)
    (old : Option CommittedEdge) : Option HostPublication :=
  match old with
  | some o => if o.kind = .sfu ∧ !(graft c p e pub).hasSfuSubscribers then none else pub
  | none => pub

theorem leftPublication_cases (c : Core) (p : ID) (e : CommittedEdge) (pub : Option HostPublication)
    (old : Option CommittedEdge) :
    leftPublication c p e pub old = pub ∨ leftPublication c p e pub old = none ∧
      (graft c p e pub).hasSfuSubscribers = false := by
  unfold leftPublication
  split
  · split
    · next h => exact Or.inr ⟨rfl, by simpa using h.2⟩
    · exact Or.inl rfl
  · exact Or.inl rfl

/-- A commit is a graft, pruned. -/
theorem publish_graft (c : Core) (att : Attempt) {p : ID} {e : CommittedEdge}
    {pub : Option HostPublication} (m : OMap ID DirectContinuation) (old : Option CommittedEdge) :
    (publish { graft c p e pub with directContinuations := m } att).dropReplacedPublication old =
      pruneRetiringSfuAnchors { graft c p e (leftPublication c p e pub old) with
        directContinuations := m, revision := att.revision, operation := none } := by
  have hsubs : (publish { graft c p e pub with directContinuations := m } att).hasSfuSubscribers =
      (graft c p e pub).hasSfuSubscribers :=
    hasSfuSubscribers_prune _
  unfold dropReplacedPublication leftPublication
  cases old with
  | none => rfl
  | some o =>
    dsimp only
    rw [hsubs]
    split <;> rfl

/-! ## The commit -/

/-- The forest does not read the operation and the revision. -/
theorem Core.Forest.withCourse (h : c.Forest) (o : Option Operation) (rev lat : Int)
    (f : Option Fault) : { c with operation := o, revision := rev, latest := lat, fault := f }.Forest :=
  ⟨h.peopled.of_eq rfl rfl rfl rfl, ⟨h.outward.1, h.outward.2, h.outward.3⟩,
    h.child, h.parent, h.rooted, h.active, h.retiring, h.publication, h.host, h.copies⟩

/-- What `Replaced` leaves of the graph that validated the attempt. -/
structure Cleared (c c₁ : Core) (att : Attempt) : Prop where
  forest : c₁.Forest
  course : SameCourse c c₁
  present : ∀ q x, c.participant q = some x → x.departureConfirmed = false → c₁.participant q = some x
  copies : ∀ x, c₁.copiesOf x ⊆ c.copiesOf x
  same : att.tuple.kind = .peer ∨ att.tuple.publication ≠ .replace → c₁ = c
  gone : att.tuple.kind = .sfu → att.tuple.publication = .replace → c₁.hostPublication = none

theorem Cuts.copiesOf {L : Core → ID → CommittedEdge → Prop} {r : List Resource}
    (h : Cuts L r c c') (x : ID) : c'.copiesOf x ⊆ c.copiesOf x := by
  induction h with
  | refl => exact fun _ h => h
  | head hd _ ih =>
    refine fun q hq => ?_
    obtain ⟨e', he', hk, hp, ha⟩ := mem_copiesOf.1 (ih hq)
    rcases hd.edge q with ⟨e, e'', he, he'', hw⟩ | ⟨hn, -⟩
    · cases he''.symm.trans he'
      obtain rfl := hw.active ha
      exact mem_copiesOf.2 ⟨_, he, hk, hp, ha⟩
    · simp [hn] at he'

theorem Replaced.cleared (h : Replaced att c c') (hf : c.Forest) : Cleared c c' att := by
  unfold Replaced at h
  split at h
  · next hr =>
    obtain ⟨p, r, -, hn, ht⟩ := h
    exact ⟨ht.1.forest hf, ht.1.sameCourse, fun q x hx hd => ht.1.participant_present hx hd,
      ht.1.copiesOf, fun h => by simp [hr.1, hr.2] at h, fun _ _ => hn⟩
  · next hr =>
    subst h
    exact ⟨hf, .refl _, fun _ _ h _ => h, fun _ _ h => h, fun _ => rfl,
      fun hk hp => absurd ⟨hk, hp⟩ hr⟩

/-- What an attempt installs on a graph cleared for it. -/
theorem installs_of_ready {c₁ : Core} (hready : Ready c op.childPeerID att) (hw : c.Working)
    (ho : c.operation = some op) (hr : op.reason ≠ .publicationAttach) (hc : op.current = some att)
    (hcl : Cleared c c₁ att) : ∃ e pub, Installs c₁ op att e pub := by
  cases hk : att.tuple.kind with
  | peer =>
    obtain ⟨parent, hp, hs, -⟩ := hready.peer hk
    rw [hcl.same (Or.inl hk)]
    exact ⟨_, _, installs_peer hk hp hs⟩
  | sfu =>
    by_cases hp : att.tuple.publication = .reuse
    · exact ⟨_, _, installs_reuse hk hp⟩
    · have hs := hw.host op att ho hr hc hk
      obtain ⟨hsession, hpresent⟩ := hready.host hk hs
      refine ⟨_, _, installs_new hk hp ?_ hs (hw.ingress op att ho hr hc hk hp)⟩
      by_cases hrep : att.tuple.publication = .replace
      · obtain ⟨host, hh, hd⟩ := publicationFits_host (hready.replace hk hrep).2
        rw [← hsession]
        unfold hostSessionID sessionOf
        rw [hcl.course.hostPeerID, hh, hcl.present _ _ hh hd]
      · rw [hcl.same (Or.inr hrep), hsession]

/-- What is left is the installed publication. -/
theorem leftPublication_eq {c : Core} {p : ID} {e : CommittedEdge} {pub : Option HostPublication}
    {old : Option CommittedEdge} {x : HostPublication} (h : leftPublication c p e pub old = some x) :
    pub = some x := by
  rcases leftPublication_cases c p e pub old with hl | ⟨hn, -⟩
  · exact hl ▸ h
  · rw [hn] at h
    cases h

/-- Where somebody subscribes, the installed publication is left. -/
theorem leftPublication_subscribed {c : Core} {p q : ID} {e e' : CommittedEdge}
    {pub pub' : Option HostPublication} {old : Option CommittedEdge} (he' : (graft c p e pub').edge q = some e')
    (hk : e'.kind = .sfu) (ha : e'.physicalActive) : leftPublication c p e pub old = pub := by
  rcases leftPublication_cases c p e pub old with hl | ⟨-, hn⟩
  · exact hl
  · have hsome : (graft c p e pub).hasSfuSubscribers = true :=
      (hasSfuSubscribers_iff _).2 ⟨q, e', by rwa [edge_graft] at he' ⊢, hk, ha⟩
    rw [hn] at hsome
    cases hsome

/-- A commit leaves a forest with its Host, and copies that were there or may be. -/
structure Leaves (c c' : Core) (m : OMap ID DirectContinuation) : Prop where
  host : (c'.participant c'.hostPeerID).isSome
  forest : { c' with directContinuations := m }.Forest
  bounded : Bounded c c'

section Committed

variable {e : CommittedEdge} {pub : Option HostPublication} {m : OMap ID DirectContinuation}

/-- A child whose last subscription this was leaves no publication. -/
theorem leftPublication_none (hi : Installs c op att e pub) (hk : att.tuple.kind = .peer)
    (hl : c.lastSubscriber op.childPeerID = true) :
    leftPublication c op.childPeerID e pub (c.edge op.childPeerID) = none := by
  have hgone : (graft c op.childPeerID e pub).hasSfuSubscribers = false := by
    rw [← Bool.not_eq_true, hasSfuSubscribers_iff]
    rintro ⟨q, e', he', hk', ha'⟩
    rw [edge_graft] at he'
    split at he'
    · cases he'
      simp [hi.kind, hk] at hk'
    · exact absurd (lastSubscriber_alone hl he' hk' ha') ‹_›
  unfold lastSubscriber at hl
  split at hl
  · next e₀ he₀ =>
    simp only [Bool.and_eq_true, beq_iff_eq] at hl
    simp [leftPublication, he₀, hl.1.1, hgone]
  · cases hl

theorem leaves_peer (hf : c.Forest) (hready : Ready c op.childPeerID att)
    (hout : att.tuple.Outward op.childPeerID) (hi : Installs c op att e pub) (hm : Patient m)
    (hne : op.childPeerID ≠ c.hostPeerID) (hchild : (c.participant op.childPeerID).isSome)
    (hk : att.tuple.kind = .peer) :
    Leaves c (graft c op.childPeerID e (leftPublication c op.childPeerID e pub (c.edge op.childPeerID))) m := by
  obtain ⟨parent, hparent, -, hbelow, husable, hfits⟩ := hready.peer hk
  have hpar := hi.parent hk
  have hpub := hi.kept (Or.inl hk)
  have hends := edge_of_sourceUsable husable
  have hhost : (c.participant c.hostPeerID).isSome := by
    rcases hends with hh | ⟨e₀, he₀⟩
    · rw [← hh, hparent]
      rfl
    · rcases hf.host with hh | ⟨hn, -⟩
      · exact hh
      · simp [hn] at he₀
  have hactive : ∀ q, leftPublication c op.childPeerID e pub (c.edge op.childPeerID) = some q →
      q.physicalActive := fun q hq => hf.publication q (hpub ▸ leftPublication_eq hq)
  have hbounded : Bounded c
      (graft c op.childPeerID e (leftPublication c op.childPeerID e pub (c.edge op.childPeerID))) := by
    refine copies_peer hf (hi.kind.trans hk) (fun hs => ?_) hactive (leftPublication_none hi hk) (hpar ▸ hfits)
    obtain ⟨x, hx⟩ := Option.isSome_iff_exists.1 hs
    rw [← hpub, leftPublication_eq hx]
    rfl
  refine ⟨hhost, forest_graft hf hm hne hchild ⟨hi.active, fun _ => by simp [hpar, hparent],
    fun _ => hpar ▸ hout hk, fun _ => hpar ▸ hbelow, fun _ => hpar ▸ hends⟩ hhost hactive
    (fun q e' he' hk' ha => ?_)
    (hbounded.copies (hf.peopled.of_eq rfl rfl rfl rfl) hf.copies), hbounded⟩
  rw [leftPublication_subscribed he' hk' ha]
  rw [edge_graft] at he'
  split at he'
  · cases he'
    simp [hi.kind, hk] at hk'
  · exact hpub ▸ hf.active q e' he' hk' ha

/-- An edge to the SFU can always be attached. -/
theorem attachable_sfu (hi : Installs c op att e pub) (hk : att.tuple.kind = .sfu) :
    Attachable c op.childPeerID e := by
  have hkind := hi.kind.trans hk
  exact ⟨hi.active, fun h => by simp [hkind] at h, fun h => by simp [hkind] at h,
    fun h => by simp [hkind] at h, fun h => by simp [hkind] at h⟩

theorem leaves_reuse (hf : c.Forest) (hready : Ready c op.childPeerID att) (hi : Installs c op att e pub)
    (hm : Patient m) (hne : op.childPeerID ≠ c.hostPeerID) (hchild : (c.participant op.childPeerID).isSome)
    (hhost : (c.participant c.hostPeerID).isSome) (hk : att.tuple.kind = .sfu)
    (hp : att.tuple.publication = .reuse) :
    Leaves c (graft c op.childPeerID e (leftPublication c op.childPeerID e pub (c.edge op.childPeerID))) m := by
  have hpub := hi.kept (Or.inr hp)
  obtain ⟨x, hx, hg⟩ := hready.reuse hk hp
  -- a subscription is no copy of an endpoint
  have hcopies : ∀ y, (graft c op.childPeerID e (leftPublication c op.childPeerID e pub
      (c.edge op.childPeerID))).physicalCopies y ≤ c.physicalCopies y := fun y => by
    refine physicalCopies_le (fun q hq => ?_) rfl fun _ => ?_
    · have hsub := copiesOf_graft _ y hq
      rw [if_neg fun h => by simp [hi.kind.trans hk] at h] at hsub
      exact Finset.mem_of_mem_erase hsub
    · rw [publicationActive_eq hf, hx]
      rfl
  refine ⟨hhost, forest_graft hf hm hne hchild (attachable_sfu hi hk) hhost
    (fun q hq => hf.publication q (hpub ▸ leftPublication_eq hq)) (fun q e' he' hk' ha => ?_)
    fun y => (hcopies y).trans (hf.copies y), fun y => Or.inl (hcopies y)⟩
  rw [leftPublication_subscribed he' hk' ha]
  rw [edge_graft] at he'
  split at he'
  · cases he'
    exact ⟨x, hpub.trans hx, hg.trans (hi.generation hk).symm⟩
  · exact hpub ▸ hf.active q e' he' hk' ha

/-- The Host has a copy to spare for the publication, once the child has left it. -/
theorem Ready.publishes (hready : Ready c op.childPeerID att) (hf : c.Forest) (hk : att.tuple.kind = .sfu)
    (hp : att.tuple.publication ≠ .reuse) :
    ∃ host, c.participant c.hostPeerID = some host ∧ host.departureConfirmed = false ∧
      (((c.copiesOf c.hostPeerID).erase op.childPeerID).card : Int) + 1 ≤ host.effectiveDownstreamCapacity := by
  by_cases hrep : att.tuple.publication = .replace
  · obtain ⟨hsome, hfits⟩ := hready.replace hk hrep
    exact copies_le_of_publicationFits hf hfits hsome
  · obtain ⟨hn, hfits⟩ := hready.create hk hp hrep
    exact copies_le_of_publicationFits hf hfits (by simp [hn])

theorem leaves_new {c₁ : Core} (hf : c.Forest) (hready : Ready c op.childPeerID att) (hcl : Cleared c c₁ att)
    (hi : Installs c₁ op att e pub) (hm : Patient m) (hne : op.childPeerID ≠ c₁.hostPeerID)
    (hchild : (c₁.participant op.childPeerID).isSome) (hk : att.tuple.kind = .sfu)
    (hp : att.tuple.publication ≠ .reuse) (old : Option CommittedEdge) :
    Leaves c (graft c₁ op.childPeerID e (leftPublication c₁ op.childPeerID e pub old)) m := by
  have hnew := hi.new hk hp
  have hnone : c₁.hostPublication = none := by
    by_cases hrep : att.tuple.publication = .replace
    · exact hcl.gone hk hrep
    · rw [hcl.same (Or.inr hrep)]
      exact (hready.create hk hp hrep).1
  obtain ⟨host, hh, hd, hfits⟩ := hready.publishes hf hk hp
  have hh₁ := hcl.present _ _ hh hd
  have hhost : (c₁.participant c₁.hostPeerID).isSome := by
    rw [hcl.course.hostPeerID, hh₁]
    rfl
  have hbounded : Bounded c (graft c₁ op.childPeerID e (leftPublication c₁ op.childPeerID e pub old)) :=
    copies_sfu (hi.kind.trans hk) _ hcl.copies hcl.course.hostPeerID hh₁ hfits
  refine ⟨hhost, forest_graft hcl.forest hm hne hchild (attachable_sfu hi hk) hhost (fun q hq => ?_)
    (fun q e' he' hk' ha => ?_)
    (hbounded.copies (hcl.forest.peopled.of_eq rfl rfl rfl rfl) hf.copies), hbounded⟩
  · cases hnew.symm.trans (leftPublication_eq hq)
    rfl
  · rw [leftPublication_subscribed he' hk' ha]
    rw [edge_graft] at he'
    split at he'
    · cases he'
      exact ⟨_, hnew, (hi.generation hk).symm⟩
    · obtain ⟨x, hx, -⟩ := hcl.forest.active q e' he' hk' ha
      simp [hnone] at hx

/-- The graph with the attempt's edge, and the publication that is left. -/
theorem forest_committed {c₁ : Core} (hf : c.Forest) (hready : Ready c op.childPeerID att)
    (hcl : Cleared c c₁ att) (hw : c.Working) (ho : c.operation = some op)
    (hr : op.reason ≠ .publicationAttach) (hc : op.current = some att)
    (hout : att.tuple.Outward op.childPeerID) (hi : Installs c₁ op att e pub) (hm : Patient m) :
    Leaves c (graft c₁ op.childPeerID e (leftPublication c₁ op.childPeerID e pub (c.edge op.childPeerID))) m := by
  have hne : op.childPeerID ≠ c₁.hostPeerID := hcl.course.hostPeerID ▸ hw.child op ho
  obtain ⟨child, hchild, hdep⟩ := hready.child
  have hchild₁ : (c₁.participant op.childPeerID).isSome := by simp [hcl.present _ _ hchild hdep]
  cases hk : att.tuple.kind with
  | peer =>
    obtain rfl := hcl.same (Or.inl hk)
    exact leaves_peer hf hready hout hi hm hne hchild₁ hk
  | sfu =>
    by_cases hp : att.tuple.publication = .reuse
    · obtain rfl := hcl.same (Or.inr (by simp [hp]))
      have hhost := (hready.host hk (hw.host op att ho hr hc hk)).2
      exact leaves_reuse hf hready hi hm hne hchild₁ hhost hk hp
    · exact leaves_new hf hready hcl hi hm hne hchild₁ hk hp _

end Committed

/-- The graph that a commit leaves: the attempt's edge, the publication that is
    left, and no spent anchors. -/
def settled (c₁ : Core) (op : Operation) (att : Attempt) (e : CommittedEdge)
    (pub : Option HostPublication) (old : Option CommittedEdge) (m : OMap ID DirectContinuation) : Core :=
  pruneRetiringSfuAnchors { graft c₁ op.childPeerID e (leftPublication c₁ op.childPeerID e pub old)
    with directContinuations := m, revision := att.revision, operation := none }

/-- **A commit keeps the graph sound**, and none of its panics fires. -/
theorem committed_settled {c₁ : Core} {m : OMap ID DirectContinuation} {plan : CandidatePlan}
    (hs : c.Sound) (ho : c.operation = some op) (hr : op.reason ≠ .publicationAttach)
    (hc : op.current = some att) (hp : op.planAt op.cursor = some plan)
    (hv : c.candidateValid op.childPeerID plan (some att) = true) (hrep : Replaced att c c₁)
    (hm : Patient m) :
    ∃ e pub, Installs c₁ op att e pub ∧
      c₁.committed op att (c.edge op.childPeerID) m =
        settled c₁ op att e pub (c.edge op.childPeerID) m ∧
      (settled c₁ op att e pub (c.edge op.childPeerID) m).Sound ∧
      (settled c₁ op att e pub (c.edge op.childPeerID) m).fault = c.fault ∧
      Bounded c (settled c₁ op att e pub (c.edge op.childPeerID) m) := by
  have hf := hs.forest
  have ht : plan.tuple = att.tuple := hs.working.aligned op att plan ho hr hc hp
  have hready := ready_of_candidateValid hf.peopled ht hv
  have hcl := hrep.cleared hf
  have hout : att.tuple.Outward op.childPeerID :=
    ht ▸ ((hs.working.outward op ho).candidates plan (List.mem_of_getElem? hp)).tuple
  obtain ⟨e, pub, hi⟩ := installs_of_ready hready hs.working ho hr hc hcl
  obtain ⟨hhost, hforest, hbounded⟩ := forest_committed hf hready hcl hs.working ho hr hc hout hi hm
  refine ⟨e, pub, hi, ?_⟩
  have heq : c₁.committed op att (c.edge op.childPeerID) m =
      checkGraph (settled c₁ op att e pub (c.edge op.childPeerID) m) := by
    unfold committed settled
    dsimp only
    rw [hi.install, publish_graft]
  have hdf : (settled c₁ op att e pub (c.edge op.childPeerID) m).Forest :=
    (Cut.anchors (L := AnyEdge)).forest (hforest.withCourse none att.revision _ _)
  have hanch : (settled c₁ op att e pub (c.edge op.childPeerID) m).Anchored := anchored_prune _
  have hcheck : checkGraph (settled c₁ op att e pub (c.edge op.childPeerID) m) =
      settled c₁ op att e pub (c.edge op.childPeerID) m := by
    unfold checkGraph
    rw [assertGraph_none hdf hanch hhost]
  rw [heq, hcheck]
  refine ⟨rfl, ⟨hdf, hanch, working_of_none rfl⟩, hcl.course.fault, fun x => ?_⟩
  have hprune : (settled c₁ op att e pub (c.edge op.childPeerID) m).physicalCopies x ≤
      (graft c₁ op.childPeerID e
        (leftPublication c₁ op.childPeerID e pub (c.edge op.childPeerID))).physicalCopies x :=
    physicalCopies_le ((Cuts.single (.anchors (L := AnyEdge))).copiesOf x) rfl id
  rcases hbounded x with h | ⟨q, hq, h⟩
  · exact Or.inl (hprune.trans h)
  · exact Or.inr ⟨q, hq, hprune.trans h⟩

end Piik.Route
