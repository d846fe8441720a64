/-
  The committed graph is sound: what `assertGraph` checks, strengthened until
  every step preserves it.

  `Forest` is about the graph alone and survives every single removal; a
  retiring generation has an anchor again only at the end of a row of them.
  `Sound` adds that, and what the live operation relies on.
-/
import Piik.Route.Trace

namespace Piik.Route

namespace Core

variable (c : Core)

/-- One hop up; the answer says whether the walk ends where it may. -/
def rootStep (p : ID) : Bool ⊕ ID :=
  if p = c.hostPeerID then .inl true
  else match c.edge p with
    | none => .inl false
    | some e => if e.kind = .sfu then .inl true else .inr e.parentPeerID

/-- The parents end at the Host or at an SFU edge. -/
def Rooted (p : ID) : Prop := Walk.Ends c.rootStep p true

/-- The graph, at every moment of a call. -/
structure Forest : Prop where
  peopled : c.Peopled
  outward : c.Outward
  child : ∀ p e, c.edge p = some e → (c.participant p).isSome
  parent : ∀ p e, c.edge p = some e → e.kind = .peer → (c.participant e.parentPeerID).isSome
  rooted : ∀ p e, c.edge p = some e → c.Rooted p
  active : ∀ p e, c.edge p = some e → e.kind = .sfu → e.physicalActive →
    ∃ q, c.hostPublication = some q ∧ q.generation = e.publicationGeneration
  retiring : ∀ p e, c.edge p = some e → e.kind = .sfu → e.physicalActive = false →
    c.retiringPublicationGenerations.has e.publicationGeneration
  publication : ∀ p, c.hostPublication = some p → p.physicalActive
  host : (c.participant c.hostPeerID).isSome ∨
    (∀ p, c.edge p = none) ∧ c.hostPublication = none
  copies : ∀ p, c.physicalCopies p ≤ maxRelayVolunteerChildren

/-- What the live operation relies on. -/
structure Working : Prop where
  child : ∀ op, c.operation = some op → op.childPeerID ≠ c.hostPeerID
  outward : ∀ op, c.operation = some op → op.Outward
  host : ∀ op att, c.operation = some op → op.reason ≠ .publicationAttach →
    op.current = some att → att.tuple.kind = .sfu → att.hostSessionID ≠ ""
  generation : ∀ op att, c.operation = some op → op.reason ≠ .publicationAttach →
    op.current = some att → att.tuple.kind = .sfu → att.publicationGeneration ≠ ""
  ingress : ∀ op att, c.operation = some op → op.reason ≠ .publicationAttach →
    op.current = some att → att.tuple.kind = .sfu → att.tuple.publication ≠ .reuse →
    att.publicationConnectionID ≠ ""
  aligned : c.Aligned

/-- **Soundness.** -/
structure Sound : Prop where
  forest : c.Forest
  anchored : c.Anchored
  working : c.Working

variable {c} in
theorem working_of_none (h : c.operation = none) : c.Working := by
  have hn : ∀ op, c.operation ≠ some op := fun op ho => by simp [h] at ho
  exact ⟨fun op ho => absurd ho (hn op), fun op ho => absurd ho (hn op),
    fun op _ ho => absurd ho (hn op), fun op _ ho => absurd ho (hn op),
    fun op _ ho => absurd ho (hn op), fun op _ _ ho => absurd ho (hn op)⟩

/-! ## Reading the graph -/

variable {c} {c' : Core}

theorem mem_childrenOf {p q : ID} :
    q ∈ c.childrenOf p ↔ ∃ e, c.edge q = some e ∧ e.kind = .peer ∧ e.parentPeerID = p := by
  simp only [childrenOf, List.mem_map, List.mem_filter, Bool.and_eq_true, beq_iff_eq]
  constructor
  · rintro ⟨⟨q, e⟩, ⟨he, hk, hp⟩, rfl⟩
    exact ⟨e, OMap.get_eq_some.2 he, hk, hp⟩
  · rintro ⟨e, he, hk, hp⟩
    exact ⟨(q, e), ⟨OMap.get_eq_some.1 he, hk, hp⟩, rfl⟩

theorem rootStep_inr {p q : ID} (h : c.rootStep p = .inr q) : p ∈ c.childrenOf q := by
  unfold rootStep at h
  split at h
  · cases h
  · split at h
    · cases h
    · next e he =>
      split at h
      · cases h
      · next hk =>
        cases h
        exact mem_childrenOf.2 ⟨e, he, by cases hk' : e.kind <;> simp_all, rfl⟩

/-- The copies a peer sends, as a set. -/
def copiesOf (c : Core) (p : ID) : Finset ID :=
  c.upstreamByViewer.keysWhere fun _ e => e.kind == .peer && e.parentPeerID == p && e.physicalActive

theorem mem_copiesOf {p q : ID} : q ∈ c.copiesOf p ↔
    ∃ e, c.edge q = some e ∧ e.kind = .peer ∧ e.parentPeerID = p ∧ e.physicalActive := by
  simp [copiesOf, OMap.mem_keysWhere, edge, and_assoc]

theorem physicalCopies_eq (p : ID) : c.physicalCopies p =
    (c.copiesOf p).card + if p = c.hostPeerID ∧ c.publicationActive then 1 else 0 := by
  rw [physicalCopies, copiesOf, OMap.card_keysWhere]

theorem physicalCopies_le {p : ID} (hedge : c'.copiesOf p ⊆ c.copiesOf p)
    (hhost : c'.hostPeerID = c.hostPeerID) (hpub : c'.publicationActive → c.publicationActive) :
    c'.physicalCopies p ≤ c.physicalCopies p := by
  rw [physicalCopies_eq, physicalCopies_eq, hhost]
  have h := Finset.card_le_card hedge
  split
  · next h' =>
    rw [if_pos ⟨h'.1, hpub h'.2⟩]
    omega
  · split <;> omega

/-! ## Removals -/

/-- What the walk up reads of an edge. -/
def shape (e : CommittedEdge) : UpstreamKind × ID := (e.kind, e.parentPeerID)

theorem rootStep_congr {q : ID} (hhost : c'.hostPeerID = c.hostPeerID)
    (h : (c'.edge q).map shape = (c.edge q).map shape) : c'.rootStep q = c.rootStep q := by
  unfold rootStep
  rw [hhost]
  cases he : c.edge q <;> cases he' : c'.edge q <;> simp_all [shape]

/-- Only childless nodes are cut off. -/
theorem Rooted.prune {a : ID} (hs : ∀ q, c.childrenOf q ≠ [] → c'.rootStep q = c.rootStep q)
    (ha : c'.rootStep a = c.rootStep a) (h : c.Rooted a) : c'.Rooted a := by
  unfold Rooted at *
  generalize true = b at h ⊢
  induction h with
  | here h => exact .here (ha.trans h)
  | next h _ ih =>
    exact .next (ha.trans h) (ih (hs _ (List.ne_nil_of_mem (rootStep_inr h))))

end Core

open Piik.Route.Core

variable {L : Core → ID → CommittedEdge → Prop} {r : List Resource} {c c' : Core}

/-- An edge that stays is the same or out of service. -/
structure Weaker (e e' : CommittedEdge) : Prop where
  shape : shape e' = shape e
  publicationGeneration : e'.publicationGeneration = e.publicationGeneration
  active : e'.physicalActive → e' = e

theorem Weaker.refl (e : CommittedEdge) : Weaker e e := ⟨rfl, rfl, fun _ => rfl⟩

theorem Weaker.trans {e e' e'' : CommittedEdge} (h : Weaker e e') (h' : Weaker e' e'') :
    Weaker e e'' :=
  ⟨h'.shape.trans h.shape, h'.publicationGeneration.trans h.publicationGeneration, fun ha => by
    obtain rfl := h'.active ha
    exact h.active ha⟩

theorem Weaker.dead (e : CommittedEdge) : Weaker e { e with usable := false, physicalActive := false } :=
  ⟨rfl, rfl, fun h => by cases h⟩

/-- What a removal does to one edge. -/
theorem Cut.edge (h : Cut L r c c') (q : ID) :
    (∃ e e', c.edge q = some e ∧ c'.edge q = some e' ∧ Weaker e e') ∨
      c'.edge q = none ∧ (c.edge q = none ∨ c.childrenOf q = []) := by
  have hsame : c'.edge q = c.edge q → (∃ e e', c.edge q = some e ∧ c'.edge q = some e' ∧
      Weaker e e') ∨ c'.edge q = none ∧ (c.edge q = none ∨ c.childrenOf q = []) := fun heq => by
    cases he : c.edge q with
    | none => exact Or.inr ⟨heq.trans he, Or.inl rfl⟩
    | some e => exact Or.inl ⟨e, e, rfl, heq.trans he, .refl e⟩
  cases h with
  | @peer _ p e he hk =>
    by_cases hq : q = p
    · subst hq
      exact Or.inl ⟨e, _, he, by simp [he], .dead e⟩
    · exact hsame (by simp [hq])
  | @sfu _ p e he hk =>
    by_cases hq : q = p
    · subst hq
      rw [edge_dropSfuEdge, if_pos rfl]
      cases hr : c.retainsAnchor q with
      | true => exact Or.inl ⟨e, _, he, by simp [he], .dead e⟩
      | false => exact Or.inr ⟨rfl, Or.inr (by simpa [retainsAnchor] using hr)⟩
    · exact hsame (by rw [edge_dropSfuEdge, if_neg hq])
  | publication => exact hsame rfl
  | @leaf _ p _ _ _ _ hch =>
    by_cases hq : q = p
    · subst hq
      exact Or.inr ⟨by simp [Core.edge, deleteEdge], Or.inr hch⟩
    · exact hsame (by simp [Core.edge, deleteEdge, hq])
  | anchors =>
    cases he : c.edge q with
    | none => exact Or.inr ⟨by simp [edge_prune, he], Or.inl rfl⟩
    | some e =>
      rw [edge_prune, he]
      cases hs : c.spentAnchor q e with
      | true =>
        refine Or.inr ⟨by simp [hs], Or.inr ?_⟩
        simp only [spentAnchor, Bool.and_eq_true] at hs
        simpa using hs.2
      | false => exact Or.inl ⟨e, e, rfl, by simp [hs], .refl e⟩

/-- An active edge that a removal leaves is the old one. -/
theorem Cut.edge_active (h : Cut L r c c') {q : ID} {e' : CommittedEdge} (he' : c'.edge q = some e')
    (ha : e'.physicalActive) : c.edge q = some e' := by
  rcases h.edge q with ⟨e, e'', he, he'', hw⟩ | ⟨hn, -⟩
  · cases he''.symm.trans he'
    rw [he, hw.active ha]
  · simp [hn] at he'

theorem Cuts.edge_active (h : Cuts L r c c') {q : ID} {e' : CommittedEdge}
    (he' : c'.edge q = some e') (ha : e'.physicalActive) : c.edge q = some e' := by
  induction h with
  | refl => exact he'
  | head hd _ ih => exact hd.edge_active (ih he') ha

/-- What no removal touches. -/
structure SameCourse (c c' : Core) : Prop where
  hostPeerID : c'.hostPeerID = c.hostPeerID
  capacity : c'.endpointMediaCopyCapacity = c.endpointMediaCopyCapacity
  timeout : c'.operationTimeoutMs = c.operationTimeoutMs
  operation : c'.operation = c.operation
  revision : c'.revision = c.revision
  latest : c'.latest = c.latest
  fault : c'.fault = c.fault

theorem SameCourse.refl (c : Core) : SameCourse c c := ⟨rfl, rfl, rfl, rfl, rfl, rfl, rfl⟩

theorem SameCourse.trans {c'' : Core} (h : SameCourse c c') (h' : SameCourse c' c'') :
    SameCourse c c'' :=
  ⟨h'.1.trans h.1, h'.2.trans h.2, h'.3.trans h.3, h'.4.trans h.4, h'.5.trans h.5, h'.6.trans h.6,
    h'.7.trans h.7⟩

theorem Cut.sameCourse (h : Cut L r c c') : SameCourse c c' := by
  cases h with
  | sfu => unfold dropSfuEdge; split <;> exact ⟨rfl, rfl, rfl, rfl, rfl, rfl, rfl⟩
  | _ => exact ⟨rfl, rfl, rfl, rfl, rfl, rfl, rfl⟩

/-- Only departed viewers without children go, and their edge with them. -/
theorem Cut.participant (h : Cut L r c c') (q : ID) : c'.participant q = c.participant q ∨
    c'.participant q = none ∧ c'.edge q = none ∧ c.childrenOf q = [] ∧
      ∃ x, c.participant q = some x ∧ x.role = .viewer ∧ x.departureConfirmed := by
  cases h with
  | sfu => left; unfold dropSfuEdge; split <;> rfl
  | @leaf _ p x hx hr hd hch =>
    by_cases hq : q = p
    · subst hq
      exact Or.inr ⟨by simp [Core.participant], by simp [Core.edge, deleteEdge], hch, x, hx, hr, hd⟩
    · exact Or.inl (by simp [Core.participant, hq])
  | _ => exact Or.inl rfl

/-- The publication stays, or nobody subscribes to it. -/
theorem Cut.publication_cases (h : Cut L r c c') : c'.hostPublication = c.hostPublication ∨
    c'.hostPublication = none ∧ ∀ p, c.hostPublication = some p → c.Unsubscribed p := by
  cases h with
  | sfu => left; unfold dropSfuEdge; split <;> rfl
  | publication hp hun =>
    exact Or.inr ⟨rfl, fun q hq => by cases hp.symm.trans hq; exact hun⟩
  | _ => exact Or.inl rfl

/-- An inactive SFU edge belongs to a retiring generation, also after a removal. -/
theorem Cut.retiring (h : Cut L r c c')
    (hr : ∀ p e, c.edge p = some e → e.kind = .sfu → e.physicalActive = false →
      c.retiringPublicationGenerations.has e.publicationGeneration) :
    ∀ p e, c'.edge p = some e → e.kind = .sfu → e.physicalActive = false →
      c'.retiringPublicationGenerations.has e.publicationGeneration := by
  intro q e' he' hk ha
  cases h with
  | @peer _ p e he hkp =>
    rw [edge_deactivateEdge] at he'
    split at he'
    · rw [he] at he'
      cases he'
      simp [hkp] at hk
    · exact hr q e' he' hk ha
  | @sfu _ p e he hkp =>
    rw [edge_dropSfuEdge] at he'
    unfold dropSfuEdge
    split at he'
    · next hq =>
      split at he'
      · next hret =>
        rw [he] at he'
        cases he'
        simp [hret, OMap.has]
      · cases he'
    · have := hr q e' he' hk ha
      split
      · simp only [OMap.has, OMap.get_set] at this ⊢
        split
        · rfl
        · exact this
      · exact this
  | publication => exact hr q e' he' hk ha
  | leaf =>
    have he' : (c.deleteEdge _).edge q = some e' := he'
    rw [edge_deleteEdge] at he'
    split at he'
    · cases he'
    · exact hr q e' he' hk ha
  | anchors =>
    have hanchor : c.pruneRetiringSfuAnchors.hasRetiringAnchor e'.publicationGeneration :=
      hasRetiringAnchor_iff _ |>.2 ⟨q, e', he', hk, ha, rfl⟩
    rw [edge_prune, Option.filter_eq_some_iff] at he'
    have := hr q e' he'.1 hk ha
    simp only [OMap.has, pruneRetiringSfuAnchors, OMap.get_filter] at this ⊢
    obtain ⟨u, hu⟩ := Option.isSome_iff_exists.1 this
    rw [hu, Option.filter_some]
    exact (congrArg Option.isSome (if_pos hanchor)).trans rfl

/-- **A removal keeps the forest.** -/
theorem Cut.forest (h : Cut L r c c') (hf : c.Forest) : c'.Forest := by
  have hs := h.sameCourse
  have hpart : ∀ q x, c'.participant q = some x → c.participant q = some x := fun q x hx => by
    rcases h.participant q with hp | ⟨hp, -⟩
    · exact hp ▸ hx
    · simp [hp] at hx
  have hedge : ∀ q e', c'.edge q = some e' → ∃ e, c.edge q = some e ∧ Weaker e e' := fun q e' he' => by
    rcases h.edge q with ⟨e, e'', he, he'', hw⟩ | ⟨hn, -⟩
    · cases he''.symm.trans he'
      exact ⟨e, he, hw⟩
    · simp [hn] at he'
  have hshape : ∀ q, (c.childrenOf q ≠ [] ∨ (c'.edge q).isSome) →
      c'.rootStep q = c.rootStep q := fun q hq => by
    refine rootStep_congr hs.hostPeerID ?_
    rcases h.edge q with ⟨e, e', he, he', hw⟩ | ⟨hn, hn' | hch⟩
    · simp [he, he', hw.shape]
    · simp [hn, hn']
    · simp [hn, hch] at hq
  refine ⟨hf.peopled.of_persons hs.hostPeerID (hs.capacity ▸ hf.peopled.capacity)
    (hs.capacity ▸ hf.peopled.positive) hs.timeout fun p q hq => ⟨q, hpart p q hq, rfl, rfl, fun h => ?_⟩,
    h.outward hf.outward, ?_, ?_, ?_, ?_,
    h.retiring hf.retiring, ?_, ?_, ?_⟩
  · unfold Rated effectiveCapacity at *
    rwa [hs.capacity]
  · intro p e' he'
    obtain ⟨e, he, -⟩ := hedge p e' he'
    rcases h.participant p with hp | ⟨-, hn, -⟩
    · rw [hp]; exact hf.child p e he
    · simp [hn] at he'
  · intro p e' he' hk
    obtain ⟨e, he, hw⟩ := hedge p e' he'
    have hsh := hw.shape
    simp only [shape, Prod.mk.injEq] at hsh
    rcases h.participant e'.parentPeerID with hp | ⟨-, -, hch, -⟩
    · rw [hp, hsh.2]
      exact hf.parent p e he (hsh.1 ▸ hk)
    · have : p ∈ c.childrenOf e'.parentPeerID := mem_childrenOf.2 ⟨e, he, hsh.1 ▸ hk, hsh.2.symm⟩
      simp [hch] at this
  · intro p e' he'
    obtain ⟨e, he, -⟩ := hedge p e' he'
    exact (hf.rooted p e he).prune (fun q hq => hshape q (Or.inl hq)) (hshape p (Or.inr (by simp [he'])))
  · intro p e' he' hk ha
    obtain ⟨e, he, hw⟩ := hedge p e' he'
    obtain rfl := hw.active ha
    obtain ⟨q, hq, hg⟩ := hf.active p e' he hk ha
    rcases h.publication_cases with hp | ⟨-, hun⟩
    · exact ⟨q, hp ▸ hq, hg⟩
    · exact absurd hg.symm (hun q hq p e' he hk ha)
  · intro p hp
    rcases h.publication_cases with hp' | ⟨hp', -⟩
    · exact hf.publication p (hp' ▸ hp)
    · simp [hp'] at hp
  · rw [hs.hostPeerID]
    rcases hf.host with hh | ⟨hn, hp⟩
    · left
      rcases h.participant c.hostPeerID with hp | ⟨-, -, -, x, hx, hr, -⟩
      · rwa [hp]
      · have := (hf.peopled.role _ x hx).2 rfl
        simp [hr] at this
    · refine Or.inr ⟨fun p => ?_, ?_⟩
      · rcases h.edge p with ⟨e, -, he, -⟩ | ⟨hn', -⟩
        · simp [hn p] at he
        · exact hn'
      · rcases h.publication_cases with hp' | ⟨hp', -⟩
        · exact hp'.trans hp
        · exact hp'
  · intro p
    refine (physicalCopies_le (fun q hq => ?_) hs.hostPeerID fun ha => ?_).trans (hf.copies p)
    · obtain ⟨e', he', hk, hp, ha⟩ := mem_copiesOf.1 hq
      obtain ⟨e, he, hw⟩ := hedge q e' he'
      obtain rfl := hw.active ha
      exact mem_copiesOf.2 ⟨e', he, hk, hp, ha⟩
    · unfold publicationActive at ha ⊢
      rcases h.publication_cases with hp' | ⟨hp', -⟩
      · rwa [hp'] at ha
      · simp [hp'] at ha

theorem Cuts.sameCourse (h : Cuts L r c c') : SameCourse c c' := by
  induction h with
  | refl c => exact .refl c
  | head hd _ ih => exact hd.sameCourse.trans ih

theorem Cuts.forest (h : Cuts L r c c') (hf : c.Forest) : c'.Forest := by
  induction h with
  | refl => exact hf
  | head hd _ ih => exact ih (hd.forest hf)

/-- Whoever has not departed stays. -/
theorem Cuts.participant_present (h : Cuts L r c c') {q : ID} {x : Participant}
    (hx : c.participant q = some x) (hd : x.departureConfirmed = false) :
    c'.participant q = some x := by
  induction h with
  | refl => exact hx
  | head hd' _ ih =>
    refine ih ?_
    rcases hd'.participant q with hp | ⟨-, -, -, y, hy, -, hyd⟩
    · exact hp ▸ hx
    · cases hx.symm.trans hy
      simp [hd] at hyd

/-! ## The assertions -/

namespace Core

/-- An SFU edge belongs to the publication or to a retiring generation. -/
theorem Forest.known (hf : c.Forest) {p : ID} {e : CommittedEdge} (he : c.edge p = some e)
    (hk : e.kind = .sfu) : c.unknownPublication e = false := by
  unfold unknownPublication publicationDiffers
  cases ha : e.physicalActive with
  | true =>
    obtain ⟨q, hq, hg⟩ := hf.active p e he hk ha
    simp [hq, hg]
  | false => simpa using hf.retiring p e he hk ha

/-- One hop of `assertPathLoop`. -/
def pathStep (c : Core) (current : ID) : Option Fault ⊕ ID :=
  if current = c.hostPeerID then .inl none
  else match c.edge current with
    | none => .inl (some .notSourceReachable)
    | some e =>
      if e.kind = .sfu then .inl (if c.unknownPublication e then some .unknownPublication else none)
      else .inr e.parentPeerID

theorem assertPathLoop_eq (n : ℕ) (seen : List ID) (current : ID) (hs : c.hostPeerID ∉ seen) :
    c.assertPathLoop n seen current = Walk.walk c.pathStep (some .cycle) n seen current := by
  induction n generalizing seen current with
  | zero => rfl
  | succ n ih =>
    rw [assertPathLoop, Walk.walk, pathStep]
    by_cases hh : current = c.hostPeerID
    · rw [if_pos hh, if_neg (hh ▸ hs), if_pos hh]
    · rw [if_neg hh, if_neg hh]
      split
      · rfl
      · cases he : c.edge current with
        | none => rfl
        | some e =>
          cases hk : e.kind with
          | sfu => simp [hk]
          | peer =>
            simp only [hk, reduceCtorEq, if_false, beq_iff_eq]
            exact ih _ _ (by simp [Ne.symm hh, hs])

theorem ends_pathStep (hf : c.Forest) {p : ID} (h : c.Rooted p) : Walk.Ends c.pathStep p none := by
  unfold Rooted at h
  generalize hb : true = b at h
  induction h with
  | @here p b h =>
    subst hb
    refine .here ?_
    unfold rootStep at h
    unfold pathStep
    split at h
    · next hp => rw [if_pos hp]
    · next hp =>
      rw [if_neg hp]
      split at h
      · cases h
      · next e he =>
        split at h
        · next hk =>
          simp [hk, hf.known he hk]
        · cases h
  | @next p q b h _ ih =>
    refine .next ?_ (ih hb)
    have hp : p ≠ c.hostPeerID := fun hp => by simp [rootStep, hp] at h
    obtain ⟨e, he, hk, rfl⟩ := mem_childrenOf.1 (rootStep_inr h)
    simp [pathStep, hp, he, hk]

theorem assertPathLoop_none (hf : c.Forest) {p : ID} (h : c.Rooted p) :
    c.assertPathLoop (c.upstreamByViewer.len + 2) [] p = none := by
  obtain ⟨n, hn⟩ := (ends_pathStep hf h).exists_in
  have hle : n ≤ c.upstreamByViewer.keys.length := hn.le_length fun a a' ha => by
    unfold pathStep at ha
    split at ha
    · cases ha
    · split at ha
      · cases ha
      · next e he => exact OMap.mem_keys.2 ⟨e, he⟩
  rw [OMap.length_keys] at hle
  rw [assertPathLoop_eq _ _ _ (by simp)]
  exact Walk.walk_of_endsIn hn (by omega) (by simp)

theorem assertEdge_none (hf : c.Forest) {p : ID} {e : CommittedEdge} (he : c.edge p = some e) :
    c.assertEdge p e = none := by
  have hviewer : c.assertViewer p = none := by
    obtain ⟨x, hx⟩ := Option.isSome_iff_exists.1 (hf.child p e he)
    have hrole := hf.peopled.role p x hx
    have hp : p ≠ c.hostPeerID := fun h => by simp [h, hf.outward.host] at he
    unfold assertViewer
    rw [hx]
    cases hr : x.role with
    | host => exact absurd (hrole.1 hr) hp
    | viewer => simp [hr]
  have hpath := assertPathLoop_none hf (hf.rooted p e he)
  unfold assertEdge
  rw [hviewer, hpath]
  cases hk : e.kind with
  | peer =>
    have := hf.parent p e he hk
    simp [OMap.has, show (c.participants.get e.parentPeerID).isSome from this]
  | sfu =>
    have hknown := hf.known he hk
    unfold unknownPublication at hknown
    cases ha : e.physicalActive <;> simp_all

/-- **A sound graph with a Host passes every assertion.** -/
theorem assertGraph_none (hf : c.Forest) (ha : c.Anchored)
    (hh : (c.participant c.hostPeerID).isSome) : c.assertGraph = none := by
  obtain ⟨host, hhost⟩ := Option.isSome_iff_exists.1 hh
  have hrole := (hf.peopled.role _ host hhost).2 rfl
  have hedges : c.upstreamByViewer.entries.findSome? (fun e => c.assertEdge e.1 e.2) = none :=
    List.findSome?_eq_none_iff.2 fun e he => assertEdge_none hf (OMap.get_eq_some.2 he)
  have hslots : c.participants.values.findSome? (fun p =>
      if c.usedSlots p.peerID > maxRelayVolunteerChildren then some Fault.endpointCapacity
      else none) = none :=
    List.findSome?_eq_none_iff.2 fun p _ => if_neg (not_lt.2 (hf.copies p.peerID))
  have hanchors : c.retiringPublicationGenerations.keys.findSome? (fun generation =>
      if c.hasRetiringAnchor generation then none else some Fault.retiringWithoutAnchor) = none :=
    List.findSome?_eq_none_iff.2 fun g hg => if_pos (ha g hg)
  unfold assertGraph
  rw [hedges, hslots, hanchors, hhost]
  simp [hrole]

end Core

end Piik.Route
