/-
  Make before break: maintenance cuts no edge that may stay, and a commit
  changes only the child's own edge and what it replaces.

  What makes an edge require a move never gets worse by a removal elsewhere: the
  parent has fewer copies to send, so it sheds no more of them.  The exception
  is the subtree of a relay whose own ingress is retired.
-/
import Piik.Route.Capacity
import Mathlib

namespace Piik.Route

open Piik.Route.Core

variable {v : Licence} {b b' : Bool} {a r : List Resource} {c c' : Core}
variable {L : Core → ID → CommittedEdge → Prop}

/-! ## The copies a parent sheds -/

/-- Participants are ordered by their order of joining, then by their ID. -/
def Core.rank (c : Core) (p : ID) : Int ×ₗ ID :=
  toLex (match c.participant p with
    | some q => q.joinOrder
    | none => 0, p)

theorem rank_injective (c : Core) : Function.Injective c.rank := fun p q h => by
  have := congrArg (fun x => (ofLex x).2) h
  simpa [rank] using this

theorem peerLess_rank (h : c.Peopled) {p q : ID} (hp : (c.participant p).isSome)
    (hq : (c.participant q).isSome) : c.peerLess p q = decide (c.rank p < c.rank q) := by
  obtain ⟨x, hx⟩ := Option.isSome_iff_exists.1 hp
  obtain ⟨y, hy⟩ := Option.isSome_iff_exists.1 hq
  have hpx := h.peerID p x hx
  have hqy := h.peerID q y hy
  rw [Bool.eq_iff_iff, decide_eq_true_iff]
  simp only [peerLess, hx, hy, participantLess, rank, Prod.Lex.toLex_lt_toLex, hpx, hqy]
  split
  · next hne => simp [hne]
  · next heq =>
    rw [not_not] at heq
    simp [heq]

/-- The active direct children whose order decides who is shed. -/
def Core.copyList (c : Core) (p : ID) : List ID :=
  (c.childrenOf p).filter fun id => match c.edge id with
    | some e => e.kind == .peer && e.physicalActive
    | none => false

theorem mem_copyList {p q : ID} : q ∈ c.copyList p ↔ q ∈ c.copiesOf p := by
  simp only [copyList, List.mem_filter, mem_childrenOf, mem_copiesOf]
  constructor
  · rintro ⟨⟨e, he, hk, hp⟩, ha⟩
    rw [he] at ha
    exact ⟨e, he, hk, hp, by simpa [hk] using ha⟩
  · rintro ⟨e, he, hk, hp, ha⟩
    exact ⟨⟨e, he, hk, hp⟩, by simp [he, hk, ha]⟩

theorem nodup_copyList (c : Core) (p : ID) : (c.copyList p).Nodup := (nodup_childrenOf c p).filter _

/-- **Whoever sends no more sheds no more.** -/
theorem overflow_subset {p : ID} (hf : c.Forest) (hf' : c'.Forest)
    (hp : c'.participant p = c.participant p ∨ c'.participant p = none)
    (hcopies : c'.copiesOf p ⊆ c.copiesOf p)
    (hchild : ∀ q, (c'.edge q).isSome → c'.participant q = c.participant q)
    (hpub : c'.publicationActive → c.publicationActive) :
    c'.overflowPeerChildren p ⊆ c.overflowPeerChildren p := by
  unfold overflowPeerChildren
  have hknown : ∀ {d : Core}, d.Forest → ∀ q ∈ d.copyList p, (d.participant q).isSome := by
    intro d hd q hq
    obtain ⟨e, he, -⟩ := mem_copiesOf.1 (mem_copyList.1 hq)
    exact hd.child q e he
  rcases hp with hp | hp
  · rw [hp]
    cases hq : c.participant p with
    | none => exact List.Subset.refl _
    | some parent =>
      refine List.drop_sortStable_subset (rank_injective c)
        (fun x hx y hy => peerLess_rank hf.peopled (hknown hf x hx) (hknown hf y hy))
        (fun x hx y hy => ?_) ?_ ?_
      · have hsame : ∀ z ∈ c'.copyList p, c'.rank z = c.rank z := fun z hz => by
          obtain ⟨e, he, -⟩ := mem_copiesOf.1 (mem_copyList.1 hz)
          simp only [rank, hchild z (by simp [he])]
        rw [peerLess_rank hf'.peopled (hknown hf' x hx) (hknown hf' y hy), hsame x hx, hsame y hy]
      · refine (nodup_copyList c' p).subperm fun x hx => ?_
        exact mem_copyList.2 (hcopies (mem_copyList.1 hx))
      · have : (if parent.role == .host && c'.publicationActive then (1 : Int) else 0) ≤
            if parent.role == .host && c.publicationActive then 1 else 0 := by
          split
          · next h =>
            simp only [Bool.and_eq_true] at h
            rw [if_pos (by simp [h.1, hpub h.2])]
          · split <;> omega
        omega
  · rw [hp]
    exact List.nil_subset _

/-! ## Edges that may stay -/

/-- The same upstream, whatever its picture. -/
structure SameUpstream (e e' : CommittedEdge) : Prop where
  kind : e'.kind = e.kind
  parentPeerID : e'.parentPeerID = e.parentPeerID
  publicationGeneration : e'.publicationGeneration = e.publicationGeneration
  connectionID : e'.connectionID = e.connectionID
  usable : e'.usable = e.usable
  physicalActive : e'.physicalActive = e.physicalActive

theorem SameUpstream.refl (e : CommittedEdge) : SameUpstream e e := ⟨rfl, rfl, rfl, rfl, rfl, rfl⟩

theorem SameUpstream.trans {e₁ e₂ e₃ : CommittedEdge} (h : SameUpstream e₁ e₂)
    (h' : SameUpstream e₂ e₃) : SameUpstream e₁ e₃ :=
  ⟨h'.1.trans h.1, h'.2.trans h.2, h'.3.trans h.3, h'.4.trans h.4, h'.5.trans h.5, h'.6.trans h.6⟩

/-- Nothing asks the child to leave the edge. -/
structure Core.Rests (c : Core) (p : ID) (e : CommittedEdge) : Prop where
  here : ∀ x, c.participant p = some x → x.departureConfirmed = false
  usable : e.usable
  active : e.physicalActive
  allowed : c.allowsIncoming p e.kind
  fed : c.parentRouteRetired e = false
  published : e.kind = .sfu → c.publicationServes e.publicationGeneration
  parent : e.kind = .peer → c.parentDeparted e = false
  kept : e.kind = .peer → p ∉ c.overflowPeerChildren e.parentPeerID

theorem rests_iff {p : ID} {e : CommittedEdge} : c.Rests p e ↔
    (∀ x, c.participant p = some x → x.departureConfirmed = false) ∧ c.edgeRequiresMove p e = false := by
  unfold edgeRequiresMove
  constructor
  · rintro ⟨hh, hu, ha, hal, hf, hpub, hpar, hk⟩
    refine ⟨hh, ?_⟩
    rw [if_neg (by simp [hu, ha, hal, hf])]
    cases hkind : e.kind with
    | sfu => simp [hpub hkind]
    | peer => simpa [hpar hkind] using hk hkind
  · rintro ⟨hh, hm⟩
    split at hm
    · cases hm
    · next hn =>
      simp only [Bool.or_eq_true, Bool.not_eq_true', not_or, Bool.not_eq_false,
        Bool.not_eq_true] at hn
      obtain ⟨⟨⟨hu, ha⟩, hal⟩, hf⟩ := hn
      refine ⟨hh, hu, ha, hal, hf, fun hk => ?_, fun hk => ?_, fun hk => ?_⟩
      all_goals simp [hk] at hm
      · exact hm
      · exact hm.1
      · exact hm.2

theorem not_mayCut {p : ID} {e : CommittedEdge} (h : c.Rests p e) : ¬c.MayCut p e := by
  rintro (⟨x, hx, hd⟩ | hm)
  · simp [h.here x hx] at hd
  · simp [(rests_iff.1 h).2] at hm

/-- The relay that feeds the edge has lost its own. -/
structure Core.Bereft (c : Core) (e : CommittedEdge) : Prop where
  peer : e.kind = .peer
  relay : e.parentPeerID ≠ c.hostPeerID
  lost : ∀ e', c.edge e.parentPeerID = some e' → e'.physicalActive = false

/-- The edge is kept, or its relay lost its own. -/
def Core.Kept (c : Core) (p : ID) (e : CommittedEdge) : Prop :=
  (∃ e', c.edge p = some e' ∧ SameUpstream e e' ∧ c.Rests p e') ∨ c.Bereft e

theorem Core.Bereft.of_same {e e' : CommittedEdge} (hs : SameUpstream e e') (h : c.Bereft e') :
    c.Bereft e :=
  ⟨hs.kind ▸ h.peer, hs.parentPeerID ▸ h.relay, hs.parentPeerID ▸ h.lost⟩

/-- The same room with no more to send. -/
structure Lightens (c c' : Core) : Prop where
  hostPeerID : c'.hostPeerID = c.hostPeerID
  sfuEnabled : c'.sfuEnabled = c.sfuEnabled
  sfuOnly : c'.sfuOnly = c.sfuOnly
  participant : ∀ q, c'.participant q = c.participant q ∨
    c'.participant q = none ∧ c'.edge q = none
  copies : ∀ q, c'.copiesOf q ⊆ c.copiesOf q
  publication : c'.publicationActive → c.publicationActive

/-- **An edge that may stay may stay where no more is sent**, unless its relay
    lost its own. -/
theorem Lightens.rests (h : Lightens c c') (hf : c.Forest) (hf' : c'.Forest) {p : ID}
    {e e' : CommittedEdge} (hr : c.Rests p e) (he' : c'.edge p = some e') (hs : SameUpstream e e')
    (hpub : e'.kind = .sfu → c'.publicationServes e'.publicationGeneration) :
    c'.Rests p e' ∨ c'.Bereft e' := by
  have hchild : ∀ q, (c'.edge q).isSome → c'.participant q = c.participant q := fun q hq => by
    rcases h.participant q with hp | ⟨-, hn⟩
    · exact hp
    · simp [hn] at hq
  have hp := hchild p (by simp [he'])
  cases hfed : c'.parentRouteRetired e' with
  | true =>
    right
    unfold parentRouteRetired at hfed
    split at hfed
    · cases hfed
    · next hpeer =>
      simp only [Bool.or_eq_true, decide_eq_true_eq, beq_iff_eq, not_or, ne_eq, not_not] at hpeer
      refine ⟨hpeer.1, hpeer.2, fun e₁ he₁ => ?_⟩
      rw [he₁] at hfed
      simpa using hfed
  | false =>
    refine Or.inl ⟨fun x hx => hr.here x (hp ▸ hx), hs.usable ▸ hr.usable,
      hs.physicalActive ▸ hr.active, ?_, hfed, hpub, fun hk => ?_, fun hk hm => ?_⟩
    · have ha := hr.allowed
      unfold allowsIncoming at *
      rwa [hp, hs.kind, h.sfuEnabled, h.sfuOnly]
    · have := hr.parent (hs.kind ▸ hk)
      unfold parentDeparted at *
      rcases h.participant e'.parentPeerID with hpar | ⟨hpar, -⟩
      · rwa [hpar, hs.parentPeerID]
      · rw [hpar]
    · refine hr.kept (hs.kind ▸ hk) ?_
      rw [← hs.parentPeerID]
      exact overflow_subset hf hf' ((h.participant e'.parentPeerID).imp_right And.left) (h.copies _)
        hchild h.publication hm

/-! ## Removals -/

theorem Cut.lightens (h : Cut L r c c') : Lightens c c' := by
  refine ⟨h.sameCourse.hostPeerID, ?_, ?_, fun q => ?_, (Cuts.single h).copiesOf,
    h.publicationActive⟩
  · cases h with
    | sfu => unfold dropSfuEdge; split <;> rfl
    | _ => rfl
  · cases h with
    | sfu => unfold dropSfuEdge; split <;> rfl
    | _ => rfl
  · exact (h.participant q).imp_right fun h => ⟨h.1, h.2.1⟩

theorem Cut.bereft (h : Cut L r c c') {e : CommittedEdge} (hb : c.Bereft e) : c'.Bereft e := by
  refine ⟨hb.peer, h.sameCourse.hostPeerID ▸ hb.relay, fun e' he' => ?_⟩
  cases ha : e'.physicalActive with
  | false => rfl
  | true => exact absurd (hb.lost e' (h.edge_active he' ha)) (by simp [ha])

/-- A licensed removal leaves an edge that may stay. -/
theorem Cut.edge_rests (h : Cut Core.MayCut r c c') {p : ID} {e : CommittedEdge}
    (he : c.edge p = some e) (hr : c.Rests p e) : c'.edge p = some e := by
  have hne : ∀ {q e₁}, c.edge q = some e₁ → c.MayCut q e₁ → p ≠ q := fun he₁ hm hpq => by
    subst hpq
    cases he.symm.trans he₁
    exact not_mayCut hr hm
  cases h with
  | @peer _ q _ he₁ hk hm => simpa [hne he₁ hm] using he
  | sfu he₁ hk hm => rw [edge_dropSfuEdge, if_neg (hne he₁ hm), he]
  | publication => exact he
  | @leaf _ q x hx _ hd _ _ =>
    have hq : p ≠ q := by
      rintro rfl
      simp [hr.here x hx] at hd
    simpa [Core.edge, deleteEdge, hq] using he
  | anchors =>
    rw [edge_prune, he, Option.filter_some, if_pos]
    simp [spentAnchor, hr.active]

/-- **A licensed removal keeps every edge that may stay**, but for the children
    of a relay whose own edge it retires. -/
theorem Cut.kept (h : Cut Core.MayCut r c c') (hf : c.Forest) {p : ID} {e : CommittedEdge}
    (hk : c.Kept p e) : c'.Kept p e := by
  obtain ⟨e', he, hs, hr⟩ | hb := hk
  · have he' := h.edge_rests he hr
    refine (h.lightens.rests hf (h.forest hf) hr he' (.refl e') fun hk => ?_).imp
      (fun hr' => ⟨e', he', hs, hr'⟩) (.of_same hs)
    rcases h.publication_cases with hpub | ⟨-, hun⟩
    · have := hr.published hk
      unfold publicationServes at *
      rwa [hpub]
    · obtain ⟨q, hq, hg⟩ := hf.active p e' he hk hr.active
      exact absurd hg.symm (hun q hq p e' he hk hr.active)
  · exact Or.inr (h.bereft hb)

theorem Cuts.kept (h : Cuts Core.MayCut r c c') (hf : c.Forest) {p : ID} {e : CommittedEdge}
    (hk : c.Kept p e) : c'.Kept p e := by
  induction h with
  | refl => exact hk
  | head hd _ ih => exact ih (hd.forest hf) (hd.kept hf hk)

/-! ## Maintenance -/

/-- The same graph, whatever the pictures. -/
structure SameGraph (c c' : Core) : Prop where
  hostPeerID : c'.hostPeerID = c.hostPeerID
  sfuEnabled : c'.sfuEnabled = c.sfuEnabled
  sfuOnly : c'.sfuOnly = c.sfuOnly
  participants : c'.participants = c.participants
  hostPublication : c'.hostPublication = c.hostPublication
  edge : ∃ f : ID → CommittedEdge → CommittedEdge, (∀ q e, SameUpstream e (f q e)) ∧
    c'.upstreamByViewer = c.upstreamByViewer.mapValues f

theorem SameGraph.of_eq (hh : c'.hostPeerID = c.hostPeerID) (hs : c'.sfuEnabled = c.sfuEnabled)
    (ho : c'.sfuOnly = c.sfuOnly) (hp : c'.participants = c.participants)
    (hpub : c'.hostPublication = c.hostPublication)
    (he : c'.upstreamByViewer = c.upstreamByViewer) : SameGraph c c' :=
  ⟨hh, hs, ho, hp, hpub, fun _ e => e, fun _ => .refl, by rw [he, OMap.mapValues_id]⟩

theorem SameGraph.lightens (h : SameGraph c c') : Lightens c c' := by
  obtain ⟨hh, hsfu, honly, hp, hpub, f, hf, hup⟩ := h
  refine ⟨hh, hsfu, honly, fun q => Or.inl (by simp [Core.participant, hp]), fun q x hx => ?_, ?_⟩
  · obtain ⟨e', he', hk, hpar, ha⟩ := mem_copiesOf.1 hx
    simp only [Core.edge, hup, OMap.get_mapValues] at he'
    obtain ⟨e, he, rfl⟩ := Option.map_eq_some_iff.1 he'
    exact mem_copiesOf.2 ⟨e, he, (hf x e).kind ▸ hk, (hf x e).parentPeerID ▸ hpar,
      (hf x e).physicalActive ▸ ha⟩
  · unfold publicationActive
    rw [hpub]
    exact id

theorem SameGraph.kept (h : SameGraph c c') (hf : c.Forest) (hf' : c'.Forest) {p : ID}
    {e : CommittedEdge} (hk : c.Kept p e) : c'.Kept p e := by
  obtain ⟨f, hsame, hup⟩ := h.edge
  have hedge : ∀ q, c'.edge q = (c.edge q).map (f q) := fun q => by simp [Core.edge, hup]
  obtain ⟨e', he, hs, hr⟩ | ⟨hk, hne, hl⟩ := hk
  · have he' : c'.edge p = some (f p e') := by rw [hedge, he]; rfl
    have hs' := hs.trans (hsame p e')
    refine (h.lightens.rests hf hf' hr he' (hsame p e') fun hk => ?_).imp
      (fun hr' => ⟨_, he', hs', hr'⟩) (.of_same hs')
    have := hr.published ((hsame p e').kind ▸ hk)
    unfold publicationServes at *
    rwa [h.hostPublication, (hsame p e').publicationGeneration]
  · refine Or.inr ⟨hk, h.hostPeerID ▸ hne, fun e₁ he₁ => ?_⟩
    rw [hedge] at he₁
    obtain ⟨e₀, he₀, rfl⟩ := Option.map_eq_some_iff.1 he₁
    rw [(hsame _ _).physicalActive, hl e₀ he₀]

/-- **A maintenance step keeps every edge that may stay**, but for the children
    of a relay whose own edge it retires. -/
theorem Upkeep.kept (h : Upkeep v b b' a r c c') (hs : c.Sound) (hfault : c'.fault = none) {p : ID}
    {e : CommittedEdge} (hk : c.Kept p e) : c'.Kept p e := by
  have hs' := h.sound hs hfault
  cases h with
  | trims _ ht =>
    refine SameGraph.kept ?_ (ht.cuts.forest hs.forest) hs'.forest (ht.cuts.kept hs.forest hk)
    exact .of_eq rfl rfl rfl rfl rfl rfl
  | trimsMarked _ ht => exact ht.cuts.kept hs.forest hk
  | halts _ hc => simp [hc] at hfault
  | @unattached _ _ op =>
    refine SameGraph.kept ?_ hs.forest hs'.forest hk
    have hup := OMap.modify_eq_mapValues c.upstreamByViewer op.childPeerID fun e =>
      { e with videoGeneration := op.videoGeneration, videoConnectionID := "", videoReady := false }
    refine ⟨rfl, rfl, rfl, rfl, rfl, _, fun q e => ?_, hup⟩
    split <;> exact ⟨rfl, rfl, rfl, rfl, rfl, rfl⟩
  | echoes => exact hk
  | _ =>
    refine SameGraph.kept ?_ hs.forest hs'.forest hk
    exact .of_eq rfl rfl rfl rfl rfl rfl

theorem Upkeep.hostPeerID (h : Upkeep v b b' a r c c') (hfault : c'.fault = none) :
    c'.hostPeerID = c.hostPeerID := by
  cases h with
  | trims _ ht => exact ht.sameCourse.hostPeerID
  | trimsMarked _ ht => exact ht.sameCourse.hostPeerID
  | halts _ hc => simp [hc] at hfault
  | _ => rfl

/-- A run of maintenance keeps what a step keeps. -/
theorem kept_of_runs (h : Runs (Upkeep v) a r c c') (hs : Safe c) {p : ID} {e : CommittedEdge}
    (hk : c.Kept p e) (hfault : c'.fault = none) : c'.hostPeerID = c.hostPeerID ∧ c'.Kept p e := by
  obtain ⟨_, h⟩ := h false
  refine (h.invariant (P := fun d => Safe d ∧
    (d.fault = none → d.hostPeerID = c.hostPeerID ∧ d.Kept p e)) (fun h hd => ?_)
    ⟨hs, fun _ => ⟨rfl, hk⟩⟩).2 hfault
  have hstep := Step.upkeep h
  refine ⟨hstep.safe hd.1, fun hf => ?_⟩
  have hf' := hstep.fault_before hf
  obtain ⟨hhost, hk⟩ := hd.2 hf'
  exact ⟨(h.hostPeerID hf).trans hhost, h.kept (hd.1.sound hf') hf hk⟩

/-- A relay that feeds somebody has an edge of its own. -/
theorem edge_of_relay (hf : c.Forest) {p : ID} {e : CommittedEdge} (he : c.edge p = some e)
    (hk : e.kind = .peer) (hne : e.parentPeerID ≠ c.hostPeerID) :
    ∃ e', c.edge e.parentPeerID = some e' := by
  have hp : p ≠ c.hostPeerID := by
    rintro rfl
    simp [hf.outward.host] at he
  have hstep : c.rootStep p = .inr e.parentPeerID := by simp [rootStep, hp, he, hk]
  cases he' : c.edge e.parentPeerID with
  | some e' => exact ⟨e', rfl⟩
  | none =>
    have hend : Walk.Ends c.rootStep p false := .next hstep (.here (by simp [rootStep, hne, he']))
    exact absurd ((hf.rooted p e he).det hend) (by decide)

/-! ## Commits -/

/-- What happens to the edges that a commit does not install: an SFU edge of the
    generation that is replaced, or an anchor that is pruned. -/
inductive Displaced (c c' : Core) (att : Attempt) (q : ID) : Prop
  | kept : c'.edge q = c.edge q → Displaced c c' att q
  | replaced {p e} : att.tuple.kind = .sfu → att.tuple.publication = .replace →
      c.hostPublication = some p → c.edge q = some e → e.kind = .sfu →
      e.publicationGeneration = p.generation → Displaced c c' att q
  | pruned {e} : c.edge q = some e → e.kind = .sfu → e.physicalActive = false → c'.edge q = none →
      Displaced c c' att q

/-- Pruning takes inactive SFU edges. -/
theorem edge_prune_cases (c : Core) (q : ID) : c.pruneRetiringSfuAnchors.edge q = c.edge q ∨
    ∃ e, c.edge q = some e ∧ e.kind = .sfu ∧ e.physicalActive = false ∧
      c.pruneRetiringSfuAnchors.edge q = none := by
  rw [edge_prune]
  cases he : c.edge q with
  | none => exact Or.inl rfl
  | some e =>
    cases hs : c.spentAnchor q e with
    | false => exact Or.inl (by simp [hs])
    | true =>
      have ha := hs
      simp only [spentAnchor, Bool.and_eq_true, Bool.not_eq_true', beq_iff_eq] at ha
      exact Or.inr ⟨e, rfl, ha.1.1.1, ha.1.1.2, by simp [hs]⟩

/-- A removal of a generation leaves the other edges, but for pruned anchors. -/
theorem Cut.edge_of_generation {g : ID} (h : Cut (Core.OfGeneration g) r c c') (q : ID) :
    c'.edge q = c.edge q ∨ ∃ e, c.edge q = some e ∧ e.kind = .sfu ∧
      (e.publicationGeneration = g ∨ e.physicalActive = false ∧ c'.edge q = none) := by
  cases h with
  | peer _ hk hL => cases hk.symm.trans hL.1
  | @sfu _ p e he hk hL =>
    by_cases hq : q = p
    · exact Or.inr ⟨e, hq ▸ he, hk, Or.inl hL.2⟩
    · exact Or.inl (by rw [edge_dropSfuEdge, if_neg hq])
  | publication => exact Or.inl rfl
  | @leaf _ p x _ _ _ _ hL =>
    refine Or.inl ?_
    by_cases hq : q = p
    · cases he : c.edge q with
      | none => simp [Core.edge, deleteEdge, hq]
      | some e =>
        obtain ⟨hk, hg⟩ := hL e (hq ▸ he)
        cases hk.symm.trans hg.1
    · simp [Core.edge, deleteEdge, hq]
  | anchors =>
    rcases edge_prune_cases c q with heq | ⟨e, he, hk, ha, hn⟩
    · exact Or.inl heq
    · exact Or.inr ⟨e, he, hk, Or.inr ⟨ha, hn⟩⟩

theorem Cuts.edge_none (h : Cuts L r c c') {q : ID} (hq : c.edge q = none) : c'.edge q = none := by
  induction h with
  | refl => exact hq
  | head hd _ ih =>
    refine ih ?_
    rcases hd.edge q with ⟨e, e', he, -⟩ | ⟨hn, -⟩
    · simp [hq] at he
    · exact hn

theorem Cuts.edge_of_generation {g : ID} (h : Cuts (Core.OfGeneration g) r c c') (q : ID) :
    c'.edge q = c.edge q ∨ ∃ e, c.edge q = some e ∧ e.kind = .sfu ∧
      (e.publicationGeneration = g ∨ e.physicalActive = false ∧ c'.edge q = none) := by
  induction h with
  | refl => exact Or.inl rfl
  | head hd ht ih =>
    rcases hd.edge_of_generation q with heq | ⟨e, he, hk, hg | ⟨ha, hn⟩⟩
    · rwa [heq] at ih
    · exact Or.inr ⟨e, he, hk, Or.inl hg⟩
    · exact Or.inr ⟨e, he, hk, Or.inr ⟨ha, ht.edge_none hn⟩⟩

/-- The other edges after a commit. -/
theorem edge_settled_other (c₁ : Core) (op : Operation) (att : Attempt) (e : CommittedEdge)
    (pub : Option HostPublication) (old : Option CommittedEdge) (m : OMap ID DirectContinuation) {q : ID}
    (hq : q ≠ op.childPeerID) : (settled c₁ op att e pub old m).edge q = c₁.edge q ∨
      ∃ e', c₁.edge q = some e' ∧ e'.kind = .sfu ∧ e'.physicalActive = false ∧
        (settled c₁ op att e pub old m).edge q = none := by
  have hgraft := edge_graft (c := c₁) op.childPeerID q e (leftPublication c₁ op.childPeerID e pub old)
  rw [if_neg hq] at hgraft
  rw [← hgraft]
  exact edge_prune_cases _ q

/-- **A commit changes the child's own edge**, and what it displaces. -/
theorem Accepted.edges (h : Accepted r c c') (hs : c.Sound) : ∃ op att, c.operation = some op ∧
    op.current = some att ∧ ∀ q, q ≠ op.childPeerID → Displaced c c' att q := by
  cases h with
  | @attached _ op att e ho hr hc he =>
    exact ⟨op, att, ho, hc, fun q hq => .kept (OMap.get_modify_of_ne _ _ hq)⟩
  | @commits _ c₁ op att plan m ho hr hc hp hv hrep hm =>
    refine ⟨op, att, ho, hc, fun q hq => ?_⟩
    obtain ⟨e, pub, -, heq, -⟩ := committed_settled hs ho hr hc hp hv hrep
      (hm hs.forest.outward (hs.working.outward _ ho))
    rw [heq]
    have hkept := edge_settled_other c₁ op att e pub (c.edge op.childPeerID) m hq
    unfold Replaced at hrep
    split at hrep
    · next hreplace =>
      obtain ⟨p, r, hp, -, ht⟩ := hrep
      rcases ht.cuts.edge_of_generation q with hsame | ⟨e₀, he₀, hk, hg | ⟨ha, hn⟩⟩
      · rw [hsame] at hkept
        rcases hkept with hkept | ⟨e₀, he₀, hk, ha, hn⟩
        · exact .kept hkept
        · exact .pruned he₀ hk ha hn
      · exact .replaced hreplace.1 hreplace.2 hp he₀ hk hg
      · rcases hkept with hkept | ⟨e₁, he₁, -⟩
        · exact .pruned he₀ hk ha (hkept.trans hn)
        · cases hn.symm.trans he₁
    · subst hrep
      rcases hkept with hkept | ⟨e₀, he₀, hk, ha, hn⟩
      · exact .kept hkept
      · exact .pruned he₀ hk ha hn

/-! ## The calls -/

/-- A call that maintains the operation and the graph, and commits and retires
    no healthy edge for it. -/
def Call.Maintains (k : Call) (reply : Reply) : Prop :=
  match k with
  | .reconcile _ | .beginCurrentCandidate _ | .skipCurrentCandidate _ _ _
  | .candidateTransportConnected _ _ | .candidateFailed _ _ | .operationExpired _ => True
  | .candidateReady _ _ _ _ => reply.committed = false
  | .retireCurrentCandidateProducer _ _ => reply.accepted = false
  | _ => False

namespace Controller

variable (c : Controller)

/-- A producer that is not retired costs nothing but maintenance. -/
theorem retireCurrentCandidateProducer_rejected (guard : CandidateCursorGuard) (now : Int)
    (h : (c.retireCurrentCandidateProducer guard now).1.accepted = false) :
    Runs (Upkeep v) [] (c.retireCurrentCandidateProducer guard now).1.released c.toCore
      (c.retireCurrentCandidateProducer guard now).2.toCore := by
  have hr : Runs (Upkeep v) [] _ c.toCore _ := c.validateOrAdvance_runs now none
  unfold retireCurrentCandidateProducer at h ⊢
  generalize c.validateOrAdvance now none = x at h hr ⊢
  obtain ⟨checked, c₁⟩ := x
  dsimp only at h hr ⊢
  split
  · exact hr
  · next op ho =>
    simp only [ho] at h
    split
    · exact hr
    · next hg =>
      rw [if_neg hg] at h
      split
      · exact hr
      · next plan hplan =>
        simp only [hplan] at h
        split
        · exact hr
        · next hgap =>
          rw [if_neg hgap] at h
          split
          · refine hr.quiet (.single fun b => ⟨true, .halts ?_ rfl⟩)
            rfl
          · next retire hretire =>
            simp only [hretire] at h
            split
            · exact hr
            · next restore retired c₂ hret =>
              simp only [hret] at h
              split at h <;> cases h

theorem run_maintains (ha : c.Aligned) (k : Call) (hk : k.Maintains (c.run k).1) :
    Runs (Upkeep .all) k.taken (c.run k).1.released c.toCore (c.run k).2.toCore := by
  cases k with
  | reconcile now => exact c.reconcile_runs now
  | beginCurrentCandidate input => exact c.beginCurrentCandidate_runs input trivial
  | skipCurrentCandidate guard now bucket => exact c.skipCurrentCandidate_runs guard now bucket
  | retireCurrentCandidateProducer guard now =>
    exact c.retireCurrentCandidateProducer_rejected guard now hk
  | candidateReady guard now proof commit =>
    have hs : ∀ {k r d d'}, Settles .all k r d d' → k = false → Runs (Upkeep .all) [] r d d' := by
      rintro k r d d' (h | ⟨-, -⟩) hk
      · exact h
      · cases hk
    exact hs (c.candidateReady_settles (fun _ _ => trivial) ha guard now (answer commit) () proof) hk
  | candidateTransportConnected guard now => exact c.candidateTransportConnected_runs (fun _ _ => trivial) guard now
  | candidateFailed guard now => exact c.candidateFailed_runs guard now
  | operationExpired now => exact c.operationExpired_runs now
  | _ => exact hk.elim

variable {c}

/-- **Make before break.**  Maintenance keeps every edge that nothing asks the
    child to leave, but for the children of a relay that loses its own edge in the
    same call.  A commit changes the child's own edge, the edges of the generation
    it replaces, and anchors that it prunes. -/
theorem make_before_break {c' : Controller} {k : Call} {reply : Reply} (h : c.Reachable)
    (hk : c.call k = .ok (reply, c')) :
    (k.Maintains reply → ∀ p e, c.edge p = some e →
      (∀ x, c.participant p = some x → x.departureConfirmed = false) → c.edgeRequiresMove p e = false →
      (∃ e', c'.edge p = some e' ∧ SameUpstream e e' ∧ e'.usable ∧ e'.physicalActive) ∨
        e.kind = .peer ∧ ∃ e₁, c.edge e.parentPeerID = some e₁ ∧ e₁.physicalActive ∧
          ∀ e₂, c'.edge e.parentPeerID = some e₂ → e₂.physicalActive = false) ∧
    (reply.committed → ∃ op att, c.operation = some op ∧ op.current = some att ∧
      ∀ q, q ≠ op.childPeerID → Displaced c.toCore c'.toCore att q) := by
  have hgood := h.good
  obtain ⟨hg, hr⟩ := hgood.call hk
  refine ⟨fun hm p e he hhere hmove => ?_, fun hc => ?_⟩
  · have hrest : c.Rests p e := rests_iff.2 ⟨hhere, hmove⟩
    have hrun := c.run_maintains hgood.sound.working.aligned k (by rwa [hr])
    rw [hr] at hrun
    obtain ⟨hhost, hkept⟩ := kept_of_runs hrun hgood.safe (Or.inl ⟨e, he, .refl e, hrest⟩) hg.fault
    obtain ⟨e', he', hs, hr'⟩ | hb := hkept
    · exact Or.inl ⟨e', he', hs, hr'.usable, hr'.active⟩
    · have hne : e.parentPeerID ≠ c.hostPeerID := hhost ▸ hb.relay
      obtain ⟨e₁, he₁⟩ := edge_of_relay hgood.sound.forest he hb.peer hne
      refine Or.inr ⟨hb.peer, e₁, he₁, ?_, hb.lost⟩
      have hfed := hrest.fed
      unfold parentRouteRetired at hfed
      rw [if_neg (by simp [hb.peer, hne]), he₁] at hfed
      simpa using hfed
  · obtain ⟨d, ⟨op, att, att', ho, hcur, hs, rfl⟩, hsound, ha⟩ := hgood.call_accepted hk hc
    obtain ⟨op', att₁, ho', hcur', hd⟩ := ha.edges hsound
    cases ho'
    cases hcur'
    refine ⟨op, att, ho, hcur, fun q hq => ?_⟩
    cases hd q hq with
    | kept h => exact .kept h
    | replaced hk hp hpub he hsfu hg =>
      exact .replaced (hs.tuple ▸ hk) (hs.tuple ▸ hp) hpub he hsfu hg
    | pruned he hsfu ha hn => exact .pruned he hsfu ha hn

/-- The Host feeds a viewer, and a second viewer tries it too. -/
def secondTries : List Call :=
  .upsertParticipant hostInput (some 0) :: served "a" "a1" "host" "ca" 0 2 1 ++
    .setEffectiveCapacity "a" "a1" 0 (some 1) :: (served "b" "b1" "host" "cb" 1 5 2).take 3

/-- The first viewer's edge outlives the expiry of the second one's operation, and is not
    displaced by its commit. -/
theorem make_before_break_secondTries : ∃ c : Controller, c.Reachable ∧
    (∃ c' reply e, c.call (.operationExpired 20000) = .ok (reply, c') ∧ c.operation.isSome ∧ c'.operation = none ∧
      c.edge "a" = some e ∧ ((∃ e', c'.edge "a" = some e' ∧ SameUpstream e e' ∧ e'.usable ∧ e'.physicalActive) ∨
        e.kind = .peer ∧ ∃ e₁, c.edge e.parentPeerID = some e₁ ∧ e₁.physicalActive ∧
          ∀ e₂, c'.edge e.parentPeerID = some e₂ → e₂.physicalActive = false)) ∧
    ∃ c' reply att, c.call (.candidateReady { childPeerID := "b", childSessionID := "b1", revision := 2
                                              connectionID := "cb" } 3 {} true) = .ok (reply, c') ∧
      reply.committed ∧ Displaced c.toCore c'.toCore att "a" := by
  have h : ∃ c c₁ c₂ : Controller, ∃ r₁ r₂ e x, c.Reachable ∧
      c.call (.operationExpired 20000) = .ok (r₁, c₁) ∧ c.operation.isSome ∧ c₁.operation = none ∧
      c.edge "a" = some e ∧ c.participant "a" = some x ∧ x.departureConfirmed = false ∧
      c.edgeRequiresMove "a" e = false ∧
      c.call (.candidateReady { childPeerID := "b", childSessionID := "b1", revision := 2
                                connectionID := "cb" } 3 {} true) = .ok (r₂, c₂) ∧
      r₂.committed ∧ ∃ op, c.operation = some op ∧ op.childPeerID = "b" :=
    ⟨_, _, _, _, _, _, _, ⟨smallRoom, 0, _, secondTries, rfl, rfl⟩, rfl, rfl, rfl, rfl, rfl, rfl, rfl, rfl, rfl,
      _, rfl, rfl⟩
  obtain ⟨c, c₁, c₂, r₁, r₂, e, x, hc, hk₁, hlive, hnone, he, hx, hd, hm, hk₂, hcommitted, op, ho, hchild⟩ := h
  obtain ⟨op', att, ho', -, hdisplaced⟩ := (make_before_break hc hk₂).2 hcommitted
  cases ho.symm.trans ho'
  refine ⟨c, hc, ⟨c₁, r₁, e, hk₁, hlive, hnone, he, ?_⟩, c₂, r₂, att, hk₂, hcommitted,
    hdisplaced "a" (by rw [hchild]; decide)⟩
  refine (make_before_break hc hk₁).1 trivial "a" e he (fun x' hx' => ?_) hm
  cases hx.symm.trans hx'
  exact hd

/-- A room for one copy per endpoint, without an SFU. -/
def relayRoom : Options :=
  { hostPeerID := "host", endpointMediaCopyCapacity := 1, operationTimeoutMs := 15000
    sfuEnabled := false, sfuOnly := false, qualityConvergenceEnabled := false
    natPredictionEnabled := false }

/-- The Host feeds a relay, and the relay a leaf; then the relay reports its edge
    unusable, and the Host's session ends. -/
def relayInvalidated : List Call :=
  .upsertParticipant { hostInput with effectiveDownstreamCapacity := 1 } (some 0) ::
    served "relay" "s1" "host" "c1" 0 2 1 ++ served "leaf" "s2" "relay" "c2" 1 4 2 ++
    [.invalidateEdge { childPeerID := "relay", childSessionID := "s1", routeRevision := 2
                       connectionID := "c1", parentSessionID := "h1" } (some 3),
      .disconnectSession "host" "h1"]

/-- Nothing asks the leaf to leave its relay; but the relay finds no other
    ingress, and the reconciliation that retires its own edge cuts the leaf's. -/
theorem relay_subtree_cut : ∃ c c' : Controller, ∃ reply, c.Reachable ∧
    c.call (.reconcile 5) = .ok (reply, c') ∧ ∃ e x, c.edge "leaf" = some e ∧
      c.participant "leaf" = some x ∧ x.departureConfirmed = false ∧
      c.edgeRequiresMove "leaf" e = false ∧
      ∃ e', c'.edge "leaf" = some e' ∧ e'.usable = false ∧ e'.physicalActive = false :=
  ⟨_, _, _, ⟨relayRoom, 0, _, relayInvalidated, rfl, rfl⟩, rfl, _, _, rfl, rfl, rfl, rfl, _, rfl, rfl, rfl⟩

end Controller

end Piik.Route
