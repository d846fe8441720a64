/-
  The bounded gap: a candidate whose producer has no copy to spare begins after
  the copy it replaces is retired.  What the retirement frees is what the
  candidate takes, so the same route stands at the cursor afterwards.
-/
import Piik.Route.Departure
import Piik.Route.Handoff
import Piik.Route.Opportunity
import Piik.Route.Wake

namespace Piik.Route

/-- What removals leave was there. -/
theorem Cuts.edge_weaker {L : Core → ID → CommittedEdge → Prop} {r : List Resource} {c c' : Core}
    (h : Cuts L r c c') {q : ID} {e' : CommittedEdge} (he : c'.edge q = some e') :
    ∃ e, c.edge q = some e ∧ Weaker e e' := by
  induction h with
  | refl => exact ⟨e', he, .refl e'⟩
  | head hd _ ih =>
    obtain ⟨e₁, he₁, hw₁⟩ := ih he
    rcases hd.edge q with ⟨e, e₂, he₀, he₂, hw⟩ | ⟨hn, -⟩
    · cases he₂.symm.trans he₁
      exact ⟨e, he₀, hw.trans hw₁⟩
    · cases hn.symm.trans he₁

namespace Core

variable {c c' : Core} {child : ID} {t : CandidateTuple}

/-- Who sends the copy that the candidate adds. -/
def producerOf (c : Core) (t : CandidateTuple) : ID :=
  if t.kind == .peer then t.parentPeerID else c.hostPeerID

/-- What a retirement may change: the edges, the publication and the revision. -/
def SameRoom (c c' : Core) : Prop :=
  ∃ m p r o rev lat f, c' = { c with
    upstreamByViewer := m, hostPublication := p, retiringPublicationGenerations := r
    operation := o, revision := rev, latest := lat, fault := f }

theorem SameRoom.trans {c'' : Core} (h : SameRoom c c') (h' : SameRoom c' c'') : SameRoom c c'' := by
  obtain ⟨m, p, r, o, rev, lat, f, rfl⟩ := h
  obtain ⟨m', p', r', o', rev', lat', f', rfl⟩ := h'
  exact ⟨m', p', r', o', rev', lat', f', rfl⟩

/-- The producer can send one copy more. -/
def Spares (c : Core) (p : ID) : Prop :=
  ∃ x, c.participant p = some x ∧ x.sessionID ≠ "" ∧ x.departureConfirmed = false ∧
    c.physicalCopies p + 1 ≤ x.effectiveDownstreamCapacity

theorem sameRoom_rebased (c : Core) : SameRoom c c.rebased := by
  unfold rebased bump allocateRevision
  dsimp only
  split <;> exact ⟨_, _, _, _, _, _, _, rfl⟩

/-! ## What a bounded gap needs -/

/-- The copy that the plan retires, with the producer's budget: its own edge from
    the producer, or the Host's publication. -/
inductive Retires (c : Core) (child : ID) (t : CandidateTuple) (retire : EndpointRetirement) : Prop
  | edge {e} : c.edge child = some e → e.kind = .peer → e.parentPeerID = c.producerOf t →
      e.physicalActive → retire.kind = .edge → retire.childPeerID = child → Retires c child t retire
  | publication {p} : c.hostPublication = some p → p.physicalActive → c.producerOf t = c.hostPeerID →
      c.alreadyChild c.hostPeerID child = false → retire.kind = .publication →
      retire.generation = p.generation →
      (t.kind = .sfu → t.publication = .replace) → Retires c child t retire

theorem retires_of_retirementFor {retire retire' : EndpointRetirement}
    (h : c.retirementFor child (c.producerOf t) t = some retire') (hk : retire'.kind = retire.kind)
    (he : retire'.kind = .edge → retire'.childPeerID = retire.childPeerID)
    (hp : retire'.kind = .publication → retire'.generation = retire.generation) :
    Retires c child t retire := by
  have hpub : ∀ {b : Bool}, (∀ e, c.edge child = some e →
        ¬(e.kind = .peer ∧ e.parentPeerID = c.producerOf t ∧ e.physicalActive)) →
      (b = true → t.kind = .peer) →
      retirementFor.publicationRetirement c (c.producerOf t) t b = some retire' →
      Retires c child t retire := by
    intro b hchild hb h
    unfold retirementFor.publicationRetirement at h
    split at h
    · cases h
    · next p hpub =>
      split at h
      · cases h
      · next hhost =>
        simp only [ne_eq, decide_not, Bool.or_eq_true, Bool.not_eq_true', decide_eq_false_iff_not,
          not_or, not_not, Bool.not_eq_false] at hhost
        split at h
        · cases h
        · next hrelease =>
          cases h
          refine .publication hpub hhost.2 hhost.1 ?_ hk.symm (hp rfl).symm fun hsfu => ?_
          · unfold alreadyChild
            split
            · next e hedge =>
              have := hchild e hedge
              rw [hhost.1] at this
              simpa [and_assoc] using this
            · rfl
          · simp only [hsfu, beq_self_eq_true, Bool.true_and, Bool.and_eq_true, Bool.not_eq_true',
              not_and, Bool.not_eq_false] at hrelease
            by_contra hreplace
            have := hb (hrelease (by simpa using hreplace))
            simp [hsfu] at this
  unfold retirementFor at h
  split at h
  · next e hedge =>
    split at h
    · next hown =>
      simp only [Bool.and_eq_true, beq_iff_eq] at hown
      cases h
      exact .edge hedge hown.1.1 hown.1.2 hown.2 hk.symm (he rfl).symm
    · next hown =>
      refine hpub (fun e' he' => ?_) (fun hb => ?_) h
      · cases hedge.symm.trans he'
        simpa [and_assoc] using hown
      · simp only [Bool.and_eq_true, beq_iff_eq] at hb
        exact hb.1.1.1
  · next hnone => exact hpub (fun e he => by simp [hnone] at he) (fun hb => by cases hb) h

theorem planCandidate_gap {plan : CandidatePlan} (h : c.planCandidate child t = some plan)
    (hk : plan.endpointTransition.kind = .boundedGap) : ¬(t.kind = .sfu ∧ t.publication = .reuse) ∧
      ∃ x retire, c.participant (c.producerOf t) = some x ∧ x.sessionID ≠ "" ∧
        x.departureConfirmed = false ∧
        c.physicalCopies (c.producerOf t) ≤ x.effectiveDownstreamCapacity ∧
        c.retirementFor child (c.producerOf t) t = some retire ∧
        plan.endpointTransition.retire = some retire := by
  unfold planCandidate at h
  split at h
  · cases h
    cases hk
  · next hreuse =>
    refine ⟨by simpa using hreuse, ?_⟩
    have hy : (if t.kind == .peer then t.parentPeerID else c.hostPeerID) = c.producerOf t := rfl
    dsimp only at h
    rw [hy] at h
    generalize c.producerOf t = y at h ⊢
    split at h
    · cases h
    · next x hx =>
      split at h
      · cases h
      · next hsession =>
        simp only [Bool.or_eq_true, decide_eq_true_eq, not_or, Bool.not_eq_true] at hsession
        split at h
        · cases h
          cases hk
        · split at h
          · cases h
            cases hk
          · split at h
            · cases h
            · next retire hretire =>
              split at h
              · cases h
              · next hcopies =>
                cases h
                exact ⟨x, retire, hx, hsession.1, hsession.2, not_lt.1 hcopies, hretire, rfl⟩

/-- **What a bounded gap is planned for**: the producer is present, it has no copy
    to spare, and it sends the one that is retired. -/
theorem gap_of_valid {plan : CandidatePlan} {retire : EndpointRetirement}
    (hv : c.candidateValid child plan none = true) (hg : plan.endpointTransition.kind = .boundedGap)
    (hr : plan.endpointTransition.retire = some retire) :
    Retires c child plan.tuple retire ∧ ¬(plan.tuple.kind = .sfu ∧ plan.tuple.publication = .reuse) ∧
      ∃ x, c.participant (c.producerOf plan.tuple) = some x ∧ x.sessionID ≠ "" ∧
        x.departureConfirmed = false ∧
        c.physicalCopies (c.producerOf plan.tuple) ≤ x.effectiveDownstreamCapacity := by
  unfold candidateValid at hv
  rw [Bool.and_eq_true] at hv
  obtain ⟨-, hv⟩ := hv
  split at hv
  · next current hcurrent =>
    unfold endpointTransitionEquals at hv
    simp only [hr, Bool.and_eq_true, beq_iff_eq] at hv
    obtain ⟨⟨hkind, -⟩, hv⟩ := hv
    obtain ⟨hreuse, x, retire', hx, hs, hd, hcopies, hretire, hr'⟩ :=
      planCandidate_gap hcurrent (hkind.trans hg)
    simp only [hkind, hg, hr', ne_eq, not_true_eq_false, decide_false, Bool.false_or,
      Bool.and_eq_true, beq_iff_eq] at hv
    obtain ⟨hk, hfields⟩ := hv
    refine ⟨retires_of_retirementFor hretire hk (fun he => ?_) (fun hp => ?_), hreuse, x, hx, hs, hd,
      hcopies⟩
    · simp only [he, Bool.and_eq_true, beq_iff_eq] at hfields
      exact hfields.1.1.1.1.1
    · simp only [hp, Bool.and_eq_true, beq_iff_eq] at hfields
      exact hfields.1.2
  · cases hv

/-! ## What a free copy allows -/

theorem planCandidate_spares (hr : ¬(t.kind = .sfu ∧ t.publication = .reuse))
    (h : c.Spares (c.producerOf t)) : c.planCandidate child t =
      some { tuple := t, endpointTransition := { kind := .none, producerPeerID := c.producerOf t } } := by
  obtain ⟨x, hx, hs, hd, hcopies⟩ := h
  have hy : (if t.kind == .peer then t.parentPeerID else c.hostPeerID) = c.producerOf t := rfl
  unfold planCandidate
  dsimp only
  rw [hy, if_neg (by simpa using hr), hx]
  simp [hs, hd, hcopies]

theorem targetFits_spares {p : ID} (h : c.Spares p) : c.targetFits p child = true := by
  obtain ⟨x, hx, -, -, hcopies⟩ := h
  unfold targetFits
  rw [hx]
  refine decide_eq_true ?_
  unfold usedSlots
  split <;> split <;> omega

theorem publicationFits_spares (h : c.Spares c.hostPeerID) (replacing : Bool) :
    c.publicationFits child replacing = true := by
  obtain ⟨x, hx, hs, hd, hcopies⟩ := h
  unfold publicationFits
  simp only [hx, usedSlots, Bool.and_eq_true, decide_eq_true_eq, Bool.not_eq_true']
  refine ⟨⟨hs, hd⟩, ?_⟩
  split <;> split <;> omega

/-- The plan of a candidate whose producer has a copy to spare. -/
def freePlan (c : Core) (t : CandidateTuple) : CandidatePlan :=
  { tuple := t, endpointTransition := { kind := .none, producerPeerID := c.producerOf t } }

/-- What a parent gives its children still reaches it. -/
structure StillServes (c c' : Core) (p : ID) : Prop where
  source : c.sourceUsable p → c'.sourceUsable p
  picture : c.sourceVideoReady p → c'.sourceVideoReady p
  voice : c.voiceSourceUsable p → c'.voiceSourceUsable p

/-- **A valid candidate stays valid** when its producer has a copy to spare and its
    source stays. -/
theorem candidateValid_freed {plan : CandidatePlan} (hroom : SameRoom c c') (hpeople : c.Peopled)
    (hv : c.candidateValid child plan none = true) (hk : t.kind = plan.tuple.kind)
    (hp : t.parentPeerID = plan.tuple.parentPeerID) (hreuse : ¬(t.kind = .sfu ∧ t.publication = .reuse))
    (hspares : c'.Spares (c'.producerOf t))
    (hpeer : t.kind = .peer → t.parentPeerID ∉ c'.descendantsOf child ∧ StillServes c c' t.parentPeerID)
    (hsfu : t.kind = .sfu → t.publication = .create ∧ c'.hostPublication = none ∨
      t.publication = plan.tuple.publication ∧ c'.hostPublication = c.hostPublication) :
    c'.candidateValid child (c'.freePlan t) none = true := by
  have hplan : c'.planCandidate child t = some (c'.freePlan t) := planCandidate_spares hreuse hspares
  have hself : endpointTransitionEquals (c'.freePlan t).endpointTransition
      (c'.freePlan t).endpointTransition = true := by simp [endpointTransitionEquals, freePlan]
  unfold candidateValid at hv ⊢
  simp only [Bool.and_eq_true] at hv ⊢
  obtain ⟨⟨⟨hallows, hchild⟩, hkind⟩, -⟩ := hv
  rw [show (c'.freePlan t).tuple = t from rfl, hplan]
  refine ⟨⟨⟨?_, ?_⟩, ?_⟩, hself⟩
  · obtain ⟨_, _, _, _, _, _, _, rfl⟩ := hroom
    rw [hk]
    exact hallows
  · obtain ⟨_, _, _, _, _, _, _, rfl⟩ := hroom
    exact hchild
  · cases ht : t.kind with
    | peer =>
      rw [ht] at hk
      simp only [← hk] at hkind
      obtain ⟨hbelow, hserves⟩ := hpeer ht
      have hproducer : c'.producerOf t = t.parentPeerID := by simp [producerOf, ht]
      have hfits : c'.targetFits t.parentPeerID child = true :=
        targetFits_spares (hproducer ▸ hspares)
      unfold peerCandidateValid at hkind
      rw [← hp] at hkind
      split at hkind
      · cases hkind
      · next x hx =>
        have hid : x.peerID = t.parentPeerID := hpeople.peerID _ _ hx
        simp only [hid, Bool.and_eq_true] at hkind
        obtain ⟨⟨⟨⟨⟨⟨⟨⟨hsite, hs⟩, hd⟩, -⟩, -⟩, husable⟩, hpicture⟩, hvoice⟩, -⟩ := hkind
        have hx' : c'.participant t.parentPeerID = some x := by
          obtain ⟨_, _, _, _, _, _, _, rfl⟩ := hroom
          exact hx
        unfold peerCandidateValid
        rw [hx']
        simp only [hid, Bool.and_eq_true]
        refine ⟨⟨⟨⟨⟨⟨⟨⟨?_, hs⟩, hd⟩, trivial⟩, ?_⟩, hserves.source husable⟩, ?_⟩, ?_⟩, hfits⟩
        · obtain ⟨_, _, _, _, _, _, _, rfl⟩ := hroom
          exact hsite
        · simpa using hbelow
        · have hwork : c'.videoWorkEnabled = c.videoWorkEnabled := by
            obtain ⟨_, _, _, _, _, _, _, rfl⟩ := hroom
            rfl
          have := hserves.picture
          rw [hwork]
          cases hw : c.videoWorkEnabled with
          | false => rfl
          | true =>
            simp only [hw, Bool.true_and, Bool.not_not] at hpicture ⊢
            exact this hpicture
        · have hlisten : c'.voiceListeners = c.voiceListeners := by
            obtain ⟨_, _, _, _, _, _, _, rfl⟩ := hroom
            rfl
          unfold voiceParentAllowed at hvoice ⊢
          rw [hlisten]
          simp only [Bool.or_eq_true] at hvoice ⊢
          exact hvoice.imp_right hserves.voice
    | sfu =>
      rw [ht] at hk
      simp only [← hk] at hkind
      have hproducer : c'.producerOf t = c'.hostPeerID := by simp [producerOf, ht]
      have hfits : ∀ b, c'.publicationFits child b = true := fun b =>
        publicationFits_spares (hproducer ▸ hspares) b
      unfold sfuCandidateValid at hkind ⊢
      simp only [Bool.and_true, Bool.and_eq_true] at hkind ⊢
      obtain ⟨hsite, hpub⟩ := hkind
      have hsite' : c'.sfuEnabled = true := by
        obtain ⟨_, _, _, _, _, _, _, rfl⟩ := hroom
        exact hsite
      refine ⟨hsite', ?_⟩
      have hnot : t.publication ≠ .reuse := fun h => hreuse ⟨ht, h⟩
      rcases hsfu ht with ⟨hcreate, hnone⟩ | ⟨hsame, hpublication⟩
      · simp [hcreate, hnone, hfits]
      · rw [hsame, hpublication]
        rw [hsame] at hnot
        split at hpub
        · next h => exact absurd h hnot
        · split at hpub
          · next p hp' =>
            simp only [Bool.and_eq_true] at hpub
            simp [hpub.1, hfits]
          · cases hpub
        · simp only [Bool.and_eq_true] at hpub
          simp [hpub.1, hfits]

theorem not_below_of_valid {plan : CandidatePlan} (hpeople : c.Peopled)
    (hv : c.candidateValid child plan none = true) (hk : plan.tuple.kind = .peer) :
    plan.tuple.parentPeerID ∉ c.descendantsOf child := by
  unfold candidateValid at hv
  simp only [hk, Bool.and_eq_true] at hv
  have hkind := hv.1.2
  unfold peerCandidateValid at hkind
  split at hkind
  · cases hkind
  · next x hx =>
    simp only [hpeople.peerID _ _ hx, Bool.and_eq_true, decide_eq_true_eq] at hkind
    exact hkind.1.1.1.1.2

/-! ## Cutting the child's edge -/

/-- The child's edge is inactive now, and the room and the publication are as they were. -/
structure EdgeCut (c c' : Core) (child : ID) : Prop where
  room : SameRoom c c'
  edges : c'.upstreamByViewer = (c.deactivateEdge child).upstreamByViewer
  publication : c'.hostPublication = c.hostPublication

namespace EdgeCut

theorem edge (h : EdgeCut c c' child) (q : ID) : c'.edge q = (c.deactivateEdge child).edge q := by
  unfold Core.edge
  rw [h.edges]

theorem edge_of_ne (h : EdgeCut c c' child) {q : ID} (hq : q ≠ child) : c'.edge q = c.edge q := by
  rw [h.edge, edge_deactivateEdge, if_neg hq]

/-- The producer of the cut edge sends one copy less. -/
theorem physicalCopies {e : CommittedEdge} (h : EdgeCut c c' child) (he : c.edge child = some e)
    (hk : e.kind = .peer) (ha : e.physicalActive) :
    c'.physicalCopies e.parentPeerID + 1 = c.physicalCopies e.parentPeerID := by
  have hcopies : c'.copiesOf e.parentPeerID = (c.copiesOf e.parentPeerID).erase child := by
    ext q
    rw [Finset.mem_erase, mem_copiesOf, mem_copiesOf, h.edge, edge_deactivateEdge]
    by_cases hq : q = child
    · subst hq
      simp [he]
    · simp [hq]
  have hmem : child ∈ c.copiesOf e.parentPeerID := mem_copiesOf.2 ⟨e, he, hk, rfl, ha⟩
  have hhost : c'.hostPeerID = c.hostPeerID := by
    obtain ⟨_, _, _, _, _, _, _, heq⟩ := h.room
    rw [heq]
  have hactive : c'.publicationActive = c.publicationActive := by
    unfold publicationActive
    rw [h.publication]
  have := Finset.card_erase_add_one hmem
  rw [physicalCopies_eq, physicalCopies_eq, hcopies, hhost, hactive]
  omega

theorem childrenOf (h : EdgeCut c c' child) (q : ID) : c'.childrenOf q = c.childrenOf q := by
  unfold Core.childrenOf
  rw [h.edges, deactivateEdge]
  dsimp only
  rw [OMap.modify_eq_mapValues]
  simp only [OMap.mapValues, List.filter_map, List.map_map]
  congr 1
  refine List.filter_congr fun x _ => ?_
  simp only [Function.comp_apply]
  split <;> rfl

theorem keys (h : EdgeCut c c' child) : c'.upstreamByViewer.keys = c.upstreamByViewer.keys := by
  rw [h.edges]
  exact OMap.keys_modify _ _ _

theorem len (h : EdgeCut c c' child) : c'.upstreamByViewer.len = c.upstreamByViewer.len := by
  rw [← OMap.length_keys, h.keys, OMap.length_keys]

theorem descendantsOf (h : EdgeCut c c' child) (q : ID) : c'.descendantsOf q = c.descendantsOf q := by
  unfold Core.descendantsOf
  rw [h.len, show c'.childrenOf = c.childrenOf from funext h.childrenOf]

/-- Who is not below the child does not see the cut. -/
theorem walk (h : EdgeCut c c' child) (hchild : (c.edge child).isSome) {step step' : ID → Bool ⊕ ID}
    (hs : ∀ y, y ≠ child → step' y = step y) (hroot : ∀ y z, step y = .inr z → c.rootStep y = .inr z)
    {p : ID} (hne : p ≠ child) (hbelow : p ∉ c.descendantsOf child)
    (hw : Walk.walk step false c.pathFuel [] p = true) :
    Walk.walk step' false c'.pathFuel [] p = true := by
  have hpasses : ∀ {x y}, Walk.Passes step x y → Walk.Passes c.rootStep x y := by
    intro x y h
    induction h with
    | refl a => exact .refl a
    | next hs _ ih => exact .next (hroot _ _ hs) ih
  have hoff : ¬Walk.Passes step p child := fun hpass =>
    (mem_descendantsOf (hpasses hpass)).elim hne hbelow
  have hkey : ∀ y z, step' y = .inr z → y ∈ c'.upstreamByViewer.keys := by
    intro y z hy
    rw [h.keys]
    by_cases hyc : y = child
    · obtain ⟨e, he⟩ := Option.isSome_iff_exists.1 hchild
      exact OMap.mem_keys.2 ⟨e, hyc ▸ he⟩
    · exact childrenOf_subset c z (rootStep_inr (hroot y z (hs y hyc ▸ hy)))
  have := Walk.walk_of_ends false hkey ((Walk.ends_of_walk (by simp) hw).off hs hoff)
  rwa [OMap.length_keys] at this

/-- A parent that is not below the child is served as before. -/
theorem stillServes (h : EdgeCut c c' child) (hchild : (c.edge child).isSome) (ho : c.Outward) {p : ID}
    (hne : p ≠ child) (hbelow : p ∉ c.descendantsOf child) : StillServes c c' p := by
  have hup : ∀ {y e}, c.edge y = some e → (e.kind == .sfu) = false →
      c.rootStep y = .inr e.parentPeerID := by
    intro y e he hk
    have hy : y ≠ c.hostPeerID := by
      rintro rfl
      simp [ho.host] at he
    have hk : e.kind ≠ .sfu := by simpa using hk
    simp [rootStep, hy, he, hk]
  have hserves : ∀ g, c'.publicationServes g = c.publicationServes g := fun g => by
    unfold publicationServes
    rw [h.publication]
  obtain ⟨m, pub, r, o, rev, lat, f, heq⟩ := h.room
  have hsource : c.sourceUsable p → c'.sourceUsable p := by
    unfold sourceUsable
    have hhost : c'.hostPeerID = c.hostPeerID := by rw [heq]
    rw [hhost, Bool.or_eq_true, Bool.or_eq_true]
    refine Or.imp_right (h.walk hchild (fun y hy => ?_) (fun y z hy => ?_) hne hbelow)
    · simp only [sourceStep, h.edge_of_ne hy, hserves, hhost]
    · unfold sourceStep at hy
      split at hy
      · cases hy
      · next e he =>
        split_ifs at hy with hu hk hroot
        cases hy
        exact hup he (by simpa using hk)
  refine ⟨hsource, fun hp => ?_, h.walk hchild (fun y hy => ?_) (fun y z hy => ?_) hne hbelow⟩
  · unfold sourceVideoReady at hp ⊢
    have hgen : c'.roomMedia = c.roomMedia ∧ c'.videoGeneration = c.videoGeneration ∧
        c'.hostPeerID = c.hostPeerID := by rw [heq]; exact ⟨rfl, rfl, rfl⟩
    simp only [Bool.and_eq_true, hgen.1, hgen.2.1] at hp ⊢
    refine ⟨⟨hsource hp.1.1, hp.1.2⟩, h.walk hchild (fun y hy => ?_) (fun y z hy => ?_) hne hbelow hp.2⟩
    · simp only [videoStep, h.edge_of_ne hy, hgen]
    · unfold videoStep at hy
      split at hy
      · cases hy
      · split at hy
        · cases hy
        · next e he =>
          split_ifs at hy with hv hk
          cases hy
          exact hup he (by simpa using hk)
  · have hfield : c'.voiceListeners = c.voiceListeners ∧ c'.participants = c.participants ∧
        c'.hostPeerID = c.hostPeerID := by rw [heq]; exact ⟨rfl, rfl, rfl⟩
    simp only [voiceStep, h.edge_of_ne hy, hserves, Core.participant, hfield]
  · unfold voiceStep at hy
    split at hy
    · cases hy
    · split at hy
      · cases hy
      · split_ifs at hy
        split at hy
        · cases hy
        · next e he =>
          split_ifs at hy with hu hk
          cases hy
          exact hup he (by simpa using hk)

end EdgeCut

/-! ## Removing the publication -/

/-- The publication is gone with the subscriptions of its generation. -/
structure PublicationCut (c c' : Core) (generation : ID) : Prop where
  room : SameRoom c c'
  publication : c'.hostPublication = none
  peers : ∀ q e, e.kind = .peer → (c'.edge q = some e ↔ c.edge q = some e)
  active : ∀ q e, e.physicalActive → (c'.edge q = some e ↔
    c.edge q = some e ∧ ¬(e.kind = .sfu ∧ e.publicationGeneration = generation))
  absent : ∀ q, c.edge q = none → c'.edge q = none

namespace PublicationCut

variable {g : ID}

theorem hostPeerID (h : PublicationCut c c' g) : c'.hostPeerID = c.hostPeerID := by
  obtain ⟨_, _, _, _, _, _, _, heq⟩ := h.room
  rw [heq]

/-- The Host sends one copy less. -/
theorem physicalCopies (h : PublicationCut c c' g) (ha : c.publicationActive = true) :
    c'.physicalCopies c.hostPeerID + 1 = c.physicalCopies c.hostPeerID := by
  have hcopies : c'.copiesOf c.hostPeerID = c.copiesOf c.hostPeerID := by
    ext q
    rw [mem_copiesOf, mem_copiesOf]
    refine exists_congr fun e => ?_
    constructor
    · rintro ⟨he, hk, hrest⟩
      exact ⟨(h.peers q e hk).1 he, hk, hrest⟩
    · rintro ⟨he, hk, hrest⟩
      exact ⟨(h.peers q e hk).2 he, hk, hrest⟩
  have hnone : c'.publicationActive = false := by
    unfold publicationActive
    rw [h.publication]
  rw [physicalCopies_eq, physicalCopies_eq, hcopies, h.hostPeerID, hnone, ha]
  simp

/-- The Host is below nobody. -/
theorem not_below (h : PublicationCut c c' g) (ho : c.Outward) :
    c.hostPeerID ∉ c'.descendantsOf child := by
  intro hmem
  have hkey : c.hostPeerID ∈ c'.upstreamByViewer.keys :=
    Walk.collect_subset (childrenOf_subset c') _ (List.nil_subset _) hmem
  obtain ⟨e, he⟩ := OMap.mem_keys.1 hkey
  have := h.absent _ ho.host
  unfold Core.edge at this
  rw [he] at this
  cases this

/-- The Host needs nobody to be served. -/
theorem stillServes (h : PublicationCut c c' g) : StillServes c c' c.hostPeerID := by
  have hhost := h.hostPeerID
  obtain ⟨m, pub, r, o, rev, lat, f, heq⟩ := h.room
  have hwalk : ∀ {d : Core} {step : ID → Bool ⊕ ID} {b : Bool}, step d.hostPeerID = .inl b →
      Walk.walk step false d.pathFuel [] d.hostPeerID = b := by
    intro d step b hb
    simp [pathFuel, Walk.walk, hb]
  have hsource : c'.sourceUsable c.hostPeerID := by simp [sourceUsable, hhost]
  refine ⟨fun _ => hsource, fun hp => ?_, fun hp => ?_⟩
  · unfold sourceVideoReady at hp ⊢
    simp only [Bool.and_eq_true] at hp ⊢
    refine ⟨⟨hsource, ?_⟩, ?_⟩
    · rw [heq]
      exact hp.1.2
    · rw [← hhost]
      exact hwalk (by simp [videoStep])
  · have hsame : c'.voiceStep c'.hostPeerID = c.voiceStep c.hostPeerID := by
      rw [heq]
      simp [voiceStep, Core.participant]
    have hinl : ∃ b, c.voiceStep c.hostPeerID = .inl b := by
      simp only [voiceStep, if_true]
      split
      · exact ⟨_, rfl⟩
      · split
        · exact ⟨_, rfl⟩
        · split <;> exact ⟨_, rfl⟩
    obtain ⟨b, hb⟩ := hinl
    unfold voiceSourceUsable at hp ⊢
    rw [hwalk hb] at hp
    rw [← hhost, hwalk (hsame.trans hb)]
    exact hp

end PublicationCut

end Core

namespace Controller

variable (c : Controller)

theorem releaseEach_retire_of_ne (l : List (ID × CommittedEdge)) {q : ID} (hq : ∀ x ∈ l, x.1 ≠ q) :
    (releaseEach (fun c p e => c.retireSfuEdge p e (c.retainsAnchor p)) l c).2.edge q = c.edge q := by
  induction l generalizing c with
  | nil => rfl
  | cons x l ih =>
    unfold releaseEach
    dsimp only
    rw [ih _ fun y hy => hq y (List.mem_cons_of_mem _ hy), retireSfuEdge_toCore, Core.edge_dropSfuEdge,
      if_neg fun h => hq x List.mem_cons_self h.symm]

theorem releaseEach_retire_room (l : List (ID × CommittedEdge)) : Core.SameRoom c.toCore
    (releaseEach (fun c p e => c.retireSfuEdge p e (c.retainsAnchor p)) l c).2.toCore := by
  induction l generalizing c with
  | nil => exact ⟨_, _, _, _, _, _, _, rfl⟩
  | cons x l ih =>
    unfold releaseEach
    dsimp only
    refine Core.SameRoom.trans ?_ (ih _)
    rw [retireSfuEdge_toCore]
    unfold Core.dropSfuEdge
    split <;> exact ⟨_, _, _, _, _, _, _, rfl⟩

/-- The subscriptions go, then the publication, then the spent anchors. -/
theorem removePublicationGeneration_toCore {p : HostPublication} (hp : c.hostPublication = some p) :
    (c.removePublicationGeneration p.generation).2.toCore =
      Core.pruneRetiringSfuAnchors { (releaseEach (fun c p e => c.retireSfuEdge p e (c.retainsAnchor p))
        (c.subscribersOf p.generation) c).2.toCore with hostPublication := none } := by
  have hpub := c.retireSubscribers_publication (c.subscribersOf p.generation)
  unfold removePublicationGeneration
  unfold subscribersOf at hpub ⊢
  dsimp only
  rw [hpub, hp]
  simp only [if_true, prune_toCore]
  unfold dropPublication
  rw [hpub, hp]

/-- **Removing the publication in service** takes its subscriptions with it, and
    nothing else that is active. -/
theorem removePublicationGeneration_cut {p : HostPublication} (hp : c.hostPublication = some p) :
    Core.PublicationCut c.toCore (c.removePublicationGeneration p.generation).2.toCore p.generation := by
  have hcuts := (c.removePublicationGeneration_trim hp).1.cuts
  have hnone := (c.removePublicationGeneration_trim hp).2
  have hun := c.retireSubscribers_unsubscribed p
  have hroom := c.releaseEach_retire_room (c.subscribersOf p.generation)
  have hstay := fun q => c.releaseEach_retire_of_ne (c.subscribersOf p.generation) (q := q)
  have heq := c.removePublicationGeneration_toCore hp
  generalize (releaseEach (fun c p e => c.retireSfuEdge p e (c.retainsAnchor p))
    (c.subscribersOf p.generation) c).2 = d at hun hroom hstay heq
  have hkeep : ∀ q e, c.edge q = some e → ¬(e.kind = .sfu ∧ e.publicationGeneration = p.generation) →
      (e.kind = .sfu → e.physicalActive) →
      (c.removePublicationGeneration p.generation).2.edge q = some e := by
    intro q e he hother hactive
    have hq : ∀ x ∈ c.subscribersOf p.generation, x.1 ≠ q := by
      rintro x hx rfl
      obtain ⟨hx, hsub⟩ := List.mem_filter.1 hx
      cases he.symm.trans (OMap.get_eq_some.2 hx)
      simp only [Bool.and_eq_true, beq_iff_eq] at hsub
      exact hother hsub
    rw [heq, Core.edge_prune]
    refine Option.filter_eq_some_iff.2 ⟨(hstay q hq).trans he, ?_⟩
    cases hk : e.kind with
    | peer => simp [Core.spentAnchor, hk]
    | sfu => simp [Core.spentAnchor, hactive hk]
  refine ⟨?_, hnone, fun q e hk => ⟨fun he => ?_, fun he => ?_⟩, fun q e ha => ⟨fun he => ⟨?_, ?_⟩, ?_⟩,
    fun q hq => ?_⟩
  · rw [heq]
    exact hroom.trans ⟨_, _, _, _, _, _, _, rfl⟩
  · obtain ⟨e₀, he₀, hw⟩ := hcuts.edge_weaker he
    have hk₀ : e₀.kind = .peer := by
      have := congrArg Prod.fst hw.shape
      exact this.symm.trans hk
    have := hkeep q e₀ he₀ (by simp [hk₀]) (by simp [hk₀])
    cases this.symm.trans he
    exact he₀
  · exact hkeep q e he (by simp [hk]) (by simp [hk])
  · exact hcuts.edge_active he ha
  · rintro ⟨hk, hg⟩
    rw [heq, Core.edge_prune] at he
    exact hun q e (Option.filter_eq_some_iff.1 he).1 hk ha hg
  · rintro ⟨he, hother⟩
    exact hkeep q e he hother fun _ => ha
  · cases he : (c.removePublicationGeneration p.generation).2.edge q with
    | none => rfl
    | some e' =>
      obtain ⟨e, he₀, -⟩ := hcuts.edge_weaker he
      cases hq.symm.trans he₀

theorem removePublicationGeneration_books {p : HostPublication} (hp : c.hostPublication = some p) :
    (c.removePublicationGeneration p.generation).2.books = c.books := by
  have hpub := c.retireSubscribers_publication (c.subscribersOf p.generation)
  have hbooks : ∀ (l : List (ID × CommittedEdge)) (d : Controller),
      (releaseEach (fun c p e => c.retireSfuEdge p e (c.retainsAnchor p)) l d).2.books = d.books := by
    intro l
    induction l with
    | nil => exact fun _ => rfl
    | cons x l ih => exact fun d => (ih _).trans (d.clearQualityForParticipant_books x.1)
  unfold removePublicationGeneration
  unfold subscribersOf at hpub
  dsimp only
  rw [hpub, hp]
  simp only [if_true]
  unfold dropPublication
  rw [hpub, hp]
  exact hbooks _ c

/-! ## The retirement -/

/-- Exactly what the plan named is cut. -/
def Retired (c c' : Core) (retire : EndpointRetirement) : Prop :=
  match retire.kind with
  | .edge => c.EdgeCut c' retire.childPeerID
  | .publication => c.PublicationCut c' retire.generation

theorem Retired.keep {c c' c'' : Core} {retire : EndpointRetirement} (h : Retired c c' retire)
    (hroom : c'.SameRoom c'') (he : c''.upstreamByViewer = c'.upstreamByViewer)
    (hp : c''.hostPublication = c'.hostPublication) : Retired c c'' retire := by
  have hedge : ∀ q, c''.edge q = c'.edge q := fun q => by
    unfold Core.edge
    rw [he]
  unfold Retired at h ⊢
  split
  · next hk =>
    simp only [hk] at h
    exact ⟨h.room.trans hroom, he.trans h.edges, hp.trans h.publication⟩
  · next hk =>
    simp only [hk] at h
    refine ⟨h.room.trans hroom, hp.trans h.publication, fun q e => ?_, fun q e => ?_, fun q => ?_⟩
    · rw [hedge]
      exact h.peers q e
    · rw [hedge]
      exact h.active q e
    · rw [hedge]
      exact h.absent q

theorem Retired.room {c c' : Core} {retire : EndpointRetirement} (h : Retired c c' retire) :
    c.SameRoom c' := by
  unfold Retired at h
  split at h
  · exact h.room
  · exact h.room

/-- The candidate that the cut edge becomes. -/
def cutRoute (e : CommittedEdge) : CandidateTuple :=
  { kind := .peer, parentPeerID := e.parentPeerID, transport := e.transport }

/-- The route of a usable edge is kept for later. -/
theorem retireProducer_retired {retire : EndpointRetirement} {restore : Option CandidateTuple}
    {retired : List Resource} {d : Controller} (h : c.retireProducer retire = some (restore, retired, d)) :
    Retired c.toCore d.toCore retire ∧ d.books = c.books ∧ (retire.kind = .edge →
      ∀ e, c.edge retire.childPeerID = some e → e.usable → restore = some (cutRoute e)) := by
  unfold retireProducer at h
  cases hk : retire.kind with
  | edge =>
    simp only [hk] at h
    obtain ⟨e, he, h⟩ := Option.map_eq_some_iff.1 h
    cases h
    refine ⟨?_, rfl, fun _ e' he' hu => ?_⟩
    · simp only [Retired, hk]
      exact ⟨⟨_, _, _, _, _, _, _, rfl⟩, rfl, rfl⟩
    · unfold retirementEdge at he
      rw [he'] at he
      dsimp only at he
      split at he
      · cases he
        rw [if_pos hu]
        rfl
      · cases he
  | publication =>
    simp only [hk] at h
    split at h
    · next hp =>
      cases h
      unfold retirementPublication at hp
      split at hp
      · cases hp
      · next p hpub =>
        simp only [Bool.and_eq_true, beq_iff_eq] at hp
        have hcut := c.removePublicationGeneration_cut hpub
        have hbooks := c.removePublicationGeneration_books hpub
        rw [hp.1.2] at hcut hbooks
        refine ⟨?_, hbooks, fun h => by cases h⟩
        simp only [Retired, hk]
        exact hcut
    · cases h

variable {c} {c' : Controller} {child : ID} {plan : CandidatePlan} {retire : EndpointRetirement}

theorem nextTuple_kind : (nextTuple plan retire).kind = plan.tuple.kind := by
  unfold nextTuple
  split <;> rfl

theorem nextTuple_peer (h : plan.tuple.kind = .peer) : nextTuple plan retire = plan.tuple := by
  unfold nextTuple
  rw [if_neg fun h' => by simp [h] at h']

/-- The next tuple has the producer and the opportunity of the plan. -/
theorem nextTuple_base (d : Core) :
    d.candidateOpportunityBase child (nextTuple plan retire) = d.candidateOpportunityBase child plan.tuple := by
  cases hk : plan.tuple.kind with
  | peer => rw [nextTuple_peer hk]
  | sfu =>
    unfold Core.candidateOpportunityBase
    rw [nextTuple_kind, hk]

theorem producerOf_nextTuple (d : Core) : d.producerOf (nextTuple plan retire) = d.producerOf plan.tuple := by
  unfold Core.producerOf
  cases hk : plan.tuple.kind with
  | peer => rw [nextTuple_peer hk, hk]
  | sfu => simp [nextTuple_kind, hk]

theorem nextTuple_reuse (h : ¬(plan.tuple.kind = .sfu ∧ plan.tuple.publication = .reuse)) :
    ¬((nextTuple plan retire).kind = .sfu ∧ (nextTuple plan retire).publication = .reuse) := by
  unfold nextTuple
  split
  · simp
  · exact h

theorem nextTuple_parent : (nextTuple plan retire).parentPeerID = plan.tuple.parentPeerID := by
  unfold nextTuple
  split <;> rfl

/-- A free copy costs the opportunity no more than the gap. -/
theorem available_freed (hroom : c.SameRoom c'.toCore) (hbooks : c'.books = c.books)
    (h : c.candidateOpportunityAvailable child plan = true)
    (hg : plan.endpointTransition.kind = .boundedGap) :
    c'.candidateOpportunityAvailable child (c'.freePlan (nextTuple plan retire)) = true := by
  have hbase : c'.candidateOpportunityBase child (nextTuple plan retire) =
      c.candidateOpportunityBase child plan.tuple := by
    rw [nextTuple_base]
    obtain ⟨_, _, _, _, _, _, _, heq⟩ := hroom
    rw [heq]
    rfl
  have hfield : c'.participant child = c.participant child ∧
      c'.natPredictionEnabled = c.natPredictionEnabled := by
    obtain ⟨_, _, _, _, _, _, _, heq⟩ := hroom
    rw [heq]
    exact ⟨rfl, rfl⟩
  have hledger : (c'.ledger child).consumedCandidateOpportunities =
      (c.ledger child).consumedCandidateOpportunities := opportunities_of_books hbooks child
  unfold candidateOpportunityAvailable at h ⊢
  simp only [hfield, hledger, Core.freePlan, hbase, nextTuple_kind] at h ⊢
  split
  · rfl
  · next x hx =>
    simp only [hx] at h
    split
    · rfl
    · next consumed hconsumed =>
      simp only [hconsumed, Bool.or_eq_true, decide_eq_true_eq] at h ⊢
      have hrank : endpointTransitionRank plan.endpointTransition = 2 := by
        simp [endpointTransitionRank, hg]
      refine h.imp_left fun h => decide_eq_true ?_
      show (0 : Int) < consumed.rank
      omega

/-- **The retirement frees what the candidate takes.** -/
theorem valid_retired {op : Operation} (hroom : Retired c.toCore c'.toCore retire)
    (hbooks : c'.books = c.books) (hf : c.Forest) (hout : plan.tuple.Outward op.childPeerID)
    (hv : c.operationCandidateValid op plan none = true) (hg : plan.endpointTransition.kind = .boundedGap)
    (hr : plan.endpointTransition.retire = some retire) {op' : Operation}
    (hchild : op'.childPeerID = op.childPeerID) (hreason : op'.reason = op.reason) :
    c'.planCandidate op.childPeerID (nextTuple plan retire) = some (c'.freePlan (nextTuple plan retire)) ∧
      c'.operationCandidateValid op' (c'.freePlan (nextTuple plan retire)) none = true := by
  simp only [operationCandidateValid, Bool.and_eq_true] at hv
  obtain ⟨hv, havail⟩ := hv
  obtain ⟨hret, hreuse, x, hx, hs, hd, hcopies⟩ := Core.gap_of_valid hv hg hr
  have hreuse' : ¬((nextTuple plan retire).kind = .sfu ∧ (nextTuple plan retire).publication = .reuse) :=
    nextTuple_reuse hreuse
  have hsame : c'.participants = c.participants ∧ c'.hostPeerID = c.hostPeerID := by
    obtain ⟨_, _, _, _, _, _, _, heq⟩ := hroom.room
    rw [heq]
    exact ⟨rfl, rfl⟩
  have hproducer : c'.producerOf (nextTuple plan retire) = c.producerOf plan.tuple := by
    rw [producerOf_nextTuple]
    unfold Core.producerOf
    rw [hsame.2]
  have hx' : c'.participant (c.producerOf plan.tuple) = some x := by
    unfold Core.participant
    rw [hsame.1]
    exact hx
  have hvalid : c'.Spares (c'.producerOf (nextTuple plan retire)) ∧
      c'.candidateValid op.childPeerID (c'.freePlan (nextTuple plan retire)) none = true := by
    rw [hproducer]
    cases hret with
    | @edge e he hk hp ha hrk hrc =>
      have hcut : c.EdgeCut c'.toCore op.childPeerID := by
        simp only [Retired, hrk, hrc] at hroom
        exact hroom
      have hfree := hcut.physicalCopies he hk ha
      rw [hp] at hfree
      have hspares : c'.Spares (c.producerOf plan.tuple) := ⟨x, hx', hs, hd, hfree.trans_le hcopies⟩
      have hnext : nextTuple plan retire = plan.tuple := by
        unfold nextTuple
        rw [if_neg fun h => by simp [hrk] at h]
      refine ⟨hspares, Core.candidateValid_freed hroom.room hf.peopled hv nextTuple_kind nextTuple_parent
        hreuse' (hproducer ▸ hspares) (fun hk => ?_) fun _ => Or.inr ⟨by rw [hnext], hcut.publication⟩⟩
      rw [hnext] at hk ⊢
      have hbelow := Core.not_below_of_valid hf.peopled hv hk
      exact ⟨by rwa [hcut.descendantsOf], hcut.stillServes (by simp [he]) hf.outward (hout hk) hbelow⟩
    | @publication p hp ha hhost _ hrk hrg hreplace =>
      have hcut : c.PublicationCut c'.toCore retire.generation := by
        simp only [Retired, hrk] at hroom
        exact hroom
      have hfree := hcut.physicalCopies (by simp [Core.publicationActive, hp, ha])
      rw [hhost] at hcopies hx' ⊢
      have hspares : c'.Spares c.hostPeerID := ⟨x, hx', hs, hd, hfree.trans_le hcopies⟩
      refine ⟨hspares, Core.candidateValid_freed hroom.room hf.peopled hv nextTuple_kind nextTuple_parent
        hreuse' (hproducer ▸ hhost ▸ hspares) (fun hk => ?_) fun hk => Or.inl ⟨?_, hcut.publication⟩⟩
      · rw [nextTuple_kind] at hk
        have hparent : plan.tuple.parentPeerID = c.hostPeerID := by
          simpa [Core.producerOf, hk] using hhost
        rw [nextTuple_parent, hparent]
        exact ⟨hcut.not_below hf.outward, hcut.stillServes⟩
      · rw [nextTuple_kind] at hk
        unfold nextTuple
        rw [if_pos ⟨hrk, hk, hreplace hk⟩]
  refine ⟨Core.planCandidate_spares hreuse' hvalid.1, ?_⟩
  simp only [operationCandidateValid, hchild, hreason, hvalid.2, Bool.true_and]
  simp only [Bool.false_or, Bool.or_eq_true] at havail ⊢
  exact havail.imp_right fun h => available_freed hroom.room hbooks h hg

/-! ## What stands at the cursor -/

theorem remainingTuples_first (op : Operation) (first : CandidateTuple) (restore : Option CandidateTuple) :
    ∃ rest, remainingTuples op (some first) restore = first :: rest ∧
      ∀ r, restore = some r → ∃ t ∈ first :: rest, tupleKey t = tupleKey r := by
  unfold remainingTuples
  dsimp only
  split
  · next r =>
    split
    · next hany =>
      refine ⟨_, rfl, fun r' hr => ?_⟩
      cases hr
      obtain ⟨t, ht, hk⟩ := List.any_eq_true.1 hany
      exact ⟨t, ht, by simpa using hk⟩
    · refine ⟨_, rfl, fun r' hr => ?_⟩
      cases hr
      exact ⟨r, by simp, rfl⟩
  · exact ⟨_, rfl, fun r hr => by cases hr⟩

/-- The operation goes on with the route `t` at its cursor and a copy for it. -/
structure Resumes (c' : Controller) (op : Operation) (t : CandidateTuple) (op' : Operation) : Prop where
  operation : c'.operation = some op'
  current : op'.current = none
  cursor : op'.cursor = op.cursor
  childPeerID : op'.childPeerID = op.childPeerID
  reason : op'.reason = op.reason
  version : op'.builtAtFactVersion = c'.factVersion
  plan : op'.planAt op'.cursor = some (c'.freePlan t)
  valid : c'.operationCandidateValid op' (c'.freePlan t) none = true

/-- The replanned rest begins with the first tuple when that is valid. -/
theorem replanRemaining_resumes {op op₁ : Operation} {t : CandidateTuple} {restore : Option CandidateTuple}
    (ho : c.operation = some op₁) (hc : op₁.current = none) (hcursor : op₁.cursor = op.cursor)
    (hchild : op₁.childPeerID = op.childPeerID) (hreason : op₁.reason = op.reason)
    (hlt : op₁.cursor < op₁.candidates.length) (hplan : c.planCandidate op.childPeerID t = some (c.freePlan t))
    (hv : ∀ op₂ : Operation, op₂.childPeerID = op.childPeerID → op₂.reason = op.reason →
      c.operationCandidateValid op₂ (c.freePlan t) none = true) :
    ∃ op', Resumes (c.replanRemaining (some t) restore) op t op' ∧
      ∀ r, restore = some r → ∃ u, tupleKey u = tupleKey r ∧
        ((∃ plan ∈ op'.candidates.drop op'.cursor, plan.tuple = u) ∨
          ∀ plan, c.planCandidate op.childPeerID u = some plan →
            c.operationCandidateValid op' plan none = false) := by
  obtain ⟨rest, hrest, hrestore⟩ := remainingTuples_first op₁ t restore
  set keep : CandidateTuple → Option CandidatePlan := fun tuple =>
    (c.planCandidate op₁.childPeerID tuple).bind fun plan =>
      if c.operationCandidateValid op₁ plan none then some plan else none with hkeep
  have hfirst : keep t = some (c.freePlan t) := by
    simp only [hkeep, hchild, hplan, Option.bind_some]
    rw [if_pos (hv op₁ hchild hreason)]
  have hall : (t :: rest).filterMap keep = c.freePlan t :: rest.filterMap keep :=
    List.filterMap_cons_some hfirst
  have hlen : (op₁.candidates.take op₁.cursor).length = op₁.cursor := by
    rw [List.length_take]
    omega
  set op' : Operation := { op₁ with
    candidates := op₁.candidates.take op₁.cursor ++ (c.freePlan t :: rest.filterMap keep)
    builtAtFactVersion := c.factVersion } with hop'
  have hop : (c.replanRemaining (some t) restore).operation = some op' := by
    refine (modifyOperation_operation ho _).trans (congrArg (fun l => some { op₁ with
      candidates := op₁.candidates.take op₁.cursor ++ l
      builtAtFactVersion := c.factVersion }) ?_)
    rw [hrest, ← hall]
    refine List.filterMap_congr fun tuple _ => ?_
    rw [hkeep]
    dsimp only
    cases c.planCandidate op₁.childPeerID tuple <;> rfl
  have hsame : (c.replanRemaining (some t) restore).freePlan t = c.freePlan t := rfl
  refine ⟨op', ⟨hop, hc, hcursor, hchild, hreason, rfl, ?_, hv op' hchild hreason⟩, fun r hr => ?_⟩
  · rw [hsame]
    unfold Operation.planAt
    rw [hop']
    dsimp only
    rw [List.getElem?_append_right (by omega), hlen]
    simp
  · obtain ⟨u, hu, hk⟩ := hrestore r hr
    refine ⟨u, hk, ?_⟩
    cases hku : keep u with
    | some plan =>
      left
      have htuple : plan.tuple = u := by
        obtain ⟨plan', hplan', hkept⟩ := Option.bind_eq_some_iff.1 hku
        split at hkept
        · cases hkept
          exact planCandidate_tuple hplan'
        · cases hkept
      refine ⟨plan, ?_, htuple⟩
      have hmem : plan ∈ (t :: rest).filterMap keep := List.mem_filterMap.2 ⟨u, hu, hku⟩
      rw [hall] at hmem
      rw [hop']
      dsimp only
      rw [List.drop_append_of_le_length (by omega), List.drop_eq_nil_of_le (by omega)]
      exact hmem
    | none =>
      right
      intro plan hplan'
      simp only [hkeep, hchild, hplan', Option.bind_some] at hku
      split at hku
      · cases hku
      · next hinvalid => exact Bool.not_eq_true _ ▸ hinvalid

/-! ## Beginning after the gap -/

/-- A ready operation stays as it is, moves on, or ends. -/
theorem validateOrAdvance_ready {op : Operation} (ho : c.operation = some op) (hc : op.current = none)
    (hroute : op.reason ≠ .publicationAttach) (hr : Ready c op) (now : Int) :
    Spent c.toCore (c.validateOrAdvance now none).2.toCore ∧
      ((c.validateOrAdvance now none).2 = c ∨ (c.validateOrAdvance now none).2.operation = none ∨
        ∃ op₁, (c.validateOrAdvance now none).2.operation = some op₁ ∧ op.cursor < op₁.cursor) := by
  have hcharge : Chargeable c.toCore op := fun h => by simp [hc] at h
  unfold validateOrAdvance
  simp only [ho, if_neg hroute]
  split
  · exact ⟨dropStaleOperation_spent op now _, Or.inr (Or.inl rfl)⟩
  · split
    · dsimp only
      rw [abortOperation_toCore]
      exact ⟨.aborted _, Or.inr (Or.inl (aborted_operation _))⟩
    · split
      · refine ⟨expireOperation_spent hcharge now, Or.inr (Or.inl ?_)⟩
        simp [expireOperation]
      · have hhead := advanceExpiredDirectHeadStart_spent hcharge now
        by_cases hdue : c.headStartPending op = true ∧ c.directHeadStartDeadlineAt op ≤ now
        · obtain ⟨-, op₁, hk, hlt⟩ := advanceExpiredDirectHeadStart_due ho hdue.1 hdue.2
          set c₁ := (c.advanceExpiredDirectHeadStart op now).2.2
          simp only [hk.operation]
          split
          · exact ⟨hhead.trans (dropStaleOperation_spent op₁ now _), Or.inr (Or.inl rfl)⟩
          · refine ⟨hhead.trans (advanceOperation_spent (fun h => by simp [hk.current] at h) now none _),
              Or.inr ?_⟩
            dsimp only
            cases ho₂ : (c₁.advanceOperation op₁ now none c.revision).2.operation with
            | none => exact Or.inl rfl
            | some op₂ =>
              obtain ⟨-, hcur, -⟩ := advanceOperation_idle_ready hk.operation hk.current ho₂
              exact Or.inr ⟨op₂, rfl, hcur ▸ hlt⟩
        · have hearly : c.advanceExpiredDirectHeadStart op now = _ :=
            advanceExpiredDirectHeadStart_early fun hp => not_le.1 fun hle => hdue ⟨hp, hle⟩
          simp only [hearly, ho]
          split
          · exact ⟨dropStaleOperation_spent op now _, Or.inr (Or.inl rfl)⟩
          · rw [advanceOperation_ready ho hc hr]
            exact ⟨.of_eq rfl, Or.inl rfl⟩

/-- **The reservation made before the gap fits the candidate after it**: what
    begins is the route at the cursor, and no assertion about the reservation
    fires. -/
theorem Resumes.begins {op op' : Operation} {t : CandidateTuple} (h : Resumes c op t op')
    (hroute : op.reason ≠ .publicationAttach) (hf : c.fault = none) {input : BeginInput}
    (hguard : input.guard.cursor = op'.cursor) (hkind : input.reservation.kind = expectedKind t) :
    (∀ f, (c.beginCurrentCandidate input).2.fault = some f →
      f ≠ .reservationKindMismatch ∧ f ≠ .overlapRequired) ∧
    ((c.beginCurrentCandidate input).1.accepted → ∃ op₁ att,
      (c.beginCurrentCandidate input).2.operation = some op₁ ∧ op₁.current = some att ∧ att.tuple = t) := by
  have hroute' : op'.reason ≠ .publicationAttach := h.reason ▸ hroute
  obtain ⟨hspent, hcase⟩ := validateOrAdvance_ready h.operation h.current hroute'
    ⟨h.version, _, h.plan, h.valid⟩ input.nowMs
  have hspace : ∀ {d : Core}, Spent c.toCore d → ∀ f, d.fault = some f →
      f ≠ .reservationKindMismatch ∧ f ≠ .overlapRequired := by
    intro d hd f hdf
    rcases hd with hd | hd
    · rw [hd, hf] at hdf
      cases hdf
    · rw [hd] at hdf
      cases hdf
      exact ⟨by simp, by simp⟩
  unfold beginCurrentCandidate
  generalize c.validateOrAdvance input.nowMs none = x at hspent hcase ⊢
  obtain ⟨checked, d⟩ := x
  dsimp only at hspent hcase ⊢
  rcases hcase with rfl | hnone | ⟨op₁, ho₁, hlt⟩
  · simp only [h.operation, h.current, Option.isSome_none, Bool.false_or, h.plan, h.valid, if_neg hroute']
    split
    · exact ⟨hspace (.of_eq rfl), fun h => by simp [rejectBegin] at h⟩
    · have hgap : (d.freePlan t).endpointTransition.kind ≠ .boundedGap := by simp [Core.freePlan]
      simp only [Bool.not_true, Bool.false_eq_true, if_false, if_neg hgap]
      have hassert : assertReservation t input.reservation
          ((d.freePlan t).endpointTransition.kind == .overlap) = none := by
        simp [assertReservation, hkind, Core.freePlan]
      split
      · exact ⟨hspace (.of_eq rfl), fun h => by simp [rejectBegin] at h⟩
      · split
        · next f hbegin =>
          refine ⟨fun f' hf' => ?_, fun h => by simp [rejectBegin] at h⟩
          have hraised : (d.raise f).fault = some f := by simp [Core.raise, hf]
          cases hraised.symm.trans hf'
          unfold beginFault at hbegin
          rw [show (d.freePlan t).tuple = t from rfl, hassert] at hbegin
          split_ifs at hbegin <;> cases hbegin <;> exact ⟨by simp, by simp⟩
        · refine ⟨hspace (d := d.toCore.bump) ((Spent.of_eq rfl).bump), fun _ => ⟨_, _, rfl, rfl, rfl⟩⟩
  · simp only [hnone]
    exact ⟨hspace hspent, fun h => by simp [rejectBegin] at h⟩
  · have hmiss : op₁.cursorGuardMatches input.guard = false := by
      unfold Operation.cursorGuardMatches
      split
      · rfl
      · have : ¬input.guard.cursor = op₁.cursor := by omega
        simp [this]
    simp only [ho₁, hmiss, Bool.not_false, Bool.or_true, if_true]
    exact ⟨hspace hspent, fun h => by simp [rejectBegin] at h⟩

/-! ## The gap -/

/-- What an accepted retirement did. -/
theorem retired_of_accepted {guard : CandidateCursorGuard} {now : Int}
    (h : (c.retireCurrentCandidateProducer guard now).1.accepted = true) :
    ∃ op plan retire restore retired d, (c.validateOrAdvance now none).2.operation = some op ∧
      op.current = none ∧ op.cursorGuardMatches guard = true ∧ op.planAt op.cursor = some plan ∧
      plan.endpointTransition.kind = .boundedGap ∧ plan.endpointTransition.retire = some retire ∧
      (c.validateOrAdvance now none).2.retireProducer retire = some (restore, retired, d) ∧
      let e := (d.advanceActiveRevision op).touchFacts.replanRemaining (some (nextTuple plan retire)) restore
      (c.retireCurrentCandidateProducer guard now).2 =
        if e.candidatesSpent then (e.validateOrAdvance now none).2 else e := by
  unfold retireCurrentCandidateProducer at h ⊢
  generalize c.validateOrAdvance now none = x at h ⊢
  obtain ⟨checked, c₁⟩ := x
  dsimp only at h ⊢
  split at h
  · cases h
  · next op ho =>
    split at h
    · cases h
    · next hg =>
      simp only [Bool.or_eq_true, not_or, Bool.not_eq_true, Option.isSome_eq_false_iff,
        Option.isNone_iff_eq_none] at hg
      split at h
      · cases h
      · next plan hplan =>
        split at h
        · cases h
        · next hbounded =>
          rw [not_not] at hbounded
          split at h
          · cases h
          · next retire hretire =>
            split at h
            · cases h
            · next restore retired d hret =>
              refine ⟨op, plan, retire, restore, retired, d, ho, hg.1, by simpa using hg.2, hplan, hbounded, hretire, hret, ?_⟩
              simp only [hg.1, hg.2, hbounded, Option.isSome_none,
                Bool.or_self, Bool.false_eq_true, if_false, ne_eq, not_true_eq_false]
              split_ifs <;> rfl

/-- Candidates of one key take one kind of reservation. -/
theorem expectedKind_of_key {t u : CandidateTuple} (h : tupleKey t = tupleKey u) :
    expectedKind t = expectedKind u := by
  have h := congrArg String.toList h
  unfold tupleKey at h
  unfold expectedKind
  cases ht : t.kind <;> cases hu : u.kind <;> simp only [ht, hu] at h ⊢
  · simp at h
  · simp at h
  · cases hp : t.publication <;> cases hq : u.publication <;> simp_all

theorem expectedKind_nextTuple : expectedKind (nextTuple plan retire) = expectedKind plan.tuple := by
  unfold nextTuple
  split
  · next h => simp [expectedKind, h.2.1, h.2.2]
  · rfl

/-- The retirement that a plan asked for: exactly the named copy is cut, the same
    route stands at the cursor with a copy for it, and the cut route comes after
    it as long as it is valid. -/
structure GapRetired (c c' : Controller) (op : Operation) (plan : CandidatePlan)
    (retire : EndpointRetirement) (op' : Operation) : Prop where
  retired : Retired c.toCore c'.toCore retire
  resumes : Resumes c' op (nextTuple plan retire) op'
  restored : retire.kind = .edge → ∀ e, c.edge retire.childPeerID = some e → e.usable →
    ∃ t, tupleKey t = tupleKey (cutRoute e) ∧
      ((∃ plan ∈ op'.candidates.drop op'.cursor, plan.tuple = t) ∨
        ∀ plan, c'.planCandidate op.childPeerID t = some plan →
          c'.operationCandidateValid op' plan none = false)

theorem gapRetired_of_accepted (h : c.Reachable) {guard : CandidateCursorGuard} {now : Int}
    (ha : (c.retireCurrentCandidateProducer guard now).1.accepted = true)
    (hf : (c.retireCurrentCandidateProducer guard now).2.fault = none) :
    ∃ op plan retire op', (c.validateOrAdvance now none).2.operation = some op ∧
      op.reason ≠ .publicationAttach ∧ op.cursorGuardMatches guard = true ∧
      op.planAt op.cursor = some plan ∧ plan.endpointTransition.kind = .boundedGap ∧
      plan.endpointTransition.retire = some retire ∧
      GapRetired (c.validateOrAdvance now none).2 (c.retireCurrentCandidateProducer guard now).2 op plan
        retire op' := by
  obtain ⟨op, plan, retire, restore, retired, e, ho, hc, hguard, hplan, hg, hr, hret, hres⟩ :=
    retired_of_accepted ha
  have hruns := c.validateOrAdvance_runs (v := .all) now none
  have hstand := validateOrAdvance_standing h.narrowed ho
  generalize (c.validateOrAdvance now none).2 = d at *
  have hroute : op.reason ≠ .publicationAttach := by
    rcases hstand with hstand | ⟨rfl, hattach, -⟩
    · exact hstand.route
    · obtain ⟨-, hcursor, plan', hplan', hk, -⟩ := h.attending op ho hattach
      rw [hcursor, hplan'] at hplan
      cases hplan
      exact absurd hg hk
  obtain ⟨hroom, hbooks, hrestored⟩ := d.retireProducer_retired hret
  have hcourse := (d.retireProducer_trim hret).1.sameCourse
  set e₁ := (e.advanceActiveRevision op).touchFacts with he₁
  have hcore : e₁.toCore = e.toCore.rebased := e.advanceActiveRevision_toCore op
  have hsound : d.Sound := by
    refine (invariant_of_runs (P := fun _ => True) (fun _ _ _ h => h) (runs_of_upkeep hruns) h.good.safe
      fun _ => trivial).1.sound ?_
    have hf₁ : (e₁.replanRemaining (some (nextTuple plan retire)) restore).fault = none := by
      rw [hres] at hf
      split at hf
      · obtain ⟨_, hadvance⟩ :=
          (e₁.replanRemaining (some (nextTuple plan retire)) restore).validateOrAdvance_runs (v := .all) now none
            false
        exact fault_before_of_chain (hadvance.mono fun h => .upkeep h) hf
      · exact hf
    cases hfd : d.fault with
    | none => rfl
    | some f =>
      have hbump := fault_bump (hcourse.fault.trans hfd)
      have : e₁.fault = some f := by
        rw [hcore]
        exact hbump
      exact absurd (this.symm.trans hf₁) (by simp)
  have hmem : plan ∈ op.candidates := List.mem_of_getElem? hplan
  have hlt := (List.getElem?_eq_some_iff.1 hplan).1
  obtain ⟨plan', hplan', hv⟩ : ∃ plan, op.planAt op.cursor = some plan ∧
      d.operationCandidateValid op plan none := by
    rcases hstand with hstand | ⟨-, hattach, -⟩
    · exact (hstand.ready hc).valid
    · exact absurd hattach hroute
  cases hplan.symm.trans hplan'
  have hout := ((hsound.working.outward op ho).candidates plan hmem).tuple
  have hroom₁ : Retired d.toCore e₁.toCore retire := by
    rw [hcore]
    exact hroom.keep (Core.sameRoom_rebased _) rfl rfl
  have hbooks₁ : e₁.books = d.books := (e.advanceActiveRevision_books op).trans hbooks
  have hvalid := fun (op₂ : Operation) (h₁ : op₂.childPeerID = op.childPeerID)
    (h₂ : op₂.reason = op.reason) => valid_retired hroom₁ hbooks₁ hsound.forest hout hv hg hr h₁ h₂
  have ho₁ : e₁.operation = some { op with baseRevision := e.toCore.bump.revision } := by
    rw [hcore, Core.rebased, hcourse.operation, ho]
    rfl
  obtain ⟨op', hresumes, hrest⟩ := @replanRemaining_resumes e₁ op _ _ restore ho₁ hc rfl rfl rfl hlt
    (hvalid op rfl rfl).1 fun op₂ h₁ h₂ => (hvalid op₂ h₁ h₂).2
  have hspent : (e₁.replanRemaining (some (nextTuple plan retire)) restore).candidatesSpent = false := by
    have := (List.getElem?_eq_some_iff.1 hresumes.plan).1
    unfold candidatesSpent
    rw [hresumes.operation]
    simpa using this
  rw [hres, hspent, if_neg Bool.false_ne_true]
  exact ⟨op, plan, retire, op', ho, hroute, hguard, hplan, hg, hr,
    hroom₁.keep ⟨_, _, _, _, _, _, _, rfl⟩ rfl rfl, hresumes, fun hk e he hu =>
    hrest _ (hrestored hk e he hu)⟩

/-- **The bounded gap leaves its candidate beginnable.**  An accepted retirement cuts
    exactly what the plan named and leaves the same route at the cursor, an SFU
    replacement as a creation; the reservation made for the plan begins it. -/
theorem bounded_gap {reply : Reply} {guard : CandidateCursorGuard} {now : Int} (h : c.Reachable)
    (hk : c.call (.retireCurrentCandidateProducer guard now) = .ok (reply, c'))
    (ha : reply.accepted = true) :
    ∃ op plan retire op', (c.validateOrAdvance now none).2.operation = some op ∧
      op.planAt op.cursor = some plan ∧ tupleKey guard.plan.tuple = tupleKey plan.tuple ∧
      plan.endpointTransition.kind = .boundedGap ∧ plan.endpointTransition.retire = some retire ∧
      GapRetired (c.validateOrAdvance now none).2 c' op plan retire op' ∧
      ∀ input : BeginInput, input.guard.cursor = op'.cursor →
        input.reservation.kind = expectedKind guard.plan.tuple →
        (∀ f, c'.call (.beginCurrentCandidate input) = .error f →
          f ≠ .reservationKindMismatch ∧ f ≠ .overlapRequired) ∧
        ∀ reply' c'', c'.call (.beginCurrentCandidate input) = .ok (reply', c'') → reply'.accepted →
          ∃ op'' att, c''.operation = some op'' ∧ op''.current = some att ∧
            att.tuple = nextTuple plan retire := by
  obtain ⟨hg, hrun⟩ := h.good.call hk
  have hc' : (c.retireCurrentCandidateProducer guard now).2 = c' := congrArg Prod.snd hrun
  have hreply : (c.retireCurrentCandidateProducer guard now).1.accepted = reply.accepted :=
    congrArg (fun x => x.1.accepted) hrun
  obtain ⟨op, plan, retire, op', ho, hroute, hguard, hplan, hgap, hr, hret⟩ :=
    gapRetired_of_accepted h (hreply.trans ha) (hc' ▸ hg.fault)
  rw [hc'] at hret
  have hkey : tupleKey guard.plan.tuple = tupleKey plan.tuple := by
    unfold Operation.cursorGuardMatches at hguard
    rw [hplan] at hguard
    simp only [candidatePlanEquals, Bool.and_eq_true, beq_iff_eq] at hguard
    exact hguard.2.1
  refine ⟨op, plan, retire, op', ho, hplan, hkey, hgap, hr, hret, fun input hcursor hkind => ?_⟩
  have hbegin := hret.resumes.begins hroute hg.fault hcursor
    (hkind.trans ((expectedKind_of_key hkey).trans expectedKind_nextTuple.symm))
  refine ⟨fun f hf => ?_, fun reply' c'' hok haccepted => ?_⟩
  · unfold Controller.call at hf
    split at hf
    · next f' hfault =>
      cases hf
      exact hbegin.1 f hfault
    · cases hf
  · have hrun' := (hg.call hok).2
    have hc'' : (c'.beginCurrentCandidate input).2 = c'' := congrArg Prod.snd hrun'
    have hreply' : (c'.beginCurrentCandidate input).1.accepted = reply'.accepted :=
      congrArg (fun x => x.1.accepted) hrun'
    rw [← hc'']
    exact hbegin.2 (hreply'.trans haccepted)


/-- A viewer that relays to nobody is fed by the Host. -/
def leafServed (child session connection : ID) (revision facts now : Int) : List Call :=
  .upsertParticipant { peerID := child, role := .viewer, sessionID := session
                       effectiveDownstreamCapacity := 0 } (some now) ::
    (served child session "host" connection revision facts now).tail

/-- The Host feeds three viewers and has no copy to spare; then one of them wants
    the SFU. -/
def hostFull : List Call :=
  .upsertParticipant hostInput (some 0) :: leafServed "v1" "s1" "c1" 0 2 1 ++
    leafServed "v2" "s2" "c2" 1 4 2 ++ leafServed "v3" "s3" "c3" 2 6 3 ++
    [.setViewerRoutePreference "v3" "s3" .sfu (some 4), .reconcile 4]

/-- The guard of the publication that the Host's last copy gives way to. -/
def gapGuard : CandidateCursorGuard :=
  { childPeerID := "v3", childSessionID := "s3", baseRevision := 3, factVersion := 8, cursor := 0
    plan := { tuple := { kind := .sfu, publication := .create }
              endpointTransition :=
                { kind := .boundedGap, producerPeerID := some "host"
                  retire := some { kind := .edge, childPeerID := "v3", childSessionID := "s3"
                                   parentPeerID := "host", parentSessionID := "h1"
                                   transport := .direct, connectionID := "c3" } } } }

theorem bounded_gap_hostFull : ∃ c c' : Controller, ∃ reply op', c.Reachable ∧
    c.call (.retireCurrentCandidateProducer gapGuard 5) = .ok (reply, c') ∧ reply.accepted ∧
    c'.operation = some op' ∧ ∃ plan, op'.planAt op'.cursor = some plan := by
  have h : ∃ c c' : Controller, ∃ reply, c.Reachable ∧
      c.call (.retireCurrentCandidateProducer gapGuard 5) = .ok (reply, c') ∧ reply.accepted = true :=
    ⟨_, _, _, ⟨smallRoom, 0, _, hostFull, rfl, rfl⟩, rfl, rfl⟩
  obtain ⟨c, c', reply, hc, hk, ha⟩ := h
  obtain ⟨op, plan, retire, op', -, -, -, -, -, hret, -⟩ := bounded_gap hc hk ha
  exact ⟨c, c', reply, op', hc, hk, ha, hret.resumes.operation, _, hret.resumes.plan⟩

end Controller

end Piik.Route
