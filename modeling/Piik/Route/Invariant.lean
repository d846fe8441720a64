/-
  The committed graph is sound in every state that exported calls reach, and no
  assertion about it ever fires.
-/
import Piik.Route.Graft

namespace Piik.Route

open Piik.Route.Core

variable {v : Licence} {b b' : Bool} {a r : List Resource} {c c' : Core}

/-! ## Faults -/

/-- The first panic stays. -/
theorem fault_raise {f : Fault} (g : Fault) (h : c.fault = some f) : (c.raise g).fault = some f := by
  simp [raise, h]

theorem fault_bump {f : Fault} (h : c.fault = some f) : c.bump.fault = some f := by
  simp only [bump, allocateRevision]
  split <;> simp [h]

theorem fault_bump_cases (c : Core) : c.bump.fault = c.fault ∨
    c.fault = none ∧ c.bump.fault = some .revisionSpaceExhausted := by
  simp only [bump, allocateRevision]
  split
  · cases hf : c.fault <;> simp
  · exact Or.inl rfl

/-- Allocating revisions raises nothing but the end of their space. -/
def Spent (c d : Core) : Prop := d.fault = c.fault ∨ d.fault = some .revisionSpaceExhausted

theorem Spent.of_eq (h : c'.fault = c.fault) : Spent c c' := Or.inl h

theorem Spent.trans {c'' : Core} (h : Spent c c') (h' : Spent c' c'') : Spent c c'' := by
  rcases h' with h' | h'
  · exact h.imp h'.trans h'.trans
  · exact Or.inr h'

theorem Spent.bump (h : Spent c c') : Spent c c'.bump := by
  rcases fault_bump_cases c' with hb | ⟨-, hb⟩
  · exact h.imp hb.trans hb.trans
  · exact Or.inr hb

theorem Spent.aborted (c : Core) : Spent c c.aborted := by
  unfold Core.aborted
  split
  · exact .of_eq rfl
  · split
    · exact (Spent.of_eq rfl).bump
    · exact .of_eq rfl

theorem fault_checkGraph {f : Fault} (h : c.fault = some f) : c.checkGraph.fault = some f := by
  unfold checkGraph
  split
  · exact fault_raise _ h
  · exact h

theorem fault_committed {f : Fault} {op : Operation} {att : Attempt} {old : Option CommittedEdge}
    {m : OMap ID DirectContinuation} (h : c.fault = some f) :
    (c.committed op att old m).fault = some f := by
  have hi : (c.install op att).fault = some f := by
    unfold Core.install
    split
    · unfold installPeer
      split
      · exact fault_raise _ h
      · split
        · exact fault_raise _ h
        · exact h
    · unfold installSfu installPublication setEdge
      dsimp only
      split_ifs
      · exact h
      · exact fault_raise _ h
      · exact fault_raise _ h
      · exact h
  unfold committed
  refine fault_checkGraph ?_
  unfold dropReplacedPublication publish
  dsimp only
  split
  · split <;> exact hi
  · exact hi

theorem Trim.sameCourse {L : Core → ID → CommittedEdge → Prop} (h : Trim L r c c') :
    SameCourse c c' := h.1.sameCourse

theorem Replaced.sameCourse {att : Attempt} (h : Replaced att c c') : SameCourse c c' := by
  unfold Replaced at h
  split at h
  · obtain ⟨_, _, -, -, ht⟩ := h
    exact ht.sameCourse
  · exact h ▸ .refl c

theorem aborted_operation (c : Core) : c.aborted.operation = none := by
  unfold aborted
  split <;> simp_all

theorem aborted_fault {f : Fault} (h : c.fault = some f) : c.aborted.fault = some f := by
  unfold aborted
  split
  · exact h
  · split
    · exact fault_bump h
    · exact h

theorem Upkeep.fault_kept {f : Fault} (h : Upkeep v b b' a r c c') (hf : c.fault = some f) :
    c'.fault = some f := by
  cases h with
  | trims _ ht => exact fault_bump (ht.sameCourse.fault.trans hf)
  | trimsMarked _ ht => exact ht.sameCourse.fault.trans hf
  | halts _ hc => simp [hc, hf]
  | begins | attaches | abandons | detaches | unattached => exact fault_bump hf
  | _ => exact hf

theorem Accepted.fault_kept {f : Fault} (h : Accepted r c c') (hf : c.fault = some f) :
    c'.fault = some f := by
  cases h with
  | attached => exact hf
  | commits _ _ _ _ _ hr _ => exact fault_committed (hr.sameCourse.fault.trans hf)

theorem Step.fault_kept {f : Fault} (h : Step v b b' a r c c') (hf : c.fault = some f) :
    c'.fault = some f := by
  cases h with
  | upkeep h => exact h.fault_kept hf
  | gap _ ht => exact fault_bump (ht.sameCourse.fault.trans hf)
  | accepts _ h => exact h.fault_kept hf
  | reshapes h _ => exact h.fault.trans hf
  | moves => exact fault_checkGraph (fault_bump (aborted_fault hf))
  | disposes => exact hf

/-! ## Soundness, step by step -/

theorem Reshaped.edge_cases (h : Reshaped c c') {q : ID} {e' : CommittedEdge}
    (he' : c'.edge q = some e') : ∃ e, c.edge q = some e ∧ SameShape e e' := by
  obtain ⟨f, hf, heq⟩ := h.edge (p := q)
  rw [heq] at he'
  obtain ⟨e, he, rfl⟩ := Option.map_eq_some_iff.1 he'
  exact ⟨e, he, hf e⟩

theorem Reshaped.publication_cases (h : Reshaped c c') {q : HostPublication}
    (hq : c.hostPublication = some q) : ∃ q', c'.hostPublication = some q' ∧ SamePublication q q' := by
  obtain ⟨g, hg, heq⟩ := h.publication
  exact ⟨g q, by rw [heq, hq]; rfl, hg q⟩

theorem Reshaped.rootStep (h : Reshaped c c') (q : ID) : c'.rootStep q = c.rootStep q := by
  obtain ⟨f, hf, heq⟩ := h.edge (p := q)
  refine rootStep_congr h.hostPeerID ?_
  rw [heq, Option.map_map]
  congr 1
  funext e
  simp [shape, (hf e).kind, (hf e).parentPeerID]

theorem Reshaped.copiesOf (h : Reshaped c c') (x : ID) : c'.copiesOf x ⊆ c.copiesOf x := by
  intro q hq
  obtain ⟨e', he', hk, hp, ha⟩ := mem_copiesOf.1 hq
  obtain ⟨e, he, hs⟩ := h.edge_cases he'
  exact mem_copiesOf.2 ⟨e, he, hs.kind ▸ hk, hs.parentPeerID ▸ hp, hs.physicalActive ▸ ha⟩

/-- New facts keep the forest. -/
theorem Reshaped.forest (h : Reshaped c c') (hf : c.Forest) : c'.Forest := by
  have hpub : ∀ q', c'.hostPublication = some q' → ∃ q, c.hostPublication = some q ∧
      SamePublication q q' := fun q' hq' => by
    obtain ⟨g, hg, heq⟩ := h.publication
    rw [heq] at hq'
    obtain ⟨q, hq, rfl⟩ := Option.map_eq_some_iff.1 hq'
    exact ⟨q, hq, hg q⟩
  refine ⟨h.peopled hf.peopled, ⟨fun p e' he' hk => ?_, ?_, h.patient hf.outward⟩, fun p e' he' => ?_,
    fun p e' he' hk => ?_, fun p e' he' => ?_, fun p e' he' hk ha => ?_, fun p e' he' hk ha => ?_,
    fun q' hq' => ?_, ?_, fun x => ?_⟩
  · obtain ⟨e, he, hs⟩ := h.edge_cases he'
    exact hs.parentPeerID ▸ hf.outward.edge p e he (hs.kind ▸ hk)
  · obtain ⟨f, -, heq⟩ := h.edge (p := c.hostPeerID)
    rw [h.hostPeerID, heq, hf.outward.host]
    rfl
  · obtain ⟨e, he, -⟩ := h.edge_cases he'
    exact h.kept p (hf.child p e he)
  · obtain ⟨e, he, hs⟩ := h.edge_cases he'
    exact h.kept _ (hs.parentPeerID ▸ hf.parent p e he (hs.kind ▸ hk))
  · obtain ⟨e, he, -⟩ := h.edge_cases he'
    exact (hf.rooted p e he).mono h.rootStep
  · obtain ⟨e, he, hs⟩ := h.edge_cases he'
    obtain ⟨q, hq, hg⟩ := hf.active p e he (hs.kind ▸ hk) (hs.physicalActive ▸ ha)
    obtain ⟨q', hq', hs'⟩ := h.publication_cases hq
    exact ⟨q', hq', by rw [hs'.generation, hg, hs.publicationGeneration]⟩
  · obtain ⟨e, he, hs⟩ := h.edge_cases he'
    rw [h.retiring, hs.publicationGeneration]
    exact hf.retiring p e he (hs.kind ▸ hk) (hs.physicalActive ▸ ha)
  · obtain ⟨q, hq, hs⟩ := hpub q' hq'
    exact hs.physicalActive ▸ hf.publication q hq
  · rw [h.hostPeerID]
    refine hf.host.imp (h.kept _) fun hn => ⟨fun p => ?_, ?_⟩
    · obtain ⟨f, -, heq⟩ := h.edge (p := p)
      rw [heq, hn.1 p]
      rfl
    · obtain ⟨g, -, heq⟩ := h.publication
      rw [heq, hn.2]
      rfl
  · refine (physicalCopies_le (h.copiesOf x) h.hostPeerID fun ha => ?_).trans (hf.copies x)
    unfold publicationActive at ha ⊢
    split at ha
    · next q' hq' =>
      obtain ⟨q, hq, hs⟩ := hpub q' hq'
      rw [hq, ← ha, hs.physicalActive]
    · cases ha

theorem Reshaped.anchored (h : Reshaped c c') (ha : c.Anchored) : c'.Anchored := by
  intro g hg
  rw [h.retiring] at hg
  obtain ⟨q, e, he, hk, hi, hgen⟩ := (hasRetiringAnchor_iff c).1 (ha g hg)
  obtain ⟨f, hf, heq⟩ := h.edge (p := q)
  refine (hasRetiringAnchor_iff c').2 ⟨q, f e, by rw [heq, he]; rfl, ?_, ?_, ?_⟩
  · rw [(hf e).kind, hk]
  · rw [(hf e).physicalActive, hi]
  · rw [(hf e).publicationGeneration, hgen]

/-- Another operation for the same child. -/
theorem Core.Working.of_operation (hw : c.Working) {op op' : Operation} (ho : c.operation = some op)
    (ho' : c'.operation = some op') (hhost : c'.hostPeerID = c.hostPeerID)
    (hchild : op'.childPeerID = op.childPeerID) (hreason : op'.reason = op.reason)
    (hout : op.Outward → op'.Outward)
    (hatt : ∀ att', op'.current = some att' → ∃ att, op.current = some att ∧ SameAttempt att att' ∧
      op'.planAt op'.cursor = op.planAt op.cursor) : c'.Working := by
  have key : ∀ op₁, c'.operation = some op₁ → op₁ = op' := fun op₁ h =>
    Option.some.inj (h.symm.trans ho')
  refine ⟨fun op₁ h => ?_, fun op₁ h => ?_, fun op₁ att' h hr hc hk => ?_,
    fun op₁ att' h hr hc hk => ?_, fun op₁ att' h hr hc hk hp => ?_, fun op₁ att' plan h hr hc hp => ?_⟩
  all_goals obtain rfl := key op₁ h
  · rw [hchild, hhost]
    exact hw.child op ho
  · exact hout (hw.outward op ho)
  all_goals obtain ⟨att, hatt, hs, hplan⟩ := hatt att' hc
  · rw [hs.hostSessionID]
    exact hw.host op att ho (hreason ▸ hr) hatt (hs.tuple ▸ hk)
  · rw [hs.publicationGeneration]
    exact hw.generation op att ho (hreason ▸ hr) hatt (hs.tuple ▸ hk)
  · rw [hs.publicationConnectionID]
    exact hw.ingress op att ho (hreason ▸ hr) hatt (hs.tuple ▸ hk) (hs.tuple ▸ hp)
  · rw [hs.tuple]
    exact hw.aligned op att plan ho (hreason ▸ hr) hatt (hplan ▸ hp)

/-- A child is not the Host. -/
theorem Core.Forest.child_ne_host (hf : c.Forest) {p : ID} (h : c.IsChild p) : p ≠ c.hostPeerID := by
  rcases h with ⟨x, hx, rfl, hr⟩ | he
  · obtain ⟨q, hq⟩ := OMap.mem_values.1 hx
    intro hp
    have := (hf.peopled.role q x hq).2 ((hf.peopled.peerID q x hq).symm.trans hp)
    simp [hr] at this
  · rintro rfl
    simp [hf.outward.host] at he

/-- Rebasing keeps the operation of an idle controller. -/
theorem working_rebased (hw : c.Working) (hi : c.Idle) : c.rebased.Working := by
  cases ho : c.operation with
  | none => exact working_of_none (by simp [rebased, ho])
  | some op =>
    have ho' : c.rebased.operation = some { op with baseRevision := c.bump.revision } := by
      simp [rebased, ho]
    refine hw.of_operation ho ho' rfl rfl rfl (fun h => ⟨h.1, h.2⟩) fun att' h => ?_
    have : op.current = none := hi op ho
    simp [this] at h

/-- Only the operation and the revision change. -/
theorem Core.Sound.withCourse (hs : c.Sound) (o : Option Operation) (rev lat : Int) (f : Option Fault)
    (hw : { c with operation := o, revision := rev, latest := lat, fault := f }.Working) :
    { c with operation := o, revision := rev, latest := lat, fault := f }.Sound :=
  ⟨hs.forest.withCourse o rev lat f, hs.anchored, hw⟩

/-- An edge's picture changes. -/
theorem reshaped_picture (c : Core) (p : ID) (f : CommittedEdge → CommittedEdge)
    (hf : ∀ e, SameShape e (f e)) :
    Reshaped c { c with upstreamByViewer := c.upstreamByViewer.modify p f } := by
  refine ⟨rfl, fun h => h.of_eq rfl rfl rfl rfl, fun _ => id,
    ⟨fun q e => if q = p then f e else e, fun q e => ?_, OMap.modify_eq_mapValues _ _ _⟩,
    ⟨id, fun _ => ⟨rfl, rfl, rfl⟩, by simp⟩, rfl, Core.Outward.patient, rfl, rfl, rfl, rfl⟩
  dsimp only
  split
  · exact hf e
  · exact ⟨rfl, rfl, rfl, rfl, rfl⟩

theorem Trim.sound {L : Core → ID → CommittedEdge → Prop} (h : Trim L r c c') (hs : c.Sound)
    (hi : c.Idle) : c'.rebased.Sound := by
  have hcourse := h.sameCourse
  have hw : c'.Working := by
    cases ho : c.operation with
    | none => exact working_of_none (hcourse.operation.trans ho)
    | some op =>
      refine hs.working.of_operation ho (hcourse.operation.trans ho) hcourse.hostPeerID rfl rfl id
        fun att' ha => ?_
      simp [hi op ho] at ha
  have hi' : c'.Idle := fun op ho => hi op (hcourse.operation ▸ ho)
  exact ⟨(h.1.forest hs.forest).withCourse _ _ _ _, h.2 hs.anchored, working_rebased hw hi'⟩

/-- Maintenance keeps the graph sound. -/
theorem Upkeep.sound (h : Upkeep v b b' a r c c') (hs : c.Sound) (hfault : c'.fault = none) :
    c'.Sound := by
  have hw := hs.working
  have hout : ∀ op, c.operation = some op → op.Outward := hw.outward
  cases h with
  | @plan _ _ op op' ho hsame hcur hplan ho' =>
    refine hs.withCourse _ _ _ _ (hw.of_operation ho rfl rfl hsame.childPeerID hsame.reason
      (fun h => (ho' hs.forest.outward h).1) fun att' ha => ⟨att', hcur ▸ ha, .refl _, ?_⟩)
    exact hplan (by rw [← hcur, ha]; rfl)
  | defers hm =>
    have hf := hs.forest
    exact ⟨⟨hf.peopled.of_eq rfl rfl rfl rfl,
      ⟨hf.outward.1, hf.outward.2, hm hf.outward⟩, hf.child, hf.parent, hf.rooted, hf.active,
      hf.retiring, hf.publication, hf.host, hf.copies⟩, hs.anchored, hw.1, hw.2, hw.3, hw.4, hw.5, hw.6⟩
  | @note _ _ op att att' ho hc hsame =>
    refine hs.withCourse _ _ _ _ (hw.of_operation ho rfl rfl rfl rfl (fun h => ⟨h.1, h.2⟩)
      fun att'' ha => ⟨att, hc, ?_, rfl⟩)
    cases ha
    exact hsame
  | @opens _ _ op ho hc _ hchild ho' =>
    refine hs.withCourse _ _ _ _ ⟨fun op₁ h => ?_, fun op₁ h => ?_, fun op₁ _ h _ hc' => ?_,
      fun op₁ _ h _ hc' => ?_, fun op₁ _ h _ hc' => ?_, fun op₁ _ _ h _ hc' => ?_⟩ <;> cases h
    · exact hs.forest.child_ne_host hchild
    · exact ho' hs.forest.outward
    all_goals simp [hc] at hc'
  | @begins _ _ op plan att ho _ _ _ hp hb =>
    refine hs.withCourse _ _ _ _ ⟨fun op₁ h => ?_, fun op₁ h => ?_, fun op₁ att₁ h _ hc' => ?_,
      fun op₁ att₁ h _ hc' => ?_, fun op₁ att₁ h _ hc' => ?_, fun op₁ att₁ plan₁ h _ hc' hp₁ => ?_⟩ <;>
      cases h
    · exact hw.child op ho
    · exact ⟨(hout op ho).1, (hout op ho).2⟩
    all_goals cases hc'
    · exact hb.host
    · exact hb.generation
    · exact hb.ingress
    · cases hp.symm.trans hp₁
      exact hb.tuple.symm
  | @attaches _ _ op att ho _ _ hr =>
    refine hs.withCourse _ _ _ _ ⟨fun op₁ h => ?_, fun op₁ h => ?_, fun op₁ _ h hr' => ?_,
      fun op₁ _ h hr' => ?_, fun op₁ _ h hr' => ?_, fun op₁ _ _ h hr' => ?_⟩ <;> cases h
    · exact hw.child op ho
    · exact ⟨(hout op ho).1, (hout op ho).2⟩
    all_goals exact absurd hr hr'
  | @abandons _ _ op att ho hc =>
    exact hs.withCourse _ _ _ _ (hw.of_operation ho rfl rfl rfl rfl (fun h => ⟨h.1, h.2⟩)
      fun att' ha => by cases ha)
  | closes | detaches => exact hs.withCourse _ _ _ _ (working_of_none rfl)
  | @unattached _ _ op ho hr =>
    have h := reshaped_picture c op.childPeerID (fun e => { e with
      videoGeneration := op.videoGeneration, videoConnectionID := "", videoReady := false })
      fun _ => ⟨rfl, rfl, rfl, rfl, rfl⟩
    exact ⟨(h.forest hs.forest).withCourse _ _ _ _, h.anchored hs.anchored, working_of_none rfl⟩
  | trims hi ht => exact ht.sound hs hi
  | trimsMarked ho ht =>
    exact ⟨ht.1.forest hs.forest, ht.2 hs.anchored, working_of_none (ht.sameCourse.operation.trans ho)⟩
  | halts _ hc => simp [hc] at hfault
  | echoes => exact hs

/-- A graph that starts over is sound. -/
theorem sound_of_empty (hpeople : c.Peopled) (hedges : c.upstreamByViewer = .empty)
    (hpub : c.hostPublication = none) (hret : c.retiringPublicationGenerations = .empty)
    (hdir : c.directContinuations = .empty) (ho : c.operation = none) : c.Sound := by
  have hedge : ∀ p, c.edge p = none := fun p => by simp [Core.edge, hedges]
  refine ⟨⟨hpeople, ⟨fun p e he => by simp [hedge] at he, hedge _, fun p d hd => by simp [hdir] at hd⟩,
    fun p e he => by simp [hedge] at he, fun p e he => by simp [hedge] at he,
    fun p e he => by simp [hedge] at he, fun p e he => by simp [hedge] at he,
    fun p e he => by simp [hedge] at he, fun p hp => by simp [hpub] at hp, Or.inr ⟨hedge, hpub⟩,
    fun p => ?_⟩, fun g hg => by simp [hret] at hg, working_of_none ho⟩
  have hcopies : c.copiesOf p = ∅ := by
    refine Finset.eq_empty_of_forall_notMem fun q hq => ?_
    obtain ⟨e, he, -⟩ := mem_copiesOf.1 hq
    simp [hedge] at he
  rw [physicalCopies_eq, hcopies]
  simp [publicationActive, hpub, maxRelayVolunteerChildren, maxViewersPerRoomLimit]

/-- The Host under its new ID. -/
theorem moved_sound (hs : c.Sound) {host' : Participant} (hrole : host'.role = .host)
    (hnew : c.participant host'.peerID = none)
    (hcap : c.Rated host') :
    (c.aborted.rehosted host').bump.checkGraph.Sound ∧
      (c.aborted.rehosted host').bump.checkGraph.fault = (c.aborted.rehosted host').bump.fault := by
  obtain ⟨rev, lat, f, ha⟩ := Controller.aborted_eq c
  have hp := hs.forest.peopled
  set d := (c.aborted.rehosted host').bump with hd
  have hget : ∀ p q, d.participant p = some q →
      p = host'.peerID ∧ q = host' ∨ p ≠ host'.peerID ∧ p ≠ c.hostPeerID ∧ c.participant p = some q := by
    intro p q hq
    have hq : ((c.participants.delete c.hostPeerID).set host'.peerID host').get p = some q := by
      simpa [hd, ha, rehosted, bump, allocateRevision, Core.participant] using hq
    rw [OMap.get_set] at hq
    split at hq
    · cases hq
      exact Or.inl ⟨‹_›, rfl⟩
    · rw [OMap.get_delete] at hq
      split at hq
      · cases hq
      · exact Or.inr ⟨‹_›, ‹_›, hq⟩
  have hid : d.hostPeerID = host'.peerID := rfl
  have hcapd : d.endpointMediaCopyCapacity = c.endpointMediaCopyCapacity := by
    simp [hd, ha, rehosted, bump, allocateRevision]
  have htimed : d.operationTimeoutMs = c.operationTimeoutMs := by
    simp [hd, ha, rehosted, bump, allocateRevision]
  have hrated : ∀ q, c.Rated q → d.Rated q := fun q h => by
    unfold Rated effectiveCapacity at *
    rwa [hcapd]
  have hpeople : d.Peopled := by
    refine ⟨hcapd ▸ hp.capacity, hcapd ▸ hp.positive, htimed ▸ hp.timeout, fun p q hq => ?_,
      fun p q hq => ?_, fun p q hq => ?_⟩
    · rcases hget p q hq with ⟨rfl, rfl⟩ | ⟨-, -, hq⟩
      · rfl
      · exact hp.peerID p q hq
    · rcases hget p q hq with ⟨rfl, rfl⟩ | ⟨hn, hn', hq⟩
      · simp [hrole, hid]
      · rw [hp.role p q hq, hid]
        exact ⟨fun h => absurd h hn', fun h => absurd h hn⟩
    · rcases hget p q hq with ⟨rfl, rfl⟩ | ⟨-, -, hq⟩
      · exact hrated _ hcap
      · exact hrated _ (hp.rated p q hq)
  have hsound : d.Sound := sound_of_empty hpeople rfl rfl rfl rfl
    (by simp [hd, ha, rehosted, bump, allocateRevision])
  have hpresent : (d.participant d.hostPeerID).isSome := by
    simp [hd, rehosted, bump, allocateRevision, Core.participant]
  have hcheck : d.checkGraph = d := by
    unfold checkGraph
    rw [assertGraph_none hsound.forest hsound.anchored hpresent]
  rw [hcheck]
  exact ⟨hsound, rfl⟩

/-- An accepted commit keeps the graph sound, and none of its panics fires. -/
theorem Accepted.sound (h : Accepted r c c') (hs : c.Sound) : c'.Sound ∧ c'.fault = c.fault := by
  cases h with
  | @attached _ op att e =>
    have h := reshaped_picture c op.childPeerID (fun e => { e with
      videoGeneration := op.videoGeneration, videoConnectionID := att.connectionID, videoReady := true })
      fun _ => ⟨rfl, rfl, rfl, rfl, rfl⟩
    exact ⟨⟨(h.forest hs.forest).withCourse _ _ _ _, h.anchored hs.anchored, working_of_none rfl⟩, rfl⟩
  | commits ho hr hc hp hv hrep hm =>
    obtain ⟨e, pub, -, heq, hsound, hfault, -⟩ := committed_settled hs ho hr hc hp hv hrep
      (hm hs.forest.outward (hs.working.outward _ ho))
    rw [heq]
    exact ⟨hsound, hfault⟩

/-- **Every step keeps the graph sound.** -/
theorem Step.sound (h : Step v b b' a r c c') (hs : c.Sound) (hfault : c'.fault = none) :
    c'.Sound := by
  have hw := hs.working
  cases h with
  | upkeep h => exact h.sound hs hfault
  | gap hi ht => exact ht.sound hs hi
  | accepts _ h => exact (h.sound hs).1
  | reshapes h _ =>
    refine ⟨h.forest hs.forest, h.anchored hs.anchored, ?_⟩
    cases ho : c.operation with
    | none => exact working_of_none (h.operation.trans ho)
    | some op =>
      exact hw.of_operation ho (h.operation.trans ho) h.hostPeerID rfl rfl id
        fun att ha => ⟨att, ha, .refl _, rfl⟩
  | moves _ hrole hnew hcap => exact (moved_sound hs hrole hnew hcap).1
  | disposes _ =>
    exact sound_of_empty (peopled_of_empty hs.forest.peopled.capacity hs.forest.peopled.positive
      hs.forest.peopled.timeout rfl)
      rfl rfl rfl rfl rfl

/-- **No step raises a panic of the graph.** -/
theorem Step.graph_fault (h : Step v b b' a r c c') (hs : c.fault = none → c.Sound) {f : Fault}
    (hf : c'.fault = some f) : c.fault = some f ∨ f.isGraph = false := by
  have hbump : ∀ {d : Core}, Spent c d → d.bump.fault = some f →
      c.fault = some f ∨ f.isGraph = false := fun hd h => by
    rcases hd.bump with hb | hb
    · exact Or.inl (hb ▸ h)
    · rw [hb] at h
      cases h
      exact Or.inr rfl
  cases hc : c.fault with
  | some g =>
    rw [h.fault_kept hc] at hf
    exact Or.inl hf
  | none =>
    have hs := hs hc
    have hw := hs.working
    rw [← hc]
    cases h with
    | upkeep h =>
      cases h with
      | begins | attaches | abandons | detaches | unattached => exact hbump (.of_eq rfl) hf
      | trims _ ht => exact hbump (.of_eq ht.sameCourse.fault) hf
      | trimsMarked _ ht => exact Or.inl (ht.sameCourse.fault ▸ hf)
      | halts hg hh =>
        rw [hh, hc] at hf
        cases hf
        exact Or.inr hg
      | _ => exact Or.inl hf
    | gap _ ht => exact hbump (.of_eq ht.sameCourse.fault) hf
    | accepts _ h => exact Or.inl ((h.sound hs).2 ▸ hf)
    | reshapes h _ => exact Or.inl (h.fault ▸ hf)
    | moves _ hrole hnew hcap =>
      rw [(moved_sound hs hrole hnew hcap).2] at hf
      exact hbump (.aborted c) hf
    | disposes => exact Or.inl hf

/-! ## Whole runs -/

/-- No panic of the graph, and a sound graph as long as there is no panic. -/
structure Safe (c : Core) : Prop where
  fault : ∀ f, c.fault = some f → f.isGraph = false
  sound : c.fault = none → c.Sound

theorem Step.fault_before (h : Step v b b' a r c c') (hf : c'.fault = none) : c.fault = none := by
  cases hc : c.fault with
  | none => rfl
  | some g => simp [h.fault_kept hc] at hf

theorem Step.safe (h : Step v b b' a r c c') (hs : Safe c) : Safe c' := by
  refine ⟨fun f hf => ?_, fun hf => ?_⟩
  · exact (h.graph_fault hs.sound hf).elim (hs.fault f) id
  · exact h.sound (hs.sound (h.fault_before hf)) hf

/-- What every step preserves, a run preserves, as long as nothing panics. -/
theorem invariant_of_runs {P : Core → Prop}
    (hP : ∀ {b b' a r c c'}, Step v b b' a r c c' → c.Sound → c'.fault = none → P c → P c')
    (h : Runs (Step v) a r c c') (hs : Safe c) (hc : c.fault = none → P c) :
    Safe c' ∧ (c'.fault = none → P c') := by
  obtain ⟨_, h⟩ := h false
  refine h.invariant (P := fun c => Safe c ∧ (c.fault = none → P c))
    (fun h hs => ⟨h.safe hs.1, fun hf => ?_⟩) ⟨hs, hc⟩
  have hf' := h.fault_before hf
  exact hP h (hs.1.sound hf') hf (hs.2 hf')

/-! ## The Host -/

/-- The Host is a participant. -/
def Core.Hosted (c : Core) : Prop := (c.participant c.hostPeerID).isSome

theorem Core.Hosted.of_eq (h : c.Hosted) (hp : c'.participants = c.participants)
    (hh : c'.hostPeerID = c.hostPeerID) : c'.Hosted := by
  unfold Core.Hosted Core.participant at *
  rw [hp, hh]
  exact h

/-- A removal takes viewers only. -/
theorem Cut.hosted {L : Core → ID → CommittedEdge → Prop} (h : Cut L r c c') (hf : c.Forest)
    (hh : c.Hosted) : c'.Hosted := by
  unfold Core.Hosted at *
  rw [h.sameCourse.hostPeerID]
  rcases h.participant c.hostPeerID with hp | ⟨-, -, -, x, hx, hr, -⟩
  · rwa [hp]
  · simp [(hf.peopled.role _ x hx).2 rfl] at hr

theorem Cuts.hosted {L : Core → ID → CommittedEdge → Prop} (h : Cuts L r c c') (hf : c.Forest)
    (hh : c.Hosted) : c'.Hosted := by
  induction h with
  | refl => exact hh
  | head hd _ ih => exact ih (hd.forest hf) (hd.hosted hf hh)

theorem Replaced.hosted {att : Attempt} (h : Replaced att c c') (hf : c.Forest) (hh : c.Hosted) :
    c'.Hosted := by
  unfold Replaced at h
  split at h
  · obtain ⟨_, _, -, -, ht⟩ := h
    exact ht.1.hosted hf hh
  · exact h ▸ hh

theorem checkGraph_participants (c : Core) : c.checkGraph.participants = c.participants ∧
    c.checkGraph.hostPeerID = c.hostPeerID := by
  unfold checkGraph
  split <;> exact ⟨rfl, rfl⟩

/-- What a commit leaves alone. -/
theorem committed_eq (c : Core) (op : Operation) (att : Attempt) (old : Option CommittedEdge)
    (k : OMap ID DirectContinuation) : ∃ m p g f, c.committed op att old k = { c with
      upstreamByViewer := m, hostPublication := p, retiringPublicationGenerations := g
      directContinuations := k, revision := att.revision, operation := none, fault := f } := by
  obtain ⟨m, p, f, hi⟩ : ∃ m p f, c.install op att =
      { c with upstreamByViewer := m, hostPublication := p, fault := f } := by
    unfold Core.install installPeer installSfu installPublication setEdge
    dsimp only
    split
    · split
      · exact ⟨_, _, _, rfl⟩
      · split <;> exact ⟨_, _, _, rfl⟩
    · split_ifs <;> exact ⟨_, _, _, rfl⟩
  unfold committed checkGraph dropReplacedPublication publish
  dsimp only
  rw [hi]
  split <;> split <;> (try split) <;> exact ⟨_, _, _, _, rfl⟩

/-- Only the end of the controller takes the Host away. -/
theorem Step.hosted (h : Step v b b' a r c c') (hv : v.ends = false) (hf : c.Forest)
    (hh : c.Hosted) (hfault : c'.fault = none) : c'.Hosted := by
  cases h with
  | upkeep h =>
    cases h with
    | trims _ ht => exact ht.1.hosted hf hh
    | trimsMarked _ ht => exact ht.1.hosted hf hh
    | halts _ hc => simp [hc] at hfault
    | _ => exact hh
  | gap _ ht => exact ht.1.hosted hf hh
  | accepts _ h =>
    cases h with
    | attached => exact hh
    | commits _ _ _ _ _ hr _ =>
      obtain ⟨_, _, _, _, heq⟩ := committed_eq _ _ _ _ _
      exact (hr.hosted hf hh).of_eq (by rw [heq]) (by rw [heq])
  | reshapes h _ =>
    unfold Core.Hosted at *
    rw [h.hostPeerID]
    exact h.kept _ hh
  | @moves _ host host' =>
    obtain ⟨hp, hq⟩ := checkGraph_participants (c.aborted.rehosted host').bump
    exact Hosted.of_eq
      (by simp [Core.Hosted, rehosted, Core.participant, bump, allocateRevision]) hp hq
  | disposes h => simp [h] at hv

namespace Controller

/-- A controller without a panic whose core is sound. -/
structure Good (c : Controller) : Prop where
  fault : c.fault = none
  sound : c.Sound

/-- A new controller is empty. -/
theorem new_eq {o : Options} {latest : Int} {c : Controller} (h : new o latest = .ok c) :
    (1 ≤ o.endpointMediaCopyCapacity ∧ o.endpointMediaCopyCapacity ≤ maxEndpointMediaCopyCapacity ∧
      0 < o.operationTimeoutMs) ∧ c =
      { hostPeerID := o.hostPeerID, endpointMediaCopyCapacity := o.endpointMediaCopyCapacity
        operationTimeoutMs := o.operationTimeoutMs, sfuEnabled := o.sfuEnabled, sfuOnly := o.sfuOnly
        qualityConvergenceEnabled := o.qualityConvergenceEnabled && !o.sfuOnly
        natPredictionEnabled := o.natPredictionEnabled && !o.sfuOnly, latest } := by
  unfold new at h
  split at h
  · cases h
  · next hcap =>
    simp only [Bool.or_eq_true, decide_eq_true_eq, not_or, not_lt] at hcap
    split at h
    · cases h
    · next htime =>
      simp only [Bool.or_eq_true, decide_eq_true_eq, not_or, not_lt, not_le] at htime
      split at h
      · cases h
      · cases h
        exact ⟨⟨hcap.1, hcap.2, htime.2⟩, rfl⟩

theorem new_good {o : Options} {latest : Int} {c : Controller} (h : new o latest = .ok c) :
    c.Good := by
  obtain ⟨hcap, rfl⟩ := new_eq h
  exact ⟨rfl, sound_of_empty (peopled_of_empty (hcap.2.1.trans (by decide))
    (le_trans (by decide) hcap.1) hcap.2.2 rfl) rfl rfl rfl rfl rfl⟩

theorem Good.safe {c : Controller} (h : c.Good) : Safe c.toCore :=
  ⟨fun f hf => by simp [h.fault] at hf, fun _ => h.sound⟩

theorem Good.run {c : Controller} (h : c.Good) (k : Call) : Safe (c.run k).2.toCore :=
  (invariant_of_runs (P := fun _ => True) (fun _ _ _ h => h) (run_runs c
    h.sound.working.aligned k .all) h.safe
    fun _ => trivial).1

theorem Good.call {c c' : Controller} {k : Call} {reply : Reply} (h : c.Good)
    (hk : c.call k = .ok (reply, c')) : c'.Good ∧ c.run k = (reply, c') := by
  unfold Controller.call at hk
  split at hk
  · cases hk
  · next hf =>
    have hr : c.run k = (reply, c') := Except.ok.inj hk
    have := h.run k
    rw [hr] at this hf
    exact ⟨⟨hf, this.sound hf⟩, hr⟩

/-- A committed reply: new evidence on the live attempt, and its commit. -/
theorem Good.call_accepted {c c' : Controller} {k : Call} {reply : Reply} (h : c.Good)
    (hk : c.call k = .ok (reply, c')) (hc : reply.committed) :
    ∃ d, Noted c.toCore d ∧ d.Sound ∧ Accepted reply.released d c'.toCore := by
  obtain ⟨-, hr⟩ := h.call hk
  have hs := run_committed (v := .all) c (fun _ _ => trivial) h.sound.working.aligned k (by rw [hr]; exact hc)
  rw [hr] at hs
  cases hs with
  | accepts hn ha =>
    refine ⟨_, hn, ?_, ha⟩
    obtain ⟨op, att, att', ho, hc, hs, rfl⟩ := hn
    have hstep : Step .all false false [] [] c.toCore _ := .upkeep (.note ho hc hs trivial)
    exact hstep.sound h.sound h.fault

theorem Good.call_error {c : Controller} {k : Call} {f : Fault} (h : c.Good)
    (hk : c.call k = .error f) : f.isGraph = false := by
  unfold Controller.call at hk
  split at hk
  · next hf =>
    cases hk
    exact (h.run k).fault f hf
  · cases hk

theorem Good.calls {c c' : Controller} {ks : List Call} (h : c.Good) (hk : c.calls ks = .ok c') :
    c'.Good := by
  induction ks generalizing c with
  | nil =>
    cases hk
    exact h
  | cons k ks ih =>
    unfold Controller.calls at hk
    split at hk
    · cases hk
    · next reply c₁ hc => exact ih (h.call hc).1 hk

theorem Good.calls_error {c : Controller} {ks : List Call} {f : Fault} (h : c.Good)
    (hk : c.calls ks = .error f) : f.isGraph = false := by
  induction ks generalizing c with
  | nil => cases hk
  | cons k ks ih =>
    unfold Controller.calls at hk
    split at hk
    · next f' hc =>
      cases hk
      exact h.call_error hc
    · next reply c₁ hc => exact ih (h.call hc).1 hk

/-- What every step preserves holds after every call. -/
theorem Good.call_invariant {P : Core → Prop} {c c' : Controller} {k : Call} {reply : Reply}
    (h : c.Good) (hP : ∀ {b b' a r c c'}, Step .all b b' a r c c' → c.Sound → c'.fault = none →
      P c → P c') (hk : c.call k = .ok (reply, c')) (hc : P c.toCore) : P c'.toCore := by
  obtain ⟨hg, hr⟩ := h.call hk
  have := (invariant_of_runs hP (run_runs c h.sound.working.aligned k .all) h.safe fun _ => hc).2
  rw [hr] at this
  exact this hg.fault

theorem Good.calls_invariant {P : Core → Prop} {c c' : Controller} {ks : List Call} (h : c.Good)
    (hP : ∀ {b b' a r c c'}, Step .all b b' a r c c' → c.Sound → c'.fault = none → P c → P c')
    (hk : c.calls ks = .ok c') (hc : P c.toCore) : P c'.toCore := by
  induction ks generalizing c with
  | nil =>
    cases hk
    exact hc
  | cons k ks ih =>
    unfold Controller.calls at hk
    split at hk
    · cases hk
    · next reply c₁ h₁ => exact ih (h.call h₁).1 hk (h.call_invariant hP h₁ hc)

theorem Reachable.good {c : Controller} (h : c.Reachable) : c.Good := by
  obtain ⟨o, latest, c₀, ks, hnew, hk⟩ := h
  exact (new_good hnew).calls hk

/-- What every step preserves holds of every reachable controller, if it does of new ones. -/
theorem Reachable.invariant {P : Core → Prop} {c : Controller} (h : c.Reachable)
    (hP : ∀ {b b' a r c c'}, Step .all b b' a r c c' → c.Sound → c'.fault = none → P c → P c')
    (hnew : ∀ o latest c, new o latest = .ok c → P c.toCore) : P c.toCore := by
  obtain ⟨o, latest, c₀, ks, h₀, hk⟩ := h
  exact (new_good h₀).calls_invariant hP hk (hnew o latest c₀ h₀)

/-! ## What assertGraph checks -/

theorem Good.call_hosted {c c' : Controller} {k : Call} {reply : Reply} (h : c.Good)
    (hk : c.call k = .ok (reply, c')) (hd : k ≠ .dispose) (hh : c.Hosted) : c'.Hosted := by
  obtain ⟨hg, hr⟩ := h.call hk
  have := (invariant_of_runs (fun h hs hf hh => h.hosted rfl hs.forest hh hf)
    (run_runs (v := { Licence.all with ends := false }) c h.sound.working.aligned k
      ⟨fun h => (by cases h), fun _ => hd, fun h => (by cases h), fun _ _ => trivial,
        fun _ _ => trivial⟩) h.safe
    fun _ => hh).2
  rw [hr] at this
  exact this hg.fault

theorem Good.calls_hosted {c c' : Controller} {ks : List Call} (h : c.Good)
    (hk : c.calls ks = .ok c') (hd : Call.dispose ∉ ks) (hh : c.Hosted) : c'.Hosted := by
  induction ks generalizing c with
  | nil =>
    cases hk
    exact hh
  | cons k ks ih =>
    simp only [List.mem_cons, not_or] at hd
    unfold Controller.calls at hk
    split at hk
    · cases hk
    · next reply c₁ hc =>
      exact ih (h.call hc).1 hk hd.2 (h.call_hosted hc (Ne.symm hd.1) hh)

/-- The first participant of a new controller is the Host. -/
theorem new_upsert_hosted {o : Options} {latest : Int} {c c' : Controller} {reply : Reply}
    {input : ParticipantInput} {now : Option Int} (h : new o latest = .ok c)
    (hi : input.peerID = o.hostPeerID) (hk : c.call (.upsertParticipant input now) = .ok (reply, c')) :
    c'.Hosted := by
  have hempty : c.participant input.peerID = none ∧ c.hostPeerID = o.hostPeerID := by
    obtain ⟨-, rfl⟩ := new_eq h
    exact ⟨rfl, rfl⟩
  obtain ⟨hg, hr⟩ := (new_good h).call hk
  replace hr : (c.upsertParticipant input now).2 = c' := congrArg Prod.snd hr
  have hraise : ∀ f, (c.raise f) ≠ c' := fun f hf => by
    have := hg.fault
    rw [← hf, Controller.raise_toCore, Core.raise, (new_good h).fault] at this
    simp at this
  unfold upsertParticipant at hr
  split at hr
  · exact absurd hr (hraise _)
  · split at hr
    · exact absurd hr (hraise _)
    · rw [hempty.1] at hr
      rw [← hr]
      unfold addParticipant Core.Hosted
      dsimp only
      split <;> simp [Core.participant, hempty.2, hi]

end Controller

/-- The graph that `assertGraph` accepts, in terms of its edges. -/
structure Core.GraphHolds (c : Core) : Prop where
  viewer : ∀ p e, c.edge p = some e → ∃ q, c.participant p = some q ∧ q.role = .viewer
  parent : ∀ p e, c.edge p = some e → e.kind = .peer → (c.participant e.parentPeerID).isSome
  rooted : ∀ p e, c.edge p = some e → c.Rooted p
  active : ∀ p e, c.edge p = some e → e.kind = .sfu → e.physicalActive →
    ∃ q, c.hostPublication = some q ∧ q.generation = e.publicationGeneration
  retiring : ∀ p e, c.edge p = some e → e.kind = .sfu → e.physicalActive = false →
    c.retiringPublicationGenerations.has e.publicationGeneration
  anchored : c.Anchored
  copies : ∀ p, c.usedSlots p ≤ maxRelayVolunteerChildren

theorem Core.Sound.graphHolds (h : c.Sound) : c.GraphHolds := by
  refine ⟨fun p e he => ?_, h.forest.parent, h.forest.rooted, h.forest.active, h.forest.retiring,
    h.anchored, h.forest.copies⟩
  obtain ⟨q, hq⟩ := Option.isSome_iff_exists.1 (h.forest.child p e he)
  refine ⟨q, hq, ?_⟩
  cases hr : q.role with
  | viewer => rfl
  | host =>
    have hp := (h.forest.peopled.role p q hq).1 hr
    simp [hp, h.forest.outward.host] at he

namespace Controller

/-- **The graph invariant.**  After any calls that begin with the Host's, the
    graph holds what `assertGraph` checks, and no panic of the graph fires. -/
theorem graph_invariant {o : Options} {latest : Int} {c₀ : Controller} {input : ParticipantInput}
    {now : Option Int} (hnew : new o latest = .ok c₀) (hhost : input.peerID = o.hostPeerID)
    (ks : List Call) :
    (∀ c, c₀.calls (.upsertParticipant input now :: ks) = .ok c → c.GraphHolds ∧
      (c.Hosted → c.assertGraph = none) ∧ (Call.dispose ∉ ks → c.Hosted)) ∧
    ∀ f, c₀.calls (.upsertParticipant input now :: ks) = .error f → f.isGraph = false := by
  have hg := new_good hnew
  refine ⟨fun c hc => ?_, fun f hf => hg.calls_error hf⟩
  have hs := (hg.calls hc).sound
  refine ⟨hs.graphHolds, fun hh => assertGraph_none hs.forest hs.anchored hh, fun hd => ?_⟩
  unfold Controller.calls at hc
  split at hc
  · cases hc
  · next reply c₁ h₁ =>
    exact (hg.call h₁).1.calls_hosted hc hd (new_upsert_hosted hnew hhost h₁)

/-- A room for three copies per endpoint, with an SFU. -/
def smallRoom : Options :=
  { hostPeerID := "host", endpointMediaCopyCapacity := 3, operationTimeoutMs := 15000
    sfuEnabled := true, sfuOnly := false, qualityConvergenceEnabled := true
    natPredictionEnabled := false }

/-- A host that joins. -/
def hostInput : ParticipantInput :=
  { peerID := "host", role := .host, sessionID := "h1", effectiveDownstreamCapacity := 3 }

/-- A viewer that joins. -/
def viewerInput : ParticipantInput :=
  { peerID := "viewer", role := .viewer, sessionID := "v1", effectiveDownstreamCapacity := 3 }

/-- A viewer joins, and the Host feeds it. -/
def viewerServed : List Call :=
  [.upsertParticipant viewerInput (some 1), .reconcile 1,
    .beginCurrentCandidate
      { guard := { childPeerID := "viewer", childSessionID := "v1", baseRevision := 0
                   factVersion := 2, cursor := 0
                   plan := { tuple := { kind := .peer, parentPeerID := "host", transport := .direct }
                             endpointTransition := { kind := .none, producerPeerID := some "host" } } }
        nowMs := 2, connectionID := "c1", reservation := { kind := .direct } },
    .candidateTransportConnected
      { childPeerID := "viewer", childSessionID := "v1", revision := 1, connectionID := "c1" } 3,
    .candidateReady
      { childPeerID := "viewer", childSessionID := "v1", revision := 1, connectionID := "c1" } 4 {} true]

theorem graph_invariant_viewerServed : ∃ c₀ c, new smallRoom 0 = .ok c₀ ∧
    c₀.calls (.upsertParticipant hostInput (some 0) :: viewerServed) = .ok c ∧
    (c.edge "viewer").isSome ∧ c.GraphHolds ∧ c.assertGraph = none := by
  refine ⟨_, _, rfl, rfl, rfl, ?_⟩
  obtain ⟨h, h', -⟩ :=
    (@graph_invariant smallRoom 0 _ hostInput (some 0) rfl rfl viewerServed).1 _ rfl
  exact ⟨h, h' rfl⟩

/-- The child is served by the parent, at this revision and these facts. -/
def served (child session parent connection : ID) (revision facts now : Int) : List Call :=
  [.upsertParticipant { peerID := child, role := .viewer, sessionID := session
                        effectiveDownstreamCapacity := 1 } (some now), .reconcile now,
    .beginCurrentCandidate
      { guard := { childPeerID := child, childSessionID := session, baseRevision := revision
                   factVersion := facts, cursor := 0
                   plan := { tuple := { kind := .peer, parentPeerID := parent, transport := .direct }
                             endpointTransition := { kind := .none, producerPeerID := some parent } } }
        nowMs := now, connectionID := connection, reservation := { kind := .direct } },
    .candidateReady { childPeerID := child, childSessionID := session, revision := revision + 1
                      connectionID := connection } now {} true]

/-- A room that serves everybody from the SFU. -/
def sfuRoom : Options :=
  { hostPeerID := "host", endpointMediaCopyCapacity := 3, operationTimeoutMs := 15000
    sfuEnabled := true, sfuOnly := true, qualityConvergenceEnabled := false
    natPredictionEnabled := false }

/-- A viewer joins, and the Host publishes for it. -/
def viewerPublished : List Call :=
  [.upsertParticipant hostInput (some 0), .upsertParticipant viewerInput (some 1), .reconcile 1,
    .beginCurrentCandidate
      { guard := { childPeerID := "viewer", childSessionID := "v1", baseRevision := 0
                   factVersion := 2, cursor := 0
                   plan := { tuple := { kind := .sfu, publication := .create }
                             endpointTransition := { kind := .none, producerPeerID := some "host" } } }
        nowMs := 2, connectionID := "c1", publicationGeneration := "g1"
        publicationConnectionID := "p1", hostSessionID := "h1"
        reservation :=
          { kind := .sfuCreate, edge := some { ptr := 1 }, publication := some { ptr := 2 } } },
    .candidateReady
      { childPeerID := "viewer", childSessionID := "v1", revision := 1, connectionID := "c1" } 4 {} true]

end Controller

end Piik.Route
