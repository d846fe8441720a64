/-
  What the room tells the controller, as runs of steps: participants, sessions,
  capacities, failures and policy.
-/
import Piik.Route.Commit

namespace Piik.Route

variable {v : Licence}

/-- A rebound session keeps the pictures that it has proven. -/
def Core.ProvenFor (c : Core) (peerID : ID) : Prop :=
  ∀ q e, c.edge q = some e → c.sessionInvolved peerID q e → c.roomMedia → c.carriesVideo e →
    e.videoReady

/-! ## People -/

namespace Core

variable {c c' : Core}

/-- A participant keeps its identity and its rating. -/
structure SamePerson (c c' : Core) (q q' : Participant) : Prop where
  peerID : q'.peerID = q.peerID
  role : q'.role = q.role
  rated : c.Rated q → c'.Rated q'

theorem rated_of_eq {q : Participant} (h : q.effectiveDownstreamCapacity =
    c.effectiveCapacity q.reportedDownstreamCapacity q.relayVolunteer)
    (hd : q.departureConfirmed = false) : c.Rated q := by
  refine ⟨?_, fun h => by simp [hd] at h⟩
  rw [h, hd]
  exact le_max_right _ _

theorem effectiveCapacity_le (h : c.endpointMediaCopyCapacity ≤ maxRelayVolunteerChildren)
    (value : Int) (volunteer : Bool) :
    c.effectiveCapacity value volunteer ≤ maxRelayVolunteerChildren := by
  unfold effectiveCapacity
  split
  · exact min_le_right _ _
  · exact (min_le_right _ _).trans h

/-- Nobody sends more than a willing peer may. -/
theorem Peopled.copies (h : c.Peopled) {p : ID} {q : Participant} (hq : c.participant p = some q) :
    q.effectiveDownstreamCapacity ≤ maxRelayVolunteerChildren := by
  refine (h.rated p q hq).1.trans (max_le (by decide) ?_)
  split
  · decide
  · exact effectiveCapacity_le h.capacity _ _

theorem rated_departed {q : Participant} (h : q.effectiveDownstreamCapacity = 0)
    (hs : q.sessionID = "") : c.Rated q :=
  ⟨by rw [h]; exact le_max_left _ _, fun _ => hs⟩

/-- Who has a session did not depart. -/
theorem Rated.present {q : Participant} {session : ID} (h : c.Rated q)
    (hs : (!q.sessionIs session) = true → False) : q.departureConfirmed = false := by
  cases hd : q.departureConfirmed with
  | false => rfl
  | true => exact (hs (by simp [Participant.sessionIs, h.2 hd])).elim

theorem Peopled.of_eq (h : c.Peopled) (hp : c'.participants = c.participants)
    (hhost : c'.hostPeerID = c.hostPeerID)
    (hcap : c'.endpointMediaCopyCapacity = c.endpointMediaCopyCapacity)
    (htime : c'.operationTimeoutMs = c.operationTimeoutMs) : c'.Peopled := by
  have hget : ∀ p q, c'.participant p = some q → c.participant p = some q := fun p q hq => by
    unfold participant at *
    rwa [← hp]
  refine ⟨hcap ▸ h.capacity, hcap ▸ h.positive, htime ▸ h.timeout,
    fun p q hq => h.peerID p q (hget p q hq),
    fun p q hq => hhost ▸ h.role p q (hget p q hq), fun p q hq => ?_⟩
  obtain ⟨hle, hd⟩ := h.rated p q (hget p q hq)
  refine ⟨?_, hd⟩
  unfold effectiveCapacity at *
  rwa [hcap]

/-- The same people, in the same roles. -/
theorem Peopled.of_persons (h : c.Peopled) (hhost : c'.hostPeerID = c.hostPeerID)
    (hcap : c'.endpointMediaCopyCapacity ≤ maxRelayVolunteerChildren)
    (hpos : 0 ≤ c'.endpointMediaCopyCapacity) (htime : c'.operationTimeoutMs = c.operationTimeoutMs)
    (hp : ∀ p x', c'.participant p = some x' → ∃ x, c.participant p = some x ∧ SamePerson c c' x x') :
    c'.Peopled := by
  refine ⟨hcap, hpos, htime ▸ h.timeout, fun p x' hx' => ?_, fun p x' hx' => ?_, fun p x' hx' => ?_⟩ <;>
    obtain ⟨x, hx, hs⟩ := hp p x' hx'
  · exact hs.peerID.trans (h.peerID p x hx)
  · rw [hs.role, hhost]
    exact h.role p x hx
  · exact hs.rated (h.rated p x hx)

theorem peopled_of_empty (hcap : c.endpointMediaCopyCapacity ≤ maxRelayVolunteerChildren)
    (hpos : 0 ≤ c.endpointMediaCopyCapacity) (htime : 0 < c.operationTimeoutMs)
    (hp : c.participants = .empty) : c.Peopled := by
  have hnone : ∀ p q, c.participant p ≠ some q := fun p q hq => by simp [participant, hp] at hq
  exact ⟨hcap, hpos, htime, fun p q hq => absurd hq (hnone p q), fun p q hq => absurd hq (hnone p q),
    fun p q hq => absurd hq (hnone p q)⟩

end Core

/-! ## Facts -/

/-- New facts that move neither an edge nor a picture. -/
structure Facts (c c' : Core) : Prop where
  reshaped : Reshaped c c'
  sameVideo : SameVideo c c'

namespace Reshaped

variable {c c' c'' : Core}

theorem edge (h : Reshaped c c') {p : ID} :
    ∃ f : CommittedEdge → CommittedEdge, (∀ e, SameShape e (f e)) ∧ c'.edge p = (c.edge p).map f := by
  obtain ⟨f, hf, he⟩ := h.edges
  exact ⟨f p, hf p, by simp [Core.edge, he]⟩

theorem trans (h : Reshaped c c') (h' : Reshaped c' c'') : Reshaped c c'' := by
  obtain ⟨f, hf, he⟩ := h.edges
  obtain ⟨f', hf', he'⟩ := h'.edges
  obtain ⟨g, hg, hp⟩ := h.publication
  obtain ⟨g', hg', hp'⟩ := h'.publication
  have houtward : c.Outward → c'.Outward := by
    intro ho
    refine ⟨fun p e hpe hk => ?_, ?_, h.patient ho⟩
    · obtain ⟨F, hF, heq⟩ := h.edge (p := p)
      rw [heq] at hpe
      obtain ⟨e₀, he₀, rfl⟩ := Option.map_eq_some_iff.1 hpe
      rw [(hF e₀).parentPeerID]
      exact ho.edge p e₀ he₀ ((hF e₀).kind ▸ hk)
    · obtain ⟨F, -, heq⟩ := h.edge (p := c'.hostPeerID)
      rw [heq, h.hostPeerID, ho.host]
      rfl
  refine ⟨h'.hostPeerID.trans h.hostPeerID, fun hc => h'.peopled (h.peopled hc),
    fun p hp => h'.kept p (h.kept p hp), ⟨fun p e => f' p (f p e), fun p e => ?_, ?_⟩,
    ⟨fun p => g' (g p), fun p => ?_, ?_⟩, h'.retiring.trans h.retiring,
    fun ho => h'.patient (houtward ho), h'.operation.trans h.operation,
    h'.revision.trans h.revision, h'.latest.trans h.latest, h'.fault.trans h.fault⟩
  · exact ⟨(hf' p _).kind.trans (hf p e).kind, (hf' p _).parentPeerID.trans (hf p e).parentPeerID,
      (hf' p _).publicationGeneration.trans (hf p e).publicationGeneration,
      (hf' p _).physicalActive.trans (hf p e).physicalActive,
      (hf' p _).resource.trans (hf p e).resource⟩
  · rw [he', he, OMap.mapValues_mapValues]
  · exact ⟨(hg' _).generation.trans (hg p).generation,
      (hg' _).physicalActive.trans (hg p).physicalActive, (hg' _).resource.trans (hg p).resource⟩
  · rw [hp', hp, Option.map_map]
    rfl

end Reshaped

namespace Facts

variable {c c' c'' : Core}

theorem trans (h : Facts c c') (h' : Facts c' c'') : Facts c c'' := by
  refine ⟨h.reshaped.trans h'.reshaped, fun p e e'' he he'' => ?_⟩
  obtain ⟨f, -, hf⟩ := h.reshaped.edge (p := p)
  have he' : c'.edge p = some (f e) := by rw [hf, he]; rfl
  exact (h'.sameVideo p _ _ he' he'').trans (h.sameVideo p _ _ he he')

theorem runs (h : Facts c c') : Runs (Step v) [] [] c c' :=
  .single fun b => ⟨b, .reshapes h.reshaped fun _ => h.sameVideo⟩

/-- Every edge and every picture is the same. -/
theorem of_people (hhost : c'.hostPeerID = c.hostPeerID) (hpeople : c.Peopled → c'.Peopled)
    (hkept : ∀ p, (c.participant p).isSome → (c'.participant p).isSome)
    (hedges : c'.upstreamByViewer = c.upstreamByViewer)
    (hpub : c'.hostPublication = c.hostPublication)
    (hret : c'.retiringPublicationGenerations = c.retiringPublicationGenerations)
    (hpat : c.Outward → Patient c'.directContinuations) (hop : c'.operation = c.operation)
    (hrev : c'.revision = c.revision) (hlat : c'.latest = c.latest) (hfault : c'.fault = c.fault)
    (hroom : c'.roomMedia = c.roomMedia) (hgen : c'.videoGeneration = c.videoGeneration) :
    Facts c c' := by
  refine ⟨⟨hhost, hpeople, hkept, ⟨fun _ e => e, fun _ _ => ⟨rfl, rfl, rfl, rfl, rfl⟩, ?_⟩,
    ⟨id, fun _ => ⟨rfl, rfl, rfl⟩, ?_⟩, hret, hpat, hop, hrev, hlat, hfault⟩, ?_⟩
  · rw [hedges, OMap.mapValues_id]
  · rw [hpub, Option.map_id_fun]
    rfl
  · intro p e e' he he'
    have : c'.edge p = c.edge p := by simp [Core.edge, hedges]
    cases he.symm.trans (this ▸ he')
    simp [Core.carriesVideo, hroom, hgen]

theorem of_eq (h : c' = c) : Facts c c' := by
  subst h
  exact of_people rfl id (fun _ => id) rfl rfl rfl Core.Outward.patient rfl rfl rfl rfl rfl rfl

theorem of_defers (h : Defers c c') : Facts c c' := by
  obtain ⟨m, hm, rfl⟩ := h
  exact of_people rfl (fun h => h.of_eq rfl rfl rfl rfl) (fun _ => id) rfl rfl rfl hm rfl rfl rfl rfl rfl rfl

/-- One edge changes, in place. -/
theorem of_modify {p : ID} {f : CommittedEdge → CommittedEdge} (hf : ∀ e, SameShape e (f e))
    (hvideo : ∀ e, c.edge p = some e → c.carriesVideo (f e) = c.carriesVideo e) :
    Facts c { c with upstreamByViewer := c.upstreamByViewer.modify p f } := by
  refine ⟨⟨rfl, fun h => h.of_eq rfl rfl rfl rfl, fun _ => id,
    ⟨fun q e => if q = p then f e else e, fun q e => ?_, OMap.modify_eq_mapValues _ _ _⟩,
    ⟨id, fun _ => ⟨rfl, rfl, rfl⟩, by simp⟩, rfl, Core.Outward.patient, rfl, rfl, rfl, rfl⟩, ?_⟩
  · dsimp only
    split
    · exact hf e
    · exact ⟨rfl, rfl, rfl, rfl, rfl⟩
  · intro q e e' he he'
    simp only [Core.edge, OMap.get_modify] at he he'
    split at he'
    · next hq =>
      rw [he] at he'
      cases he'
      exact hvideo e (hq ▸ he)
    · rw [he] at he'
      cases he'
      rfl

/-- The publication changes, in place. -/
theorem of_publication {p p' : HostPublication} (hp : c.hostPublication = some p)
    (hs : SamePublication p p') (m : OMap ID DirectContinuation) (hm : c.Outward → Patient m) :
    Facts c { c with hostPublication := some p', directContinuations := m } := by
  refine ⟨⟨rfl, fun h => h.of_eq rfl rfl rfl rfl, fun _ => id,
    ⟨fun _ e => e, fun _ _ => ⟨rfl, rfl, rfl, rfl, rfl⟩, (OMap.mapValues_id _).symm⟩,
    ⟨fun q => if q = p then p' else q, fun q => ?_, by simp [hp]⟩, rfl, hm, rfl, rfl, rfl, rfl⟩, ?_⟩
  · dsimp only
    split
    · next h => exact h ▸ hs
    · exact ⟨rfl, rfl, rfl⟩
  · intro q e e' he he'
    cases he.symm.trans he'
    rfl

end Facts

namespace Controller

variable (c : Controller)

/-- One participant changes, in place. -/
theorem modifyParticipant_facts {p : ID} {f : Participant → Participant}
    (hf : ∀ q, c.participant p = some q → Core.SamePerson c.toCore c.toCore q (f q)) :
    Facts c.toCore (c.modifyParticipant p f).toCore := by
  refine .of_people rfl (fun h => h.of_persons rfl h.capacity h.positive rfl fun q x hx => ?_)
    (fun q hq => ?_) rfl rfl rfl Core.Outward.patient rfl rfl rfl rfl rfl rfl
  · simp only [modifyParticipant, Core.participant, OMap.get_modify] at hx
    split at hx
    · next hq =>
      obtain ⟨y, hy, rfl⟩ := Option.map_eq_some_iff.1 hx
      subst hq
      exact ⟨y, hy, (hf y hy).peerID, (hf y hy).role, (hf y hy).rated⟩
    · exact ⟨x, hx, rfl, rfl, id⟩
  · simp only [modifyParticipant, Core.participant, OMap.get_modify]
    split
    · simpa [Core.participant] using hq
    · exact hq

/-! ## Participants -/

/-- A step of facts that ends in another controller with the same core. -/
theorem facts_runs {c d : Core} {d' : Core} (h : Facts c d) (hd : d' = d) :
    Runs (Step v) [] [] c d' := by
  rw [hd]; exact h.runs

theorem deleteContinuation_facts (p : ID) : Facts c.toCore (c.deleteContinuation p).toCore :=
  .of_defers (c.deleteContinuation_defers p)

theorem setViewerRoutePreference_runs (p session : ID) (pref : ViewerRoutePreference)
    (now : Option Int) :
    Runs (Step v) [] (c.setViewerRoutePreference p session pref now).1 c.toCore
      (c.setViewerRoutePreference p session pref now).2.toCore := by
  unfold setViewerRoutePreference
  split
  · exact .refl _
  · split
    · exact .refl _
    · dsimp only
      have key : ∀ x : List Resource × Controller, Runs (Step v) [] x.1 c.toCore x.2.toCore →
          Runs (Step v) [] x.1 c.toCore (((((x.2.modifyParticipant p fun q =>
            { q with routePreference := pref }).updateLedger p fun l => { l with
              consumedCandidateOpportunities := .empty, availabilityExhausted := false
              bootstrapFailureReported := false }).deleteContinuation p).clearSfuBootstrapForDemand
                p).touchFacts).toCore := by
        intro x hx
        have h₁ : Facts x.2.toCore (x.2.modifyParticipant p fun q =>
            { q with routePreference := pref }).toCore :=
          x.2.modifyParticipant_facts fun q _ => ⟨rfl, rfl, id⟩
        refine hx.quiet (facts_runs (h₁.trans (deleteContinuation_facts _ p)) ?_)
        simp
      simp only [recordDemands_toCore]
      refine key (if c.operationOwnedBy p then c.abortOperation now .aborted else ([], c)) ?_
      split
      · exact runs_of_upkeep (c.abortOperation_runs now .aborted)
      · exact .refl _

theorem addParticipant_runs (input : ParticipantInput) (now : Option Int)
    (hrole : (input.peerID == c.hostPeerID) = (input.role == .host)) :
    Runs (Step v) [] [] c.toCore (c.addParticipant input now).toCore := by
  unfold addParticipant
  set p : Participant :=
    { peerID := input.peerID, role := input.role, sessionID := input.sessionID
      effectiveDownstreamCapacity := c.effectiveCapacity input.effectiveDownstreamCapacity false
      reportedDownstreamCapacity := input.effectiveDownstreamCapacity
      routePreference := input.routePreference, joinOrder := c.nextJoinOrder } with hp
  have hget : ∀ q x, (c.participants.set input.peerID p).get q = some x →
      q = input.peerID ∧ x = p ∨ c.participant q = some x := by
    intro q x hx
    rw [OMap.get_set] at hx
    split at hx
    · next h => cases hx; exact Or.inl ⟨h, rfl⟩
    · exact Or.inr hx
  have hfacts : Facts c.toCore { c.toCore with participants := c.participants.set input.peerID p } := by
    refine .of_people rfl (fun h => ⟨h.capacity, h.positive, h.timeout, fun q x hx => ?_, fun q x hx => ?_,
      fun q x hx => ?_⟩) (fun q hq => ?_) rfl rfl rfl Core.Outward.patient rfl rfl rfl rfl rfl rfl
    · obtain ⟨rfl, rfl⟩ | hx := hget q x hx
      · rfl
      · exact h.peerID q x hx
    · obtain ⟨rfl, rfl⟩ | hx := hget q x hx
      · have := Bool.eq_iff_iff.1 hrole
        simpa [hp] using this.symm
      · exact h.role q x hx
    · obtain ⟨rfl, rfl⟩ | hx := hget q x hx
      · exact Core.rated_of_eq rfl rfl
      · exact h.rated q x hx
    · simp only [Core.participant, OMap.get_set]
      split
      · rfl
      · exact hq
  refine facts_runs hfacts ?_
  dsimp only
  split <;> simp

/-- An aborted operation moves the operation and the revision only. -/
theorem aborted_eq (c : Core) : ∃ rev lat f, c.aborted =
    { c with operation := none, revision := rev, latest := lat, fault := f } := by
  unfold Core.aborted
  cases ho : c.operation with
  | none => exact ⟨c.revision, c.latest, c.fault, by cases c; cases ho; rfl⟩
  | some op =>
    dsimp only
    split
    · exact ⟨_, _, _, rfl⟩
    · exact ⟨_, _, _, rfl⟩

/-- The abort does not read the participants. -/
theorem aborted_participants (c : Core) (m : OMap ID Participant) :
    Core.aborted { c with participants := m } = { c.aborted with participants := m } := by
  unfold Core.aborted
  dsimp only
  split
  · rfl
  · split <;> rfl

theorem abortOperation_eq (now : Option Int) (bucket : RejectionBucket) :
    (c.abortOperation now bucket).2.toCore = c.toCore.aborted := c.abortOperation_toCore now bucket

theorem rebindCommittedSession_reshaped (c : Core) (p session : ID) :
    Reshaped c (c.rebindCommittedSession p session) := by
  refine ⟨rfl, fun h => h.of_eq rfl rfl rfl rfl, fun _ => id,
    ⟨c.rebindEdge p session, fun _ _ => ⟨rfl, rfl, rfl, rfl, rfl⟩, rfl⟩,
    ⟨fun q => if p = c.hostPeerID then { q with hostSessionID := session } else q, fun q => ?_, ?_⟩,
    rfl, Core.Outward.patient, rfl, rfl, rfl, rfl⟩
  · dsimp only
    split <;> exact ⟨rfl, rfl, rfl⟩
  · unfold Core.rebindCommittedSession
    dsimp only
    split <;> simp

theorem rebindCommittedSession_sameVideo {c : Core} {p : ID} (h : c.ProvenFor p) (session : ID) :
    SameVideo c (c.rebindCommittedSession p session) := by
  intro q e e' he he'
  simp only [Core.edge, Core.rebindCommittedSession, OMap.get_mapValues] at he he'
  rw [he] at he'
  cases he'
  have hp := h q e he
  unfold Core.rebindEdge Core.carriesVideo at *
  dsimp only
  cases hi : c.sessionInvolved p q e <;> cases hr : e.videoReady <;> cases hm : c.roomMedia <;>
    simp_all [Core.rebindCommittedSession]
  grind

/-- A replaced session: its operation is aborted, and the core `d` that is left
    gets the new session everywhere. -/
theorem replaceSession_runs (input : ParticipantInput) (now : Option Int) : ∃ d,
    Runs (Step v) [] (c.replaceSession input now).1 c.toCore d ∧
    (∃ o rev lat f, d = { c.toCore with operation := o, revision := rev, latest := lat, fault := f }) ∧
    (c.replaceSession input now).2.toCore = Core.rebindCommittedSession { d with
      directContinuations := d.directContinuations.delete input.peerID
      participants := c.participants.modify input.peerID fun q =>
        { q with relayVolunteer := false, sessionID := input.sessionID } }
      input.peerID input.sessionID := by
  unfold replaceSession
  dsimp only
  set c₁ := (((c.modifyParticipant input.peerID fun q => { q with relayVolunteer := false })
    |>.clearOpportunitiesForSessionChange input.peerID input.role).clearQualityForParticipant
      input.peerID) with hc₁
  have hcore : c₁.toCore = { c.toCore with
      participants := c.participants.modify input.peerID fun q => { q with relayVolunteer := false } } := by
    simp [hc₁, modifyParticipant]
  generalize hx : (if c₁.operationUsesParticipantSession input.peerID then
    c₁.abortOperation now .stale else ([], c₁)) = x
  obtain ⟨released, c₂⟩ := x
  -- the abort reads neither participants nor edges
  obtain ⟨d, hruns, ⟨o, rev, lat, f, hd⟩, heq⟩ : ∃ d, Runs (Step v) [] released c.toCore d ∧
      (∃ o rev lat f, d = { c.toCore with operation := o, revision := rev, latest := lat, fault := f }) ∧
      c₂.toCore = { d with participants := c₁.participants } := by
    split at hx
    · have hrel := c₁.abortOperation_released now .stale
      have hab := c₁.abortOperation_eq now .stale
      rw [hx] at hrel hab
      have hruns := runs_of_upkeep (v := v) (c.abortOperation_runs now .stale)
      rw [c.abortOperation_released, c.abortOperation_eq] at hruns
      obtain ⟨rev, lat, f, h⟩ := aborted_eq c.toCore
      refine ⟨c.aborted, hruns.cast rfl ?_, ⟨none, rev, lat, f, h⟩, ?_⟩
      · rw [hcore] at hrel
        exact hrel.symm
      · rw [hcore] at hab ⊢
        exact hab.trans (aborted_participants c.toCore _)
    · cases hx
      exact ⟨c.toCore, .refl _, ⟨_, _, _, _, rfl⟩, by rw [hcore]⟩
  refine ⟨d, hruns, ⟨o, rev, lat, f, hd⟩, ?_⟩
  simp [modifyParticipant, heq, hcore, OMap.modify_modify, Function.comp_def,
    deleteContinuation_toCore]

@[simp] theorem recordCapacityReduction_toCore (p : ID) (now : Option Int) :
    (c.recordCapacityReduction p now).toCore = c.toCore := by
  simp [recordCapacityReduction]

@[simp] theorem demandReturned_toCore (input : ParticipantInput) (current : Participant)
    (capacity : Int) (now : Option Int) :
    (c.demandReturned input current capacity now).toCore = c.toCore := by
  unfold demandReturned
  dsimp only
  split <;> split <;> split <;> simp

/-- The known participant's record, under its session and with its capacity. -/
theorem updated_facts {d : Core} {p : ID} {m : OMap ID DirectContinuation}
    (hm : d.Outward → Patient m) {f : Participant → Participant}
    (hf : ∀ q, d.participant p = some q → Core.SamePerson d d q (f q)) :
    Facts d { d with directContinuations := m, participants := d.participants.modify p f } := by
  refine .of_people rfl (fun h => h.of_persons rfl h.capacity h.positive rfl fun q x hx => ?_)
    (fun q hq => ?_) rfl rfl rfl hm rfl rfl rfl rfl rfl rfl
  · simp only [Core.participant, OMap.get_modify] at hx
    split at hx
    · next hq =>
      obtain ⟨y, hy, rfl⟩ := Option.map_eq_some_iff.1 hx
      subst hq
      exact ⟨y, hy, (hf y hy).peerID, (hf y hy).role, (hf y hy).rated⟩
    · exact ⟨x, hx, rfl, rfl, id⟩
  · simp only [Core.participant, OMap.get_modify]
    split
    · simpa [Core.participant] using hq
    · exact hq

theorem updateParticipant_runs {current : Participant} (input : ParticipantInput) (now : Option Int)
    (hcur : c.participant input.peerID = some current)
    (hv : v.pictures = false → current.sessionID ≠ input.sessionID → c.ProvenFor input.peerID) :
    Runs (Step v) [] (c.updateParticipant input current now).1 c.toCore
      (c.updateParticipant input current now).2.toCore := by
  unfold updateParticipant
  dsimp only
  set capacity := c.effectiveCapacity input.effectiveDownstreamCapacity
    (current.sessionID == input.sessionID && current.relayVolunteer) with hcap
  generalize hx : (if current.sessionID ≠ input.sessionID then c.replaceSession input now
    else ([], c)) = x
  set rate : Participant → Participant := fun q => { q with
    departureConfirmed := false
    reportedDownstreamCapacity := input.effectiveDownstreamCapacity
    effectiveDownstreamCapacity := capacity } with hrate
  have h₁ : Runs (Step v) [] x.1 c.toCore (x.2.modifyParticipant input.peerID rate).toCore := by
    subst hx
    split
    · next hs =>
      obtain ⟨d, hruns, ⟨o, rev, lat, f, hd⟩, heq⟩ := c.replaceSession_runs (v := v) input now
      have h₂ : Facts d { d with
          directContinuations := d.directContinuations.delete input.peerID
          participants := d.participants.modify input.peerID fun q => rate
            { q with relayVolunteer := false, sessionID := input.sessionID } } := by
        refine updated_facts (fun ho => ho.patient.delete _) fun q _ =>
          ⟨rfl, rfl, fun _ => Core.rated_of_eq ?_ rfl⟩
        subst hd
        simp [hrate, hcap, hs, Core.effectiveCapacity]
      set d' : Core := { d with
          directContinuations := d.directContinuations.delete input.peerID
          participants := d.participants.modify input.peerID fun q => rate
            { q with relayVolunteer := false, sessionID := input.sessionID } } with hd'
      have hp : v.pictures = false → d'.ProvenFor input.peerID := fun hf => by
        have := hv hf hs
        rw [hd', hd]
        exact this
      have h₃ : Runs (Step v) [] [] d' (d'.rebindCommittedSession input.peerID input.sessionID) :=
        .single fun b => ⟨b, .reshapes (rebindCommittedSession_reshaped _ _ _)
          fun h => rebindCommittedSession_sameVideo (hp h) _⟩
      have hfinal : ((c.replaceSession input now).2.modifyParticipant input.peerID rate).toCore =
          d'.rebindCommittedSession input.peerID input.sessionID := by
        subst hd
        simp [modifyParticipant, heq, hd', Core.rebindCommittedSession, OMap.modify_modify,
          Function.comp_def]
        rfl
      rw [hfinal]
      exact (hruns.quiet h₂.runs).quiet h₃
    · next hs =>
      refine (c.modifyParticipant_facts fun q hq => ?_).runs
      cases hcur.symm.trans hq
      refine ⟨rfl, rfl, fun _ => Core.rated_of_eq ?_ rfl⟩
      simp [hrate, hcap, not_not.1 hs]
  obtain ⟨released, c₁⟩ := x
  dsimp only at h₁ ⊢
  have h₂ : Runs (Step v) [] released c.toCore ((c₁.modifyParticipant input.peerID rate).demandReturned
      input current capacity now).toCore := by
    rw [demandReturned_toCore]
    exact h₁
  split
  · exact h₂.trans (setViewerRoutePreference_runs _ _ _ _ _)
  · exact h₂

theorem raise_runs {f : Fault} (hf : f.isGraph = false) :
    Runs (Step v) [] [] c.toCore (c.raise f).toCore :=
  .single fun _ => ⟨true, .upkeep (.halts hf rfl)⟩

/-- The call replaces the session of a known participant. -/
def ReplacesSession (input : ParticipantInput) : Prop :=
  ∃ p, c.participant input.peerID = some p ∧ p.sessionID ≠ input.sessionID

theorem upsertParticipant_runs (input : ParticipantInput) (now : Option Int)
    (hv : v.pictures = false → c.ReplacesSession input → c.ProvenFor input.peerID) :
    Runs (Step v) [] (c.upsertParticipant input now).1 c.toCore
      (c.upsertParticipant input now).2.toCore := by
  unfold upsertParticipant
  split
  · exact c.raise_runs rfl
  · next hrole =>
    split
    · exact c.raise_runs rfl
    · split
      · exact c.addParticipant_runs input now (by simpa using hrole)
      · next current hcur =>
        split
        · exact c.raise_runs rfl
        · exact c.updateParticipant_runs input now hcur fun hf hs => hv hf ⟨current, hcur, hs⟩

/-- The Host's record under its new ID. -/
def movedHost (host : Participant) (peerID sessionID : ID) : Participant :=
  { host with
    peerID, sessionID, relayVolunteer := false, departureConfirmed := false
    effectiveDownstreamCapacity := c.effectiveCapacity host.reportedDownstreamCapacity false }

theorem moveHost_toCore (host : Participant) (p session : ID) (now : Option Int) :
    (c.moveHost host p session now).2.toCore =
      (c.aborted.rehosted (c.movedHost host p session)).bump.checkGraph := by
  obtain ⟨rev, lat, f, ha⟩ := aborted_eq c.toCore
  have hab := c.abortOperation_eq now .stale
  rw [ha] at hab ⊢
  unfold moveHost
  generalize c.abortOperation now .stale = x at hab
  obtain ⟨aborted, c₁⟩ := x
  dsimp only at hab ⊢
  simp [Core.rehosted, clearGraphState, movedHost, Core.effectiveCapacity, hab]

theorem moveHost_released (host : Participant) (p session : ID) (now : Option Int) :
    (c.moveHost host p session now).1 = dedupeResources (c.liveResources ++ c.committedResources) := by
  obtain ⟨rev, lat, f, ha⟩ := aborted_eq c.toCore
  have hab := c.abortOperation_eq now .stale
  have hrel : (c.abortOperation now .stale).1 = c.liveResources := c.abortOperation_released now .stale
  rw [ha] at hab
  unfold moveHost
  generalize c.abortOperation now .stale = x at hab hrel
  obtain ⟨aborted, c₁⟩ := x
  dsimp only at hab hrel ⊢
  rw [hrel, hab]
  rfl

theorem moveHost_runs {host : Participant} (hhost : c.participant c.hostPeerID = some host)
    (hrole : host.role = .host) {p : ID} (hnew : c.participant p = none) (session : ID)
    (now : Option Int) :
    Runs (Step v) [] (c.moveHost host p session now).1 c.toCore
      (c.moveHost host p session now).2.toCore := by
  rw [moveHost_toCore, moveHost_released]
  exact .single fun b => ⟨true, .moves hhost hrole hnew (Core.rated_of_eq rfl rfl)⟩

theorem rebindHostIdentity_runs (p session : ID) (now : Option Int)
    (hv : v.pictures = false → p = c.hostPeerID → c.ProvenFor p) :
    Runs (Step v) [] (c.rebindHostIdentity p session now).1 c.toCore
      (c.rebindHostIdentity p session now).2.toCore := by
  unfold rebindHostIdentity
  split
  · next h => exact c.upsertParticipant_runs _ now fun hf _ => hv hf h
  · split
    · exact c.raise_runs rfl
    · next hnew =>
      split
      · exact c.raise_runs rfl
      · next host hhost =>
        split
        · exact c.raise_runs rfl
        · next hrole =>
          split
          · exact c.raise_runs rfl
          · refine c.moveHost_runs hhost (not_not.1 hrole) ?_ session now
            simpa [OMap.has, Core.participant] using hnew

theorem disconnectSession_runs (p session : ID) :
    Runs (Step v) [] [] c.toCore (c.disconnectSession p session).2.toCore := by
  unfold disconnectSession
  split
  · exact .refl _
  · split
    · exact .refl _
    · next current _ _ =>
      have h₁ := (c.clearOpportunitiesForSessionChange p current.role).modifyParticipant_facts (p := p)
        (f := fun q => { q with sessionID := "" })
          fun q _ => ⟨rfl, rfl, fun h => ⟨h.1, fun _ => rfl⟩⟩
      rw [clearOpportunitiesForSessionChange_toCore] at h₁
      refine facts_runs (h₁.trans (deleteContinuation_facts _ p)) ?_
      simp [deleteContinuation_toCore]

theorem confirmDeparture_runs (p : ID) (now : Option Int) :
    Runs (Step v) [] [] c.toCore (c.confirmDeparture p now).2.toCore := by
  unfold confirmDeparture
  split
  · exact .refl _
  · next current _ =>
    split
    · exact .refl _
    · dsimp only
      split
      · exact .refl _
      · set c₁ : Controller :=
          { c with routeTimings := c.routeTimings.delete p } with hc₁
        have h₁ := (c₁.clearOpportunitiesForSessionChange p current.role).modifyParticipant_facts
          (p := p) (f := fun q => { q with sessionID := "" })
          fun q _ => ⟨rfl, rfl, fun h => ⟨h.1, fun _ => rfl⟩⟩
        rw [clearOpportunitiesForSessionChange_toCore] at h₁
        set c₂ := (c₁.clearOpportunitiesForSessionChange p current.role).modifyParticipant p
          fun q => { q with sessionID := "" }
        have h₂ := (c₂.clearQualityForParticipant p).modifyParticipant_facts (p := p)
          (f := fun q => { q with departureConfirmed := true, effectiveDownstreamCapacity := 0 })
          fun q hq => ⟨rfl, rfl, fun _ => Core.rated_departed rfl (by
            simp only [c₂, modifyParticipant, Core.participant, clearQualityForParticipant_toCore,
              OMap.get_modify_self] at hq
            obtain ⟨_, -, rfl⟩ := Option.map_eq_some_iff.1 hq
            rfl)⟩
        rw [clearQualityForParticipant_toCore] at h₂
        refine facts_runs ((h₁.trans h₂).trans (deleteContinuation_facts _ p)) ?_
        simp

/-! ## Capacity -/

theorem setEffectiveCapacity_runs (p session : ID) (value : Int) (now : Option Int) :
    Runs (Step v) [] [] c.toCore (c.setEffectiveCapacity p session value now).2.toCore := by
  unfold setEffectiveCapacity
  split
  · exact .refl _
  · next current hcur =>
    split
    · exact .refl _
    · next hs =>
      split
      · exact c.raise_runs rfl
      · have h := c.modifyParticipant_facts (p := p)
          (f := fun q => { q with
            reportedDownstreamCapacity := value
            effectiveDownstreamCapacity := c.effectiveCapacity value current.relayVolunteer })
          fun q hq => by
            cases hcur.symm.trans hq
            exact ⟨rfl, rfl, fun h => Core.rated_of_eq rfl (h.present hs)⟩
        dsimp only
        split
        · exact h.runs
        · exact facts_runs h (by simp)

theorem setRelayVolunteer_runs (p session : ID) (enabled : Bool) (now : Option Int) :
    Runs (Step v) [] [] c.toCore (c.setRelayVolunteer p session enabled now).2.toCore := by
  unfold setRelayVolunteer
  split
  · exact .refl _
  · next current hcur =>
    split
    · exact .refl _
    · next hs =>
      split
      · exact .refl _
      · split
        · exact c.raise_runs rfl
        · exact facts_runs (c.modifyParticipant_facts (p := p)
            (f := fun q => { q with
              relayVolunteer := enabled
              effectiveDownstreamCapacity :=
                c.effectiveCapacity current.reportedDownstreamCapacity enabled })
            fun q hq => by
              cases hcur.symm.trans hq
              exact ⟨rfl, rfl, fun h => Core.rated_of_eq rfl (h.present hs)⟩) (by simp)

/-- The participants' records, each under its new rating. -/
theorem rerate_participant (now : Option Int) (l : List Participant) (d : Controller) :
    ∃ m, (l.foldl (fun c p => (c.modifyParticipant p.peerID fun p => { p with
        effectiveDownstreamCapacity :=
          c.effectiveCapacity p.reportedDownstreamCapacity p.relayVolunteer
        }).recordCapacityReduction p.peerID now) d).toCore = { d.toCore with participants := m } ∧
      ∀ p, m.get p = if p ∈ l.map Participant.peerID then (d.participant p).map fun q => { q with
        effectiveDownstreamCapacity :=
          d.effectiveCapacity q.reportedDownstreamCapacity q.relayVolunteer }
        else d.participant p := by
  induction l generalizing d with
  | nil => exact ⟨_, rfl, fun p => by simp [Core.participant]⟩
  | cons x l ih =>
    rw [List.foldl_cons]
    generalize hd : (d.modifyParticipant x.peerID fun p => { p with
      effectiveDownstreamCapacity :=
        d.effectiveCapacity p.reportedDownstreamCapacity p.relayVolunteer
      }).recordCapacityReduction x.peerID now = d₁
    have hcore : d₁.toCore = { d.toCore with
        participants := d.participants.modify x.peerID fun p => { p with
          effectiveDownstreamCapacity :=
            d.effectiveCapacity p.reportedDownstreamCapacity p.relayVolunteer } } := by
      rw [← hd, recordCapacityReduction_toCore]
      rfl
    obtain ⟨m, hm, hget⟩ := ih d₁
    refine ⟨m, by rw [hm, hcore], fun p => ?_⟩
    rw [hget]
    have heff : ∀ value volunteer, d₁.effectiveCapacity value volunteer =
        d.effectiveCapacity value volunteer := fun value volunteer => by
      rw [hcore]
      rfl
    have hp : d₁.participant p = if p = x.peerID then (d.participant p).map fun q => { q with
        effectiveDownstreamCapacity :=
          d.effectiveCapacity q.reportedDownstreamCapacity q.relayVolunteer }
        else d.participant p := by
      rw [hcore]
      exact OMap.get_modify _ _ _ _
    simp only [heff, hp, List.map_cons, List.mem_cons]
    by_cases hx : p = x.peerID <;> by_cases hl : p ∈ l.map Participant.peerID
    · subst hx
      simp only [hl, if_true, or_self, Option.map_map]
      rfl
    · subst hx
      simp only [hl, if_true, if_false, or_false]
    · simp only [hx, hl, if_true, if_false, or_true]
    · simp only [hx, hl, if_false, or_self]

theorem setDefaultCapacity_runs (capacity : Int) (now : Option Int) :
    Runs (Step v) [] [] c.toCore (c.setDefaultCapacity capacity now).toCore := by
  unfold setDefaultCapacity
  split
  · exact c.raise_runs rfl
  · next hcap =>
    simp only [Bool.or_eq_true, decide_eq_true_eq, not_or, not_lt] at hcap
    have hpos : 0 ≤ capacity := by omega
    split
    · exact .refl _
    · dsimp only
      split
      · exact .single fun _ => ⟨true, .upkeep (.halts (f := .effectiveCapacityInvalid) rfl rfl)⟩
      · rw [touchFacts_toCore]
        -- who is present is rated again, who departed keeps nothing
        set present := c.participants.values.filter fun p => !p.departureConfirmed with hpresent
        obtain ⟨m, hm, hget⟩ := rerate_participant now present
          { c with endpointMediaCopyCapacity := capacity }
        rw [hm]
        set d : Core := { c.toCore with endpointMediaCopyCapacity := capacity, participants := m }
        have hfacts : Facts c.toCore d := by
          refine .of_people rfl (fun h => h.of_persons rfl hcap.2 hpos rfl fun p x' hx' => ?_)
            (fun p hp => ?_) rfl rfl rfl Core.Outward.patient rfl rfl rfl rfl rfl rfl
          · have hx' : m.get p = some x' := hx'
            rw [hget] at hx'
            split at hx'
            · next hmem =>
              obtain ⟨x, hx, rfl⟩ := Option.map_eq_some_iff.1 hx'
              refine ⟨x, hx, rfl, rfl, fun hr => ⟨?_, hr.2⟩⟩
              obtain ⟨y, hy, hyp⟩ := List.mem_map.1 hmem
              obtain ⟨q, hq⟩ := OMap.mem_values.1 (List.mem_filter.1 hy).1
              have : q = p := (h.peerID q y hq).symm.trans hyp
              subst this
              cases (show c.participant q = some x from hx).symm.trans hq
              have hd : x.departureConfirmed = false := by simpa using (List.mem_filter.1 hy).2
              rw [hd]
              exact le_max_right _ _
            · next hmem =>
              refine ⟨x', hx', rfl, rfl, fun hr => ?_⟩
              have hd : x'.departureConfirmed = true := by
                by_contra hd
                refine hmem (List.mem_map.2 ⟨x', List.mem_filter.2 ⟨OMap.mem_values.2 ⟨p, hx'⟩, ?_⟩, ?_⟩)
                · simpa using hd
                · exact h.peerID p x' hx'
              refine ⟨?_, hr.2⟩
              have := hr.1
              rw [hd] at this ⊢
              exact this
          · show (m.get p).isSome
            rw [hget]
            split
            · rw [Option.isSome_map]
              exact hp
            · exact hp
        exact hfacts.runs

/-! ## Failures -/

theorem invalidateEdge_runs (guard : EdgeGuard) (now : Option Int) :
    Runs (Step v) [] [] c.toCore (c.invalidateEdge guard now).2.toCore := by
  unfold invalidateEdge
  split
  · split
    · exact .refl _
    · split
      · exact .refl _
      · refine facts_runs ((Facts.of_modify (p := guard.childPeerID)
          (f := fun e => { e with usable := false }) (fun _ => ⟨rfl, rfl, rfl, rfl, rfl⟩)
          fun _ _ => rfl).trans (deleteContinuation_facts
            { c with upstreamByViewer := c.upstreamByViewer.modify guard.childPeerID fun e =>
                { e with usable := false } } guard.childPeerID)) ?_
        simp [deleteContinuation_toCore]
  · exact .refl _

theorem invalidateDirectEdgeFromParent_runs (input : ParentEdgeGuard) (now : Option Int) :
    Runs (Step v) [] [] c.toCore (c.invalidateDirectEdgeFromParent input now).2.toCore := by
  unfold invalidateDirectEdgeFromParent
  split
  · exact .refl _
  · exact c.invalidateEdge_runs _ now

theorem invalidateHostPublication_runs (guard : PublicationGuard) (now : Option Int) :
    Runs (Step v) [] [] c.toCore (c.invalidateHostPublication guard now).2.toCore := by
  unfold invalidateHostPublication
  split
  · exact .refl _
  · next p hp =>
    split
    · exact .refl _
    · split
      · exact .refl _
      · have hs : SamePublication p { p with usable := false } := ⟨rfl, rfl, rfl⟩
        refine facts_runs (Facts.of_publication hp hs .empty fun _ p d h => by simp at h) ?_
        simp

theorem adoptConnection_facts (child id : ID) (e : CommittedEdge) (guard : EdgeGuard)
    (he : c.adoptableEdge guard id = some e) (hc : guard.childPeerID = child)
    (d : Controller) (hup : d.upstreamByViewer = c.upstreamByViewer) (hroom : d.roomMedia = c.roomMedia)
    (hgen : d.videoGeneration = c.videoGeneration) :
    Facts d.toCore (d.adoptConnection child id).toCore := by
  refine Facts.of_modify (fun e => by split <;> exact ⟨rfl, rfl, rfl, rfl, rfl⟩) fun e' he' => ?_
  have hedge : c.edge child = some e' := by simpa [Core.edge, hup] using he'
  unfold adoptableEdge at he
  rw [hc, hedge] at he
  dsimp only at he
  split at he
  · cases he
  · next h =>
    simp only [Bool.or_eq_true, Bool.and_eq_true, decide_eq_true_eq, beq_iff_eq, not_or,
      not_and] at h
    cases hr : d.roomMedia with
    | false => simp [Core.carriesVideo, hr]
    | true =>
      have hv := h.2 (hroom ▸ hr)
      simp [Core.carriesVideo, hr, h.1.2, hv.1.1, hgen]

theorem adoptDirectConnection_runs (guard : EdgeGuard) (id : ID) (now : Int) :
    Runs (Step v) [] (c.adoptDirectConnection guard id now).1.released c.toCore
      (c.adoptDirectConnection guard id now).2.toCore := by
  unfold adoptDirectConnection
  dsimp only
  split
  · exact .refl _
  · next e he =>
    split
    · exact .refl _
    · split
      · exact .refl _
      · generalize hx : (if c.routesChild guard.childPeerID = true then
          c.abortOperation (some now) .aborted else ([], c)) = x
        have h₁ : Runs (Step v) [] x.1 c.toCore x.2.toCore ∧
            x.2.upstreamByViewer = c.upstreamByViewer ∧ x.2.roomMedia = c.roomMedia ∧
            x.2.videoGeneration = c.videoGeneration := by
          subst hx
          split
          · obtain ⟨rev, lat, f, ha⟩ := aborted_eq c.toCore
            refine ⟨runs_of_upkeep (c.abortOperation_runs _ _), ?_⟩
            rw [abortOperation_eq, ha]
            exact ⟨rfl, rfl, rfl⟩
          · exact ⟨.refl _, rfl, rfl, rfl⟩
        obtain ⟨released, c₁⟩ := x
        obtain ⟨h₁, hup, hroom, hgen⟩ := h₁
        have h₂ := c.adoptConnection_facts guard.childPeerID id e guard he rfl
          (c₁.clearQualityForParticipant guard.childPeerID) (by simpa using hup) (by simpa using hroom)
          (by simpa using hgen)
        rw [clearQualityForParticipant_toCore] at h₂
        exact h₁.quiet (facts_runs h₂ (by simp))

/-- Retiring the publication: its subscriptions, then itself. -/
theorem retireHostPublication_quiet (guard : PublicationGuard) :
    Runs (Quiet v) [] (c.retireHostPublication guard).1 c.toCore
      (c.retireHostPublication guard).2.toCore := by
  unfold retireHostPublication
  cases hp : c.hostPublication with
  | none => exact .refl _
  | some p =>
    dsimp only
    split
    · exact .refl _
    · next h =>
      have hidle : c.Idle := fun op ho => by
        simp only [attemptLive, ho, Bool.or_eq_true, not_or] at h
        simpa using h.1.1
      have hcuts : Cuts AnyEdge _ _ _ :=
        (c.retireSubscribers_cuts p.generation).mono fun _ _ _ _ => trivial
      have hun := c.retireSubscribers_unsubscribed p
      have hpub := c.retireSubscribers_publication (c.subscribersOf p.generation)
      unfold subscribersOf at hcuts hun hpub
      generalize releaseEach (fun c p e => c.retireSfuEdge p e (c.retainsAnchor p))
        (c.upstreamByViewer.entries.filter fun e =>
          e.2.kind == .sfu && e.2.publicationGeneration == p.generation) c = x at hcuts hun hpub ⊢
      obtain ⟨retired, c₁⟩ := x
      dsimp only at hcuts hun hpub ⊢
      have hdrop : Cuts AnyEdge (retired ++ p.held) c.toCore
          { c₁.toCore with hostPublication := none }.pruneRetiringSfuAnchors := by
        simpa using (hcuts.trans (.single (.publication (hpub.trans hp) hun))).trans (.single .anchors)
      refine .single fun b => ⟨true, ?_⟩
      have := Quiet.gap (v := v) (b := b) hidle ⟨hdrop, fun _ => Core.anchored_prune _,
        fun _ => Core.served_prune _ (Core.served_of_none _ rfl)⟩
      refine (congrArg (Quiet v b true [] _ c.toCore) ?_).mpr this
      rw [prune_toCore, ← Core.prune_rebased]
      congr 1
      simp [Core.rebased, Core.bump, Core.allocateRevision]

theorem retireHostPublication_runs (guard : PublicationGuard) :
    Runs (Step v) [] (c.retireHostPublication guard).1 c.toCore
      (c.retireHostPublication guard).2.toCore :=
  (c.retireHostPublication_quiet guard).mono Quiet.step

/-! ## Room state -/

theorem setHostVideoConnectionID_runs (id : ID) :
    Runs (Step v) [] [] c.toCore (c.setHostVideoConnectionID id).2.toCore := by
  unfold setHostVideoConnectionID
  split
  · exact .refl _
  · next p hp =>
    split
    · exact .refl _
    · split
      · exact .refl _
      · have hs : SamePublication p { p with connectionID := id } := ⟨rfl, rfl, rfl⟩
        exact facts_runs (Facts.of_publication hp hs c.directContinuations Core.Outward.patient) rfl

/-- Publishing, stopping or pausing the picture moves pictures only. -/
theorem setVideoPublication_runs (hv : v.pictures = true) (generation : ID) (paused : Bool) (now : Int) :
    Runs (Step v) [] (c.setVideoPublication generation paused now).1 c.toCore
      (c.setVideoPublication generation paused now).2.toCore := by
  unfold setVideoPublication
  dsimp only
  split
  · exact .refl _
  · have h := runs_of_upkeep (v := v) (c.abortOperation_runs (some now) .aborted)
    generalize c.abortOperation (some now) .aborted = x at h ⊢
    obtain ⟨released, c₁⟩ := x
    refine (h.quiet ?_ : Runs (Step v) [] released c.toCore _)
    refine .single fun b => ⟨b, .reshapes ⟨rfl, fun h => h.of_eq rfl rfl rfl rfl,
      fun _ => id, ?_, ⟨id, fun _ => ⟨rfl, rfl, rfl⟩, by simp⟩, rfl, Core.Outward.patient, rfl, rfl, rfl,
      rfl⟩ fun h => by simp [hv] at h⟩
    dsimp only
    split
    · refine ⟨fun _ e => publicationEdge (!c₁.roomMedia) generation e, fun _ e => ?_, rfl⟩
      unfold publicationEdge
      dsimp only
      split <;> exact ⟨rfl, rfl, rfl, rfl, rfl⟩
    · exact ⟨fun _ e => e, fun _ _ => ⟨rfl, rfl, rfl, rfl, rfl⟩, (OMap.mapValues_id _).symm⟩

theorem setPaused_runs (hv : v.pictures = false → c.roomMedia = false) (paused : Bool) (now : Option Int) :
    Runs (Step v) [] (c.setPaused paused now).1 c.toCore (c.setPaused paused now).2.toCore := by
  unfold setPaused
  split
  · next hr =>
    refine c.setVideoPublication_runs ?_ _ _ _
    cases hp : v.pictures with
    | true => rfl
    | false => simp [hv hp] at hr
  · split
    · exact .refl _
    · have h : Facts c.toCore { c.toCore with paused } :=
        .of_people rfl (fun h => h.of_eq rfl rfl rfl rfl) (fun _ => id) rfl rfl rfl
          Core.Outward.patient rfl rfl rfl rfl rfl rfl
      dsimp only
      split
      · have h' := runs_of_upkeep (v := v) (({ c with paused } : Controller).clearAllQuality.touchFacts
          |>.abortOperation_runs now .aborted)
        exact h.runs.trans h'
      · exact h.runs

theorem dispose_runs (hv : v.ends = true) :
    Runs (Step v) [] c.dispose.1 c.toCore c.dispose.2.toCore := by
  refine .single fun b => ⟨b, ?_⟩
  have := Step.disposes (v := v) (b := b) (c := c.toCore) hv
  cases ho : c.operation <;>
    simpa [dispose, Core.disposed, clearGraphState, Core.liveResources, ho] using this

theorem setRoutePolicy_runs (peerOnly topology nat : Bool) (now : Int) :
    Runs (Step v) [] (c.setRoutePolicy peerOnly topology nat now).1 c.toCore
      (c.setRoutePolicy peerOnly topology nat now).2.toCore := by
  unfold setRoutePolicy
  split
  · exact .refl _
  · have h := runs_of_upkeep (v := v) (c.abortOperation_runs (some now) .aborted)
    generalize c.abortOperation (some now) .aborted = x at h ⊢
    obtain ⟨released, c₁⟩ := x
    refine h.quiet (Facts.runs ?_)
    -- only the preferences that the policy no longer allows change
    have hget : ∀ (f : ID → Participant → Participant),
        (∀ p q, Core.SamePerson c₁.toCore c₁.toCore q (f p q)) →
        Facts c₁.toCore { c₁.toCore with
          sfuEnabled := !peerOnly, qualityConvergenceEnabled := topology, natPredictionEnabled := nat
          participants := c₁.participants.mapValues f, directContinuations := .empty } := by
      intro f hf
      have hf' : ∀ p x, (c₁.participants.mapValues f).get p = some x →
          ∃ q, c₁.participant p = some q ∧ x = f p q := fun p x hx => by
        rw [OMap.get_mapValues] at hx
        obtain ⟨q, hq, rfl⟩ := Option.map_eq_some_iff.1 hx
        exact ⟨q, hq, rfl⟩
      refine .of_people rfl (fun h => h.of_persons rfl h.capacity h.positive rfl fun p x hx => ?_)
        (fun p hp => ?_) rfl rfl rfl (fun _ p d h => by simp at h) rfl rfl rfl rfl rfl rfl
      · obtain ⟨q, hq, rfl⟩ := hf' p x hx
        exact ⟨q, hq, (hf p q).peerID, (hf p q).role, (hf p q).rated⟩
      · simpa [Core.participant] using hp
    refine hget _ fun p q => ?_
    split <;> exact ⟨rfl, rfl, id⟩

theorem setVoiceListeners_runs (peerIDs : List ID) (now : Int) :
    Runs (Step v) [] [] c.toCore (c.setVoiceListeners peerIDs now).2.toCore := by
  unfold setVoiceListeners
  dsimp only
  split
  · exact .refl _
  · have h₁ : Facts c.toCore { c.toCore with voiceListeners := peerIDs } :=
      .of_people rfl (fun h => h.of_eq rfl rfl rfl rfl) (fun _ => id) rfl rfl rfl
        Core.Outward.patient rfl rfl rfl rfl rfl rfl
    have key : ∀ (f : Controller → Participant → Controller),
        (∀ d p, Facts d.toCore (f d p).toCore) → ∀ (l : List Participant) (d : Controller),
          Facts d.toCore (l.foldl f d).toCore := by
      intro f hf l
      induction l with
      | nil => exact fun d => .of_eq rfl
      | cons p l ih => exact fun d => (hf d p).trans (ih _)
    refine (h₁.trans ?_).runs
    refine key _ (fun d p => ?_) _ { c with voiceListeners := peerIDs }
    have h₂ := deleteContinuation_facts d p.peerID
    split <;> simpa [deleteContinuation_toCore] using h₂

end Controller

end Piik.Route
