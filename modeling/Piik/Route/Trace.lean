/-
  Every exported call is a run of steps: `run_runs`.
-/
import Piik.Route.Facts

namespace Piik.Route

variable {v : Licence}

namespace Controller

variable (c : Controller)

/-! ## Evidence -/

@[simp] theorem setObservation_toCore (p : ID) (o : RouteQualityObservation) :
    (c.setObservation p o).toCore = c.toCore := rfl

@[simp] theorem setSenderObservation_toCore (p : ID) (o : SenderQualityObservation) :
    (c.setSenderObservation p o).toCore = c.toCore := rfl

theorem proveVideo_facts (p : ID) (e : CommittedEdge) : Facts c.toCore (c.proveVideo p e).toCore := by
  unfold proveVideo
  split
  · exact .of_eq rfl
  · exact .of_modify (fun _ => ⟨rfl, rfl, rfl, rfl, rfl⟩) fun _ _ => rfl

@[simp] theorem recordWindow_toCore (input : RouteQualityEvidenceInput)
    (o : RouteQualityObservation) : (c.recordWindow input o).2.toCore = c.toCore := by
  unfold recordWindow
  dsimp only
  split
  · split <;> rfl
  · rfl

theorem observeQualityEvidence_runs (input : RouteQualityEvidenceInput) :
    Runs (Step v) [] [] c.toCore (c.observeQualityEvidence input).2.toCore := by
  unfold observeQualityEvidence
  split
  · exact .refl _
  · next e _ =>
    split
    · exact .refl _
    · split
      · exact .refl _
      · refine facts_runs (c.proveVideo_facts input.childPeerID e) ?_
        dsimp only
        split <;> simp

theorem settleCandidateQuality_settles {σ : Type} (hv : v.Records) {op : Operation} {att : Attempt}
    (ha : c.Aligned) (ho : c.operation = some op) (hc : op.current = some att)
    (state : SenderQualityState) (at_ : Int) (identity : ID) (sample : Option Int)
    (commitReservation : CandidateReservation → σ → Bool × σ) (s : σ) :
    Settles v
      (c.settleCandidateQuality op att state at_ identity sample commitReservation s).1.committed
      (c.settleCandidateQuality op att state at_ identity sample commitReservation s).1.released
      c.toCore
      (c.settleCandidateQuality op att state at_ identity sample commitReservation s).2.2.toCore := by
  unfold settleCandidateQuality
  dsimp only
  split
  · exact .maintains (c.noteAttempt_runs ho hc ⟨rfl, rfl, rfl, rfl, rfl, rfl, rfl, rfl, rfl⟩ (hv _ _))
  · cases sample with
    | none => exact .maintains (.refl _)
    | some sample =>
      dsimp only
      split
      · exact .maintains (.refl _)
      · split
        · exact .maintains (c.candidateFailed_runs _ at_)
        · split
          · exact .maintains (.refl _)
          · have hs : SameAttempt att (foldSample att state at_ identity sample) :=
              ⟨rfl, rfl, rfl, rfl, rfl, rfl, rfl, rfl, rfl⟩
            have hn : Noted c.toCore (c.setAttempt op (foldSample att state at_ identity sample)).toCore :=
              ⟨op, att, _, ho, hc, hs, rfl⟩
            have ha' : (c.setAttempt op (foldSample att state at_ identity sample)).Aligned := by
              intro op' att' plan ho' hr hc' hp
              cases ho'
              cases hc'
              exact ha op att plan ho hr hc hp
            split
            · exact .note hv hn (.maintains (candidateFailed_runs _ _ at_))
            · split
              · exact .note hv hn (candidateReady_settles _ hv ha' _ at_ _ s _)
              · exact .note hv hn (.maintains (.refl _))

@[simp] theorem recordSample_toCore (input : SenderQualityEvidenceInput) (session identity : ID)
    (sample : Int) (previous : Option SenderQualityObservation) :
    (c.recordSample input session identity sample previous).toCore = c.toCore := by
  have h : (c.releaseLatch input session identity).toCore = c.toCore := by
    unfold releaseLatch
    split
    · rfl
    · dsimp only
      split <;> rfl
  unfold recordSample
  dsimp only
  split <;> simp [h]

theorem observeEdgeSample_settles (input : SenderQualityEvidenceInput) (session : ID) :
    Settles v (c.observeEdgeSample input session).1.committed
      (c.observeEdgeSample input session).1.released c.toCore
      (c.observeEdgeSample input session).2.toCore := by
  unfold observeEdgeSample
  split
  · refine .maintains (.of_eq ?_)
    unfold recordUnknownSample
    split
    · rfl
    · split <;> rfl
  · split
    · next identity sample _ _ =>
      split
      · exact .maintains (.refl _)
      · split
        · exact .maintains (.refl _)
        · dsimp only
          have hs := c.recordSample_toCore input session identity sample
            (c.senderQualityObservations.get input.childPeerID)
          generalize c.recordSample input session identity sample
            (c.senderQualityObservations.get input.childPeerID) = c₁ at hs ⊢
          rw [← hs]
          split
          · exact .maintains (c₁.abortOperation_runs _ _)
          · exact .maintains (.refl _)
    · exact .maintains (.refl _)

theorem sampledCandidate_live {input : SenderQualityEvidenceInput} {session : ID} {op : Operation}
    {att : Attempt} (h : c.sampledCandidate input session = some (op, att)) :
    c.operation = some op ∧ op.current = some att := by
  unfold sampledCandidate at h
  split at h
  · cases h
  · next op' ho =>
    split at h
    · cases h
    · next att' hc =>
      split at h
      · cases h
        exact ⟨ho, hc⟩
      · cases h

theorem observeSenderQualityEvidence_settles {σ : Type} (hv : v.Records) (ha : c.Aligned)
    (input : SenderQualityEvidenceInput) (commitReservation : CandidateReservation → σ → Bool × σ)
    (s : σ) :
    Settles v (c.observeSenderQualityEvidence input commitReservation s).1.committed
      (c.observeSenderQualityEvidence input commitReservation s).1.released c.toCore
      (c.observeSenderQualityEvidence input commitReservation s).2.2.toCore := by
  unfold observeSenderQualityEvidence
  split
  · exact .maintains (.refl _)
  · split
    · next child _ _ =>
      split
      · exact .maintains (.refl _)
      · split
        · next h =>
          obtain ⟨ho, hc⟩ := c.sampledCandidate_live h
          exact c.settleCandidateQuality_settles hv ha ho hc _ _ _ _ _ _
        · split
          · exact .maintains (.refl _)
          · exact c.observeEdgeSample_settles input child.sessionID
    · exact .maintains (.refl _)

/-! ## Publisher samples -/

theorem publisherCandidate_live {input : SfuPublisherQualityEvidenceInput} {op : Operation}
    {att : Attempt} (h : c.publisherCandidate input = some (op, att)) :
    c.operation = some op ∧ op.current = some att := by
  unfold publisherCandidate at h
  split at h
  · cases h
  · next op' ho =>
    split at h
    · cases h
    · next att' hc =>
      split at h
      · cases h
        exact ⟨ho, hc⟩
      · cases h

@[simp] theorem recordPublisherSample_toCore (input : SfuPublisherQualityEvidenceInput)
    (sample : Int) : (c.recordPublisherSample input sample).toCore = c.toCore := by
  unfold recordPublisherSample
  dsimp only
  split <;> rfl

theorem observePublication_settles {σ : Type} (hv : v.Records) (ha : c.Aligned)
    (input : SfuPublisherQualityEvidenceInput) (sample : Int)
    (commitReservation : CandidateReservation → σ → Bool × σ) (s : σ) :
    Settles v (c.observePublication input sample commitReservation s).1.committed
      (c.observePublication input sample commitReservation s).1.released c.toCore
      (c.observePublication input sample commitReservation s).2.2.toCore := by
  unfold observePublication
  split
  · exact .maintains (.refl _)
  · have hs := c.recordPublisherSample_toCore input sample
    generalize c.recordPublisherSample input sample = c₁ at hs ⊢
    dsimp only
    rw [← hs] at ha ⊢
    split
    · exact .maintains (.refl _)
    · split
      · exact .maintains (.refl _)
      · split
        · exact .maintains (c₁.candidateFailed_runs _ _)
        · split
          · exact c₁.candidateReady_settles hv ha _ _ _ s _
          · exact .maintains (.refl _)

theorem observeSfuPublisherQualityEvidence_settles {σ : Type} (hv : v.Records) (ha : c.Aligned)
    (input : SfuPublisherQualityEvidenceInput)
    (commitReservation : CandidateReservation → σ → Bool × σ) (s : σ) :
    Settles v (c.observeSfuPublisherQualityEvidence input commitReservation s).1.committed
      (c.observeSfuPublisherQualityEvidence input commitReservation s).1.released
      c.toCore (c.observeSfuPublisherQualityEvidence input commitReservation s).2.2.toCore := by
  unfold observeSfuPublisherQualityEvidence
  split
  · exact .maintains (.refl _)
  · split
    · next h =>
      obtain ⟨ho, hc⟩ := c.publisherCandidate_live (Option.filter_eq_some_iff.1 h).1
      exact c.settleCandidateQuality_settles hv ha ho hc _ _ _ _ _ _
    · split
      · exact .maintains (.refl _)
      · split
        · exact .maintains (.refl _)
        · split
          · exact .maintains (.refl _)
          · exact c.observePublication_settles hv ha input _ _ _

theorem forgetSenderSamples_toCore (p session : ID) :
    (c.forgetSenderSamples p session).toCore = c.toCore := by
  have h := foldl_toCore (f := fun c child => { c with
    senderQualityObservations := c.senderQualityObservations.delete child
    senderQualityBaselines := c.senderQualityBaselines.delete child
    senderQualityRegenerationBlocks := c.senderQualityRegenerationBlocks.delete child })
    (fun _ _ => rfl) (c.childrenOf p ++ (c.senderQualityObservations.entries.filter fun e =>
      e.2.parentPeerID == p && e.2.parentSessionID == session).map Prod.fst) c
  unfold forgetSenderSamples
  dsimp only
  split <;> exact h

theorem resetSenderQuality_runs (p session : ID) (now : Int) :
    Runs (Step v) [] (c.resetSenderQuality p session now).1 c.toCore
      (c.resetSenderQuality p session now).2.toCore := by
  unfold resetSenderQuality
  split
  · exact .refl _
  · split
    · exact .refl _
    · dsimp only
      have hs := c.forgetSenderSamples_toCore p session
      generalize c.forgetSenderSamples p session = c₁ at hs ⊢
      rw [← hs]
      split
      · exact runs_of_upkeep (c₁.abortOperation_runs _ _)
      · exact .refl _

/-! ## The bounded gap -/

/-- What the retirement cuts, and that the restored parent is not its own child. -/
theorem retireProducer_trim {retire : EndpointRetirement} {restore : Option CandidateTuple}
    {retired : List Resource} {d : Controller} (h : c.retireProducer retire = some (restore, retired, d)) :
    Trim AnyEdge retired c.toCore d.toCore ∧
      (d.Outward → ∀ t, restore = some t → retire.kind = .edge ∧ t.Outward retire.childPeerID ∧
        ∀ e, d.edge retire.childPeerID = some e → e.physicalActive = false) := by
  unfold retireProducer at h
  cases hk : retire.kind with
  | edge =>
    simp only [hk] at h
    obtain ⟨e, he, h⟩ := Option.map_eq_some_iff.1 h
    cases h
    have he : c.edge retire.childPeerID = some e ∧ e.kind = .peer := by
      unfold retirementEdge at he
      split at he
      · cases he
      · next e' he' =>
        split at he
        · next hg =>
          cases he
          simp only [Bool.and_eq_true, beq_iff_eq] at hg
          exact ⟨he', hg.1.1.1.1.1.1⟩
        · cases he
    refine ⟨⟨.single (.peer he.1 he.2 trivial), anchored_deactivateEdge c.toCore he.1 he.2,
      served_deactivateEdge c.toCore he.1 he.2⟩,
      fun ho t ht => ⟨rfl, fun _ => ?_, fun e' he' => ?_⟩⟩
    · split at ht
      · cases ht
        refine ho.edge retire.childPeerID { e with usable := false, physicalActive := false } ?_ he.2
        simp [he.1]
      · cases ht
    · rw [deactivateEdge_toCore, Core.edge_deactivateEdge, if_pos rfl, he.1] at he'
      cases he'
      rfl
  | publication =>
    simp only [hk] at h
    split at h
    · next hp =>
      cases h
      unfold retirementPublication at hp
      split at hp
      · cases hp
      · next p hpub =>
        simp only [Bool.and_eq_true, beq_iff_eq] at hp
        have ht := (c.removePublicationGeneration_trim hpub).1
        rw [hp.1.2] at ht
        exact ⟨⟨ht.1.mono fun _ _ _ _ => trivial, ht.2, ht.3⟩, fun _ t ht => by cases ht⟩
    · cases h

theorem nextTuple_outward {plan : CandidatePlan} {child : ID} (h : plan.Outward child)
    (retire : EndpointRetirement) : (nextTuple plan retire).Outward child := by
  unfold nextTuple
  split <;> exact h.tuple

theorem retireCurrentCandidateProducer_quiet (guard : CandidateCursorGuard) (now : Int) :
    Runs (Quiet v) [] (c.retireCurrentCandidateProducer guard now).1.released c.toCore
      (c.retireCurrentCandidateProducer guard now).2.toCore := by
  have h : Runs (Quiet v) [] _ c.toCore _ := quiet_of_upkeep (c.validateOrAdvance_runs now none)
  unfold retireCurrentCandidateProducer
  generalize c.validateOrAdvance now none = x at h ⊢
  obtain ⟨checked, c₁⟩ := x
  dsimp only at h ⊢
  split
  · exact h
  · next op ho =>
    split
    · exact h
    · next hg =>
      simp only [Bool.or_eq_true, not_or, Bool.not_eq_true, Option.isSome_eq_false_iff,
        Option.isNone_iff_eq_none] at hg
      have hc : op.current = none := hg.1
      split
      · exact h
      · next plan hplan =>
        split
        · exact h
        · next hbounded =>
          rw [not_not] at hbounded
          split
          · exact h.quiet (.single fun _ => ⟨true, .upkeep (.halts rfl rfl)⟩)
          · next retire hretire =>
            split
            · exact h
            · next restore retired c₂ hret =>
              obtain ⟨htrim, hrestore⟩ := c₁.retireProducer_trim hret
              have ho₂ : c₂.operation = some op := by rw [htrim.1.operation_eq, ho]
              have hidle : c₁.Idle := fun op' h' => by
                cases ho.symm.trans h'
                exact hc
              -- the gap, then the candidates that the free producer allows
              have hgap : Runs (Quiet v) [] retired c₁.toCore c₂.rebased :=
                .single fun b => ⟨true, .gap hidle htrim⟩
              set op₃ : Operation := { op with baseRevision := c₂.bump.revision } with hop₃
              have ho₃ : (c₂.advanceActiveRevision op).touchFacts.operation = some op₃ := by
                simp [Core.rebased, ho₂, hop₃]
              have hmem : plan ∈ op.candidates := List.mem_of_getElem? hplan
              have hreplan := replanRemaining_replanned (c₂.advanceActiveRevision op).touchFacts ho₃ hc
                (some (nextTuple plan retire)) restore
                (fun _ => (List.getElem?_eq_some_iff.1 hplan).1)
                (fun _ hout t ht => by
                  cases ht
                  exact nextTuple_outward (hout.candidates plan hmem) retire)
                (fun hcore hout t ht => by
                  have hcore₂ : c₂.Outward := by
                    simp only [touchFacts_toCore, advanceActiveRevision_toCore] at hcore
                    exact ⟨hcore.edge, hcore.host, hcore.patient⟩
                  obtain ⟨hk, ht, hcut⟩ := hrestore hcore₂ t ht
                  rw [(hout.candidates plan hmem).retire retire hretire hk] at ht hcut
                  refine ⟨ht, fun e he => hcut e ?_⟩
                  simp only [touchFacts_toCore, advanceActiveRevision_toCore] at he
                  exact he)
              -- an attachment has no producer to free
              have hattach : op₃.Attends → op₃.reason ≠ .publicationAttach := by
                intro ha hr
                obtain ⟨-, hcursor, plan', hp, hne, -⟩ := ha hr
                have hcursor : op.cursor = 0 := hcursor
                rw [hcursor] at hplan
                cases hplan.symm.trans hp
                exact hne hbounded
              have h₂ : Runs (Quiet v) [] [] c₂.rebased _ := quiet_of_upkeep (by
                simpa using hreplan.runs ho₃ hc hattach)
              have h₃ := (h.trans hgap).quiet h₂
              split
              · simpa using h₃.trans (quiet_of_upkeep (validateOrAdvance_runs _ now none))
              · exact h₃

theorem retireCurrentCandidateProducer_runs (guard : CandidateCursorGuard) (now : Int) :
    Runs (Step v) [] (c.retireCurrentCandidateProducer guard now).1.released c.toCore
      (c.retireCurrentCandidateProducer guard now).2.toCore :=
  (c.retireCurrentCandidateProducer_quiet guard now).mono Quiet.step

/-! ## Every call -/

/-- The call moves no picture without a new revision: it publishes nothing, and a
    session that it replaces has proven its pictures. -/
def KeepsPictures (k : Call) : Prop :=
  match k with
  | .setVideoPublication .. => False
  | .setPaused .. => c.roomMedia = false
  | .upsertParticipant input _ => c.ReplacesSession input → c.ProvenFor input.peerID
  | .rebindHostIdentity peerID .. => peerID = c.hostPeerID → c.ProvenFor peerID
  | _ => True

end Controller

/-- The resources that a call hands over. -/
def Call.taken : Call → List Resource
  | .beginCurrentCandidate input => reservationResources input.reservation
  | _ => []

namespace Controller

variable (c : Controller)

/-- The licence covers the call. -/
structure Grants (v : Licence) (k : Call) : Prop where
  pictures : v.pictures = false → c.KeepsPictures k
  ends : v.ends = false → k ≠ .dispose
  commits : v.commits = false → (c.run k).1.committed = false
  reserves : ∀ input, k = .beginCurrentCandidate input → v.reserves input.reservation
  records : v.Records

variable {c} in
/-- Nothing is withheld from the call. -/
theorem Grants.all {k : Call} : c.Grants .all k :=
  ⟨fun h => (by cases h), fun h => (by cases h), fun h => (by cases h), fun _ _ => trivial,
    fun _ _ => trivial⟩

/-- **Every exported call is a run of steps.** -/
theorem run_runs (ha : c.Aligned) (k : Call) (hg : c.Grants v k) :
    Runs (Step v) k.taken (c.run k).1.released c.toCore (c.run k).2.toCore := by
  obtain ⟨hv, hd, hc, hr, hrec⟩ := hg
  cases k with
  | upsertParticipant input now => exact c.upsertParticipant_runs input now hv
  | setViewerRoutePreference p s pref now => exact c.setViewerRoutePreference_runs p s pref now
  | rebindHostIdentity p s now => exact c.rebindHostIdentity_runs p s now hv
  | disconnectSession p s => exact c.disconnectSession_runs p s
  | confirmDeparture p now => exact c.confirmDeparture_runs p now
  | setEffectiveCapacity p s value now => exact c.setEffectiveCapacity_runs p s value now
  | setRelayVolunteer p s enabled now => exact c.setRelayVolunteer_runs p s enabled now
  | setDefaultCapacity capacity now => exact c.setDefaultCapacity_runs capacity now
  | touchExternalFacts => exact .refl _
  | invalidateEdge guard now => exact c.invalidateEdge_runs guard now
  | invalidateDirectEdgeFromParent input now => exact c.invalidateDirectEdgeFromParent_runs input now
  | invalidateHostPublication guard now => exact c.invalidateHostPublication_runs guard now
  | adoptDirectConnection guard id now => exact c.adoptDirectConnection_runs guard id now
  | retireHostPublication guard => exact c.retireHostPublication_runs guard
  | setPaused paused now => exact c.setPaused_runs hv paused now
  | dispose => exact c.dispose_runs (by simpa using hd)
  | setRoutePolicy peerOnly topology nat now => exact c.setRoutePolicy_runs peerOnly topology nat now
  | setVoiceListeners peerIDs now => exact c.setVoiceListeners_runs peerIDs now
  | setHostVideoConnectionID id => exact c.setHostVideoConnectionID_runs id
  | setVideoPublication generation paused now =>
    exact c.setVideoPublication_runs (by simpa [KeepsPictures] using hv) generation paused now
  | observeQualityEvidence input => exact c.observeQualityEvidence_runs input
  | observeSenderQualityEvidence input commit =>
    exact (c.observeSenderQualityEvidence_settles hrec ha input (answer commit) ()).runs hrec hc
  | observeSfuPublisherQualityEvidence input commit =>
    exact (c.observeSfuPublisherQualityEvidence_settles hrec ha input (answer commit) ()).runs hrec hc
  | resetSenderQuality p s now => exact c.resetSenderQuality_runs p s now
  | reconcile now => exact runs_of_upkeep (c.reconcile_runs now)
  | beginCurrentCandidate input => exact runs_of_upkeep (c.beginCurrentCandidate_runs input (hr input rfl))
  | noteCurrentCandidateRejection guard bucket =>
    exact .of_eq (c.noteCurrentCandidateRejection_toCore guard bucket)
  | skipCurrentCandidate guard now bucket =>
    exact runs_of_upkeep (c.skipCurrentCandidate_runs guard now bucket)
  | retireCurrentCandidateProducer guard now => exact c.retireCurrentCandidateProducer_runs guard now
  | candidateReady guard now proof commit =>
    exact (c.candidateReady_settles hrec ha guard now _ () proof).runs hrec hc
  | candidateTransportConnected guard now =>
    exact runs_of_upkeep (c.candidateTransportConnected_runs hrec guard now)
  | candidateFailed guard now => exact runs_of_upkeep (c.candidateFailed_runs guard now)
  | operationExpired now => exact runs_of_upkeep (c.operationExpired_runs now)

/-- **A committed reply commits the live attempt**, and does nothing else. -/
theorem run_committed (hv : v.Records) (ha : c.Aligned) (k : Call) (hk : (c.run k).1.committed) :
    Settles v true (c.run k).1.released c.toCore (c.run k).2.toCore := by
  have hs : ∀ {b r c' d}, Settles v b r c' d → b = true → Settles v true r c' d := fun h hb => hb ▸ h
  cases k with
  | observeSenderQualityEvidence input commit =>
    exact hs (c.observeSenderQualityEvidence_settles hv ha input (answer commit) ()) hk
  | observeSfuPublisherQualityEvidence input commit =>
    exact hs (c.observeSfuPublisherQualityEvidence_settles hv ha input (answer commit) ()) hk
  | candidateReady guard now proof commit =>
    exact hs (c.candidateReady_settles hv ha guard now (answer commit) () proof) hk
  | adoptDirectConnection guard id now =>
    have : (c.adoptDirectConnection guard id now).1.committed = false := by
      unfold adoptDirectConnection
      split
      · rfl
      · split
        · rfl
        · dsimp only
          split <;> rfl
    exact absurd (this.symm.trans hk) Bool.false_ne_true
  | candidateTransportConnected guard now =>
    have : (c.candidateTransportConnected guard now).1.committed = false := by
      unfold candidateTransportConnected
      dsimp only
      split
      · rfl
      · split
        · rfl
        · split <;> rfl
    exact absurd (this.symm.trans hk) Bool.false_ne_true
  | candidateFailed guard now => cases hk
  | operationExpired now => cases hk
  | _ => cases hk

end Controller

end Piik.Route
