/-
  Nobody is given more copies to send than it has the capacity for, and during
  a transition no more than its transition limit.
-/
import Piik.Route.Orphan

namespace Piik.Route

open Piik.Route.Core

variable {v : Licence} {b b' : Bool} {a r : List Resource} {c c' : Core}

/-! ## Steps without a commit -/

/-- The endpoints and the publication of an equal graph. -/
theorem physicalCopies_congr (he : c'.upstreamByViewer = c.upstreamByViewer)
    (hh : c'.hostPeerID = c.hostPeerID) (hp : c'.hostPublication = c.hostPublication) (p : ID) :
    c'.physicalCopies p = c.physicalCopies p := by
  unfold physicalCopies publicationActive
  rw [he, hh, hp]

theorem Cut.publicationActive {L : Core → ID → CommittedEdge → Prop} (h : Cut L r c c')
    (hp : c'.publicationActive) : c.publicationActive := by
  cases h with
  | sfu =>
    unfold dropSfuEdge at hp
    split at hp <;> exact hp
  | publication => simp [Core.publicationActive] at hp
  | _ => exact hp

theorem Cuts.physicalCopies {L : Core → ID → CommittedEdge → Prop} (h : Cuts L r c c') (p : ID) :
    c'.physicalCopies p ≤ c.physicalCopies p := by
  refine physicalCopies_le (h.copiesOf p) h.sameCourse.hostPeerID fun hp => ?_
  induction h with
  | refl => exact hp
  | head hd _ ih => exact hd.publicationActive (ih hp)

theorem Reshaped.physicalCopies (h : Reshaped c c') (p : ID) :
    c'.physicalCopies p ≤ c.physicalCopies p := by
  refine physicalCopies_le (fun q hq => ?_) h.hostPeerID fun hp => ?_
  · obtain ⟨e', he', hk, hx, ha⟩ := mem_copiesOf.1 hq
    obtain ⟨f, hf, heq⟩ := h.edge (p := q)
    rw [heq] at he'
    obtain ⟨e, he, rfl⟩ := Option.map_eq_some_iff.1 he'
    exact mem_copiesOf.2 ⟨e, he, (hf e).kind ▸ hk, (hf e).parentPeerID ▸ hx,
      (hf e).physicalActive ▸ ha⟩
  · obtain ⟨g, hg, heq⟩ := h.publication
    unfold publicationActive at *
    rw [heq] at hp
    cases hc : c.hostPublication with
    | none => simp [hc] at hp
    | some q =>
      rw [hc] at hp
      exact (hg q).physicalActive.symm.trans hp

theorem physicalCopies_of_empty (he : c.upstreamByViewer = .empty) (hp : c.hostPublication = none)
    (p : ID) : c.physicalCopies p = 0 := by
  simp [physicalCopies, publicationActive, he, hp, OMap.empty]

theorem physicalCopies_nonneg (c : Core) (p : ID) : 0 ≤ c.physicalCopies p := by
  rw [physicalCopies_eq]
  split <;> omega

/-- **Without a commit nobody sends more.** -/
theorem Step.physicalCopies (h : Step v b b' a r c c') (hv : v.commits = false)
    (hfault : c'.fault = none) (p : ID) : c'.physicalCopies p ≤ c.physicalCopies p := by
  cases h with
  | upkeep h =>
    cases h with
    | trims _ ht =>
      exact (physicalCopies_congr (by rfl) (by rfl) (by rfl) p).le.trans (ht.cuts.physicalCopies p)
    | trimsMarked _ ht => exact ht.cuts.physicalCopies p
    | halts _ hc => simp [hc] at hfault
    | @unattached _ _ op =>
      exact (physicalCopies_congr (by rfl) (by rfl) (by rfl) p).le.trans
        ((reshaped_picture c op.childPeerID (fun e => { e with
          videoGeneration := op.videoGeneration, videoConnectionID := "", videoReady := false })
          fun _ => ⟨rfl, rfl, rfl, rfl, rfl⟩).physicalCopies p)
    | _ => exact (physicalCopies_congr (by rfl) (by rfl) (by rfl) p).le
  | gap _ ht =>
    exact (physicalCopies_congr (by rfl) (by rfl) (by rfl) p).le.trans (ht.cuts.physicalCopies p)
  | accepts hc _ => simp [hv] at hc
  | reshapes h _ => exact h.physicalCopies p
  | @moves _ host host' =>
    rw [physicalCopies_of_empty (c := (c.aborted.rehosted host').bump.checkGraph)
      (by unfold checkGraph; split <;> rfl) (by unfold checkGraph; split <;> rfl)]
    exact physicalCopies_nonneg c p
  | disposes =>
    rw [physicalCopies_of_empty (c := c.disposed) rfl rfl]
    exact physicalCopies_nonneg c p

/-- **A commit gives nobody more than its capacity.** -/
theorem Accepted.bounded (h : Accepted r c c') (hs : c.Sound) : Bounded c c' := by
  cases h with
  | @attached _ op att e =>
    refine fun p => Or.inl ?_
    exact (physicalCopies_congr (by rfl) (by rfl) (by rfl) p).le.trans
      ((reshaped_picture c op.childPeerID (fun e => { e with
        videoGeneration := op.videoGeneration, videoConnectionID := att.connectionID, videoReady := true })
        fun _ => ⟨rfl, rfl, rfl, rfl, rfl⟩).physicalCopies p)
  | commits ho hr hc hp hv hrep hm =>
    obtain ⟨e, pub, -, heq, -, -, hb⟩ := committed_settled hs ho hr hc hp hv hrep
      (hm hs.forest.outward (hs.working.outward _ ho))
    rw [heq]
    exact hb

/-! ## The transition limit -/

/-- Who sends the new copy. -/
def Core.producer (c : Core) (tuple : CandidateTuple) : ID :=
  if tuple.kind = .peer then tuple.parentPeerID else c.hostPeerID

/-- The capacity is within the transition limit. -/
theorem capacity_le_limit (h : c.Peopled) {p : ID} {q : Participant} (hq : c.participant p = some q) :
    q.effectiveDownstreamCapacity ≤ c.transitionCopyLimit q := by
  have hcap := h.positive
  have hr := (h.rated p q hq).1
  unfold transitionCopyLimit
  unfold effectiveCapacity at hr
  simp only [maxEndpointMediaCopyCapacity, maxRelayVolunteerChildren, maxViewersPerRoomLimit] at *
  by_cases hd : q.departureConfirmed = true <;> by_cases hw : q.relayVolunteer = true <;>
    simp only [hd, hw, if_true, if_false, Bool.false_eq_true] at hr ⊢ <;>
    by_cases hr' : q.reportedDownstreamCapacity > 3 <;> simp only [hr', if_true, if_false] <;> omega

/-- What a valid plan without a gap adds is within the producer's limit. -/
theorem candidateValid_limit (h : c.Peopled) {p : ID} {plan : CandidatePlan} {att : Option Attempt}
    (hv : c.candidateValid p plan att = true) (hg : plan.endpointTransition.kind ≠ .boundedGap)
    (hn : plan.tuple.kind = .peer ∨ plan.tuple.publication ≠ .reuse) :
    ∃ q, c.participant (c.producer plan.tuple) = some q ∧
      c.physicalCopies (c.producer plan.tuple) + 1 ≤ c.transitionCopyLimit q := by
  unfold candidateValid at hv
  rw [Bool.and_eq_true] at hv
  obtain ⟨-, hplan⟩ := hv
  split at hplan
  · next current hcurrent =>
    have hkind : current.endpointTransition.kind ≠ .boundedGap := by
      simp only [endpointTransitionEquals, Bool.and_eq_true, beq_iff_eq] at hplan
      rwa [hplan.1.1]
    unfold planCandidate at hcurrent
    have hproducer : (if (plan.tuple.kind == .peer) = true then plan.tuple.parentPeerID
        else c.hostPeerID) = c.producer plan.tuple := by
      unfold producer
      simp
    rw [hproducer, if_neg (by rintro h'; simp only [Bool.and_eq_true, beq_iff_eq] at h'
                              rcases hn with hn | hn
                              · simp [hn] at h'
                              · exact hn h'.2)] at hcurrent
    dsimp only at hcurrent
    split at hcurrent
    · cases hcurrent
    · next q hq =>
      refine ⟨q, hq, ?_⟩
      split at hcurrent
      · cases hcurrent
      · split at hcurrent
        · next hle => exact hle.trans (capacity_le_limit h hq)
        · split at hcurrent
          · next hle => exact hle
          · split at hcurrent
            · cases hcurrent
            · split at hcurrent
              · cases hcurrent
              · cases hcurrent
                exact absurd rfl hkind
  · cases hplan

namespace Controller

variable {c : Controller}

/-- An accepted begin makes the plan at the cursor live, and changes nothing else
    of the core `d` that validation left. -/
theorem begun_of_accepted {input : BeginInput} (h : (c.beginCurrentCandidate input).1.accepted) :
    ∃ (d : Core) (op : Operation) (att : Attempt),
      (c.beginCurrentCandidate input).2.toCore =
        { d.allocateRevision with operation := some { op with current := some att } } ∧
      (op.reason = .publicationAttach ∨ ∃ plan, att.tuple = plan.tuple ∧
        plan.endpointTransition.kind ≠ .boundedGap ∧
        d.candidateValid op.childPeerID plan none = true) := by
  unfold beginCurrentCandidate at *
  dsimp only at *
  generalize (c.validateOrAdvance input.nowMs none).2 = c₁ at *
  generalize (c.validateOrAdvance input.nowMs none).1 = checked at *
  split at h
  · cases h
  · next op ho =>
    split at h
    · cases h
    · next hg =>
      rw [if_neg hg]
      split at h
      · next hr =>
        rw [if_pos hr]
        unfold beginPublicationAttach at *
        split at h
        · split at h
          · cases h
          · next he =>
            rw [if_neg he]
            exact ⟨c₁.toCore, op, _, rfl, Or.inl hr⟩
        · cases h
      · next hr =>
        rw [if_neg hr]
        split at h
        · cases h
        · next plan hp =>
          split at h
          · cases h
          · next hv =>
            rw [if_neg hv]
            simp only [operationCandidateValid, Bool.not_eq_true', Bool.not_eq_false,
              Bool.and_eq_true] at hv
            split at h
            · cases h
            · next hgap =>
              rw [if_neg hgap]
              split at h
              · cases h
              · next hh =>
                rw [if_neg hh]
                split at h
                · cases h
                · let c₂ : Controller := { c₁ with toCore := c₁.allocateRevision }
                  let att := c₂.newAttempt op plan input c₂.latest
                  let op' : Operation := { op with
                    peerAttemptStarted := op.peerAttemptStarted || att.connectionAttempt.isSome }
                  exact ⟨c₁.toCore, op', att, rfl, Or.inr ⟨plan, rfl, hgap, hv.1⟩⟩

/-- **Endpoint capacity.**  Who sends more copies after a call than before has the
    capacity for them; and an accepted peer, create or replace candidate leaves its
    producer within its transition limit. -/
theorem endpoint_capacity {c c' : Controller} {k : Call} {reply : Reply} (h : c.Reachable)
    (hk : c.call k = .ok (reply, c')) :
    (∀ p, c.physicalCopies p < c'.physicalCopies p → ∃ q, c'.participant p = some q ∧
      c'.physicalCopies p ≤ q.effectiveDownstreamCapacity) ∧
    ∀ input, k = .beginCurrentCandidate input → reply.accepted → ∃ op att,
      c'.operation = some op ∧ op.current = some att ∧ (op.reason = .publicationAttach ∨
        (att.tuple.kind = .peer ∨ att.tuple.publication ≠ .reuse → ∃ q,
          c'.participant (c'.producer att.tuple) = some q ∧
          c'.physicalCopies (c'.producer att.tuple) + 1 ≤ c'.transitionCopyLimit q)) := by
  have hgood := h.good
  obtain ⟨hg, hr⟩ := hgood.call hk
  refine ⟨fun p hp => ?_, ?_⟩
  · cases hc : reply.committed with
    | false =>
      -- without a commit nobody sends more
      have hrun := run_runs (v := { Licence.all with commits := false }) c hgood.sound.working.aligned k
        ⟨fun h => (by cases h), fun h => (by cases h), fun _ => by rw [hr]; exact hc, fun _ _ => trivial,
          fun _ _ => trivial⟩
      rw [hr] at hrun
      have hle := (invariant_of_runs (P := fun d => d.physicalCopies p ≤ c.physicalCopies p)
        (fun h _ hf hle => (h.physicalCopies rfl hf p).trans hle) hrun hgood.safe fun _ => le_rfl).2
        hg.fault
      exact absurd hp (not_lt.2 hle)
    | true =>
      obtain ⟨d, ⟨op, att, att', -, -, -, rfl⟩, hs, ha⟩ := hgood.call_accepted hk hc
      exact (ha.bounded hs p).resolve_left (not_le.2 hp)
  · rintro input rfl ha
    replace hr : Reply.ofBegin (c.beginCurrentCandidate input) = (reply, c') := hr
    have ha' : (c.beginCurrentCandidate input).1.accepted :=
      (congrArg (fun x => x.1.accepted) hr).trans ha
    obtain ⟨d, op, att, heq, hcase⟩ := begun_of_accepted ha'
    rw [show (c.beginCurrentCandidate input).2 = c' from congrArg Prod.snd hr] at heq
    refine ⟨{ op with current := some att }, att, by rw [heq], rfl, hcase.imp id ?_⟩
    rintro ⟨plan, ht, hgap, hv⟩ hn
    have hp : d.Peopled := by
      have := hg.sound.forest.peopled
      rw [heq] at this
      exact this.of_eq rfl rfl rfl rfl
    rw [ht] at hn ⊢
    rw [heq]
    exact candidateValid_limit hp hv hgap hn

/-- The Host's first copy is begun within its limit, and when it is committed the Host has the
    capacity for it. -/
theorem endpoint_capacity_viewerServed :
    (∃ c c' : Controller, c.Reachable ∧ c.physicalCopies "host" < c'.physicalCopies "host" ∧
      ∃ q, c'.participant "host" = some q ∧
        c'.physicalCopies "host" ≤ q.effectiveDownstreamCapacity) ∧
    ∃ c' : Controller, ∃ op att, c'.operation = some op ∧ op.current = some att ∧ att.tuple.kind = .peer ∧
      ∃ q, c'.participant (c'.producer att.tuple) = some q ∧
        c'.physicalCopies (c'.producer att.tuple) + 1 ≤ c'.transitionCopyLimit q := by
  constructor
  · have h : ∃ c c' : Controller, ∃ reply, c.Reachable ∧
        c.call (.candidateReady { childPeerID := "viewer", childSessionID := "v1", revision := 1
                                  connectionID := "c1" } 4 {} true) = .ok (reply, c') ∧
        c.physicalCopies "host" < c'.physicalCopies "host" :=
      ⟨_, _, _, ⟨smallRoom, 0, _, .upsertParticipant hostInput (some 0) :: viewerServed.take 4, rfl, rfl⟩,
        rfl, by decide⟩
    obtain ⟨c, c', reply, hc, hk, hlt⟩ := h
    exact ⟨c, c', hc, hlt, (endpoint_capacity hc hk).1 "host" hlt⟩
  · have h : ∃ c c' : Controller, ∃ reply input op att, c.Reachable ∧
        c.call (.beginCurrentCandidate input) = .ok (reply, c') ∧ reply.accepted = true ∧
        c'.operation = some op ∧ op.current = some att ∧ op.reason ≠ .publicationAttach ∧
        att.tuple.kind = .peer :=
      ⟨_, _, _,
        { guard := { childPeerID := "viewer", childSessionID := "v1", baseRevision := 0
                     factVersion := 2, cursor := 0
                     plan := { tuple := { kind := .peer, parentPeerID := "host", transport := .direct }
                               endpointTransition := { kind := .none, producerPeerID := some "host" } } }
          nowMs := 2, connectionID := "c1", reservation := { kind := .direct } }, _, _,
        ⟨smallRoom, 0, _, .upsertParticipant hostInput (some 0) :: viewerServed.take 2, rfl, rfl⟩,
        rfl, rfl, rfl, rfl, by decide, rfl⟩
    obtain ⟨c, c', reply, input, op, att, hc, hk, ha, hop, hatt, hreason, hpeer⟩ := h
    obtain ⟨op', att', hop', hatt', hcase⟩ := (endpoint_capacity hc hk).2 input rfl ha
    obtain rfl := Option.some.inj (hop.symm.trans hop')
    obtain rfl := Option.some.inj (hatt.symm.trans hatt')
    exact ⟨c', op, att, hop, hatt, hpeer, (hcase.resolve_left hreason) (.inl hpeer)⟩

/-- The Host feeds three viewers, which is its limit; then the picture is published
    a second time, on the copies that it sends. -/
def threeServed : List Call :=
  .upsertParticipant hostInput (some 0) ::
    served "a" "a1" "host" "ca" 0 2 1 ++ .setEffectiveCapacity "a" "a1" 0 (some 1) ::
    served "b" "b1" "host" "cb" 1 5 2 ++ .setEffectiveCapacity "b" "b1" 0 (some 2) ::
    served "c" "c1" "host" "cc" 2 8 3 ++
    [.setVideoPublication "g1" false 4, .setVideoPublication "g2" false 5, .reconcile 6]

set_option maxRecDepth 4000 in
/-- The attachment of the first viewer to the new picture is begun as a peer candidate,
    whatever the limit: it adds no copy. -/
theorem attachment_beyond_limit : ∃ c c' : Controller, ∃ reply input op att q, c.Reachable ∧
    c.call (.beginCurrentCandidate input) = .ok (reply, c') ∧ reply.accepted = true ∧
    c'.operation = some op ∧ op.current = some att ∧ att.tuple.kind = .peer ∧
    c'.participant (c'.producer att.tuple) = some q ∧
    c'.transitionCopyLimit q < c'.physicalCopies (c'.producer att.tuple) + 1 :=
  ⟨_, _, _,
    { guard := { childPeerID := "a", childSessionID := "a1", baseRevision := 3, factVersion := 11, cursor := 0
                 plan := { tuple := { kind := .peer, parentPeerID := "host", transport := .direct }
                           endpointTransition := { kind := .none } } }
      nowMs := 7, connectionID := "ca2", reservation := { kind := .unset } }, _, _, _,
    ⟨smallRoom, 0, _, threeServed, rfl, rfl⟩, rfl, rfl, rfl, rfl, rfl, rfl, by decide⟩

end Controller

end Piik.Route
