/-
  What outlives a session: a connection may be retained, its opportunity may not.
  An invalidation charges the key of the sessions the edge was acquired under,
  and a session that ends takes every key that names it.
-/
import Piik.Route.Charged
import Piik.Route.Departure

namespace Piik.Route

open Piik.Route.Core

namespace Controller

variable (c : Controller)

/-! ## A session that ends -/

/-- The viewer's preference only removes keys. -/
theorem setViewerRoutePreference_fewer (p s : ID) (pref : ViewerRoutePreference) (now : Option Int) :
    Fewer c (c.setViewerRoutePreference p s pref now).2 := by
  unfold setViewerRoutePreference
  split
  · exact .refl c
  · split
    · exact .refl c
    · have h := (Fewer.refl c).abort (c.operationOwnedBy p) now .aborted
      dsimp only
      generalize (if c.operationOwnedBy p then c.abortOperation now .aborted else ([], c)) = x at h
      have h₁ := (h.modifyParticipant p fun q => { q with routePreference := pref }).update
        (f := fun l => { l with
          consumedCandidateOpportunities := .empty, availabilityExhausted := false
          bootstrapFailureReported := false }) (fun _ _ _ => rfl) p
      exact (((h₁.deleteContinuation p).clearDemand p).touchFacts).recordDemands _ now _

theorem replaceSession_erased {input : ParticipantInput} (hp : (c.participant input.peerID).isSome)
    (now : Option Int) : (c.replaceSession input now).2.Erased input.peerID input.role := by
  unfold replaceSession
  dsimp only
  have h : ((c.modifyParticipant input.peerID fun p => { p with relayVolunteer := false })
      |>.clearOpportunitiesForSessionChange input.peerID input.role).Erased
        input.peerID input.role := by
    refine clearOpportunitiesForSessionChange_erased _ ?_ _
    simpa [Core.participant, modifyParticipant, OMap.get_modify_self] using hp
  generalize ((c.modifyParticipant input.peerID fun p => { p with relayVolunteer := false })
    |>.clearOpportunitiesForSessionChange input.peerID input.role) = d at h ⊢
  have hd := ((Fewer.refl d).clearQuality input.peerID).abort
    ((d.clearQualityForParticipant input.peerID).operationUsesParticipantSession input.peerID) now .stale
  generalize (if (d.clearQualityForParticipant input.peerID).operationUsesParticipantSession input.peerID
    then (d.clearQualityForParticipant input.peerID).abortOperation now .stale
    else ([], d.clearQualityForParticipant input.peerID)) = x at hd ⊢
  exact h.fewer (((hd.deleteContinuation _).clearDemand input.peerID).same rfl)

theorem upsertParticipant_erased {input : ParticipantInput} {x : Participant}
    (hx : c.participant input.peerID = some x) (hs : x.sessionID ≠ input.sessionID)
    {now : Option Int} (hf : (c.upsertParticipant input now).2.fault = none) :
    (c.upsertParticipant input now).2.Erased input.peerID input.role := by
  unfold upsertParticipant at hf ⊢
  split at hf
  · exact absurd hf (raise_fault_ne c _)
  · next hrole =>
    rw [if_neg hrole]
    split at hf
    · exact absurd hf (raise_fault_ne c _)
    · next hcap =>
      rw [if_neg hcap, hx]
      rw [hx] at hf
      dsimp only at hf ⊢
      split at hf
      · exact absurd hf (raise_fault_ne c _)
      · next hr =>
        rw [if_neg hr]
        unfold updateParticipant
        dsimp only
        rw [if_pos hs]
        have h := @replaceSession_erased c input (by simp [hx]) now
        generalize c.replaceSession input now = y at h ⊢
        have h₁ : ∀ capacity, ((y.2.modifyParticipant input.peerID fun p => { p with
            departureConfirmed := false
            reportedDownstreamCapacity := input.effectiveDownstreamCapacity
            effectiveDownstreamCapacity := capacity }).demandReturned input x capacity now).Erased
              input.peerID input.role := fun capacity =>
          h.fewer (((Fewer.refl y.2).modifyParticipant _ _).same (demandReturned_books _ _ _ _ _))
        split
        · exact (h₁ _).fewer (setViewerRoutePreference_fewer _ _ _ _ _)
        · exact h₁ _

theorem disconnectSession_erased {p s : ID} {x : Participant} (hx : c.participant p = some x)
    (hs : x.sessionIs s) : (c.disconnectSession p s).2.Erased p x.role := by
  unfold disconnectSession
  rw [hx]
  dsimp only
  rw [if_neg (by simp [hs])]
  refine (clearOpportunitiesForSessionChange_erased c (by simp [hx]) x.role).fewer ?_
  exact (((((Fewer.refl _).modifyParticipant p _).clearQuality p).deleteContinuation p).clearDemand p).touchFacts

theorem confirmDeparture_erased {p : ID} {x : Participant} (hx : c.participant p = some x)
    (hr : x.role ≠ .host) (hs : x.sessionID ≠ "") (now : Option Int) :
    (c.confirmDeparture p now).2.Erased p x.role := by
  unfold confirmDeparture
  rw [hx]
  dsimp only
  rw [if_neg hr, if_neg (by simp [hs])]
  set d : Controller := { c with routeTimings := c.routeTimings.delete p }
  refine (clearOpportunitiesForSessionChange_erased d (p := p) (by simp [d, hx]) x.role).fewer ?_
  have h := ((Fewer.refl (d.clearOpportunitiesForSessionChange p x.role)).modifyParticipant p fun q =>
    { q with sessionID := "" }).clearQuality p
  have h := h.modifyParticipant p fun q =>
    { q with departureConfirmed := true, effectiveDownstreamCapacity := 0 }
  exact (((h.deleteContinuation p).clearDemand p).recordDemands _ now _).touchFacts

/-- A controller without keys. -/
theorem Erased.of_empty {d : Controller} (h : ∀ q, d.opportunities q = .empty)
    (hs : d.consumedSfuBootstrapOpportunities = .empty) (p : ID) (role : Role) : d.Erased p role := by
  refine ⟨fun K => ?_, fun q K _ => ?_, fun _ q K _ => ?_, fun K _ => ?_⟩
  · rw [h, OMap.get_empty]
  · rw [h, OMap.get_empty]
  · rw [h, OMap.get_empty]
  · rw [hs, OMap.get_empty]

theorem moveHost_erased (host : Participant) (q s : ID) (now : Option Int) (p : ID) (role : Role) :
    (c.moveHost host q s now).2.Erased p role :=
  .of_empty (c.moveHost_opportunities host q s now) (c.moveHost_carriers host q s now) p role

theorem dispose_erased (p : ID) (role : Role) : c.dispose.2.Erased p role :=
  .of_empty (fun _ => rfl) rfl p role

/-- **A session ends with its keys.**  Whichever call takes somebody's session
    also erases the keys that name it. -/
theorem Good.run_erased {c c' : Controller} {k : Call} {reply : Reply} (h : c.Good)
    (hk : c.call k = .ok (reply, c')) {p : ID} {x : Participant} (hx : c.participant p = some x)
    (hs : x.sessionID ≠ "") (hn : c'.sessionOf p ≠ x.sessionID) : c'.Erased p x.role := by
  obtain ⟨hg, hr⟩ := h.call hk
  have hf : (c.run k).2.fault = none := by
    rw [hr]
    exact hg.fault
  have hc' : (c.run k).2 = c' := congrArg Prod.snd hr
  rw [← hc'] at hn ⊢
  have hpeople := h.sound.forest.peopled
  have hpresent : x.departureConfirmed = false := by
    cases hd : x.departureConfirmed with
    | false => rfl
    | true => exact absurd ((hpeople.rated p x hx).2 hd) hs
  have hsession : c.sessionOf p = x.sessionID := by simp [Core.sessionOf, hx]
  rcases (c.run_frame h k hf).kept p x hx hpresent with hd | ⟨x', hx', heq, -⟩
  · cases k with
    | upsertParticipant input now =>
      obtain ⟨rfl, hne⟩ := hd
      have hf : (c.upsertParticipant input now).2.fault = none := hf
      have hrole : x.role = input.role := by
        by_contra hr
        unfold upsertParticipant at hf
        split at hf
        · exact raise_fault_ne c _ hf
        · split at hf
          · exact raise_fault_ne c _ hf
          · simp only [hx, ne_eq, hr, not_false_eq_true, if_true] at hf
            exact raise_fault_ne c _ hf
      exact hrole ▸ c.upsertParticipant_erased hx (hsession ▸ hne) hf
    | rebindHostIdentity q s now =>
      obtain ⟨rfl, hne⟩ := hd
      have hf : (c.rebindHostIdentity q s now).2.fault = none := hf
      show (c.rebindHostIdentity q s now).2.Erased c.hostPeerID x.role
      unfold rebindHostIdentity at hf ⊢
      split at hf
      · next hq =>
        rw [if_pos hq]
        have hrole : x.role = .host := (hpeople.role _ x hx).2 rfl
        rw [hrole, ← hq]
        exact c.upsertParticipant_erased (hq ▸ hx) (hsession ▸ hne hq) hf
      · next hq =>
        rw [if_neg hq]
        split at hf
        · exact absurd hf (raise_fault_ne c _)
        · next hnew =>
          rw [if_neg hnew]
          split at hf
          · exact absurd hf (raise_fault_ne c _)
          · split at hf
            · exact absurd hf (raise_fault_ne c _)
            · next hrole =>
              rw [if_neg hrole]
              split at hf
              · exact absurd hf (raise_fault_ne c _)
              · next hcap =>
                rw [if_neg hcap]
                exact c.moveHost_erased _ _ _ _ _ _
    | disconnectSession q s =>
      obtain ⟨rfl, hq⟩ := hd
      exact c.disconnectSession_erased hx (by simp [Participant.sessionIs, ← hq, hsession, hs])
    | confirmDeparture q now =>
      obtain rfl : p = q := hd
      refine c.confirmDeparture_erased hx (fun hr => hn ?_) hs now
      show (c.confirmDeparture p now).2.sessionOf p = x.sessionID
      unfold confirmDeparture
      rw [hx]
      dsimp only
      rw [if_pos hr]
      exact hsession
    | dispose => exact c.dispose_erased p x.role
    | _ => cases hd
  · exact absurd (by simp [Core.sessionOf, hx', heq]) hn

end Controller

/-! ## The key of a pair -/

/-- The tuple that an edge's opportunity is kept under. -/
def CommittedEdge.tuple (e : CommittedEdge) : CandidateTuple :=
  { kind := e.kind, parentPeerID := e.parentPeerID }

/-- Sessions without a NUL can be read off the key. -/
theorem ledgerKey_inj {tuple : CandidateTuple} {s t s' t' : ID} (hs : '\x00' ∉ s.toList)
    (ht : '\x00' ∉ t.toList) (h : ledgerKey tuple s t = ledgerKey tuple s' t') : s = s' ∧ t = t' := by
  have key : ∀ pre : String, pre ++ s ++ "\x00" ++ t = pre ++ s' ++ "\x00" ++ t' → s = s' ∧ t = t' := by
    intro pre h
    have h := congrArg String.toList h
    simp only [String.toList_append, List.append_assoc, List.append_cancel_left_eq] at h
    have h : s.toList ++ '\x00' :: t.toList = s'.toList ++ '\x00' :: t'.toList := h
    obtain ⟨hl, -, hr⟩ := (List.append_cons_inj_of_notMem hs ht).1 h
    exact ⟨String.toList_injective hl, String.toList_injective hr⟩
  unfold ledgerKey peerOpportunityKey at h
  cases hk : tuple.kind with
  | peer =>
    simp only [hk] at h
    exact key _ h
  | sfu =>
    simp only [hk] at h
    exact key _ h

/-! ## Runs -/

/-- A call of the run brought the session to the participant. -/
def Introduced (ks : List Call) (p s : ID) : Prop := ∃ k ∈ ks, k.Introduces p s

/-- The sessions of the run can be read off a key. -/
def Legible (ks : List Call) : Prop := ∀ p s, Introduced ks p s → '\x00' ∉ s.toList

/-- Every session, and every session in a key, was brought by a call. -/
structure Provenance (ks : List Call) (c : Core) : Prop where
  session : ∀ p, c.sessionOf p = "" ∨ Introduced ks p (c.sessionOf p)
  key : ∀ p e, c.edge p = some e → ∃ s t, e.opportunityKey = ledgerKey e.tuple s t ∧
    (s = "" ∨ Introduced ks p s) ∧
    (t = "" ∨ Introduced ks (c.upstreamOf e.tuple) t)

/-- No call of the run gives the child another connection. -/
def Retains (p : ID) : List Call → Controller → Prop
  | [], _ => True
  | k :: ks, c => ¬k.Rewires c.toCore (c.run k).1 p ∧ Retains p ks (c.run k).2

/-- A committed connection is kept under the key of the sessions it joins. -/
theorem Accepted.key {r : List Resource} {c c' : Core} (h : Accepted r c c') (hs : c.Sound)
    {op : Operation} (ho : c.operation = some op) (hr : op.reason ≠ .publicationAttach)
    {e : CommittedEdge} (he : c'.edge op.childPeerID = some e) :
    e.opportunityKey = c'.candidateOpportunityBase op.childPeerID e.tuple := by
  cases h with
  | attached ho' hr' =>
    cases ho.symm.trans ho'
    exact absurd hr' hr
  | @commits _ c₁ _ att plan m ho' _ hc hp hv hrep hm =>
    cases ho.symm.trans ho'
    obtain ⟨e₀, pub, hi, heq, -⟩ := committed_settled hs ho hr hc hp hv hrep
      (hm hs.forest.outward (hs.working.outward _ ho))
    obtain ⟨_, _, _, _, heq'⟩ := committed_eq c₁ op att (c.edge op.childPeerID) m
    rw [heq, edge_settled_child hi.active] at he
    cases he
    rw [hi.key, heq']
    rfl

namespace Controller

/-- An adopted connection is kept under the key of the sessions it joins. -/
theorem adoptDirectConnection_key (c : Controller) {guard : EdgeGuard} {id : ID} {now : Int}
    (hroom : c.roomMedia = false) (hacc : (c.adoptDirectConnection guard id now).1.accepted)
    (hid : ∀ e, c.edge guard.childPeerID = some e → e.connectionID ≠ id) {e : CommittedEdge}
    (he : (c.adoptDirectConnection guard id now).2.edge guard.childPeerID = some e) :
    e.opportunityKey =
      (c.adoptDirectConnection guard id now).2.candidateOpportunityBase guard.childPeerID e.tuple := by
  unfold adoptDirectConnection at hacc he ⊢
  dsimp only at hacc he ⊢
  cases ha : c.adoptableEdge guard id with
  | none => simp [ha] at hacc
  | some e₀ =>
    have he₀ := (c.adoptableEdge_edge ha).1
    simp only [ha] at hacc he ⊢
    have hne : id ≠ c.activeConnectionID e₀ := fun h => hid e₀ he₀ (by simp [h, activeConnectionID, hroom])
    rw [if_neg hne] at hacc he ⊢
    split at hacc
    · cases hacc
    · next hrep =>
      rw [if_neg hrep] at he ⊢
      have h : (if c.routesChild guard.childPeerID = true then
          c.abortOperation (some now) .aborted else ([], c)).2.roomMedia = false := by
        split
        · obtain ⟨rev, lat, f, h⟩ := aborted_eq c.toCore
          rw [abortOperation_eq, h]
          exact hroom
        · exact hroom
      generalize (if c.routesChild guard.childPeerID = true then
        c.abortOperation (some now) .aborted else ([], c)) = x at h he ⊢
      simp only [Core.edge, touchFacts_toCore, updateLedger_toCore, adoptConnection,
        clearQualityForParticipant_toCore, OMap.get_modify_self, h] at he
      obtain ⟨e₁, -, rfl⟩ := Option.map_eq_some_iff.1 he
      simp [adoptConnection, Core.candidateOpportunityBase, CommittedEdge.tuple, Core.sessionOf,
        Core.participant]

/-- A new connection is kept under the key of the sessions it joins. -/
theorem Good.rewired_key {c c' : Controller} {k : Call} {reply : Reply} (h : c.Good)
    (hk : c.call k = .ok (reply, c')) {p : ID} (hw : k.Rewires c.toCore reply p) {e : CommittedEdge}
    (he : c'.edge p = some e) : e.opportunityKey = c'.candidateOpportunityBase p e.tuple := by
  obtain ⟨hg, hr⟩ := h.call hk
  cases k with
  | adoptDirectConnection guard id now =>
    obtain ⟨hroom, hacc, rfl, hid⟩ := hw
    have hc' : (c.adoptDirectConnection guard id now).2 = c' := congrArg Prod.snd hr
    have hacc : (c.adoptDirectConnection guard id now).1.accepted :=
      (congrArg (fun x => x.1.accepted) hr).trans hacc
    rw [← hc'] at he ⊢
    exact c.adoptDirectConnection_key hroom hacc hid he
  | _ =>
    obtain ⟨hcommit, op, ho, hreason, rfl⟩ := hw
    obtain ⟨d, ⟨op₁, att, att', ho₁, -, -, rfl⟩, hsound, ha⟩ := h.call_accepted hk hcommit
    cases ho.symm.trans ho₁
    have ho' : some { op with current := some att' } =
        some ({ op with current := some att' } : Operation) := rfl
    exact ha.key hsound ho' hreason he

theorem Good.call_provenance {c c' : Controller} {k : Call} {reply : Reply} (h : c.Good)
    (hk : c.call k = .ok (reply, c')) {ks : List Call} (hp : Provenance ks c.toCore) :
    Provenance (ks ++ [k]) c'.toCore := by
  obtain ⟨hg, hr⟩ := h.call hk
  have hframe := c.run_frame h k (by rw [hr]; exact hg.fault)
  rw [hr] at hframe
  have hmore : ∀ {q s}, s = "" ∨ Introduced ks q s → s = "" ∨ Introduced (ks ++ [k]) q s := by
    rintro q s (hs | ⟨k', hk', hi⟩)
    · exact Or.inl hs
    · exact Or.inr ⟨k', List.mem_append_left _ hk', hi⟩
  have hsession : ∀ q, c'.sessionOf q = "" ∨ Introduced (ks ++ [k]) q (c'.sessionOf q) := by
    intro q
    cases hx : c'.participant q with
    | none => exact Or.inl (by simp [Core.sessionOf, hx])
    | some x' =>
      have hs : c'.sessionOf q = x'.sessionID := by simp [Core.sessionOf, hx]
      by_cases hne : x'.sessionID = ""
      · exact Or.inl (hs.trans hne)
      · rcases hframe.session q x' hx hne with hi | ⟨x, hx₀, heq⟩
        · exact Or.inr ⟨k, by simp, hs ▸ hi⟩
        · rw [hs, ← heq, show x.sessionID = c.sessionOf q by simp [Core.sessionOf, hx₀]]
          exact hmore (hp.session q)
  refine ⟨hsession, fun q e' he' => ?_⟩
  have hnew : k.Rewires c.toCore reply q → ∃ s t, e'.opportunityKey = ledgerKey e'.tuple s t ∧
      (s = "" ∨ Introduced (ks ++ [k]) q s) ∧
      (t = "" ∨ Introduced (ks ++ [k]) (c'.upstreamOf e'.tuple) t) := fun hw =>
    ⟨_, _, (h.rewired_key hk hw he').trans (Core.candidateOpportunityBase_eq _ _ _), hsession q,
      hsession _⟩
  rcases hframe.wire q e' he' with hw | ⟨e, he, hsame⟩
  · exact hnew hw
  · rcases hframe.host with hh | ⟨hall, -⟩
    · obtain ⟨s, t, heq, hs, ht⟩ := hp.key q e he
      have htuple : e'.tuple = e.tuple := by simp [CommittedEdge.tuple, hsame.kind, hsame.parentPeerID]
      have hend : c'.upstreamOf e'.tuple = c.upstreamOf e.tuple := by
        rw [htuple]
        unfold Core.upstreamOf
        rw [hh]
      exact ⟨s, t, by rw [hsame.opportunityKey, heq, htuple], hmore hs, hend ▸ hmore ht⟩
    · exact hnew (hall q e' he')

theorem Good.calls_provenance {c c' : Controller} {ks : List Call} (h : c.Good)
    (hk : c.calls ks = .ok c') {ls : List Call} (hp : Provenance ls c.toCore) :
    Provenance (ls ++ ks) c'.toCore := by
  induction ks generalizing c ls with
  | nil =>
    cases hk
    simpa using hp
  | cons k ks ih =>
    unfold Controller.calls at hk
    split at hk
    · cases hk
    · next reply c₁ h₁ =>
      have := ih (h.call h₁).1 hk (h.call_provenance h₁ hp)
      simpa using this

/-- An edge that was retained is the connection it was, from the same upstream. -/
theorem Good.calls_retains {c c' : Controller} {ks : List Call} (h : c.Good)
    (hk : c.calls ks = .ok c') {p : ID} (hr : Retains p ks c) {e' : CommittedEdge}
    (he' : c'.edge p = some e') : ∃ e, c.edge p = some e ∧ SameWire e e' ∧
      c'.upstreamOf e'.tuple = c.upstreamOf e.tuple := by
  induction ks generalizing c with
  | nil =>
    cases hk
    exact ⟨e', he', .refl e', rfl⟩
  | cons k ks ih =>
    unfold Controller.calls at hk
    split at hk
    · cases hk
    · next reply c₁ h₁ =>
      obtain ⟨hg, hrun⟩ := h.call h₁
      obtain ⟨hnot, hr⟩ := hr
      rw [hrun] at hnot hr
      obtain ⟨e₁, he₁, hsame, hend⟩ := ih hg hk hr
      have hframe := c.run_frame h k (by rw [hrun]; exact hg.fault)
      rw [hrun] at hframe
      rcases hframe.wire p e₁ he₁ with hw | ⟨e, he, hsame'⟩
      · exact absurd hw hnot
      · refine ⟨e, he, hsame'.trans hsame, hend.trans ?_⟩
        rcases hframe.host with hh | ⟨hall, -⟩
        · unfold Core.upstreamOf CommittedEdge.tuple
          dsimp only
          rw [hsame'.kind, hsame'.parentPeerID, hh]
        · exact absurd (hall p e₁ he₁) hnot

theorem hasPrefix_append (p t : String) : hasPrefix (p ++ t) p := by
  simp [hasPrefix, List.isPrefixOf_iff_prefix]

/-- What is erased with a session: every key of a pair that it belongs to. -/
theorem Erased.pair {c c' : Controller} {p : ID} {x : Participant} (h : c'.Erased p x.role)
    (hhost : p = c.hostPeerID → x.role = .host) {q : ID} {tuple : CandidateTuple}
    (hreg : tuple.regenerate = false) (hq : q = p ∨ c.upstreamOf tuple = p) (s t : ID) :
    (c'.opportunities q).get (ledgerKey tuple s t) = none := by
  rcases hq with rfl | hq
  · exact h.own _
  · unfold Core.upstreamOf at hq
    cases hk : tuple.kind with
    | peer =>
      rw [hk] at hq
      obtain rfl : tuple.parentPeerID = p := hq
      refine h.parent q _ ?_
      have hkey : ledgerKey tuple s t =
          "peer:" ++ tuple.parentPeerID ++ "\x00" ++ (s ++ "\x00" ++ t) := by
        simp [ledgerKey, hk, peerOpportunityKey, tupleKey, hreg, String.append_assoc]
      rw [hkey]
      exact hasPrefix_append _ _
    | sfu =>
      rw [hk] at hq
      have hrole : x.role = .host := hhost hq.symm
      refine h.host hrole q _ ?_
      have hkey : ledgerKey tuple s t = sfuOpportunityPrefix ++ (s ++ "\x00" ++ t) := by
        simp [ledgerKey, hk, String.append_assoc]
      rw [hkey]
      exact hasPrefix_append _ _

/-- Of the carriers, an ended one loses its keys, and all lose theirs with the Host. -/
theorem Erased.carriers {c c' : Controller} {p : ID} {x : Participant} (h : c'.Erased p x.role)
    (hhost : p = c.hostPeerID → x.role = .host) {q : ID} (hq : q = p ∨ c.hostPeerID = p) (key : String) :
    c'.consumedSfuBootstrapOpportunities.get (q ++ "\x00" ++ key) = none := by
  rcases hq with rfl | hq
  · exact h.carrier _ (Or.inr (hasPrefix_append _ _))
  · exact h.carrier _ (Or.inl (hhost hq.symm))

/-- **A retained connection spends nothing of a new session.**  Its invalidation
    charges no key once an end has a session it was not acquired under, and
    otherwise exactly the key it was acquired under.  A session that ends takes
    every key that names it from the children's ledgers and from the carriers',
    and neither holds a key of a regeneration. -/
theorem retained_opportunities {o : Options} {latest : Int} {c₀ c : Controller} {ks : List Call}
    (hnew : new o latest = .ok c₀) (hks : c₀.calls ks = .ok c) :
    (∀ ks' c' p e x, c.calls ks' = .ok c' → Legible (ks ++ ks') → Retains p ks' c →
      c'.edge p = some e → (x = p ∨ x = c'.upstreamOf e.tuple) → c'.sessionOf x ≠ "" →
      ¬Introduced ks x (c'.sessionOf x) →
      ∀ guard now, guard.childPeerID = p → ∀ q,
        (c'.invalidateEdge guard now).2.opportunities q = c'.opportunities q) ∧
    (∀ k reply c₁ p ks' c' e, c.call k = .ok (reply, c₁) → k.Rewires c.toCore reply p →
      c₁.calls ks' = .ok c' → Retains p ks' c₁ → c'.edge p = some e → e.usable →
      c'.sessionOf p = c₁.sessionOf p →
      c'.sessionOf (c'.upstreamOf e.tuple) = c₁.sessionOf (c'.upstreamOf e.tuple) →
      ∀ guard now, guard.childPeerID = p → (c'.invalidateEdge guard now).1 → ∀ q,
        (c'.invalidateEdge guard now).2.opportunities q =
          if q = p then (c'.opportunities p).set (c'.candidateOpportunityBase p e.tuple)
            { rank := 0, exhausted := true
              chargedAttempts := c'.charged p (c'.candidateOpportunityBase p e.tuple) }
          else c'.opportunities q) ∧
    (∀ k reply c' p, c.call k = .ok (reply, c') → c.sessionOf p ≠ "" →
      c'.sessionOf p ≠ c.sessionOf p →
      (∀ q tuple s t, tuple.regenerate = false → (q = p ∨ c.upstreamOf tuple = p) →
        (c'.opportunities q).get (ledgerKey tuple s t) = none) ∧
      ∀ q key, (q = p ∨ c.hostPeerID = p) →
        c'.consumedSfuBootstrapOpportunities.get (q ++ "\x00" ++ key) = none) ∧
    (∀ q key, ((c.opportunities q).get key).isSome → PlainKey key) ∧
    ∀ key, (c.consumedSfuBootstrapOpportunities.get key).isSome →
      ∃ carrier pair, key = carrier ++ "\x00" ++ pair ∧ PlainKey pair := by
  have hgood₀ := new_good hnew
  have hgood : c.Good := hgood₀.calls hks
  have hprov₀ : Provenance [] c₀.toCore := by
    obtain ⟨-, rfl⟩ := new_eq hnew
    refine ⟨fun p => Or.inl ?_, fun p e he => ?_⟩
    · simp [Core.sessionOf, Core.participant]
    · simp [Core.edge] at he
  have hprov : Provenance ks c.toCore := by simpa using hgood₀.calls_provenance hks hprov₀
  have hplain : c.Plain := calls_plain (new_plain hnew) hks
  refine ⟨?_, ?_, ?_, hplain.children, hplain.carriers⟩
  · intro ks' c' p e x hks' hleg hret he hx hs hfresh guard now hguard q
    subst hguard
    obtain ⟨e₀, he₀, hsame, hend⟩ := hgood.calls_retains hks' hret he
    obtain ⟨s, t, hkey, hs₀, ht₀⟩ := hprov.key _ e₀ he₀
    have htuple : e.tuple = e₀.tuple := by simp [CommittedEdge.tuple, hsame.kind, hsame.parentPeerID]
    rw [c'.invalidateEdge_opportunities he now q]
    refine if_neg fun hcharged => ?_
    have hbase : e.opportunityKey = c'.candidateOpportunityBase guard.childPeerID e.tuple :=
      hcharged.2.2.2
    rw [hsame.opportunityKey, hkey, Core.candidateOpportunityBase_eq, htuple] at hbase
    have hread : ∀ {p s}, s = "" ∨ Introduced ks p s → '\x00' ∉ s.toList := by
      rintro p s (rfl | ⟨k, hk, hi⟩)
      · simp
      · exact hleg p s ⟨k, List.mem_append_left _ hk, hi⟩
    obtain ⟨hcs, hps⟩ := ledgerKey_inj (hread hs₀) (hread ht₀) hbase
    rcases hx with rfl | rfl
    · rcases hs₀ with h | h
      · exact hs (hcs ▸ h)
      · exact hfresh (hcs ▸ h)
    · rw [htuple] at hs hfresh
      rw [← hend, htuple] at ht₀
      rcases ht₀ with h | h
      · exact hs (hps ▸ h)
      · exact hfresh (hps ▸ h)
  · intro k reply c₁ p ks' c' e hk hw hks' hret he hu hs₁ hs₂ guard now hguard hacc q
    subst hguard
    obtain ⟨hg₁, -⟩ := hgood.call hk
    obtain ⟨e₁, he₁, hsame, hend⟩ := hg₁.calls_retains hks' hret he
    have htuple : e.tuple = e₁.tuple := by simp [CommittedEdge.tuple, hsame.kind, hsame.parentPeerID]
    have hkey : e.opportunityKey = c'.candidateOpportunityBase guard.childPeerID e.tuple := by
      rw [hsame.opportunityKey, hgood.rewired_key hk hw he₁, Core.candidateOpportunityBase_eq,
        Core.candidateOpportunityBase_eq, ← hs₁, ← hend, ← hs₂, htuple]
    rw [c'.invalidateEdge_opportunities he now q]
    by_cases hq : q = guard.childPeerID
    · rw [if_pos ⟨hacc, hu, hq, hkey⟩, if_pos hq, hq, hkey]
    · rw [if_neg fun h => hq h.2.2.1, if_neg hq]
  · intro k reply c' p hk hs hn
    cases hx : c.participant p with
    | none => exact absurd (by simp [Core.sessionOf, hx]) hs
    | some x =>
      have hsession : c.sessionOf p = x.sessionID := by simp [Core.sessionOf, hx]
      have he := hgood.run_erased hk hx (hsession ▸ hs) (hsession ▸ hn)
      have hhost := fun hp => (hgood.sound.forest.peopled.role p x hx).2 hp
      exact ⟨fun q tuple s t hreg hq => he.pair hhost hreg hq s t,
        fun q key hq => he.carriers hhost hq key⟩

/-- The viewer comes back under a new session while the Host feeds it. -/
theorem retained_opportunities_viewerServed : ∃ c c' : Controller, c.Reachable ∧
    c.calls [.upsertParticipant { viewerInput with sessionID := "v2" } (some 5)] = .ok c' ∧
    (c.edge "viewer").isSome ∧ (c'.edge "viewer").isSome ∧ c'.sessionOf "viewer" = "v2" ∧
    ∀ guard now, guard.childPeerID = "viewer" → ∀ q,
      (c'.invalidateEdge guard now).2.opportunities q = c'.opportunities q := by
  obtain ⟨c₀, hnew⟩ : ∃ c₀, new smallRoom 0 = .ok c₀ := ⟨_, rfl⟩
  have hrun : ∃ c c', c₀.calls (.upsertParticipant hostInput (some 0) :: viewerServed) = .ok c ∧
      c.calls [.upsertParticipant { viewerInput with sessionID := "v2" } (some 5)] = .ok c' ∧
      (c.edge "viewer").isSome ∧ ∃ e, c'.edge "viewer" = some e ∧ c'.sessionOf "viewer" = "v2" ∧
      Retains "viewer" [.upsertParticipant { viewerInput with sessionID := "v2" } (some 5)] c := by
    cases hnew
    refine ⟨_, _, rfl, rfl, rfl, _, rfl, rfl, fun h => ?_, trivial⟩
    cases h.1
  obtain ⟨c, c', hc, hc', he, e, he', hs, hret⟩ := hrun
  refine ⟨c, c', ⟨_, _, _, _, hnew, hc⟩, hc', he, by simp [he'], hs, fun guard now hguard q => ?_⟩
  refine (retained_opportunities hnew hc).1 _ c' "viewer" e "viewer" hc' ?_ hret he' (Or.inl rfl)
    (by simp [hs]) ?_ guard now hguard q
  · rintro p s ⟨k, hk, hi⟩
    simp only [viewerServed, List.cons_append, List.nil_append, List.mem_cons, List.not_mem_nil,
      or_false] at hk
    rcases hk with rfl | rfl | rfl | rfl | rfl | rfl | rfl <;>
      first | (obtain ⟨-, rfl⟩ := hi; decide) | cases hi
  · rw [hs]
    rintro ⟨k, hk, hi⟩
    simp only [viewerServed, List.mem_cons, List.not_mem_nil, or_false] at hk
    rcases hk with rfl | rfl | rfl | rfl | rfl | rfl
    all_goals first | (obtain ⟨-, h⟩ := hi; revert h; decide) | cases hi

/-- A sample of the Host's sender for the viewer. -/
def hostSample (now : Int) (state : SenderQualityState) : Call :=
  .observeSenderQualityEvidence
    { parentPeerID := "host", parentSessionID := "h1", childPeerID := "viewer", routeRevision := 2
      connectionID := "c2", senderIdentity := some "sender", sampleTimestampMs := some now, state
      acceptedAtMs := now } true

/-- The viewer's picture degrades, and a relay is tried for it and given up. -/
def relayTried : List Call :=
  .upsertParticipant hostInput (some 0) ::
    served "relay" "r1" "host" "c1" 0 2 1 ++ served "viewer" "v1" "host" "c2" 1 4 2 ++
    [hostSample 3 .healthy, hostSample 4 .degraded, hostSample 5 .degraded, hostSample 6 .degraded, .reconcile 7,
      .skipCurrentCandidate
        { childPeerID := "viewer", childSessionID := "v1", baseRevision := 2, factVersion := 5, cursor := 0
          plan := { tuple := { kind := .peer, parentPeerID := "relay", transport := .direct }
                    endpointTransition := { kind := .none, producerPeerID := some "relay" } } } 8 .candidateFailed]

/-- The relay comes back under a new session, and the key of its old one is still in the quality ledger
    of the viewer. -/
theorem quality_key_survives : ∃ c c' : Controller, ∃ reply o, c.Reachable ∧
    c.call (.upsertParticipant { peerID := "relay", role := .viewer, sessionID := "r2"
                                 effectiveDownstreamCapacity := 1 } (some 9)) = .ok (reply, c') ∧
    c.sessionOf "relay" = "r1" ∧ c'.sessionOf "relay" = "r2" ∧
    c'.senderQualityObservations.get "viewer" = some o ∧
    (o.consumedQualityCandidates.get
      (ledgerKey { kind := .peer, parentPeerID := "relay" } "v1" "r1")).isSome := by
  obtain ⟨c₀, hnew⟩ : ∃ c₀, new smallRoom 0 = .ok c₀ := ⟨_, rfl⟩
  let returns : Call := .upsertParticipant { peerID := "relay", role := .viewer, sessionID := "r2"
                                             effectiveDownstreamCapacity := 1 } (some 9)
  have hrun : ((new smallRoom 0).toOption.bind fun c₀ => (c₀.calls relayTried).toOption.bind fun c =>
      (c.call returns).toOption.map fun r => c.sessionOf "relay" == "r1" && r.2.sessionOf "relay" == "r2" &&
        (r.2.senderQualityObservations.get "viewer").any fun o => (o.consumedQualityCandidates.get
          (ledgerKey { kind := .peer, parentPeerID := "relay" } "v1" "r1")).isSome) = some true := by
    decide +kernel
  rw [hnew] at hrun
  cases hc : c₀.calls relayTried with
  | error fault => simp [Except.toOption, hc] at hrun
  | ok c =>
    cases hk : c.call returns with
    | error fault => simp [Except.toOption, hc, hk] at hrun
    | ok r =>
      simp only [Except.toOption, hc, hk, Option.bind_some, Option.map_some, Option.some.injEq, Bool.and_eq_true,
        beq_iff_eq, Option.any_eq_true] at hrun
      obtain ⟨⟨hold, hback⟩, o, ho, hkey⟩ := hrun
      exact ⟨c, r.2, r.1, o, ⟨smallRoom, 0, c₀, relayTried, hnew, hc⟩, hk, hold, hback, ho, hkey⟩

end Controller

end Piik.Route
