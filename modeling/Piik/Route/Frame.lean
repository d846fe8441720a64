/-
  What a call leaves alone: a session is the old one unless the call brings it,
  and an edge is the old one unless the call installs or adopts it.
-/
import Piik.Route.Handoff
import Piik.Route.Linear

namespace Piik.Route

open Piik.Route.Core

variable {v : Licence} {b b' : Bool} {a r : List Resource} {c c' c'' : Core}
variable {S : ID → ID → Prop} {E D : ID → Prop}

/-- The same connection, no more in service than before. -/
structure SameWire (e e' : CommittedEdge) : Prop where
  kind : e'.kind = e.kind
  parentPeerID : e'.parentPeerID = e.parentPeerID
  connectionID : e'.connectionID = e.connectionID
  opportunityKey : e'.opportunityKey = e.opportunityKey
  active : e'.physicalActive → e.physicalActive

theorem SameWire.refl (e : CommittedEdge) : SameWire e e := ⟨rfl, rfl, rfl, rfl, id⟩

theorem SameWire.trans {e e₁ e₂ : CommittedEdge} (h : SameWire e e₁) (h' : SameWire e₁ e₂) :
    SameWire e e₂ :=
  ⟨h'.1.trans h.1, h'.2.trans h.2, h'.3.trans h.3, h'.4.trans h.4, fun ha => h.5 (h'.5 ha)⟩

/-- Only `S` brings sessions, only `E` connections, and only `D` takes the
    session of somebody present.  A Host that moves leaves its ID and the graph
    behind. -/
structure Frame (S : ID → ID → Prop) (E D : ID → Prop) (c c' : Core) : Prop where
  session : ∀ p x', c'.participant p = some x' → x'.sessionID ≠ "" → S p x'.sessionID ∨
    ∃ x, c.participant p = some x ∧ x.sessionID = x'.sessionID
  departed : ∀ p x', c'.participant p = some x' → x'.departureConfirmed → x'.role = .viewer ∨
    ∃ x, c.participant p = some x ∧ x.departureConfirmed ∧ x.role = x'.role
  kept : ∀ p x, c.participant p = some x → x.departureConfirmed = false → D p ∨
    ∃ x', c'.participant p = some x' ∧ x'.sessionID = x.sessionID ∧ x'.departureConfirmed = false
  wire : ∀ p e', c'.edge p = some e' → E p ∨ ∃ e, c.edge p = some e ∧ SameWire e e'
  host : c'.hostPeerID = c.hostPeerID ∨ (∀ p e', c'.edge p = some e' → E p) ∧
    ∀ x, c'.participant c.hostPeerID = some x → x.sessionID ≠ "" → S c.hostPeerID x.sessionID

namespace Frame

theorem still (hp : c'.participants = c.participants) (he : c'.upstreamByViewer = c.upstreamByViewer)
    (hh : c'.hostPeerID = c.hostPeerID) : Frame S E D c c' where
  session p x' hx _ := Or.inr ⟨x', by rwa [Core.participant, ← hp], rfl⟩
  departed p x' hx hd := Or.inr ⟨x', by rwa [Core.participant, ← hp], hd, rfl⟩
  kept p x hx hd := Or.inr ⟨x, by rwa [Core.participant, hp], rfl, hd⟩
  wire p e' he' := Or.inr ⟨e', by rwa [Core.edge, ← he], .refl e'⟩
  host := Or.inl hh

theorem of_eq (h : c' = c) : Frame S E D c c' := by
  subst h
  exact still rfl rfl rfl

theorem trans (h : Frame S E D c c') (h' : Frame S E D c' c'') : Frame S E D c c'' where
  session p x'' hx'' hs := by
    rcases h'.session p x'' hx'' hs with hS | ⟨x', hx', heq⟩
    · exact Or.inl hS
    · rw [← heq] at hs ⊢
      exact h.session p x' hx' hs
  departed p x'' hx'' hd := by
    rcases h'.departed p x'' hx'' hd with hv | ⟨x', hx', hd', hr⟩
    · exact Or.inl hv
    · rw [← hr]
      exact h.departed p x' hx' hd'
  kept p x hx hd := by
    rcases h.kept p x hx hd with hD | ⟨x', hx', heq, hd'⟩
    · exact Or.inl hD
    · rw [← heq]
      exact h'.kept p x' hx' hd'
  wire p e'' he'' := by
    rcases h'.wire p e'' he'' with hE | ⟨e', he', hw'⟩
    · exact Or.inl hE
    · exact (h.wire p e' he').imp_right fun ⟨e, he, hw⟩ => ⟨e, he, hw.trans hw'⟩
  host := by
    rcases h.host with hh | ⟨hn, hx⟩
    · rcases h'.host with hh' | hh'
      · exact Or.inl (hh'.trans hh)
      · exact Or.inr (hh ▸ hh')
    · refine Or.inr ⟨fun p e'' he'' => ?_, fun x'' hx'' hs => ?_⟩
      · rcases h'.wire p e'' he'' with hE | ⟨e', he', -⟩
        · exact hE
        · exact hn p e' he'
      · rcases h'.session _ x'' hx'' hs with hS | ⟨x', hx', heq⟩
        · exact hS
        · rw [← heq] at hs ⊢
          exact hx x' hx' hs

theorem mono {S' : ID → ID → Prop} {E' D' : ID → Prop} (h : Frame S E D c c')
    (hS : ∀ p s, S p s → S' p s) (hE : ∀ p, E p → E' p) (hD : ∀ p, D p → D' p) :
    Frame S' E' D' c c' where
  session p x' hx hs := (h.session p x' hx hs).imp_left (hS p _)
  departed := h.departed
  kept p x hx hd := (h.kept p x hx hd).imp_left (hD p)
  wire p e' he' := (h.wire p e' he').imp_left (hE p)
  host := h.host.imp_right fun ⟨he, hx⟩ =>
    ⟨fun p e' he' => hE p (he p e' he'), fun x hx' hs => hS _ _ (hx x hx' hs)⟩

/-- The participants change, and nothing else that is framed. -/
theorem people (hp : ∀ p x', c'.participant p = some x' → x'.sessionID ≠ "" → S p x'.sessionID ∨
      ∃ x, c.participant p = some x ∧ x.sessionID = x'.sessionID)
    (hd : ∀ p x', c'.participant p = some x' → x'.departureConfirmed → x'.role = .viewer ∨
      ∃ x, c.participant p = some x ∧ x.departureConfirmed ∧ x.role = x'.role)
    (hk : ∀ p x, c.participant p = some x → x.departureConfirmed = false → D p ∨
      ∃ x', c'.participant p = some x' ∧ x'.sessionID = x.sessionID ∧ x'.departureConfirmed = false)
    (he : c'.upstreamByViewer = c.upstreamByViewer) (hh : c'.hostPeerID = c.hostPeerID) :
    Frame S E D c c' where
  session := hp
  departed := hd
  kept := hk
  wire p e' he' := Or.inr ⟨e', by rwa [Core.edge, ← he], .refl e'⟩
  host := Or.inl hh

/-- Every edge keeps its connection. -/
theorem wires (hp : c'.participants = c.participants)
    (he : ∀ p e', c'.edge p = some e' → E p ∨ ∃ e, c.edge p = some e ∧ SameWire e e')
    (hh : c'.hostPeerID = c.hostPeerID) : Frame S E D c c' where
  session p x' hx _ := Or.inr ⟨x', by rwa [Core.participant, ← hp], rfl⟩
  departed p x' hx hd := Or.inr ⟨x', by rwa [Core.participant, ← hp], hd, rfl⟩
  kept p x hx hd := Or.inr ⟨x, by rwa [Core.participant, hp], rfl, hd⟩
  wire := he
  host := Or.inl hh

/-- One edge changes in place. -/
theorem modifyEdge {p : ID} {f : CommittedEdge → CommittedEdge} (hf : ∀ e, SameWire e (f e))
    (hp : c'.participants = c.participants)
    (he : c'.upstreamByViewer = c.upstreamByViewer.modify p f) (hh : c'.hostPeerID = c.hostPeerID) :
    Frame S E D c c' := by
  refine wires hp (fun q e' he' => ?_) hh
  rw [Core.edge, he, OMap.get_modify] at he'
  split at he'
  · next hq =>
    obtain ⟨e, he, rfl⟩ := Option.map_eq_some_iff.1 he'
    exact Or.inr ⟨e, hq ▸ he, hf e⟩
  · exact Or.inr ⟨e', he', .refl e'⟩

end Frame

/-! ## Maintenance -/

theorem Cut.frame {L : Core → ID → CommittedEdge → Prop} (h : Cut L r c c') : Frame S E D c c' where
  session p x' hx _ := by
    rcases h.participant p with hp | ⟨hn, -⟩
    · exact Or.inr ⟨x', hp ▸ hx, rfl⟩
    · cases hn.symm.trans hx
  departed p x' hx hd := by
    rcases h.participant p with hp | ⟨hn, -⟩
    · exact Or.inr ⟨x', hp ▸ hx, hd, rfl⟩
    · cases hn.symm.trans hx
  kept p x hx hd := Or.inr <| by
    rcases h.participant p with hp | ⟨-, -, -, y, hy, -, hdep⟩
    · exact ⟨x, hp ▸ hx, rfl, hd⟩
    · cases hy.symm.trans hx
      exact absurd hdep (by simp [hd])
  wire p e' he' := Or.inr <| by
    have hsame : c'.edge p = c.edge p → ∃ e, c.edge p = some e ∧ SameWire e e' := fun heq =>
      ⟨e', heq ▸ he', .refl e'⟩
    have hdead : ∀ e : CommittedEdge,
        SameWire e { e with usable := false, physicalActive := false } := fun e =>
      ⟨rfl, rfl, rfl, rfl, fun h => by cases h⟩
    cases h with
    | @peer _ q e he =>
      rw [edge_deactivateEdge] at he'
      split at he'
      · next hq =>
        obtain ⟨e, he, rfl⟩ := Option.map_eq_some_iff.1 he'
        exact ⟨e, hq ▸ he, hdead e⟩
      · exact ⟨e', he', .refl e'⟩
    | @sfu _ q e he =>
      rw [edge_dropSfuEdge] at he'
      split at he'
      · next hq =>
        split at he'
        · obtain ⟨e, he, rfl⟩ := Option.map_eq_some_iff.1 he'
          exact ⟨e, hq ▸ he, hdead e⟩
        · cases he'
      · exact ⟨e', he', .refl e'⟩
    | publication => exact hsame rfl
    | @leaf _ q =>
      have hd : (c.deleteEdge q).edge p = some e' := he'
      rw [edge_deleteEdge] at hd
      split at hd
      · cases hd
      · exact ⟨e', hd, .refl e'⟩
    | anchors =>
      rcases edge_prune_cases c p with heq | ⟨e, he, -, -, hn⟩
      · exact hsame heq
      · cases hn.symm.trans he'
  host := Or.inl h.sameCourse.hostPeerID

theorem Cuts.frame {L : Core → ID → CommittedEdge → Prop} (h : Cuts L r c c') : Frame S E D c c' := by
  induction h with
  | refl c => exact .of_eq rfl
  | head hd _ ih => exact hd.frame.trans ih

theorem Upkeep.frame (h : Upkeep v b b' a r c c') (hf : c'.fault = none) : Frame S E D c c' := by
  cases h with
  | @unattached _ _ op =>
    refine .modifyEdge (p := op.childPeerID) (f := fun e =>
      { e with videoGeneration := op.videoGeneration, videoConnectionID := "", videoReady := false })
      (fun e => ⟨rfl, rfl, rfl, rfl, id⟩) rfl rfl rfl
  | trims _ ht =>
    exact (Cuts.frame ht.cuts).trans (.still rfl rfl rfl)
  | trimsMarked _ ht => exact Cuts.frame ht.cuts
  | halts _ h => simp [h] at hf
  | _ => exact .still rfl rfl rfl

theorem Quiet.frame (h : Quiet v b b' a r c c') (hf : c'.fault = none) : Frame S E D c c' := by
  cases h with
  | upkeep h => exact h.frame hf
  | gap _ ht => exact (Cuts.frame ht.cuts).trans (.still rfl rfl rfl)

theorem frame_of_chain (h : Chain (Quiet v) b b' a r c c') (hf : c'.fault = none) :
    Frame S E D c c' := by
  induction h with
  | refl => exact .of_eq rfl
  | head hd ht ih =>
    refine Frame.trans (hd.frame ?_) (ih hf)
    exact fault_before_of_chain (ht.mono Quiet.step) hf

theorem frame_of_runs (h : Runs (Quiet v) a r c c') (hf : c'.fault = none) : Frame S E D c c' := by
  obtain ⟨_, h⟩ := h false
  exact frame_of_chain h hf

/-! ## The calls -/

/-- Whose session the call may take. -/
def Call.Dismisses (k : Call) (c : Core) (p : ID) : Prop :=
  match k with
  | .upsertParticipant input _ => p = input.peerID ∧ c.sessionOf p ≠ input.sessionID
  | .rebindHostIdentity peerID sessionID _ => p = c.hostPeerID ∧
      (peerID = p → c.sessionOf p ≠ sessionID)
  | .disconnectSession peerID sessionID => p = peerID ∧ c.sessionOf p = sessionID
  | .confirmDeparture peerID _ => p = peerID
  | .dispose => True
  | _ => False

/-- The sessions that the call brings. -/
def Call.Introduces (k : Call) (p s : ID) : Prop :=
  match k with
  | .upsertParticipant input _ => p = input.peerID ∧ s = input.sessionID
  | .rebindHostIdentity peerID sessionID _ => p = peerID ∧ s = sessionID
  | _ => False

namespace Frame

/-- One participant changes in place. -/
theorem modifyPerson {p : ID} {f : Participant → Participant}
    (hp : c'.participants = c.participants.modify p f)
    (hf : ∀ x, c.participant p = some x → (f x).sessionID ≠ "" → S p (f x).sessionID ∨
      x.sessionID = (f x).sessionID)
    (hd : ∀ x, c.participant p = some x → (f x).departureConfirmed → (f x).role = .viewer ∨
      x.departureConfirmed ∧ x.role = (f x).role)
    (hk : ∀ x, c.participant p = some x → x.departureConfirmed = false → D p ∨
      (f x).sessionID = x.sessionID ∧ (f x).departureConfirmed = false)
    (he : c'.upstreamByViewer = c.upstreamByViewer) (hh : c'.hostPeerID = c.hostPeerID) :
    Frame S E D c c' := by
  have key : ∀ q x', c'.participant q = some x' →
      (∃ x, q = p ∧ c.participant p = some x ∧ x' = f x) ∨ c.participant q = some x' := by
    intro q x' hx
    rw [Core.participant, hp, OMap.get_modify] at hx
    split at hx
    · next hq =>
      subst hq
      obtain ⟨x, hx₀, rfl⟩ := Option.map_eq_some_iff.1 hx
      exact Or.inl ⟨x, rfl, hx₀, rfl⟩
    · exact Or.inr hx
  refine people (fun q x' hx hs => ?_) (fun q x' hx hdep => ?_) (fun q x hx hdep => ?_) he hh
  · rcases key q x' hx with ⟨x, rfl, hx₀, rfl⟩ | hx₀
    · exact (hf x hx₀ hs).imp_right fun h => ⟨x, hx₀, h⟩
    · exact Or.inr ⟨x', hx₀, rfl⟩
  · rcases key q x' hx with ⟨x, rfl, hx₀, rfl⟩ | hx₀
    · exact (hd x hx₀ hdep).imp_right fun h => ⟨x, hx₀, h⟩
    · exact Or.inr ⟨x', hx₀, hdep, rfl⟩
  · have hx' : c'.participant q = if q = p then (c.participant q).map f else c.participant q := by
      rw [Core.participant, hp, OMap.get_modify]
      rfl
    rw [hx] at hx'
    split at hx'
    · next hq =>
      subst hq
      exact (hk x hx hdep).imp_right fun h => ⟨f x, hx', h⟩
    · exact Or.inr ⟨x, hx', rfl, hdep⟩

theorem aborted (c : Core) : Frame S E D c c.aborted := by
  obtain ⟨rev, lat, f, h⟩ := Controller.aborted_eq c
  rw [h]
  exact still rfl rfl rfl

theorem rebind (c : Core) (p s : ID) : Frame S E D c (c.rebindCommittedSession p s) := by
  refine wires rfl (fun q e' he' => ?_) rfl
  rw [Core.edge, Core.rebindCommittedSession, OMap.get_mapValues] at he'
  obtain ⟨e, he, rfl⟩ := Option.map_eq_some_iff.1 he'
  exact Or.inr ⟨e, he, rfl, rfl, rfl, rfl, id⟩

end Frame

namespace Controller

variable (c : Controller)

theorem abortOperation_frame (now : Option Int) (bucket : RejectionBucket) :
    Frame S E D c.toCore (c.abortOperation now bucket).2.toCore := by
  rw [abortOperation_eq]
  exact .aborted _

theorem modifyParticipant_frame {p : ID} {f : Participant → Participant}
    (hf : ∀ x, (f x).sessionID = x.sessionID ∧ (f x).role = x.role ∧
      ((f x).departureConfirmed → x.departureConfirmed)) :
    Frame S E D c.toCore (c.modifyParticipant p f).toCore :=
  .modifyPerson (f := f) rfl (fun x _ _ => Or.inr (hf x).1.symm)
    (fun x _ hd => Or.inr ⟨(hf x).2.2 hd, (hf x).2.1.symm⟩)
    (fun x _ hd => Or.inr ⟨(hf x).1, by
      cases h : (f x).departureConfirmed with
      | false => rfl
      | true => exact absurd ((hf x).2.2 h) (by simp [hd])⟩) rfl rfl

theorem setViewerRoutePreference_frame (p s : ID) (pref : ViewerRoutePreference) (now : Option Int) :
    Frame S E D c.toCore (c.setViewerRoutePreference p s pref now).2.toCore := by
  unfold setViewerRoutePreference
  split
  · exact .of_eq rfl
  · split
    · exact .of_eq rfl
    · have key : ∀ x : List Resource × Controller, Frame S E D c.toCore x.2.toCore →
          Frame S E D c.toCore (((((x.2.modifyParticipant p fun q =>
            { q with routePreference := pref }).updateLedger p fun l => { l with
              consumedCandidateOpportunities := .empty, availabilityExhausted := false
              bootstrapFailureReported := false }).deleteContinuation p).clearSfuBootstrapForDemand
                p).touchFacts).toCore := fun x hx => by
        refine hx.trans (.modifyPerson (p := p) (f := fun q => { q with routePreference := pref })
          ?_ (fun x _ _ => Or.inr rfl) (fun x _ hd => Or.inr ⟨hd, rfl⟩)
          (fun x _ hd => Or.inr ⟨rfl, hd⟩) ?_ ?_) <;>
          simp [deleteContinuation_toCore, modifyParticipant]
      simp only [recordDemands_toCore]
      refine key (if c.operationOwnedBy p then c.abortOperation now .aborted else ([], c)) ?_
      split
      · exact c.abortOperation_frame _ _
      · exact .of_eq rfl

theorem addParticipant_frame (input : ParticipantInput) (now : Option Int)
    (hnew : c.participant input.peerID = none) :
    Frame (Call.upsertParticipant input now).Introduces E D c.toCore
      (c.addParticipant input now).toCore := by
  have hp : (c.addParticipant input now).participants = c.participants.set input.peerID
      { peerID := input.peerID, role := input.role, sessionID := input.sessionID
        effectiveDownstreamCapacity := c.effectiveCapacity input.effectiveDownstreamCapacity false
        reportedDownstreamCapacity := input.effectiveDownstreamCapacity
        routePreference := input.routePreference, joinOrder := c.nextJoinOrder } := by
    unfold addParticipant
    dsimp only
    split <;> simp
  have key : ∀ q x', (c.addParticipant input now).participant q = some x' →
      (q = input.peerID ∧ x'.sessionID = input.sessionID ∧ x'.departureConfirmed = false) ∨
        c.participant q = some x' := by
    intro q x' hx
    rw [Core.participant, hp, OMap.get_set] at hx
    split at hx
    · next hq =>
      cases hx
      exact Or.inl ⟨hq, rfl, rfl⟩
    · exact Or.inr hx
  refine .people (fun q x' hx _ => ?_) (fun q x' hx hd => ?_) (fun q x hx hd => ?_) ?_ ?_
  · exact (key q x' hx).imp (fun h => ⟨h.1, h.2.1⟩) fun h => ⟨x', h, rfl⟩
  · rcases key q x' hx with ⟨-, -, h⟩ | h
    · simp [h] at hd
    · exact Or.inr ⟨x', h, hd, rfl⟩
  · refine Or.inr ⟨x, ?_, rfl, hd⟩
    have hq : q ≠ input.peerID := by
      rintro rfl
      cases hnew.symm.trans hx
    rw [Core.participant, hp, OMap.get_set, if_neg hq]
    exact hx
  · unfold addParticipant
    dsimp only
    split <;> simp
  · unfold addParticipant
    dsimp only
    split <;> simp

theorem updateParticipant_frame (input : ParticipantInput) {current : Participant}
    (hcur : c.participant input.peerID = some current) (now : Option Int) :
    Frame (Call.upsertParticipant input now).Introduces E
      (fun q => q = input.peerID ∧ c.sessionOf q ≠ input.sessionID) c.toCore
      (c.updateParticipant input current now).2.toCore := by
  unfold updateParticipant
  dsimp only
  set rate : Participant → Participant := fun q => { q with
    departureConfirmed := false
    reportedDownstreamCapacity := input.effectiveDownstreamCapacity
    effectiveDownstreamCapacity := c.effectiveCapacity input.effectiveDownstreamCapacity
      (current.sessionID == input.sessionID && current.relayVolunteer) }
  have h₁ : Frame (Call.upsertParticipant input now).Introduces E
      (fun q => q = input.peerID ∧ c.sessionOf q ≠ input.sessionID) c.toCore
      (if current.sessionID ≠ input.sessionID then c.replaceSession input now else ([], c)).2.toCore := by
    split
    · next hs =>
      obtain ⟨d, -, ⟨o, rev, lat, f, hd⟩, heq⟩ := c.replaceSession_runs (v := .all) input now
      rw [heq]
      refine Frame.trans ?_ (.rebind _ _ _)
      refine .modifyPerson (p := input.peerID) (f := fun q =>
        { q with relayVolunteer := false, sessionID := input.sessionID }) rfl
        (fun x _ _ => Or.inl ⟨rfl, rfl⟩) (fun x _ hd => Or.inr ⟨hd, rfl⟩)
        (fun _ _ _ => Or.inl ⟨rfl, by simpa [Core.sessionOf, hcur] using hs⟩) ?_ ?_ <;> rw [hd]
    · exact .of_eq rfl
  generalize (if current.sessionID ≠ input.sessionID then c.replaceSession input now else ([], c)) = x
    at h₁
  obtain ⟨released, c₁⟩ := x
  have h₂ : Frame (Call.upsertParticipant input now).Introduces E
      (fun q => q = input.peerID ∧ c.sessionOf q ≠ input.sessionID) c.toCore
      ((c₁.modifyParticipant input.peerID rate).demandReturned input current
        (c.effectiveCapacity input.effectiveDownstreamCapacity
          (current.sessionID == input.sessionID && current.relayVolunteer)) now).toCore := by
    rw [demandReturned_toCore]
    exact h₁.trans (modifyParticipant_frame _ fun _ => ⟨rfl, rfl, fun h => by cases h⟩)
  split
  · exact h₂.trans (setViewerRoutePreference_frame _ _ _ _ _)
  · exact h₂

theorem upsertParticipant_frame (input : ParticipantInput) (now : Option Int) :
    Frame (Call.upsertParticipant input now).Introduces E
      (fun q => q = input.peerID ∧ c.sessionOf q ≠ input.sessionID) c.toCore
      (c.upsertParticipant input now).2.toCore := by
  unfold upsertParticipant
  split
  · exact .still rfl rfl rfl
  · split
    · exact .still rfl rfl rfl
    · split
      · next hnew => exact c.addParticipant_frame input now hnew
      · next current hcur =>
        split
        · exact .still rfl rfl rfl
        · exact c.updateParticipant_frame input hcur now

theorem moveHost_frame {host : Participant} {p : ID} (hnew : c.participant p = none) (s : ID)
    (now : Option Int) (hold : (c.participant c.hostPeerID).isSome) :
    Frame (Call.rebindHostIdentity p s now).Introduces E
      (fun q => q = c.hostPeerID ∧ (p = q → c.sessionOf q ≠ s)) c.toCore
      (c.moveHost host p s now).2.toCore := by
  obtain ⟨rev, lat, f, ha⟩ := aborted_eq c.toCore
  have hcheck : ∀ d : Core, ∃ f, d.checkGraph = { d with fault := f } := fun d => by
    unfold Core.checkGraph
    split <;> exact ⟨_, rfl⟩
  obtain ⟨f', hc⟩ := hcheck (c.aborted.rehosted (c.movedHost host p s)).bump
  rw [moveHost_toCore, hc]
  have hpeople : ∀ q, (c.aborted.rehosted (c.movedHost host p s)).participant q =
      if q = p then some (c.movedHost host p s) else
        if q = c.hostPeerID then none else c.participant q := fun q => by
    rw [ha]
    simp [Core.rehosted, Core.participant, movedHost, OMap.get_set, OMap.get_delete]
  have hedge : ∀ q, (c.aborted.rehosted (c.movedHost host p s)).edge q = none := fun q => by
    simp [Core.rehosted, Core.edge]
  refine ⟨fun q x hx _ => ?_, fun q x hx hd => ?_, fun q x hx hd => ?_, fun q e he => ?_,
    Or.inr ⟨fun q e he => ?_, fun x hx _ => ?_⟩⟩
  · have hx : (c.aborted.rehosted (c.movedHost host p s)).participant q = some x := hx
    rw [hpeople] at hx
    split at hx
    · next hq =>
      cases hx
      exact Or.inl ⟨hq, rfl⟩
    · split at hx
      · cases hx
      · exact Or.inr ⟨x, hx, rfl⟩
  · have hx : (c.aborted.rehosted (c.movedHost host p s)).participant q = some x := hx
    rw [hpeople] at hx
    split at hx
    · cases hx
      cases hd
    · split at hx
      · cases hx
      · exact Or.inr ⟨x, hx, hd, rfl⟩
  · have hq : q ≠ p := by
      rintro rfl
      cases hnew.symm.trans hx
    by_cases hh : q = c.hostPeerID
    · exact Or.inl ⟨hh, fun h => absurd h.symm hq⟩
    · refine Or.inr ⟨x, ?_, rfl, hd⟩
      show (c.aborted.rehosted (c.movedHost host p s)).participant q = some x
      rw [hpeople, if_neg hq, if_neg hh]
      exact hx
  · cases (hedge q).symm.trans he
  · cases (hedge q).symm.trans he
  · have hx : (c.aborted.rehosted (c.movedHost host p s)).participant c.hostPeerID = some x := hx
    have hne : c.hostPeerID ≠ p := by
      rintro rfl
      simp [hnew] at hold
    rw [hpeople, if_neg hne, if_pos rfl] at hx
    cases hx

theorem rebindHostIdentity_frame (p s : ID) (now : Option Int) :
    Frame (Call.rebindHostIdentity p s now).Introduces E
      (fun q => q = c.hostPeerID ∧ (p = q → c.sessionOf q ≠ s)) c.toCore
      (c.rebindHostIdentity p s now).2.toCore := by
  unfold rebindHostIdentity
  split
  · next hp =>
    exact (c.upsertParticipant_frame _ now).mono (fun _ _ h => h) (fun _ h => h) fun _ h =>
      ⟨h.1.trans hp, fun _ => h.2⟩
  · split
    · exact .still rfl rfl rfl
    · next hnew =>
      split
      · exact .still rfl rfl rfl
      · next host hhost =>
        split
        · exact .still rfl rfl rfl
        · split
          · exact .still rfl rfl rfl
          · refine c.moveHost_frame ?_ s now (by simp [hhost])
            simpa [OMap.has, Core.participant] using hnew

theorem disconnectSession_frame (p s : ID) :
    Frame S E (fun q => q = p ∧ c.sessionOf q = s) c.toCore (c.disconnectSession p s).2.toCore := by
  unfold disconnectSession
  split
  · exact .of_eq rfl
  · next current hcur =>
    split
    · exact .of_eq rfl
    · next hs =>
      have hs : c.sessionOf p = s := by
        simp only [Participant.sessionIs, Bool.not_eq_true', Bool.not_eq_false, Bool.and_eq_true,
          beq_iff_eq] at hs
        simpa [Core.sessionOf, hcur] using hs.2
      refine .modifyPerson (p := p) (f := fun q => { q with sessionID := "" })
        ?_ (fun x _ hs => absurd rfl hs) (fun x _ hd => Or.inr ⟨hd, rfl⟩)
        (fun _ _ _ => Or.inl ⟨rfl, hs⟩) ?_ ?_ <;> simp [deleteContinuation_toCore, modifyParticipant]

theorem confirmDeparture_frame (p : ID) (now : Option Int) :
    Frame S E (· = p) c.toCore (c.confirmDeparture p now).2.toCore := by
  unfold confirmDeparture
  split
  · exact .of_eq rfl
  · next current hcur =>
    split
    · exact .of_eq rfl
    · next hrole =>
      dsimp only
      split
      · exact .still rfl rfl rfl
      · refine .modifyPerson (p := p) (f := fun q => { q with
          sessionID := "", departureConfirmed := true, effectiveDownstreamCapacity := 0 })
          ?_ (fun x _ hs => absurd rfl hs) (fun x hx _ => Or.inl ?_) (fun _ _ _ => Or.inl rfl) ?_ ?_
        · simp [modifyParticipant, OMap.modify_modify, Function.comp_def]
        · cases hcur.symm.trans hx
          cases hr : current.role with
          | viewer => rfl
          | host => exact absurd hr hrole
        · simp [modifyParticipant]
        · simp [modifyParticipant]

theorem setEffectiveCapacity_frame (p s : ID) (value : Int) (now : Option Int) :
    Frame S E D c.toCore (c.setEffectiveCapacity p s value now).2.toCore := by
  unfold setEffectiveCapacity
  split
  · exact .of_eq rfl
  · next current _ =>
    split
    · exact .of_eq rfl
    · split
      · exact .still rfl rfl rfl
      · have h : Frame S E D c.toCore (c.modifyParticipant p fun q => { q with
            reportedDownstreamCapacity := value
            effectiveDownstreamCapacity := c.effectiveCapacity value current.relayVolunteer }).toCore :=
          c.modifyParticipant_frame fun _ => ⟨rfl, rfl, id⟩
        dsimp only
        split
        · exact h
        · simpa using h

theorem setRelayVolunteer_frame (p s : ID) (enabled : Bool) (now : Option Int) :
    Frame S E D c.toCore (c.setRelayVolunteer p s enabled now).2.toCore := by
  unfold setRelayVolunteer
  split
  · exact .of_eq rfl
  · next current _ =>
    split
    · exact .of_eq rfl
    · split
      · exact .of_eq rfl
      · split
        · exact .still rfl rfl rfl
        · have h : Frame S E D c.toCore (c.modifyParticipant p fun q => { q with
              relayVolunteer := enabled
              effectiveDownstreamCapacity :=
                c.effectiveCapacity current.reportedDownstreamCapacity enabled }).toCore :=
            c.modifyParticipant_frame fun _ => ⟨rfl, rfl, id⟩
          simpa using h

theorem setDefaultCapacity_frame (capacity : Int) (now : Option Int) :
    Frame S E D c.toCore (c.setDefaultCapacity capacity now).toCore := by
  unfold setDefaultCapacity
  split
  · exact .still rfl rfl rfl
  · split
    · exact .of_eq rfl
    · dsimp only
      split
      · exact .still rfl rfl rfl
      · rw [touchFacts_toCore]
        obtain ⟨m, hm, hget⟩ := rerate_participant now
          (c.participants.values.filter fun p => !p.departureConfirmed)
          { c with endpointMediaCopyCapacity := capacity }
        rw [hm]
        have key : ∀ q x', m.get q = some x' → ∃ x, c.participant q = some x ∧
            x.sessionID = x'.sessionID ∧ x.role = x'.role ∧
            x.departureConfirmed = x'.departureConfirmed := fun q x' hx => by
          rw [hget] at hx
          split at hx
          · obtain ⟨x, hx₀, rfl⟩ := Option.map_eq_some_iff.1 hx
            exact ⟨x, hx₀, rfl, rfl, rfl⟩
          · exact ⟨x', hx, rfl, rfl, rfl⟩
        refine .people (fun q x' hx _ => Or.inr ?_) (fun q x' hx hd => Or.inr ?_)
          (fun q x hx hd => Or.inr ?_) rfl rfl
        · obtain ⟨x, hx₀, hs, -, -⟩ := key q x' hx
          exact ⟨x, hx₀, hs⟩
        · obtain ⟨x, hx₀, -, hr, hdep⟩ := key q x' hx
          exact ⟨x, hx₀, hdep.trans hd, hr⟩
        · show ∃ x', m.get q = some x' ∧ _
          rw [hget]
          split
          · exact ⟨_, congrArg (Option.map _) hx, rfl, hd⟩
          · exact ⟨x, hx, rfl, hd⟩

theorem invalidateEdge_frame (guard : EdgeGuard) (now : Option Int) :
    Frame S E D c.toCore (c.invalidateEdge guard now).2.toCore := by
  unfold invalidateEdge
  split
  · split
    · exact .of_eq rfl
    · split
      · exact .of_eq rfl
      · refine .modifyEdge (p := guard.childPeerID) (f := fun e => { e with usable := false })
          (fun e => ⟨rfl, rfl, rfl, rfl, id⟩) ?_ ?_ ?_ <;> simp [deleteContinuation_toCore]
  · exact .of_eq rfl

theorem invalidateDirectEdgeFromParent_frame (input : ParentEdgeGuard) (now : Option Int) :
    Frame S E D c.toCore (c.invalidateDirectEdgeFromParent input now).2.toCore := by
  unfold invalidateDirectEdgeFromParent
  split
  · exact .of_eq rfl
  · exact c.invalidateEdge_frame _ now

theorem invalidateHostPublication_frame (guard : PublicationGuard) (now : Option Int) :
    Frame S E D c.toCore (c.invalidateHostPublication guard now).2.toCore := by
  unfold invalidateHostPublication
  split
  · exact .of_eq rfl
  · split
    · exact .of_eq rfl
    · split
      · exact .of_eq rfl
      · refine .still ?_ ?_ ?_ <;> simp

/-- A picture that changes leaves its connection. -/
theorem setVideoPublication_frame (generation : ID) (paused : Bool) (now : Int) :
    Frame S E D c.toCore (c.setVideoPublication generation paused now).2.toCore := by
  unfold setVideoPublication
  dsimp only
  split
  · exact .of_eq rfl
  · have h := c.abortOperation_frame (S := S) (E := E) (D := D) (some now) .aborted
    generalize c.abortOperation (some now) .aborted = x at h ⊢
    obtain ⟨released, c₁⟩ := x
    refine h.trans (.wires rfl (fun q e' he' => Or.inr ?_) rfl)
    simp only [Core.edge, touchFacts_toCore, clearAllQuality_toCore] at he'
    split at he'
    · rw [OMap.get_mapValues] at he'
      obtain ⟨e, he, rfl⟩ := Option.map_eq_some_iff.1 he'
      refine ⟨e, he, ?_⟩
      unfold publicationEdge
      split <;> exact ⟨rfl, rfl, rfl, rfl, id⟩
    · exact ⟨e', he', .refl e'⟩

theorem setPaused_frame (paused : Bool) (now : Option Int) :
    Frame S E D c.toCore (c.setPaused paused now).2.toCore := by
  unfold setPaused
  split
  · exact c.setVideoPublication_frame _ _ _
  · split
    · exact .of_eq rfl
    · have h : Frame S E D c.toCore { c.toCore with paused } := .still rfl rfl rfl
      dsimp only
      split
      · have h' := ({ c with paused } : Controller).clearAllQuality.touchFacts
          |>.abortOperation_frame (S := S) (E := E) (D := D) now .aborted
        exact h.trans h'
      · exact h

theorem dispose_frame : Frame S E (fun _ => True) c.toCore c.dispose.2.toCore := by
  have hd : c.dispose.2.toCore = c.disposed := by
    cases ho : c.operation <;> simp [dispose, Core.disposed, clearGraphState]
  rw [hd]
  refine ⟨fun q x hx => ?_, fun q x hx => ?_, fun _ _ _ _ => Or.inl trivial, fun q e he => ?_,
    Or.inl rfl⟩
  · simp [Core.participant, Core.disposed] at hx
  · simp [Core.participant, Core.disposed] at hx
  · simp [Core.edge, Core.disposed] at he

theorem setRoutePolicy_frame (peerOnly topology nat : Bool) (now : Int) :
    Frame S E D c.toCore (c.setRoutePolicy peerOnly topology nat now).2.toCore := by
  unfold setRoutePolicy
  split
  · exact .of_eq rfl
  · have h := c.abortOperation_frame (S := S) (E := E) (D := D) (some now) .aborted
    generalize c.abortOperation (some now) .aborted = x at h ⊢
    obtain ⟨released, c₁⟩ := x
    refine h.trans (.people (fun q x' hx _ => Or.inr ?_) (fun q x' hx hd => Or.inr ?_)
      (fun q x hx hd => Or.inr ?_) rfl rfl)
    · simp only [Core.participant, touchFacts_toCore, clearAllQuality_toCore, OMap.get_mapValues] at hx
      obtain ⟨x, hx₀, rfl⟩ := Option.map_eq_some_iff.1 hx
      refine ⟨x, hx₀, ?_⟩
      split <;> rfl
    · simp only [Core.participant, touchFacts_toCore, clearAllQuality_toCore, OMap.get_mapValues] at hx
      obtain ⟨x, hx₀, rfl⟩ := Option.map_eq_some_iff.1 hx
      refine ⟨x, hx₀, ?_, ?_⟩
      · split at hd <;> exact hd
      · split <;> rfl
    · have hx : c₁.participants.get q = some x := hx
      simp only [Core.participant, touchFacts_toCore, clearAllQuality_toCore, OMap.get_mapValues, hx]
      refine ⟨_, rfl, ?_, ?_⟩ <;> dsimp only
      · split <;> rfl
      · split <;> exact hd

theorem setVoiceListeners_frame (peerIDs : List ID) (now : Int) :
    Frame S E D c.toCore (c.setVoiceListeners peerIDs now).2.toCore := by
  unfold setVoiceListeners
  dsimp only
  split
  · exact .of_eq rfl
  · have key : ∀ (f : Controller → Participant → Controller),
        (∀ d p, Frame S E D d.toCore (f d p).toCore) → ∀ (l : List Participant) (d : Controller),
          Frame S E D d.toCore (l.foldl f d).toCore := by
      intro f hf l
      induction l with
      | nil => exact fun d => .of_eq rfl
      | cons p l ih => exact fun d => (hf d p).trans (ih _)
    have h : Frame S E D c.toCore { c.toCore with voiceListeners := peerIDs } := .still rfl rfl rfl
    refine h.trans ?_
    refine key _ (fun d p => ?_) _ { c with voiceListeners := peerIDs }
    split <;> refine .still ?_ ?_ ?_ <;> simp [deleteContinuation_toCore]

theorem setHostVideoConnectionID_frame (id : ID) :
    Frame S E D c.toCore (c.setHostVideoConnectionID id).2.toCore := by
  unfold setHostVideoConnectionID
  split
  · exact .of_eq rfl
  · split
    · exact .of_eq rfl
    · split
      · exact .of_eq rfl
      · exact .still rfl rfl rfl

theorem proveVideo_frame (p : ID) (e : CommittedEdge) :
    Frame S E D c.toCore (c.proveVideo p e).toCore := by
  unfold proveVideo
  split
  · exact .of_eq rfl
  · exact .modifyEdge (p := p) (f := fun e => { e with videoReady := true })
      (fun e => ⟨rfl, rfl, rfl, rfl, id⟩) rfl rfl rfl

theorem observeQualityEvidence_frame (input : RouteQualityEvidenceInput) :
    Frame S E D c.toCore (c.observeQualityEvidence input).2.toCore := by
  unfold observeQualityEvidence
  split
  · exact .of_eq rfl
  · next e _ =>
    split
    · exact .of_eq rfl
    · split
      · exact .of_eq rfl
      · dsimp only
        refine Frame.trans (c.proveVideo_frame input.childPeerID e) (.of_eq ?_)
        split <;> simp

theorem resetSenderQuality_frame (p s : ID) (now : Int) :
    Frame S E D c.toCore (c.resetSenderQuality p s now).2.toCore := by
  unfold resetSenderQuality
  split
  · exact .of_eq rfl
  · split
    · exact .of_eq rfl
    · dsimp only
      have hs := c.forgetSenderSamples_toCore p s
      generalize c.forgetSenderSamples p s = c₁ at hs ⊢
      rw [← hs]
      split
      · exact c₁.abortOperation_frame _ _
      · exact .of_eq rfl

/-- Only an active edge is adoptable. -/
theorem adoptableEdge_edge {guard : EdgeGuard} {id : ID} {e : CommittedEdge}
    (h : c.adoptableEdge guard id = some e) : c.edge guard.childPeerID = some e ∧ e.physicalActive := by
  unfold adoptableEdge at h
  split at h
  · cases h
  · next he =>
    split at h
    · cases h
    · next hn =>
      cases h
      simp only [Bool.or_eq_true, not_or, Bool.not_eq_true', Bool.not_eq_false] at hn
      exact ⟨he, hn.1.1.1.1.1.2⟩

/-- An adopted connection takes the place of the edge's own only without room media. -/
theorem adoptDirectConnection_frame (guard : EdgeGuard) (id : ID) (now : Int)
    (hE : c.roomMedia = false → (c.adoptDirectConnection guard id now).1.accepted →
      (∀ e, c.edge guard.childPeerID = some e → e.connectionID ≠ id) → E guard.childPeerID) :
    Frame S E D c.toCore (c.adoptDirectConnection guard id now).2.toCore := by
  unfold adoptDirectConnection at hE ⊢
  dsimp only at hE ⊢
  split
  · exact .of_eq rfl
  · next e he =>
    simp only [he] at hE
    split
    · exact .of_eq rfl
    · next hid =>
      rw [if_neg hid] at hE
      split
      · exact .of_eq rfl
      · next hrep =>
        rw [if_neg hrep] at hE
        have h : Frame S E D c.toCore (if c.routesChild guard.childPeerID = true then
            c.abortOperation (some now) .aborted else ([], c)).2.toCore ∧
            (if c.routesChild guard.childPeerID = true then
              c.abortOperation (some now) .aborted else ([], c)).2.roomMedia = c.roomMedia := by
          split
          · refine ⟨c.abortOperation_frame _ _, ?_⟩
            obtain ⟨rev, lat, f, ha⟩ := aborted_eq c.toCore
            rw [abortOperation_eq, ha]
          · exact ⟨.of_eq rfl, rfl⟩
        generalize (if c.routesChild guard.childPeerID = true then
          c.abortOperation (some now) .aborted else ([], c)) = x at h hE ⊢
        obtain ⟨released, c₁⟩ := x
        obtain ⟨h, hroom⟩ := h
        refine h.trans (.wires ?_ (fun q e' he' => ?_) ?_)
        · simp [adoptConnection]
        · simp only [Core.edge, touchFacts_toCore, updateLedger_toCore, adoptConnection,
            clearQualityForParticipant_toCore, OMap.get_modify] at he'
          split at he'
          · next hq =>
            obtain ⟨e₀, he₀, rfl⟩ := Option.map_eq_some_iff.1 he'
            cases hr : c₁.roomMedia with
            | false =>
              refine Or.inl (hq ▸ hE (hroom ▸ hr) rfl fun e₁ he₁ => ?_)
              cases (c.adoptableEdge_edge he).1.symm.trans he₁
              rintro rfl
              exact hid (by simp [activeConnectionID, ← hroom, hr])
            | true =>
              refine Or.inr ⟨e₀, hq ▸ he₀, ?_⟩
              rw [if_pos (by simp)]
              exact ⟨rfl, rfl, rfl, rfl, fun h => h⟩
          · exact Or.inr ⟨e', he', .refl e'⟩
        · simp [adoptConnection]

end Controller

/-! ## Commits -/

/-- A commit brings no session, and a connection unless it only attaches. -/
theorem Accepted.frame (h : Accepted r c c') (hs : c.Sound) {op : Operation}
    (ho : c.operation = some op) (hE : op.reason ≠ .publicationAttach → E op.childPeerID) :
    Frame S E D c c' := by
  cases h with
  | @attached _ op' att =>
    exact .modifyEdge (p := op'.childPeerID) (f := fun e => { e with
        videoGeneration := op'.videoGeneration, videoConnectionID := att.connectionID
        videoReady := true })
      (fun e => ⟨rfl, rfl, rfl, rfl, id⟩) rfl rfl rfl
  | @commits _ c₁ _ att plan m ho' hr hc hp hv hrep hm =>
    cases ho.symm.trans ho'
    have hE := hE hr
    have h₁ : Frame S E D c c₁ := by
      unfold Replaced at hrep
      split at hrep
      · obtain ⟨_, _, -, -, ht⟩ := hrep
        exact Cuts.frame ht.cuts
      · exact .of_eq hrep
    obtain ⟨e, pub, -, heq, -⟩ := committed_settled hs ho hr hc hp hv hrep
      (hm hs.forest.outward (hs.working.outward _ ho))
    obtain ⟨_, _, _, _, heq'⟩ := committed_eq c₁ op att (c.edge op.childPeerID) m
    refine h₁.trans (.wires (by rw [heq']) (fun q e' he' => ?_) (by rw [heq']))
    by_cases hq : q = op.childPeerID
    · exact Or.inl (hq ▸ hE)
    · rw [heq] at he'
      rcases edge_settled_other c₁ op att e pub (c.edge op.childPeerID) m hq with h | ⟨_, -, -, -, hn⟩
      · exact Or.inr ⟨e', h ▸ he', .refl e'⟩
      · cases hn.symm.trans he'

theorem Controller.Settles.frame {k : Bool} (h : Controller.Settles v k r c c') (hs : c.Sound) (hfc : c.fault = none)
    (hf : c'.fault = none)
    (hE : k → ∀ op, c.operation = some op → op.reason ≠ .publicationAttach → E op.childPeerID) :
    Frame S E D c c' := by
  cases h with
  | maintains h => exact frame_of_runs (quiet_of_upkeep h) hf
  | accepts hn ha =>
    obtain ⟨op, att, att', ho, hc, hsame, rfl⟩ := hn
    have hstep : Step .all false false [] [] c _ := .upkeep (.note ho hc hsame trivial)
    have h₁ : Frame S E D c { c with operation := some { op with current := some att' } } :=
      .still rfl rfl rfl
    exact h₁.trans (ha.frame (hstep.sound hs hfc) rfl (hE rfl op ho))

/-- The children whose connection the call replaces. -/
def Call.Rewires (k : Call) (c : Core) (reply : Reply) (p : ID) : Prop :=
  match k with
  | .adoptDirectConnection guard id _ => c.roomMedia = false ∧ reply.accepted ∧
      p = guard.childPeerID ∧ ∀ e, c.edge p = some e → e.connectionID ≠ id
  | _ => reply.committed ∧ ∃ op, c.operation = some op ∧ op.reason ≠ .publicationAttach ∧
      p = op.childPeerID

namespace Controller

variable (c : Controller)

/-- **What a call leaves alone.**  Sessions come from the calls that bring them,
    connections from commits and adoptions. -/
theorem run_frame (hg : c.Good) (k : Call) (hf : (c.run k).2.fault = none) :
    Frame k.Introduces (k.Rewires c.toCore (c.run k).1) (k.Dismisses c.toCore) c.toCore (c.run k).2.toCore := by
  have hq : ∀ {a r d'}, Runs (Upkeep .all) a r c.toCore d' → d'.fault = none →
      Frame k.Introduces (k.Rewires c.toCore (c.run k).1) (k.Dismisses c.toCore) c.toCore d' := fun h hf =>
    frame_of_runs (quiet_of_upkeep h) hf
  cases k with
  | upsertParticipant input now => exact c.upsertParticipant_frame input now
  | setViewerRoutePreference p s pref now => exact c.setViewerRoutePreference_frame p s pref now
  | rebindHostIdentity p s now => exact c.rebindHostIdentity_frame p s now
  | disconnectSession p s => exact c.disconnectSession_frame p s
  | confirmDeparture p now => exact c.confirmDeparture_frame p now
  | setEffectiveCapacity p s value now => exact c.setEffectiveCapacity_frame p s value now
  | setRelayVolunteer p s enabled now => exact c.setRelayVolunteer_frame p s enabled now
  | setDefaultCapacity capacity now => exact c.setDefaultCapacity_frame capacity now
  | touchExternalFacts => exact .of_eq rfl
  | invalidateEdge guard now => exact c.invalidateEdge_frame guard now
  | invalidateDirectEdgeFromParent input now => exact c.invalidateDirectEdgeFromParent_frame input now
  | invalidateHostPublication guard now => exact c.invalidateHostPublication_frame guard now
  | adoptDirectConnection guard id now =>
    exact c.adoptDirectConnection_frame guard id now fun hr ha hid => ⟨hr, ha, rfl, hid⟩
  | retireHostPublication guard =>
    exact frame_of_runs (v := .all) (c.retireHostPublication_quiet guard) hf
  | setPaused paused now => exact c.setPaused_frame paused now
  | dispose => exact c.dispose_frame
  | setRoutePolicy peerOnly topology nat now => exact c.setRoutePolicy_frame peerOnly topology nat now
  | setVoiceListeners peerIDs now => exact c.setVoiceListeners_frame peerIDs now
  | setHostVideoConnectionID id => exact c.setHostVideoConnectionID_frame id
  | setVideoPublication generation paused now =>
    exact c.setVideoPublication_frame generation paused now
  | observeQualityEvidence input => exact c.observeQualityEvidence_frame input
  | observeSenderQualityEvidence input commit =>
    exact (c.observeSenderQualityEvidence_settles (v := .all) (fun _ _ => trivial) hg.sound.working.aligned input
      (answer commit) ()).frame hg.sound hg.fault hf fun hk op ho hr => ⟨hk, op, ho, hr, rfl⟩
  | observeSfuPublisherQualityEvidence input commit =>
    exact (c.observeSfuPublisherQualityEvidence_settles (v := .all) (fun _ _ => trivial) hg.sound.working.aligned input
      (answer commit) ()).frame hg.sound hg.fault hf fun hk op ho hr => ⟨hk, op, ho, hr, rfl⟩
  | resetSenderQuality p s now => exact c.resetSenderQuality_frame p s now
  | reconcile now => exact hq (c.reconcile_runs now) hf
  | beginCurrentCandidate input => exact hq (c.beginCurrentCandidate_runs input trivial) hf
  | noteCurrentCandidateRejection guard bucket =>
    exact .of_eq (c.noteCurrentCandidateRejection_toCore guard bucket)
  | skipCurrentCandidate guard now bucket => exact hq (c.skipCurrentCandidate_runs guard now bucket) hf
  | retireCurrentCandidateProducer guard now =>
    exact frame_of_runs (v := .all) (c.retireCurrentCandidateProducer_quiet guard now) hf
  | candidateReady guard now proof commit =>
    exact (c.candidateReady_settles (v := .all) (fun _ _ => trivial) hg.sound.working.aligned guard now (answer commit) ()
      proof).frame hg.sound hg.fault hf fun hk op ho hr => ⟨hk, op, ho, hr, rfl⟩
  | candidateTransportConnected guard now => exact hq (c.candidateTransportConnected_runs (fun _ _ => trivial) guard now) hf
  | candidateFailed guard now => exact hq (c.candidateFailed_runs guard now) hf
  | operationExpired now => exact hq (c.operationExpired_runs now) hf

end Controller

end Piik.Route
