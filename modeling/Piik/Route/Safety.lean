/-
  What is true when a commit happens: the sessions, the policy and the source
  of the new hop.
-/
import Piik.Route.Invariant

namespace Piik.Route

namespace Core

variable (c : Core)

/-! ## Sources -/

/-- Media reach the peer: from the Host, or over usable and active edges only,
    ending at the Host or at the publication in service. -/
inductive SourcePath : ID → Prop
  | host : SourcePath c.hostPeerID
  | sfu {p e} : c.edge p = some e → e.usable → e.physicalActive → e.kind = .sfu →
      c.publicationServes e.publicationGeneration → SourcePath p
  | peer {p e} : c.edge p = some e → e.usable → e.physicalActive → e.kind = .peer →
      SourcePath e.parentPeerID → SourcePath p

/-- The current picture is proven on every edge up to the Host or the SFU. -/
inductive PicturePath : ID → Prop
  | host : PicturePath c.hostPeerID
  | sfu {p e} : c.edge p = some e → e.videoReady → (c.roomMedia → e.videoGeneration = c.videoGeneration) →
      e.kind = .sfu → PicturePath p
  | peer {p e} : c.edge p = some e → e.videoReady → (c.roomMedia → e.videoGeneration = c.videoGeneration) →
      e.kind = .peer → PicturePath e.parentPeerID → PicturePath p

/-- A listener with a session. -/
def Listens (p : ID) : Prop :=
  p ∈ c.voiceListeners ∧ ∃ q, c.participant p = some q ∧ q.sessionID ≠ "" ∧ q.departureConfirmed = false

/-- Voice reaches the peer through listeners only. -/
inductive VoicePath : ID → Prop
  | host : c.Listens c.hostPeerID → VoicePath c.hostPeerID
  | sfu {p e} : c.Listens p → c.edge p = some e → e.usable → e.physicalActive → e.kind = .sfu →
      c.publicationServes e.publicationGeneration → VoicePath p
  | peer {p e} : c.Listens p → c.edge p = some e → e.usable → e.physicalActive → e.kind = .peer →
      VoicePath e.parentPeerID → VoicePath p

/-- The peer is fed, directly or not, by the ancestor. -/
def Descends (ancestor p : ID) : Prop :=
  Relation.TransGen (fun x y => ∃ e, c.edge y = some e ∧ e.kind = .peer ∧ e.parentPeerID = x) ancestor p

variable {c}

theorem kind_peer {k : UpstreamKind} (h : k ≠ .sfu) : k = .peer := by
  cases k with
  | peer => rfl
  | sfu => exact absurd rfl h

theorem sourcePath_of_ends {p : ID} {ok : Bool} (h : Walk.Ends c.sourceStep p ok) (hok : ok = true) :
    c.SourcePath p := by
  induction h with
  | @here p ok hs =>
    subst hok
    unfold sourceStep at hs
    split at hs
    · cases hs
    · next e he =>
      split at hs
      · cases hs
      · next hu =>
        simp only [Bool.or_eq_true, Bool.not_eq_true', not_or, Bool.not_eq_false] at hu
        split at hs
        · next hk => exact .sfu he hu.1 hu.2 (by simpa using hk) (Sum.inl.inj hs)
        · next hk =>
          split at hs
          · next hp => exact .peer he hu.1 hu.2 (kind_peer (by simpa using hk)) (hp ▸ .host)
          · cases hs
  | @next p p' ok hs _ ih =>
    unfold sourceStep at hs
    split at hs
    · cases hs
    · next e he =>
      split at hs
      · cases hs
      · next hu =>
        simp only [Bool.or_eq_true, Bool.not_eq_true', not_or, Bool.not_eq_false] at hu
        split at hs
        · cases hs
        · next hk =>
          split at hs
          · cases hs
          · cases hs
            exact .peer he hu.1 hu.2 (kind_peer (by simpa using hk)) (ih hok)

theorem sourcePath_of_usable {p : ID} (h : c.sourceUsable p = true) : c.SourcePath p := by
  unfold sourceUsable at h
  rw [Bool.or_eq_true, decide_eq_true_eq] at h
  rcases h with rfl | h
  · exact .host
  · exact sourcePath_of_ends (Walk.ends_of_walk (by simp) h) rfl

theorem picturePath_of_ends {p : ID} {ok : Bool} (h : Walk.Ends c.videoStep p ok) (hok : ok = true) :
    c.PicturePath p := by
  induction h with
  | @here p ok hs =>
    subst hok
    unfold videoStep at hs
    split at hs
    · next hp => exact hp ▸ .host
    · split at hs
      · cases hs
      · next e he =>
        split at hs
        · cases hs
        · next hv =>
          simp only [Bool.or_eq_true, Bool.and_eq_true, Bool.not_eq_true', decide_eq_true_eq, not_or,
            Bool.not_eq_false, not_and, not_not] at hv
          split at hs
          · next hk => exact .sfu he hv.1 hv.2 (by simpa using hk)
          · cases hs
  | @next p p' ok hs _ ih =>
    unfold videoStep at hs
    split at hs
    · cases hs
    · split at hs
      · cases hs
      · next e he =>
        split at hs
        · cases hs
        · next hv =>
          simp only [Bool.or_eq_true, Bool.and_eq_true, Bool.not_eq_true', decide_eq_true_eq, not_or,
            Bool.not_eq_false, not_and, not_not] at hv
          split at hs
          · cases hs
          · next hk =>
            cases hs
            exact .peer he hv.1 hv.2 (kind_peer (by simpa using hk)) (ih hok)

/-- A ready source has its media and the current picture. -/
theorem picturePath_of_ready {p : ID} (h : c.sourceVideoReady p = true) :
    c.PicturePath p ∧ (c.roomMedia → c.videoGeneration ≠ "") := by
  unfold sourceVideoReady at h
  simp only [Bool.and_eq_true, Bool.not_eq_true', Bool.and_eq_false_iff, beq_eq_false_iff_ne] at h
  refine ⟨picturePath_of_ends (Walk.ends_of_walk (by simp) h.2) rfl, fun hr => ?_⟩
  exact h.1.2.resolve_left (by simp [hr])

theorem voicePath_of_ends {p : ID} {ok : Bool} (h : Walk.Ends c.voiceStep p ok) (hok : ok = true) :
    c.VoicePath p := by
  have hlistens : ∀ {p : ID} {q : Participant}, ¬p ∉ c.voiceListeners → c.participant p = some q →
      ¬(q.sessionID = "" || q.departureConfirmed) = true → c.Listens p := by
    intro p q hl hq hs
    simp only [Bool.or_eq_true, decide_eq_true_eq, not_or, Bool.not_eq_true] at hs
    exact ⟨not_not.1 hl, q, hq, hs.1, hs.2⟩
  induction h with
  | @here p ok hs =>
    subst hok
    unfold voiceStep at hs
    split at hs
    · cases hs
    · next hl =>
      split at hs
      · cases hs
      · next q hq =>
        split at hs
        · cases hs
        · next hsession =>
          have hlisten := hlistens hl hq hsession
          split at hs
          · next hp => exact hp ▸ .host (hp ▸ hlisten)
          · split at hs
            · cases hs
            · next e he =>
              split at hs
              · cases hs
              · next hu =>
                simp only [Bool.or_eq_true, Bool.not_eq_true', not_or, Bool.not_eq_false] at hu
                split at hs
                · next hk => exact .sfu hlisten he hu.1 hu.2 (by simpa using hk) (Sum.inl.inj hs)
                · cases hs
  | @next p p' ok hs _ ih =>
    unfold voiceStep at hs
    split at hs
    · cases hs
    · next hl =>
      split at hs
      · cases hs
      · next q hq =>
        split at hs
        · cases hs
        · next hsession =>
          have hlisten := hlistens hl hq hsession
          split at hs
          · cases hs
          · split at hs
            · cases hs
            · next e he =>
              split at hs
              · cases hs
              · next hu =>
                simp only [Bool.or_eq_true, Bool.not_eq_true', not_or, Bool.not_eq_false] at hu
                split at hs
                · cases hs
                · next hk =>
                  cases hs
                  exact .peer hlisten he hu.1 hu.2 (kind_peer (by simpa using hk)) (ih hok)

/-- A listening child gets its voice from listeners. -/
theorem voicePath_of_allowed {p q : ID} (h : c.voiceParentAllowed p q = true)
    (hp : p ∈ c.voiceListeners) : c.VoicePath q := by
  simp only [voiceParentAllowed, Bool.or_eq_true, decide_eq_true_eq, hp, not_true_eq_false,
    false_or] at h
  exact voicePath_of_ends (Walk.ends_of_walk (by simp) h) rfl

theorem passes_of_descends (ho : c.Outward) {p q : ID} (h : c.Descends p q) :
    Walk.Passes c.rootStep q p := by
  have hstep : ∀ x y, (∃ e, c.edge y = some e ∧ e.kind = .peer ∧ e.parentPeerID = x) →
      c.rootStep y = .inr x := by
    rintro x y ⟨e, he, hk, rfl⟩
    have hy : y ≠ c.hostPeerID := by
      rintro rfl
      simp [ho.host] at he
    simp [rootStep, hy, he, hk]
  unfold Descends at h
  induction h with
  | single h => exact .next (hstep _ _ h) (.refl _)
  | tail _ h ih => exact .next (hstep _ _ h) ih

/-- Who is not found below the child does not descend from it. -/
theorem not_descends (ho : c.Outward) {p q : ID} (hq : q ≠ p) (h : q ∉ c.descendantsOf p) :
    ¬c.Descends p q :=
  fun hd => (mem_descendantsOf (passes_of_descends ho hd)).elim hq h

/-! ## Commits -/

/-- The route preference and the site let a viewer take this kind of hop. -/
def Permits (c : Core) (preference : ViewerRoutePreference) : UpstreamKind → Prop
  | .peer => c.sfuOnly = false ∧ preference ≠ .sfu
  | .sfu => c.sfuEnabled ∧ preference ≠ .peer

/-- The parent of a peer attempt is connected as the attempt recorded it, and has
    what the child needs. -/
structure SafeParent (c : Core) (childPeerID : ID) (att : Attempt) : Prop where
  session : ∃ q, c.participant att.tuple.parentPeerID = some q ∧ q.sessionID = att.parentSessionID ∧
    q.sessionID ≠ "" ∧ q.departureConfirmed = false
  foreign : att.tuple.parentPeerID ≠ childPeerID
  above : ¬c.Descends childPeerID att.tuple.parentPeerID
  source : c.SourcePath att.tuple.parentPeerID
  picture : c.videoWorkEnabled → c.PicturePath att.tuple.parentPeerID ∧
    (c.roomMedia → c.videoGeneration ≠ "")
  voice : childPeerID ∈ c.voiceListeners → c.VoicePath att.tuple.parentPeerID

/-- The publication of an SFU attempt: the one in service is reused, a new one is
    the Host's current session's. -/
structure SafePublication (c : Core) (att : Attempt) : Prop where
  reuse : att.tuple.publication = .reuse → ∃ p, c.hostPublication = some p ∧ p.usable ∧
    p.physicalActive ∧ p.generation = att.publicationGeneration
  session : ∃ q, c.participant c.hostPeerID = some q ∧ q.sessionID = att.hostSessionID ∧
    q.sessionID ≠ ""

/-- What a commit relies on. -/
structure SafeCommit (c : Core) (op : Operation) (att : Attempt) : Prop where
  child : ∃ q, c.participant op.childPeerID = some q ∧ q.sessionID = att.childSessionID ∧
    q.sessionID ≠ "" ∧ q.departureConfirmed = false ∧ c.Permits q.routePreference att.tuple.kind
  parent : att.tuple.kind = .peer → SafeParent c op.childPeerID att
  publication : att.tuple.kind = .sfu → SafePublication c att

/-- **A valid attempt is safe to commit.** -/
theorem safeCommit_of_valid (hs : c.Sound) {op : Operation} {att : Attempt} {plan : CandidatePlan}
    (ho : c.operation = some op) (hr : op.reason ≠ .publicationAttach) (hc : op.current = some att)
    (hp : op.planAt op.cursor = some plan)
    (hv : c.candidateValid op.childPeerID plan (some att) = true) : SafeCommit c op att := by
  have ht : plan.tuple = att.tuple := hs.working.aligned op att plan ho hr hc hp
  have hout : att.tuple.Outward op.childPeerID :=
    ht ▸ ((hs.working.outward op ho).candidates plan (List.mem_of_getElem? hp)).tuple
  unfold candidateValid at hv
  simp only [ht, Bool.and_eq_true] at hv
  obtain ⟨⟨⟨hallows, hchild⟩, hkind⟩, -⟩ := hv
  refine ⟨?_, fun hk => ?_, fun hk => ?_⟩
  · split at hchild
    · next q hq =>
      simp only [Bool.and_eq_true, decide_eq_true_eq, Bool.not_eq_true', beq_iff_eq] at hchild
      refine ⟨q, hq, hchild.2.symm, hchild.1.1, hchild.1.2, ?_⟩
      unfold allowsIncoming at hallows
      rw [hq] at hallows
      cases hk : att.tuple.kind <;> simpa [hk, Permits] using hallows
    · cases hchild
  · simp only [hk] at hkind
    unfold peerCandidateValid at hkind
    split at hkind
    · cases hkind
    · next q hq =>
      simp only [Bool.and_eq_true, decide_eq_true_eq, Bool.not_eq_true', beq_iff_eq,
        Bool.and_eq_false_iff, hs.forest.peopled.peerID _ _ hq] at hkind
      obtain ⟨⟨⟨⟨⟨⟨⟨⟨-, hsession⟩, hdep⟩, hrecorded⟩, hbelow⟩, husable⟩, hpicture⟩, hvoice⟩, -⟩ := hkind
      refine ⟨⟨q, hq, hrecorded, hsession, hdep⟩, hout hk, not_descends hs.forest.outward (hout hk) hbelow,
        sourcePath_of_usable husable, fun hw => ?_, voicePath_of_allowed hvoice⟩
      exact picturePath_of_ready (by simpa [hw] using hpicture)
  · simp only [hk] at hkind
    simp only [sfuCandidateValid, Bool.and_eq_true] at hkind
    obtain ⟨⟨-, hhost⟩, hpub⟩ := hkind
    refine ⟨fun hreuse => ?_, ?_⟩
    · simp only [hreuse] at hpub
      split at hpub
      · next p hp =>
        simp only [Bool.and_eq_true, beq_iff_eq] at hpub
        exact ⟨p, hp, hpub.1.1, hpub.1.2, hpub.2.symm⟩
      · cases hpub
    · have hne := hs.working.host op att ho hr hc hk
      simp only [Bool.or_eq_true, beq_iff_eq, hne, false_or] at hhost
      split at hhost
      · next q hq =>
        simp only [Participant.sessionIs, Bool.and_eq_true, decide_eq_true_eq, beq_iff_eq] at hhost
        exact ⟨q, hq, hhost.2, hhost.1⟩
      · cases hhost

/-- The child's edge after a commit. -/
theorem edge_settled_child {c₁ : Core} {op : Operation} {att : Attempt} {e : CommittedEdge}
    {pub : Option HostPublication} {old : Option CommittedEdge} {m : OMap ID DirectContinuation}
    (ha : e.physicalActive) : (settled c₁ op att e pub old m).edge op.childPeerID = some e := by
  unfold settled
  rw [edge_prune]
  refine Option.filter_eq_some_iff.2 ⟨?_, by simp [spentAnchor, ha]⟩
  have := edge_graft (c := c₁) op.childPeerID op.childPeerID e
    (leftPublication c₁ op.childPeerID e pub old)
  rw [if_pos rfl] at this
  exact this

end Core

namespace Controller

open Piik.Route.Core

/-- **Commit safety.**  A call that commits an attempt commits the live one, in a
    state where it is safe, and the child's new edge is the attempt's. -/
theorem commit_safety {c c' : Controller} {k : Call} {reply : Reply} (h : c.Reachable)
    (hk : c.call k = .ok (reply, c')) (hc : reply.committed) :
    ∃ op att, c.operation = some op ∧ op.current = some att ∧ (op.reason = .publicationAttach ∨
      SafeCommit c.toCore op att ∧ ∃ e, c'.edge op.childPeerID = some e ∧ e.kind = att.tuple.kind ∧
        (att.tuple.kind = .peer → e.parentPeerID = att.tuple.parentPeerID) ∧
        (att.tuple.kind = .sfu → e.publicationGeneration = att.publicationGeneration)) := by
  obtain ⟨d, ⟨op, att, att', ho, hcur, hsame, rfl⟩, hs, ha⟩ := h.good.call_accepted hk hc
  refine ⟨op, att, ho, hcur, ?_⟩
  generalize hd : c'.toCore = d' at ha
  generalize reply.released = r at ha
  cases ha with
  | attached ho' hr =>
    cases ho'
    exact Or.inl hr
  | @commits _ c₁ _ _ plan m ho' hr hcur' hp hv hrep hm =>
    cases ho'
    cases hcur'
    right
    obtain ⟨e, pub, hi, heq, -⟩ := committed_settled hs rfl hr rfl hp hv hrep
      (hm hs.forest.outward (hs.working.outward _ rfl))
    rw [candidateValid_withOperation, candidateValid_sameAttempt _ hsame] at hv
    refine ⟨safeCommit_of_valid h.good.sound ho hr hcur hp hv, e, ?_, hi.kind.trans ?_, fun hk => ?_,
      fun hk => ?_⟩
    · rw [heq]
      exact edge_settled_child hi.active
    · rw [hsame.tuple]
    · rw [hi.parent (hsame.tuple ▸ hk), hsame.tuple]
    · rw [hi.generation (hsame.tuple ▸ hk), hsame.publicationGeneration]

theorem commit_safety_viewerServed : ∃ c c' : Controller, ∃ op att, c.Reachable ∧
    c.operation = some op ∧ op.current = some att ∧ att.tuple.kind = .peer ∧
    SafeCommit c.toCore op att ∧ c'.edge op.childPeerID ≠ none := by
  have h : ∃ c c' : Controller, ∃ reply op att, c.Reachable ∧
      c.call (.candidateReady { childPeerID := "viewer", childSessionID := "v1", revision := 1
                                connectionID := "c1" } 4 {} true) = .ok (reply, c') ∧
      reply.committed ∧ c.operation = some op ∧ op.current = some att ∧ att.tuple.kind = .peer ∧
      op.reason = .join :=
    ⟨_, _, _, _, _,
      ⟨smallRoom, 0, _, .upsertParticipant hostInput (some 0) :: viewerServed.take 4, rfl, rfl⟩, rfl, rfl,
      rfl, rfl, rfl, rfl⟩
  obtain ⟨c, c', reply, op, att, hc, hk, hcommitted, ho, ha, hkind, hr⟩ := h
  obtain ⟨op', att', ho', ha', hcase⟩ := commit_safety hc hk hcommitted
  cases ho.symm.trans ho'
  cases ha.symm.trans ha'
  rcases hcase with hr' | ⟨hsafe, e, he, -⟩
  · simp [hr] at hr'
  · exact ⟨c, c', op, att, hc, ho, ha, hkind, hsafe, by simp [he]⟩

end Controller

end Piik.Route
