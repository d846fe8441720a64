/-
  No orphan publication: the Host publishes exactly as long as somebody
  subscribes, and everybody subscribes to what it publishes.
-/
import Piik.Route.Invariant

namespace Piik.Route

open Piik.Route.Core

variable {v : Licence} {b b' : Bool} {a r : List Resource} {c c' : Core}

/-- The same subscriptions and the same publication, up to what is not read here. -/
theorem Core.Served.of_edges (h : c.Served)
    (he : ∀ q e, c.edge q = some e → ∃ e', c'.edge q = some e' ∧ e'.kind = e.kind ∧
      e'.physicalActive = e.physicalActive)
    (hp : c'.hostPublication.isSome → c.hostPublication.isSome) : c'.Served := by
  intro hs
  obtain ⟨q, e, hq, hk, ha⟩ := (hasSfuSubscribers_iff c).1 (h (hp hs))
  obtain ⟨e', hq', hk', ha'⟩ := he q e hq
  exact (hasSfuSubscribers_iff c').2 ⟨q, e', hq', hk'.trans hk, ha'.trans ha⟩

theorem Core.Served.of_eq (h : c.Served) (he : c'.upstreamByViewer = c.upstreamByViewer)
    (hp : c'.hostPublication = c.hostPublication) : c'.Served :=
  h.of_edges (fun q e hq => ⟨e, by simpa [Core.edge, he] using hq, rfl, rfl⟩) (by rw [hp]; exact id)

theorem Reshaped.served (h : Reshaped c c') (hs : c.Served) : c'.Served := by
  refine hs.of_edges (fun q e hq => ?_) fun hp => ?_
  · obtain ⟨f, hf, heq⟩ := h.edge (p := q)
    exact ⟨f e, by rw [heq, hq]; rfl, (hf e).kind, (hf e).physicalActive⟩
  · obtain ⟨g, -, heq⟩ := h.publication
    simpa [heq] using hp

/-- The publication that a commit leaves has the new edge, or a subscription
    that the child did not give up. -/
theorem settled_served {c₁ : Core} {op : Operation} {att : Attempt} {e : CommittedEdge}
    {pub : Option HostPublication} {m : OMap ID DirectContinuation}
    (hi : Installs c₁ op att e pub) (hs : c.Served)
    (hsame : att.tuple.kind = .peer → c₁ = c) :
    (settled c₁ op att e pub (c.edge op.childPeerID) m).Served := by
  refine served_prune _ fun hleft => ?_
  show (graft c₁ op.childPeerID e pub).hasSfuSubscribers = true
  have hedge : ∀ q, (graft c₁ op.childPeerID e pub).edge q =
      if q = op.childPeerID then some e else c₁.edge q := fun q => edge_graft _ _ _ _
  replace hleft : (leftPublication c₁ op.childPeerID e pub (c.edge op.childPeerID)).isSome := hleft
  cases hk : att.tuple.kind with
  | sfu =>
    exact (hasSfuSubscribers_iff _).2
      ⟨op.childPeerID, e, by rw [hedge, if_pos rfl], hi.kind.trans hk, hi.active⟩
  | peer =>
    obtain rfl := hsame hk
    unfold leftPublication at hleft
    -- without an SFU edge to give up, the child was no subscriber
    have hkept : (∀ o, c₁.edge op.childPeerID = some o → o.kind = .peer) → pub.isSome →
        (graft c₁ op.childPeerID e pub).hasSfuSubscribers := fun hold hp => by
      rw [hi.kept (Or.inl hk)] at hp
      obtain ⟨q, e', hq, hk', ha⟩ := (hasSfuSubscribers_iff _).1 (hs hp)
      refine (hasSfuSubscribers_iff _).2 ⟨q, e', ?_, hk', ha⟩
      rw [hedge, if_neg, hq]
      rintro rfl
      simp [hold e' hq] at hk'
    cases ho : c₁.edge op.childPeerID with
    | none =>
      rw [ho] at hleft
      exact hkept (fun o h => by simp [ho] at h) hleft
    | some o =>
      simp only [ho] at hleft
      cases hko : o.kind with
      | peer =>
        rw [if_neg (by simp [hko])] at hleft
        exact hkept (fun o' h => by cases ho.symm.trans h; exact hko) hleft
      | sfu =>
        by_contra hn
        rw [if_pos ⟨hko, by simpa using hn⟩] at hleft
        cases hleft

theorem Accepted.served (h : Accepted r c c') (hsound : c.Sound) (hs : c.Served) : c'.Served := by
  cases h with
  | @attached _ op att _ =>
    exact (reshaped_picture c op.childPeerID (fun e => { e with
      videoGeneration := op.videoGeneration, videoConnectionID := att.connectionID, videoReady := true })
      fun _ => ⟨rfl, rfl, rfl, rfl, rfl⟩).served hs
  | commits ho hr hc hp hv hrep hm =>
    obtain ⟨e, pub, hi, heq, -, -⟩ := committed_settled hsound ho hr hc hp hv hrep
      (hm hsound.forest.outward (hsound.working.outward _ ho))
    rw [heq]
    exact settled_served hi hs fun hk => (hrep.cleared hsound.forest).same (Or.inl hk)

/-- **Every step leaves every publication a subscription.** -/
theorem Step.served (h : Step v b b' a r c c') (hsound : c.Sound) (hfault : c'.fault = none)
    (hs : c.Served) : c'.Served := by
  cases h with
  | upkeep h =>
    cases h with
    | trims _ ht => exact (ht.served hs).of_eq rfl rfl
    | trimsMarked _ ht => exact ht.served hs
    | halts _ hc => simp [hc] at hfault
    | @unattached _ _ op =>
      exact (reshaped_picture c op.childPeerID (fun e => { e with
        videoGeneration := op.videoGeneration, videoConnectionID := "", videoReady := false })
        fun _ => ⟨rfl, rfl, rfl, rfl, rfl⟩).served hs
    | echoes => exact hs
    | _ => exact hs.of_eq rfl rfl
  | gap _ ht => exact (ht.served hs).of_eq rfl rfl
  | accepts _ h => exact h.served hsound hs
  | reshapes h _ => exact h.served hs
  | @moves _ host host' =>
    refine served_of_none _ ?_
    unfold checkGraph
    split <;> rfl
  | disposes => exact served_of_none _ rfl

/-- **No orphan publication.**  Between calls, the Host publishes exactly when an
    SFU edge is active, and then every active SFU edge carries its generation. -/
theorem Controller.no_orphan_publication {c : Controller} (h : c.Reachable) :
    (c.hostPublication.isSome ↔ ∃ q e, c.edge q = some e ∧ e.kind = .sfu ∧ e.physicalActive) ∧
      ∀ p, c.hostPublication = some p → p.physicalActive ∧
        ∀ q e, c.edge q = some e → e.kind = .sfu → e.physicalActive →
          e.publicationGeneration = p.generation := by
  have hf := h.good.sound.forest
  have hs : c.Served := h.invariant (fun h => h.served) fun o latest c hnew => by
    obtain ⟨-, rfl⟩ := new_eq hnew
    exact served_of_none _ rfl
  refine ⟨⟨fun hp => (hasSfuSubscribers_iff _).1 (hs hp), fun ⟨q, e, he, hk, ha⟩ => ?_⟩,
    fun p hp => ⟨hf.publication p hp, fun q e he hk ha => ?_⟩⟩
  · obtain ⟨p, hp, -⟩ := hf.active q e he hk ha
    simp [hp]
  · obtain ⟨p', hp', hg⟩ := hf.active q e he hk ha
    cases hp.symm.trans hp'
    exact hg.symm

theorem Controller.no_orphan_publication_viewerPublished : ∃ c : Controller, c.Reachable ∧
    ∃ p, c.hostPublication = some p ∧ p.physicalActive := by
  have h : ∃ c : Controller, c.Reachable ∧ c.hostPublication.isSome :=
    ⟨_, ⟨sfuRoom, 0, _, viewerPublished, rfl, rfl⟩, rfl⟩
  obtain ⟨c, hc, hs⟩ := h
  obtain ⟨p, hp⟩ := Option.isSome_iff_exists.1 hs
  exact ⟨c, hc, p, hp, ((no_orphan_publication hc).2 p hp).1⟩

end Piik.Route
