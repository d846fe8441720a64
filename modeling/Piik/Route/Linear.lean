/-
  Resources are linear: what a reservation hands over is held in one place, or
  has been returned once.

  `tokens n` counts the resources with pointer `n`.  What a controller holds is
  the reservation of the live attempt, and the active subscriptions with their
  publication; every step conserves the count, as long as it is at most one.
-/
import Piik.Route.Orphan
import Piik.Route.Fence

namespace Piik.Route

open Piik.Route.Core Piik.Route.Controller

variable {v : Licence} {b b' : Bool} {a r : List Resource} {c c' : Core} {n : ℕ}

/-! ## Counting -/

/-- How often the pointer occurs. -/
def tokens (n : ℕ) (l : List Resource) : ℕ := l.countP fun r => r.ptr == n

@[simp] theorem tokens_nil : tokens n [] = 0 := rfl

@[simp] theorem tokens_append (l l' : List Resource) : tokens n (l ++ l') = tokens n l + tokens n l' :=
  List.countP_append ..

theorem tokens_cons (x : Resource) (l : List Resource) :
    tokens n (x :: l) = tokens n l + if x.ptr = n then 1 else 0 := by
  simp [tokens, List.countP_cons]

theorem tokens_filter_ptr (l : List Resource) {f : Resource → Bool} {t : Bool}
    (hf : ∀ x : Resource, x.ptr = n → f x = t) :
    tokens n (l.filter f) = if t then tokens n l else 0 := by
  induction l with
  | nil => simp
  | cons x l ih =>
    rw [List.filter_cons, tokens_cons]
    by_cases hx : x.ptr = n
    · rw [hf x hx, if_pos hx]
      cases t with
      | true => simpa [tokens_cons, hx] using ih
      | false => simpa using ih
    · rw [if_neg hx]
      split
      · rw [tokens_cons, if_neg hx]
        exact ih
      · exact ih

theorem tokens_dedupe (l : List Resource) : tokens n (dedupeResources l) = min 1 (tokens n l) := by
  induction l with
  | nil => rfl
  | cons x l ih =>
    unfold dedupeResources
    rw [tokens_cons, tokens_cons]
    by_cases hx : x.ptr = n
    · rw [tokens_filter_ptr (t := false) _ (fun y hy => by simp [hy, hx]), if_pos hx]
      simp
    · rw [tokens_filter_ptr (t := true) _ (fun y hy => by simpa [hy] using Ne.symm hx), if_neg hx]
      simpa using ih

theorem resourceIn_iff {x : Resource} {l : List Resource} :
    resourceIn x l = true ↔ 0 < tokens x.ptr l := by
  simp [resourceIn, tokens, List.countP_pos_iff]

/-- What was committed before and is not any more. -/
theorem tokens_diff (before after : List Resource) :
    tokens n ((dedupeResources before).filter fun x => !resourceIn x after) =
      if tokens n after = 0 then min 1 (tokens n before) else 0 := by
  rw [tokens_filter_ptr (n := n) (t := decide (tokens n after = 0)), tokens_dedupe]
  · by_cases h : tokens n after = 0 <;> simp [h]
  · rintro x rfl
    by_cases h : tokens x.ptr after = 0
    · have : resourceIn x after = false := by
        rw [← Bool.not_eq_true, resourceIn_iff]
        omega
      simp [this, h]
    · have : resourceIn x after = true := resourceIn_iff.2 (Nat.pos_of_ne_zero h)
      simp [this, h]

/-! ## What a graph holds -/

/-- An active subscription behind the pointer. -/
def CommittedEdge.holds (n : ℕ) (e : CommittedEdge) : Bool :=
  e.kind == .sfu && e.physicalActive && e.resource.any fun r => r.ptr == n

namespace Core

/-- The children whose subscription is behind the pointer. -/
def holders (c : Core) (n : ℕ) : Finset ID := c.upstreamByViewer.keysWhere fun _ e => e.holds n

theorem mem_holders {q : ID} : q ∈ c.holders n ↔ ∃ e, c.edge q = some e ∧ e.holds n := by
  simp [holders, OMap.mem_keysWhere, edge]

/-- What the publication holds. -/
def published (c : Core) : List Resource :=
  match c.hostPublication with
  | some p => p.held
  | none => []

end Core

theorem tokens_held {e : CommittedEdge} (hk : e.kind = .sfu) :
    tokens n e.held = if e.holds n then 1 else 0 := by
  unfold CommittedEdge.held CommittedEdge.holds
  cases e.physicalActive with
  | false => simp [hk]
  | true => cases e.resource <;> simp [hk, tokens_cons]

theorem tokens_committed (c : Core) :
    tokens n c.committedResources = (c.holders n).card + tokens n c.published := by
  have hl : ∀ l : List (ID × CommittedEdge),
      tokens n ((l.filter fun e => e.2.kind == .sfu).flatMap fun e => e.2.held) =
        (l.filter fun e => e.2.holds n).length := by
    intro l
    induction l with
    | nil => rfl
    | cons e l ih =>
      rw [List.filter_cons, List.filter_cons]
      by_cases hk : e.2.kind = .sfu
      · rw [if_pos (by simp [hk]), List.flatMap_cons, tokens_append, ih, tokens_held hk]
        split <;> simp [Nat.add_comm]
      · rw [if_neg (by simpa using hk), if_neg (by simp [CommittedEdge.holds, hk])]
        exact ih
  unfold committedResources holders
  rw [tokens_append, hl, OMap.card_keysWhere]
  rfl

/-- The same subscriptions behind the pointer. -/
theorem holders_congr (h : ∀ q, (∃ e, c'.edge q = some e ∧ e.holds n) ↔ ∃ e, c.edge q = some e ∧ e.holds n) :
    c'.holders n = c.holders n := by
  ext q
  rw [mem_holders, mem_holders, h q]

/-- A child loses its edge, or its edge goes out of service. -/
theorem holders_erase {p : ID} (hp : ∀ e', c'.edge p = some e' → e'.holds n = false)
    (hq : ∀ q, q ≠ p → c'.edge q = c.edge q) : c'.holders n = (c.holders n).erase p := by
  ext q
  rw [Finset.mem_erase, mem_holders, mem_holders]
  by_cases h : q = p
  · subst h
    simp only [ne_eq, not_true_eq_false, false_and, iff_false, not_exists, not_and]
    intro e' he'
    simp [hp e' he']
  · simp [h, hq q h]

/-- A spent anchor holds nothing. -/
theorem holders_prune (c : Core) : c.pruneRetiringSfuAnchors.holders n = c.holders n := by
  refine holders_congr fun q => ?_
  rw [edge_prune]
  constructor
  · rintro ⟨e, he, hn⟩
    exact ⟨e, (Option.filter_eq_some_iff.1 he).1, hn⟩
  · rintro ⟨e, he, hn⟩
    refine ⟨e, Option.filter_eq_some_iff.2 ⟨he, ?_⟩, hn⟩
    simp only [CommittedEdge.holds, Bool.and_eq_true] at hn
    simp [spentAnchor, hn.1.2]

/-- What a removal returns is what it takes from the graph. -/
theorem Cut.conserves {L : Core → ID → CommittedEdge → Prop} (h : Cut L r c c') :
    tokens n c.committedResources = tokens n c'.committedResources + tokens n r := by
  rw [tokens_committed, tokens_committed]
  cases h with
  | @peer _ p e he hk =>
    have hh : (c.deactivateEdge p).holders n = c.holders n := by
      refine holders_congr fun q => ?_
      rw [edge_deactivateEdge]
      split
      · next hq =>
        subst hq
        simp [he, CommittedEdge.holds, hk]
      · rfl
    rw [hh]
    rfl
  | @sfu _ p e he hk =>
    have hpub : (c.dropSfuEdge p e (c.retainsAnchor p)).published = c.published := by
      unfold dropSfuEdge
      split <;> rfl
    have hh : (c.dropSfuEdge p e (c.retainsAnchor p)).holders n = (c.holders n).erase p := by
      refine holders_erase (fun e' he' => ?_) fun q hq => by rw [edge_dropSfuEdge, if_neg hq]
      rw [edge_dropSfuEdge, if_pos rfl] at he'
      split at he'
      · obtain ⟨e₀, -, rfl⟩ := Option.map_eq_some_iff.1 he'
        simp [CommittedEdge.holds]
      · cases he'
    rw [hpub, hh, tokens_held hk]
    split
    · next hn =>
      have := Finset.card_erase_add_one (mem_holders.2 ⟨e, he, hn⟩)
      omega
    · next hn =>
      rw [Finset.erase_eq_of_notMem fun hm => ?_]
      · omega
      · obtain ⟨e', he', hn'⟩ := mem_holders.1 hm
        cases he.symm.trans he'
        exact hn hn'
  | @publication _ p hp =>
    rw [show c.published = p.held by simp [published, hp]]
    rfl
  | @leaf _ p _ _ _ _ _ he =>
    have hh : Core.holders { c.deleteEdge p with
        participants := c.participants.delete p
        directContinuations := c.directContinuations.delete p } n = c.holders n := by
      refine holders_congr fun q => ?_
      show (∃ e, (c.deleteEdge p).edge q = some e ∧ e.holds n) ↔ _
      rw [edge_deleteEdge]
      split
      · next hq =>
        subst hq
        refine ⟨fun ⟨e, he', _⟩ => (by cases he'), fun ⟨e, he', hn⟩ => ?_⟩
        simp [CommittedEdge.holds, (he e he').1] at hn
      · rfl
    rw [hh]
    rfl
  | anchors =>
    rw [holders_prune]
    rfl

theorem Cuts.conserves {L : Core → ID → CommittedEdge → Prop} (h : Cuts L r c c') :
    tokens n c.committedResources = tokens n c'.committedResources + tokens n r := by
  induction h with
  | refl => rfl
  | head hd _ ih =>
    rw [hd.conserves (n := n), ih, tokens_append]
    omega

/-! ## Reservations -/

/-- How often the controller holds the pointer. -/
def Core.slots (c : Core) (n : ℕ) : ℕ := tokens n c.liveResources + tokens n c.committedResources

/-- What the live attempt's reservation says is what it holds: an attachment has
    none, the kind is the candidate's, and the pointer is not lent to it. -/
structure Core.Reserved (c : Core) (n : ℕ) : Prop where
  attach : ∀ op att, c.operation = some op → op.reason = .publicationAttach →
    op.current = some att → reservationResources att.reservation = []
  kind : ∀ op att, c.operation = some op → op.reason ≠ .publicationAttach →
    op.current = some att → att.reservation.kind = expectedKind att.tuple
  own : ∀ op att, c.operation = some op → op.reason ≠ .publicationAttach →
    op.current = some att → att.reservation.borrowed → tokens n att.reservation.edge.toList = 0

/-- Calls that lend the pointer to no attempt. -/
def keeping (n : ℕ) (v : Licence) : Licence :=
  { v with reserves := fun res => res.borrowed → tokens n res.edge.toList = 0 }

theorem Core.Reserved.of_none (h : c.operation = none) : c.Reserved n := by
  refine ⟨fun op _ ho => ?_, fun op _ ho => ?_, fun op _ ho => ?_⟩ <;> simp [h] at ho

/-- The live attempt stays, or there is none. -/
theorem Core.Reserved.of_operation (h : c.Reserved n)
    (ho : ∀ op' att', c'.operation = some op' → op'.current = some att' →
      ∃ op att, c.operation = some op ∧ op.current = some att ∧ op'.reason = op.reason ∧
        SameAttempt att att') : c'.Reserved n := by
  refine ⟨fun op' att' h₁ hr h₂ => ?_, fun op' att' h₁ hr h₂ => ?_, fun op' att' h₁ hr h₂ => ?_⟩ <;>
    obtain ⟨op, att, ho, hc, hreason, hs⟩ := ho op' att' h₁ h₂ <;> rw [hreason] at hr <;>
    rw [hs.reservation]
  · exact h.attach op att ho hr hc
  · rw [hs.tuple]
    exact h.kind op att ho hr hc
  · exact h.own op att ho hr hc

theorem Core.Reserved.of_eq (h : c.Reserved n) (ho : c'.operation = c.operation) : c'.Reserved n :=
  h.of_operation fun op' att' h₁ h₂ => ⟨op', att', ho ▸ h₁, h₂, rfl, .refl att'⟩

theorem Core.Reserved.of_idle (h : c.Reserved n) (hi : c'.Idle) : c'.Reserved n :=
  h.of_operation fun op' att' h₁ h₂ => by simp [hi op' h₁] at h₂

theorem Core.Idle.rebased (h : c.Idle) : c.rebased.Idle := by
  intro op ho
  obtain ⟨op', ho', rfl⟩ := Option.map_eq_some_iff.1 ho
  exact h op' ho'

theorem Trim.idle {L : Core → ID → CommittedEdge → Prop} (h : Trim L r c c') (hi : c.Idle) : c'.Idle :=
  fun op ho => hi op (h.sameCourse.operation ▸ ho)

theorem Upkeep.reserved (h : Upkeep (keeping n v) b b' a r c c') (hr : c.Reserved n)
    (hfault : c'.fault = none) : c'.Reserved n := by
  cases h with
  | @plan _ _ op op' ho hs hc =>
    refine hr.of_operation fun op₁ att h₁ h₂ => ?_
    cases h₁
    exact ⟨op, att, ho, hc ▸ h₂, hs.reason, .refl att⟩
  | @note _ _ op att att' ho hc hs =>
    refine hr.of_operation fun op₁ att₁ h₁ h₂ => ?_
    cases h₁
    cases h₂
    exact ⟨op, att, ho, hc, rfl, hs⟩
  | @opens _ _ op _ hc =>
    refine hr.of_operation fun op₁ att h₁ h₂ => ?_
    cases h₁
    simp [hc] at h₂
  | @begins _ _ op plan att _ _ _ hreason _ hb hown =>
    refine ⟨fun op₁ att₁ h₁ hr₁ h₂ => ?_, fun op₁ att₁ h₁ hr₁ h₂ => ?_, fun op₁ att₁ h₁ hr₁ h₂ => ?_⟩ <;>
      cases h₁ <;> cases h₂
    · exact absurd hr₁ hreason
    · exact hb.kind
    · exact hown
  | @attaches _ _ op att _ _ _ hreason _ hres =>
    refine ⟨fun op₁ att₁ h₁ hr₁ h₂ => ?_, fun op₁ att₁ h₁ hr₁ h₂ => ?_, fun op₁ att₁ h₁ hr₁ h₂ => ?_⟩ <;>
      cases h₁ <;> cases h₂
    · rw [hres]
      rfl
    · exact absurd hreason hr₁
    · exact absurd hreason hr₁
  | abandons =>
    refine hr.of_operation fun op₁ att₁ h₁ h₂ => ?_
    cases h₁
    cases h₂
  | closes | detaches | unattached => exact .of_none rfl
  | trims hi ht => exact hr.of_idle (ht.idle hi).rebased
  | trimsMarked ho ht => exact .of_none (ht.sameCourse.operation.trans ho)
  | halts _ hc => simp [hc] at hfault
  | defers | echoes => exact hr.of_eq rfl

theorem Step.reserved (h : Step (keeping n v) b b' a r c c') (hr : c.Reserved n)
    (hfault : c'.fault = none) : c'.Reserved n := by
  cases h with
  | upkeep h => exact h.reserved hr hfault
  | gap hi ht => exact hr.of_idle (ht.idle hi).rebased
  | accepts _ h =>
    obtain ⟨_, _, -, -, ho, -⟩ := h.course
    exact .of_none ho
  | reshapes h _ => exact hr.of_eq h.operation
  | @moves _ host host' =>
    refine .of_none ?_
    unfold checkGraph
    split <;> exact aborted_operation c
  | disposes => exact .of_none rfl

/-! ## A commit -/

theorem Core.published_none (h : c.hostPublication = none) : c.published = [] := by
  simp [published, h]

/-- What a commit installs comes out of the reservation: the pointers of its edge
    and of a new publication are the ones that its overlap does not hold. -/
theorem Installs.conserves {op : Operation} {att : Attempt} {e : CommittedEdge}
    {pub : Option HostPublication} (hi : Installs c op att e pub)
    (hkind : att.reservation.kind = expectedKind att.tuple)
    (hown : att.reservation.borrowed → tokens n att.reservation.edge.toList = 0)
    (hnone : att.tuple.kind = .sfu → att.tuple.publication ≠ .reuse → c.hostPublication = none) :
    tokens n c.published ≤ tokens n (graft c op.childPeerID e pub).published ∧
    tokens n c.published + tokens n (reservationResources att.reservation) =
      ((if e.holds n then 1 else 0) + tokens n (graft c op.childPeerID e pub).published) +
        tokens n att.reservation.overlap.toList := by
  have hholds : att.tuple.kind = .sfu →
      (if e.holds n then 1 else 0) = tokens n att.reservation.edge.toList := by
    intro hk
    rw [← tokens_held (hi.kind.trans hk)]
    unfold CommittedEdge.held
    rw [if_pos hi.active, hi.resource hk]
  cases hk : att.tuple.kind with
  | peer =>
    have hres : reservationResources att.reservation = att.reservation.overlap.toList := by
      simp [reservationResources, hkind, expectedKind, hk]
    have hpub : (graft c op.childPeerID e pub).published = c.published := by
      rw [hi.kept (Or.inl hk)]
      rfl
    have hno : e.holds n = false := by simp [CommittedEdge.holds, hi.kind, hk]
    rw [hres, hpub, hno]
    exact ⟨le_refl _, by simp⟩
  | sfu =>
    rw [hholds hk]
    by_cases hp : att.tuple.publication = .reuse
    · have hpub : (graft c op.childPeerID e pub).published = c.published := by
        rw [hi.kept (Or.inr hp)]
        rfl
      have hres : tokens n (reservationResources att.reservation) =
          tokens n att.reservation.edge.toList + tokens n att.reservation.overlap.toList := by
        by_cases hb : att.reservation.borrowed = true
        · simp [reservationResources, hkind, expectedKind, hk, hp, hb, hown hb]
        · simp [reservationResources, hkind, expectedKind, hk, hp, hb]
      rw [hpub, hres]
      exact ⟨le_refl _, by omega⟩
    · have hpub : (graft c op.childPeerID e pub).published = att.reservation.publication.toList := by
        rw [hi.new hk hp]
        rfl
      have hres : tokens n (reservationResources att.reservation) =
          tokens n att.reservation.edge.toList + tokens n att.reservation.publication.toList +
            tokens n att.reservation.overlap.toList := by
        simp [reservationResources, hkind, expectedKind, hk, hp, Nat.add_assoc]
      rw [hpub, hres, Core.published_none (hnone hk hp)]
      exact ⟨Nat.zero_le _, by simp⟩

/-- The subscriptions with the child's new edge. -/
theorem holders_graft (c : Core) (p : ID) (e : CommittedEdge) (pub : Option HostPublication) :
    (graft c p e pub).holders n =
      if e.holds n then insert p (c.holders n) else (c.holders n).erase p := by
  ext q
  rw [mem_holders, edge_graft]
  by_cases hq : q = p
  · subst hq
    cases hn : e.holds n <;> simp [hn]
  · rw [if_neg hq, ← mem_holders]
    cases e.holds n <;> simp [hq]

/-- The subscriptions of the graph that a commit leaves. -/
theorem holders_settled (c₁ : Core) (op : Operation) (att : Attempt) (e : CommittedEdge)
    (pub : Option HostPublication) (old : Option CommittedEdge) (m : OMap ID DirectContinuation) :
    (settled c₁ op att e pub old m).holders n = (graft c₁ op.childPeerID e pub).holders n :=
  holders_prune _

theorem published_settled (c₁ : Core) (op : Operation) (att : Attempt) (e : CommittedEdge)
    (pub : Option HostPublication) (old : Option CommittedEdge) (m : OMap ID DirectContinuation) :
    (settled c₁ op att e pub old m).published =
      (graft c₁ op.childPeerID e (leftPublication c₁ op.childPeerID e pub old)).published := rfl

/-- New facts move no resource. -/
theorem Reshaped.conserves (h : Reshaped c c') :
    tokens n c'.committedResources = tokens n c.committedResources := by
  have hh : c'.holders n = c.holders n := by
    refine holders_congr fun q => ?_
    obtain ⟨f, hf, he⟩ := h.edge (p := q)
    have hsame : ∀ e, (f e).holds n = e.holds n := fun e => by
      simp only [CommittedEdge.holds, (hf e).kind, (hf e).physicalActive, (hf e).resource]
    rw [he]
    cases c.edge q <;> simp [hsame]
  have hp : c'.published = c.published := by
    obtain ⟨g, hg, he⟩ := h.publication
    unfold Core.published
    rw [he]
    cases hq : c.hostPublication with
    | none => rfl
    | some p => simp only [Option.map_some, HostPublication.held, (hg p).physicalActive, (hg p).resource]
  rw [tokens_committed, tokens_committed, hh, hp]

theorem Core.liveResources_eq {op : Operation} (h : c.operation = some op) :
    c.liveResources = attemptResources op := by
  simp [liveResources, h]

theorem Core.liveResources_attempt (op : Operation) {att : Attempt} (h : c.operation = some op)
    (hc : op.current = some att) : c.liveResources = reservationResources att.reservation := by
  simp [liveResources, h, attemptResources, hc]

theorem Core.liveResources_idle (h : c.Idle) : c.liveResources = [] := by
  cases ho : c.operation with
  | none => simp [liveResources, ho]
  | some op => simp [liveResources, ho, attemptResources, h op ho]

/-- An attachment holds nothing. -/
theorem Core.Reserved.liveResources_attach (h : c.Reserved n) {op : Operation}
    (ho : c.operation = some op) (hr : op.reason = .publicationAttach) : c.liveResources = [] := by
  cases hc : op.current with
  | none => simp [liveResources, ho, attemptResources, hc]
  | some att => rw [liveResources_attempt op ho hc, h.attach op att ho hr hc]

/-- **A commit conserves resources**: what it no longer holds, it returns. -/
theorem Accepted.conserves (h : Accepted r c c') (hs : c.Sound) (hr : c.Reserved n)
    (hle : c.slots n ≤ 1) : c.slots n = c'.slots n + tokens n r := by
  cases h with
  | @attached _ op att e ho hreason hc he =>
    have h := reshaped_picture c op.childPeerID (fun e => { e with
      videoGeneration := op.videoGeneration, videoConnectionID := att.connectionID, videoReady := true })
      fun _ => ⟨rfl, rfl, rfl, rfl, rfl⟩
    unfold Core.slots
    rw [hr.liveResources_attach ho hreason, ← h.conserves]
    rfl
  | @commits _ c₁ op att plan m ho hreason hc hp hv hrep hm =>
    obtain ⟨e, pub, hi, heq, -, -⟩ := committed_settled hs ho hreason hc hp hv hrep
      (hm hs.forest.outward (hs.working.outward _ ho))
    rw [heq]
    have hcl := hrep.cleared hs.forest
    set d := settled c₁ op att e pub (c.edge op.childPeerID) m with hd
    -- the replaced generation holds what it is cleared of
    have hcleared : tokens n c₁.committedResources ≤ tokens n c.committedResources := by
      unfold Replaced at hrep
      split at hrep
      · obtain ⟨p, r', -, -, ht⟩ := hrep
        have := ht.1.conserves (n := n)
        omega
      · rw [hrep]
    obtain ⟨hle', hinstalls⟩ := hi.conserves (n := n) (hr.kind op att ho hreason hc)
      (hr.own op att ho hreason hc) fun hk hp => by
        by_cases hrep' : att.tuple.publication = .replace
        · exact hcl.gone hk hrep'
        · rw [hcl.same (Or.inr hrep')]
          have hready := ready_of_candidateValid hs.forest.peopled
            (hs.working.aligned op att plan ho hreason hc ‹_›) hv
          exact (hready.create hk hp hrep').1
    have hheld : (d.holders n).card ≤ (c₁.holders n).card + (if e.holds n then 1 else 0) ∧
        (if e.holds n then 1 else 0) ≤ (d.holders n).card := by
      rw [hd, holders_settled, holders_graft]
      split
      · exact ⟨Finset.card_insert_le _ _, Finset.card_pos.2 ⟨_, Finset.mem_insert_self _ _⟩⟩
      · exact ⟨Finset.card_erase_le, Nat.zero_le _⟩
    -- only a peer child leaves a publication without a subscription
    have hpub : d.published = (graft c₁ op.childPeerID e pub).published ∨ d.published = [] ∧
        (graft c₁ op.childPeerID e pub).published = c₁.published := by
      rw [hd, published_settled]
      rcases leftPublication_cases c₁ op.childPeerID e pub (c.edge op.childPeerID) with h | ⟨h, hn⟩
      · exact Or.inl (by rw [h])
      · refine Or.inr ⟨by rw [h]; rfl, ?_⟩
        cases hk : att.tuple.kind with
        | peer =>
          rw [hi.kept (Or.inl hk)]
          rfl
        | sfu =>
          have : (graft c₁ op.childPeerID e pub).hasSfuSubscribers = true :=
            (hasSfuSubscribers_iff _).2
              ⟨op.childPeerID, e, by rw [edge_graft, if_pos rfl], hi.kind.trans hk, hi.active⟩
          simp [hn] at this
    have hlive : d.liveResources = [] := rfl
    have hd' := tokens_committed (n := n) d
    have hc₁ := tokens_committed (n := n) c₁
    unfold Core.slots at hle ⊢
    rw [liveResources_attempt op ho hc] at hle ⊢
    rw [hlive, tokens_append, tokens_diff, tokens_nil]
    rcases hpub with hpub | ⟨hpub, hsame⟩
    · rw [hpub] at hd'
      split <;> omega
    · rw [hpub, tokens_nil] at hd'
      rw [hsame] at hinstalls
      split <;> omega

/-! ## Steps -/

theorem Core.slots_of_none (h : c.operation = none) : c.slots n = tokens n c.committedResources := by
  simp [slots, liveResources, h]

theorem Core.slots_of_idle (h : c.Idle) : c.slots n = tokens n c.committedResources := by
  simp [slots, liveResources_idle h]

/-- What cannot hold anything. -/
theorem tokens_committed_of_empty (he : c.upstreamByViewer = .empty) (hp : c.hostPublication = none) :
    tokens n c.committedResources = 0 := by
  simp [committedResources, he, hp, OMap.empty]

theorem Upkeep.conserves (h : Upkeep (keeping n v) b b' a r c c') (hr : c.Reserved n)
    (hfault : c'.fault = none) : tokens n a + c.slots n = c'.slots n + tokens n r := by
  have hsame : ∀ {d : Core} {op op' : Operation}, c.operation = some op → op'.current = op.current →
      d.operation = some op' → tokens n d.committedResources = tokens n c.committedResources →
      d.slots n = c.slots n := by
    intro d op op' ho hc hd hcommitted
    unfold Core.slots
    rw [liveResources_eq ho, liveResources_eq hd, hcommitted]
    unfold attemptResources
    rw [hc]
  have hnone : ∀ {op : Operation}, c.operation = some op → op.current = none →
      c.slots n = tokens n c.committedResources := by
    intro op ho hc
    exact slots_of_idle fun op' ho' => by
      cases ho.symm.trans ho'
      exact hc
  have htrim : ∀ {d : Core} {r : List Resource}, c.Idle → Trim MayCut r c d →
      c.slots n = tokens n d.committedResources + tokens n r := by
    intro d r hi ht
    rw [slots_of_idle hi, ht.cuts.conserves]
  cases h with
  | @plan _ _ op op' ho _ hc =>
    rw [hsame (d := { c with operation := some op' }) ho hc rfl rfl]
    simp
  | defers => simp [Core.slots, Core.liveResources, Core.committedResources]
  | @note _ _ op att att' ho hc hs =>
    unfold Core.slots
    rw [liveResources_attempt op ho hc, liveResources_attempt { op with current := some att' } rfl rfl,
      hs.reservation]
    simp [Core.committedResources]
  | @opens _ _ op ho hc =>
    rw [slots_of_none ho, slots_of_idle fun op' ho' => by cases ho'; exact hc]
    simp [Core.committedResources]
  | @begins _ _ op plan att ho hc =>
    rw [hnone ho hc]
    unfold Core.slots
    rw [liveResources_attempt { op with current := some att } rfl rfl]
    simp [Core.committedResources, Core.allocateRevision]
  | @attaches _ _ op att ho hc _ _ _ hres =>
    rw [hnone ho hc]
    unfold Core.slots
    rw [liveResources_attempt { op with current := some att } rfl rfl, hres]
    simp [Core.committedResources, Core.allocateRevision, reservationResources]
  | @abandons _ _ op att ho hc =>
    unfold Core.slots
    rw [liveResources_attempt op ho hc, liveResources_idle fun op' ho' => by cases ho'; rfl]
    simp [Core.committedResources, Core.bump, Core.allocateRevision, Nat.add_comm]
  | closes ho hc =>
    rw [hnone ho hc, slots_of_none rfl]
    simp [Core.committedResources]
  | detaches ho hreason =>
    unfold Core.slots
    rw [hr.liveResources_attach ho hreason]
    simp [Core.committedResources, Core.liveResources, Core.bump, Core.allocateRevision]
  | @unattached _ _ op ho hreason =>
    have h := reshaped_picture c op.childPeerID (fun e => { e with
      videoGeneration := op.videoGeneration, videoConnectionID := "", videoReady := false })
      fun _ => ⟨rfl, rfl, rfl, rfl, rfl⟩
    unfold Core.slots
    rw [hr.liveResources_attach ho hreason, ← h.conserves]
    simp [Core.committedResources, Core.liveResources, Core.bump, Core.allocateRevision]
  | @trims _ _ _ d hi ht =>
    rw [htrim hi ht, slots_of_idle (ht.idle hi).rebased]
    simp [Core.committedResources, Core.rebased, Core.bump, Core.allocateRevision]
  | @trimsMarked _ _ d ho ht =>
    rw [htrim (fun op ho' => by simp [ho] at ho') ht,
      slots_of_none (ht.cuts.sameCourse.operation.trans ho)]
    simp
  | halts _ hc => simp [hc] at hfault
  | echoes => exact Nat.add_comm _ _

/-- **Every step conserves resources.**  What comes in is held or returned. -/
theorem Step.conserves (h : Step (keeping n v) b b' a r c c') (hs : c.Sound) (hr : c.Reserved n)
    (hfault : c'.fault = none) (hle : tokens n a + c.slots n ≤ 1) :
    tokens n a + c.slots n = c'.slots n + tokens n r := by
  have hempty : ∀ {d : Core}, d.operation = none → tokens n d.committedResources = 0 →
      c.slots n ≤ 1 → c.slots n = d.slots n + tokens n (dedupeResources (c.liveResources ++ c.committedResources)) := by
    intro d ho hd hle
    rw [slots_of_none ho, hd, tokens_dedupe, tokens_append]
    unfold Core.slots at hle ⊢
    omega
  cases h with
  | upkeep h => exact h.conserves hr hfault
  | @gap _ _ d hi ht =>
    rw [slots_of_idle hi, slots_of_idle (ht.idle hi).rebased, ht.cuts.conserves (n := n)]
    simp [Core.committedResources, Core.rebased, Core.bump, Core.allocateRevision]
  | accepts _ h =>
    rw [tokens_nil, Nat.zero_add] at hle ⊢
    exact h.conserves hs hr hle
  | reshapes h _ =>
    have hlive : c'.liveResources = c.liveResources := by
      unfold Core.liveResources
      rw [h.operation]
    unfold Core.slots
    rw [hlive, h.conserves]
    simp
  | @moves _ host host' =>
    rw [tokens_nil, Nat.zero_add] at hle ⊢
    refine hempty ?_ ?_ hle
    · unfold checkGraph
      split <;> exact aborted_operation c
    · refine tokens_committed_of_empty ?_ ?_ <;> unfold checkGraph <;> split <;> rfl
  | disposes =>
    rw [tokens_nil, Nat.zero_add] at hle ⊢
    exact hempty rfl (tokens_committed_of_empty rfl rfl) hle

/-! ## Calls -/

/-- The resources in a reservation, but not the edge that it borrows. -/
def CandidateReservation.resources (res : CandidateReservation) : List Resource :=
  (if res.borrowed then [] else res.edge.toList) ++ res.publication.toList ++ res.overlap.toList

/-- The fields follow the kind: no edge and no publication for a direct candidate,
    an edge for a reuse, which alone may borrow it. -/
structure CandidateReservation.Conforms (res : CandidateReservation) : Prop where
  edge : res.kind ≠ .sfuReuse → res.kind ≠ .sfuCreate → res.edge = none
  publication : res.kind ≠ .sfuCreate → res.publication = none
  borrowed : res.borrowed → res.kind = .sfuReuse

theorem CandidateReservation.Conforms.resources {res : CandidateReservation} (h : res.Conforms) :
    reservationResources res = res.resources := by
  obtain ⟨kind, edge, publication, borrowed, overlap⟩ := res
  obtain ⟨he, hp, hb⟩ := h
  cases kind <;> cases borrowed <;> simp_all [reservationResources, CandidateReservation.resources]

namespace Call

/-- The reservation that a call hands over. -/
def reservation : Call → Option CandidateReservation
  | .beginCurrentCandidate input => some input.reservation
  | _ => none

/-- The resources that a call hands over. -/
def resources (k : Call) : List Resource :=
  match k.reservation with
  | some res => res.resources
  | none => []

/-- The pointer is lent to the call's candidate. -/
def Lends (n : ℕ) (k : Call) : Prop :=
  ∃ res, k.reservation = some res ∧ res.borrowed ∧ 0 < tokens n res.edge.toList

theorem taken_eq {k : Call} (h : ∀ res, k.reservation = some res → res.Conforms) :
    k.taken = k.resources := by
  cases k with
  | beginCurrentCandidate input => exact (h _ rfl).resources
  | _ => rfl

theorem reserves_of_keeps {k : Call} (h : ¬k.Lends n) :
    ∀ input, k = .beginCurrentCandidate input → (keeping n .all).reserves input.reservation := by
  rintro input rfl hb
  by_contra hn
  exact h ⟨_, rfl, hb, Nat.pos_of_ne_zero hn⟩

end Call

theorem fault_before_of_chain (h : Chain (Step v) b b' a r c c') (hf : c'.fault = none) :
    c.fault = none := by
  induction h with
  | refl => exact hf
  | head hd _ ih => exact hd.fault_before (ih hf)

/-- **A run conserves resources.** -/
theorem conserves_of_chain (h : Chain (Step (keeping n v)) b b' a r c c') (hs : Safe c)
    (hr : c.Reserved n) (hfault : c'.fault = none) (hle : tokens n a + c.slots n ≤ 1) :
    tokens n a + c.slots n = c'.slots n + tokens n r ∧ c'.Reserved n := by
  induction h with
  | refl => exact ⟨Nat.add_comm _ _, hr⟩
  | head hd htail ih =>
    have hf := fault_before_of_chain htail hfault
    rw [tokens_append] at hle ⊢
    rw [tokens_append]
    have hstep := hd.conserves (hs.sound (hd.fault_before hf)) hr hf (by omega)
    obtain ⟨htokens, hr'⟩ := ih (hd.safe hs) (hd.reserved hr hf) hfault (by omega)
    exact ⟨by omega, hr'⟩

namespace Controller

theorem Good.call_conserves {c c' : Controller} {k : Call} {reply : Reply} (h : c.Good)
    (hk : c.call k = .ok (reply, c')) (hlend : ¬k.Lends n)
    (hconf : ∀ res, k.reservation = some res → res.Conforms) (hr : c.Reserved n)
    (hle : tokens n k.resources + c.slots n ≤ 1) :
    tokens n k.resources + c.slots n = c'.slots n + tokens n reply.released ∧ c'.Reserved n := by
  obtain ⟨hg, hrun⟩ := h.call hk
  obtain ⟨_, hchain⟩ := run_runs (v := keeping n .all) c h.sound.working.aligned k
    ⟨fun h => (by cases h), fun h => (by cases h), fun h => (by cases h), Call.reserves_of_keeps hlend,
      fun _ _ => trivial⟩ false
  rw [hrun, Call.taken_eq hconf] at hchain
  exact conserves_of_chain hchain h.safe hr hg.fault hle

theorem Good.trace_conserves {c c' : Controller} {ks : List Call} {replies : List Reply} (h : c.Good)
    (hk : c.trace ks = .ok (replies, c')) (hlend : ∀ k ∈ ks, ¬k.Lends n)
    (hconf : ∀ k ∈ ks, ∀ res, k.reservation = some res → res.Conforms) (hr : c.Reserved n)
    (hle : tokens n (ks.flatMap Call.resources) + c.slots n ≤ 1) :
    tokens n (ks.flatMap Call.resources) + c.slots n =
      c'.slots n + tokens n (replies.flatMap Reply.released) := by
  induction ks generalizing c replies with
  | nil =>
    cases hk
    exact Nat.add_comm _ _
  | cons k ks ih =>
    unfold Controller.trace at hk
    split at hk
    · cases hk
    · next reply c₁ h₁ =>
      split at hk
      · cases hk
      · next replies' c₂ h₂ =>
        cases hk
        rw [List.flatMap_cons, tokens_append] at hle ⊢
        rw [List.flatMap_cons, tokens_append]
        obtain ⟨hfirst, hr₁⟩ := h.call_conserves h₁ (hlend k (List.mem_cons_self ..))
          (hconf k (List.mem_cons_self ..)) hr (by omega)
        have hrest := ih (h.call h₁).1 h₂ (fun k hk => hlend k (List.mem_cons_of_mem _ hk))
          (fun k hk => hconf k (List.mem_cons_of_mem _ hk)) hr₁ (by omega)
        omega

/-- **Resources are linear.**  A resource that one reservation hands over, and that
    is never lent, is held once or has been returned once: by the live attempt, by an
    active subscription or the publication, or in the replies. -/
theorem resource_linearity {o : Options} {latest : Int} {c₀ c : Controller} {ks : List Call}
    {replies : List Reply} {n : ℕ} (hnew : new o latest = .ok c₀)
    (hk : c₀.trace ks = .ok (replies, c))
    (hconf : ∀ k ∈ ks, ∀ res, k.reservation = some res → res.Conforms)
    (hlend : ∀ k ∈ ks, ¬k.Lends n) (honce : tokens n (ks.flatMap Call.resources) = 1) :
    tokens n c.liveResources + tokens n c.committedResources +
      tokens n (replies.flatMap Reply.released) = 1 := by
  have hslots : c₀.slots n = 0 := by
    obtain ⟨-, rfl⟩ := new_eq hnew
    rw [slots_of_none rfl, tokens_committed_of_empty rfl rfl]
  have hr : c₀.Reserved n := by
    obtain ⟨-, rfl⟩ := new_eq hnew
    exact .of_none rfl
  have h := (new_good hnew).trace_conserves hk hlend hconf hr (by omega)
  rw [hslots] at h
  unfold Core.slots at h
  omega

theorem resource_linearity_viewerPublished : ∃ c₀ c replies, new sfuRoom 0 = .ok c₀ ∧
    c₀.trace viewerPublished = .ok (replies, c) ∧
    tokens 2 c.liveResources + tokens 2 c.committedResources +
      tokens 2 (replies.flatMap Reply.released) = 1 := by
  refine ⟨_, _, _, rfl, rfl, ?_⟩
  refine @resource_linearity sfuRoom 0 _ _ viewerPublished _ 2 rfl rfl ?_ ?_ (by decide)
  · intro k hk res hres
    simp only [viewerPublished, List.mem_cons, List.not_mem_nil, or_false] at hk
    rcases hk with rfl | rfl | rfl | rfl | rfl <;> cases hres
    exact ⟨fun _ h => by simp at h, fun h => by simp at h, fun h => by simp at h⟩
  · rintro k hk ⟨res, hres, hb, -⟩
    simp only [viewerPublished, List.mem_cons, List.not_mem_nil, or_false] at hk
    rcases hk with rfl | rfl | rfl | rfl | rfl <;> cases hres
    cases hb

end Controller

end Piik.Route
