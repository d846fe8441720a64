/-
  The opportunity ledgers: whose keys a call may touch.

  A call that only writes other fields, or the scheduler's flags, leaves every
  ledger's keys where they are.
-/
import Piik.Route.Frame

namespace Piik.Route

namespace Controller

variable (c : Controller)

/-- The consumed opportunities of a child. -/
def opportunities (peerID : ID) : OMap String CandidateOpportunity :=
  (c.ledger peerID).consumedCandidateOpportunities

/-- The attempts that a child was charged under a key. -/
def charged (peerID : ID) (key : String) : Int :=
  match (c.opportunities peerID).get key with
  | some previous => previous.chargedAttempts
  | none => 0

/-- The keys of the children and those of the bootstrap carriers. -/
def books : OMap ID ParticipantLedger × OMap String Int :=
  (c.ledgers, c.consumedSfuBootstrapOpportunities)

theorem opportunities_of_books {c c' : Controller} (h : c'.books = c.books) (q : ID) :
    c'.opportunities q = c.opportunities q := by
  have h : c'.ledgers = c.ledgers := congrArg Prod.fst h
  simp [opportunities, ledger, h]

theorem ledger_updateLedger (p q : ID) (f : ParticipantLedger → ParticipantLedger) :
    (c.updateLedger p f).ledger q =
      if q = p ∧ (c.participant p).isSome then f (c.ledger p) else c.ledger q := by
  unfold updateLedger
  split
  · next h => simp [h]
  · next h =>
    simp only [ledger, OMap.get_set, h, Option.isSome_some, and_true]
    split <;> rfl

/-- An update of a child's keys leaves the others' alone. -/
theorem opportunities_updateLedger (p q : ID) (f : ParticipantLedger → ParticipantLedger) :
    (c.updateLedger p f).opportunities q = if q = p ∧ (c.participant p).isSome then
      (f (c.ledger p)).consumedCandidateOpportunities else c.opportunities q := by
  rw [opportunities, ledger_updateLedger]
  split <;> rfl

/-- A flag is not a key. -/
theorem opportunities_flag {f : ParticipantLedger → ParticipantLedger}
    (hf : ∀ l, (f l).consumedCandidateOpportunities = l.consumedCandidateOpportunities) (p q : ID) :
    (c.updateLedger p f).opportunities q = c.opportunities q := by
  rw [opportunities_updateLedger]
  split
  · next h => rw [hf, h.1]; rfl
  · rfl

/-! ## Calls that leave the ledgers alone -/

/-- A fold of steps that keep the ledgers keeps them. -/
theorem foldl_books {α : Type} {f : Controller → α → Controller}
    (h : ∀ c a, (f c a).books = c.books) (l : List α) (c : Controller) :
    (l.foldl f c).books = c.books := by
  induction l generalizing c with
  | nil => rfl
  | cons a l ih => exact (ih _).trans (h c a)

@[simp] theorem touchFacts_books : c.touchFacts.books = c.books := rfl

@[simp] theorem modifyParticipant_books (p : ID) (f : Participant → Participant) :
    (c.modifyParticipant p f).books = c.books := rfl

@[simp] theorem deleteContinuation_books (p : ID) : (c.deleteContinuation p).books = c.books := rfl

@[simp] theorem recordDemands_books (l : List ID) (now : Option Int) (r : DemandReason) :
    (c.recordDemands l now r).books = c.books := by
  unfold recordDemands
  split
  · rfl
  · apply foldl_books
    intro d a
    rfl

@[simp] theorem clearQualityForParticipant_books (p : ID) :
    (c.clearQualityForParticipant p).books = c.books := by
  unfold clearQualityForParticipant
  apply foldl_books
  intro d a
  rfl

@[simp] theorem resetSenderBaselines_books (l : List ID) :
    (c.resetSenderBaselines l).books = c.books := by
  unfold resetSenderBaselines
  apply foldl_books
  intro d a
  rfl

@[simp] theorem advanceActiveRevision_books (op : Operation) :
    (c.advanceActiveRevision op).books = c.books := by
  show (c.resetProducerBaselines op).books = c.books
  unfold resetProducerBaselines
  split
  · rfl
  · dsimp only
    split <;> simp

@[simp] theorem retireAttempt_books (op : Operation) : (c.retireAttempt op).2.books = c.books := by
  unfold retireAttempt
  split <;> simp

@[simp] theorem abortOperation_books (now : Option Int) (bucket : RejectionBucket) :
    (c.abortOperation now bucket).2.books = c.books := by
  unfold abortOperation
  split
  · rfl
  · next op _ =>
    split
    · exact (retireAttempt_books _ op).trans rfl
    · exact retireAttempt_books _ op

@[simp] theorem recordCapacityReduction_books (p : ID) (now : Option Int) :
    (c.recordCapacityReduction p now).books = c.books := recordDemands_books _ _ _ _

@[simp] theorem demandReturned_books (input : ParticipantInput) (current : Participant)
    (capacity : Int) (now : Option Int) :
    (c.demandReturned input current capacity now).books = c.books := by
  unfold demandReturned
  dsimp only
  split_ifs <;> simp

/-! ## A session that ends -/

/-- Every key that is left was there before. -/
structure Fewer (c c' : Controller) : Prop where
  children : ∀ q K, (c.opportunities q).get K = none → (c'.opportunities q).get K = none
  carriers : ∀ K, c.consumedSfuBootstrapOpportunities.get K = none →
    c'.consumedSfuBootstrapOpportunities.get K = none

namespace Fewer

variable {c c' c'' : Controller}

theorem refl (c : Controller) : Fewer c c := ⟨fun _ _ hn => hn, fun _ hn => hn⟩

theorem trans (h : Fewer c c') (h' : Fewer c' c'') : Fewer c c'' :=
  ⟨fun q K hn => h'.1 q K (h.1 q K hn), fun K hn => h'.2 K (h.2 K hn)⟩

theorem same (h : Fewer c c') (hb : c''.books = c'.books) : Fewer c c'' := by
  refine h.trans ⟨fun q K hn => ?_, fun K hn => ?_⟩
  · rwa [opportunities_of_books hb]
  · rwa [show c''.consumedSfuBootstrapOpportunities = c'.consumedSfuBootstrapOpportunities from
      congrArg Prod.snd hb]

theorem modifyParticipant (h : Fewer c c') (p : ID) (f : Participant → Participant) :
    Fewer c (c'.modifyParticipant p f) := h.same rfl

theorem clearQuality (h : Fewer c c') (p : ID) : Fewer c (c'.clearQualityForParticipant p) :=
  h.same (clearQualityForParticipant_books _ p)

theorem deleteContinuation (h : Fewer c c') (p : ID) : Fewer c (c'.deleteContinuation p) := h.same rfl

theorem recordDemands (h : Fewer c c') (l : List ID) (now : Option Int) (r : DemandReason) :
    Fewer c (c'.recordDemands l now r) := h.same (recordDemands_books _ l now r)

theorem touchFacts (h : Fewer c c') : Fewer c c'.touchFacts := h.same rfl

theorem abort (h : Fewer c c') (b : Prop) [Decidable b] (now : Option Int) (bucket : RejectionBucket) :
    Fewer c (if b then c'.abortOperation now bucket else ([], c')).2 := by
  split
  · exact h.same (abortOperation_books _ now bucket)
  · exact h

/-- An update that only removes keys. -/
theorem update (h : Fewer c c') {f : ParticipantLedger → ParticipantLedger}
    (hf : ∀ l K, l.consumedCandidateOpportunities.get K = none →
      (f l).consumedCandidateOpportunities.get K = none) (p : ID) : Fewer c (c'.updateLedger p f) := by
  refine h.trans ⟨fun q K hn => ?_, fun K hn => ?_⟩
  · rw [opportunities_updateLedger]
    split
    · next hq => exact hf _ K (hq.1 ▸ hn)
    · exact hn
  · unfold updateLedger
    split <;> exact hn

theorem clearDemand (h : Fewer c c') (p : ID) : Fewer c (c'.clearSfuBootstrapForDemand p) := by
  have h : Fewer c (c'.updateLedger p fun l => { l with sfuFirstAtNextRoute := false }) :=
    h.update (f := fun l => { l with sfuFirstAtNextRoute := false }) (fun _ _ hn => hn) p
  unfold clearSfuBootstrapForDemand
  dsimp only
  split
  · split
    · exact h.same rfl
    · exact h
  · exact h

end Fewer

/-- No key is left that names the peer's session: none of its own, none of the
    children it could be a parent to, and after the Host none through the SFU. -/
structure Erased (c : Controller) (p : ID) (role : Role) : Prop where
  own : ∀ K, (c.opportunities p).get K = none
  parent : ∀ q K, hasPrefix K ("peer:" ++ p ++ "\x00") → (c.opportunities q).get K = none
  host : role = .host → ∀ q K, hasPrefix K sfuOpportunityPrefix → (c.opportunities q).get K = none
  carrier : ∀ K, role = .host ∨ hasPrefix K (p ++ "\x00") →
    c.consumedSfuBootstrapOpportunities.get K = none

theorem Erased.fewer {c c' : Controller} {p : ID} {role : Role} (h : c.Erased p role)
    (hf : Fewer c c') : c'.Erased p role where
  own K := hf.children p K (h.own K)
  parent q K hK := hf.children q K (h.parent q K hK)
  host hr q K hK := hf.children q K (h.host hr q K hK)
  carrier K hK := hf.carriers K (h.carrier K hK)

/-- **Erasing.** -/
theorem clearOpportunitiesForSessionChange_erased {p : ID} (hp : (c.participant p).isSome)
    (role : Role) : (c.clearOpportunitiesForSessionChange p role).Erased p role := by
  have hget : ∀ q K, ((c.clearOpportunitiesForSessionChange p role).opportunities q).get K =
      if q = p ∨ hasPrefix K ("peer:" ++ p ++ "\x00") ∨
        (role = .host ∧ hasPrefix K sfuOpportunityPrefix) then none
      else (c.opportunities q).get K := by
    intro q K
    have hbase : ∀ q, (c.updateLedger p fun l => { l with
        consumedCandidateOpportunities := .empty, availabilityExhausted := false
        bootstrapFailureReported := false }).opportunities q =
          if q = p then .empty else c.opportunities q := by
      intro q
      rw [opportunities_updateLedger]
      simp [hp]
    unfold clearOpportunitiesForSessionChange
    dsimp only
    generalize (c.updateLedger p fun l => { l with
      consumedCandidateOpportunities := .empty, availabilityExhausted := false
      bootstrapFailureReported := false }) = d at hbase
    have hd := hbase q
    simp only [opportunities, ledger, OMap.get_mapValues] at hd ⊢
    cases hl : d.ledgers.get q with
    | none =>
      rw [hl] at hd
      simp only [Option.getD_none, Option.map_none] at hd ⊢
      split
      · rfl
      · next hn =>
        rw [if_neg fun h => hn (Or.inl h)] at hd
        rw [← hd]
    | some l =>
      rw [hl] at hd
      simp only [Option.getD_some, Option.map_some] at hd ⊢
      rw [OMap.get_filter, hd]
      by_cases hq : q = p
      · simp [hq]
      · simp only [hq, if_false, false_or]
        generalize ((c.ledgers.get q).getD {}).consumedCandidateOpportunities.get K = o
        cases o with
        | none => simp
        | some v =>
          split
          · next h => rcases h with h | ⟨rfl, h⟩ <;> simp [h]
          · next h =>
            simp only [not_or, not_and] at h
            cases role with
            | host => simp [h.1, h.2 rfl]
            | viewer => simp [h.1]
  refine ⟨fun K => ?_, fun q K hK => ?_, fun hr q K hK => ?_, fun K hK => ?_⟩
  · rw [hget, if_pos (Or.inl rfl)]
  · rw [hget, if_pos (Or.inr (Or.inl hK))]
  · rw [hget, if_pos (Or.inr (Or.inr ⟨hr, hK⟩))]
  · unfold clearOpportunitiesForSessionChange
    cases role with
    | host => rfl
    | viewer =>
      have hK : hasPrefix K (p ++ "\x00") = true := by simpa using hK
      simp [OMap.get_filter, hK]

/-- The Host's move takes every key of the children. -/
theorem moveHost_opportunities (host : Participant) (p s : ID) (now : Option Int) (q : ID) :
    (c.moveHost host p s now).2.opportunities q = .empty := by
  simp only [opportunities, ledger, moveHost, touchFacts, bump, OMap.get_set, OMap.get_delete]
  split
  · rfl
  · split
    · rfl
    · rw [show ∀ d : Controller, ∀ l reason, (d.recordDemands l now reason).ledgers = d.ledgers from
        fun d l reason => congrArg Prod.fst (recordDemands_books d l now reason)]
      simp only [OMap.get_mapValues]
      cases (c.abortOperation now .stale).2.ledgers.get q <;> rfl

/-- And every key of a carrier. -/
theorem moveHost_carriers (host : Participant) (p s : ID) (now : Option Int) :
    (c.moveHost host p s now).2.consumedSfuBootstrapOpportunities = .empty :=
  congrArg Prod.snd (recordDemands_books _ _ now _)

/-! ## A failed edge -/

/-- The edge's own key is charged at rank none, when it was acquired under it. -/
theorem consumeActiveEdgeOpportunity_opportunities {p : ID} {x : Participant}
    (hx : c.participant p = some x) (e : CommittedEdge) (q : ID) :
    (c.consumeActiveEdgeOpportunity p e).opportunities q =
      if q = p ∧ e.opportunityKey =
          c.candidateOpportunityBase p { kind := e.kind, parentPeerID := e.parentPeerID } then
        (c.opportunities p).set e.opportunityKey
          { rank := 0, exhausted := true, chargedAttempts := c.charged p e.opportunityKey }
      else c.opportunities q := by
  unfold consumeActiveEdgeOpportunity
  dsimp only
  split
  · next hne => rw [if_neg fun h => hne h.2]
  · next heq =>
    have heq := not_not.1 heq
    rw [opportunities_updateLedger, hx, ← heq]
    simp only [Option.isSome_some, and_true]
    rfl

/-- **What an invalidation charges**: nothing, unless the edge is usable and was
    acquired under the sessions its ends have now. -/
theorem invalidateEdge_opportunities {guard : EdgeGuard} {e : CommittedEdge}
    (he : c.edge guard.childPeerID = some e) (now : Option Int) (q : ID) :
    (c.invalidateEdge guard now).2.opportunities q =
      if (c.invalidateEdge guard now).1 ∧ e.usable ∧ q = guard.childPeerID ∧ e.opportunityKey =
          c.candidateOpportunityBase guard.childPeerID { kind := e.kind, parentPeerID := e.parentPeerID }
      then (c.opportunities q).set e.opportunityKey
        { rank := 0, exhausted := true, chargedAttempts := c.charged q e.opportunityKey }
      else c.opportunities q := by
  unfold invalidateEdge
  rw [he]
  cases hx : c.participant guard.childPeerID with
  | none => simp
  | some x =>
    dsimp only
    split
    · simp
    · split
      · next hu =>
        have hu : e.usable = false := by simpa using hu
        simp [hu]
      · next hu =>
        have hu : e.usable = true := by simpa using hu
        rw [opportunities_of_books (recordDemands_books _ _ _ _),
          opportunities_of_books (touchFacts_books _)]
        refine Eq.trans (opportunities_flag _ ?_ _ q) ?_
        · exact fun _ => rfl
        rw [opportunities_of_books (deleteContinuation_books _ _)]
        refine (opportunities_of_books (c := c.consumeActiveEdgeOpportunity guard.childPeerID e)
          (clearQualityForParticipant_books _ _) q).trans
            ((c.consumeActiveEdgeOpportunity_opportunities hx e q).trans ?_)
        simp only [hu, true_and]
        split
        · next hq => rw [hq.1]
        · rfl

end Controller

end Piik.Route
