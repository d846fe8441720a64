/-
  The keys of the two opportunity ledgers.

  A regeneration is tried by quality convergence alone, and quality convergence
  charges the sender's observation.  So every key of a child's ledger, and every
  key of a bootstrap carrier, is that of a plain pair of sessions.
-/
import Piik.Route.Cursor

namespace Piik.Route

open Piik.Route.Core

/-- The ledger key between the sessions of a child and of its upstream. -/
def ledgerKey (tuple : CandidateTuple) (childSessionID upstreamSessionID : ID) : String :=
  match tuple.kind with
  | .peer => peerOpportunityKey tuple childSessionID upstreamSessionID
  | .sfu => sfuOpportunityPrefix ++ childSessionID ++ "\x00" ++ upstreamSessionID

/-- Who is at the other end: the parent, or the Host behind the SFU. -/
def Core.upstreamOf (c : Core) (tuple : CandidateTuple) : ID :=
  match tuple.kind with
  | .peer => tuple.parentPeerID
  | .sfu => c.hostPeerID

theorem Core.candidateOpportunityBase_eq (c : Core) (p : ID) (tuple : CandidateTuple) :
    c.candidateOpportunityBase p tuple =
      ledgerKey tuple (c.sessionOf p) (c.sessionOf (c.upstreamOf tuple)) := by
  unfold candidateOpportunityBase ledgerKey upstreamOf
  cases tuple.kind <;> rfl

/-- The key of a pair of sessions, and of no regeneration. -/
def PlainKey (key : String) : Prop :=
  ∃ tuple s t, tuple.regenerate = false ∧ key = ledgerKey tuple s t

/-- A candidate that a child's ledger may be charged for. -/
def CandidateTuple.Plain (tuple : CandidateTuple) : Prop := tuple.kind = .peer → tuple.regenerate = false

theorem CandidateTuple.Plain.key {tuple : CandidateTuple} (h : tuple.Plain) (c : Core) (p : ID) :
    PlainKey (c.candidateOpportunityBase p tuple) := by
  rw [Core.candidateOpportunityBase_eq]
  cases hk : tuple.kind with
  | peer => exact ⟨tuple, _, _, h hk, rfl⟩
  | sfu =>
    refine ⟨{ tuple with regenerate := false }, c.sessionOf p, c.sessionOf (c.upstreamOf tuple), rfl, ?_⟩
    simp [ledgerKey, hk]

/-- Only quality convergence has candidates that regenerate, and it counts no
    attempt. -/
structure Operation.Plain (op : Operation) : Prop where
  candidates : op.reason ≠ .qualityConvergence → ∀ plan ∈ op.candidates, plan.tuple.Plain
  counted : ∀ att, op.current = some att → att.connectionAttempt.isSome →
    att.tuple.kind = .peer ∧ att.tuple.regenerate = false

namespace Operation.Plain

variable {op op' : Operation}

/-- Fewer candidates, and no other attempt. -/
theorem less (h : op.Plain) (hr : op'.reason = op.reason)
    (hs : ∀ plan ∈ op'.candidates, ∃ plan' ∈ op.candidates, plan.tuple = plan'.tuple)
    (hc : ∀ att', op'.current = some att' → ∃ att, op.current = some att ∧ att'.tuple = att.tuple ∧
      att'.connectionAttempt = att.connectionAttempt) : op'.Plain := by
  refine ⟨fun hq plan hp => ?_, fun att' hcur hsome => ?_⟩
  · obtain ⟨plan', hp', heq⟩ := hs plan hp
    exact heq ▸ h.candidates (hr ▸ hq) plan' hp'
  · obtain ⟨att, hcur', ht, hn⟩ := hc att' hcur
    exact ht ▸ h.counted att hcur' (hn ▸ hsome)

/-- Fewer candidates. -/
theorem sub (h : op.Plain) (hr : op'.reason = op.reason) (hs : op'.candidates ⊆ op.candidates)
    (hc : op'.current = op.current ∨ op'.current = none) : op'.Plain := by
  refine h.less hr (fun plan hp => ⟨plan, hs hp, rfl⟩) fun att' hcur => ?_
  rcases hc with hc | hc
  · exact ⟨att', hc ▸ hcur, rfl, rfl⟩
  · simp [hc] at hcur

theorem planAt (h : op.Plain) (hr : op.reason ≠ .qualityConvergence) {i : ℕ} {plan : CandidatePlan}
    (hp : op.planAt i = some plan) : plan.tuple.Plain :=
  h.candidates hr plan (List.mem_of_getElem? hp)

end Operation.Plain

namespace Controller

/-- The keys of both ledgers are plain, and so is the operation at work. -/
structure Plain (c : Controller) : Prop where
  children : ∀ q key, ((c.opportunities q).get key).isSome → PlainKey key
  carriers : ∀ key, (c.consumedSfuBootstrapOpportunities.get key).isSome →
    ∃ carrier pair, key = carrier ++ "\x00" ++ pair ∧ PlainKey pair
  operation : ∀ op, c.operation = some op → op.Plain

namespace Plain

variable {c c' : Controller}

theorem fewer (h : c.Plain) (hf : Fewer c c') (ho : ∀ op, c'.operation = some op → op.Plain) :
    c'.Plain := by
  refine ⟨fun q key hk => h.children q key ?_, fun key hk => h.carriers key ?_, ho⟩
  · by_contra hn
    simp [hf.children q key (by simpa using hn)] at hk
  · by_contra hn
    simp [hf.carriers key (by simpa using hn)] at hk

theorem of_books (h : c.Plain) (hb : c'.books = c.books)
    (ho : ∀ op, c'.operation = some op → op.Plain) : c'.Plain :=
  h.fewer ((Fewer.refl c).same hb) ho

/-- The ledgers and the operation stay. -/
theorem same (h : c.Plain) (hb : c'.books = c.books) (ho : c'.operation = c.operation) : c'.Plain :=
  h.of_books hb (ho ▸ h.operation)

/-- The operation is over. -/
theorem ended (h : c.Plain) (hb : c'.books = c.books) (ho : c'.operation = none) : c'.Plain :=
  h.of_books hb (by simp [ho])

theorem modify (h : c.Plain) {f : Operation → Operation} (hf : ∀ op, op.Plain → (f op).Plain) :
    (c.modifyOperation f).Plain := by
  refine h.of_books rfl fun op ho => ?_
  obtain ⟨op', ho', rfl⟩ := Option.map_eq_some_iff.1 ho
  exact hf op' (h.operation op' ho')

/-- An update that removes keys, or touches none. -/
theorem update (h : c.Plain) {f : ParticipantLedger → ParticipantLedger}
    (hf : ∀ l key, l.consumedCandidateOpportunities.get key = none →
      (f l).consumedCandidateOpportunities.get key = none) (p : ID) : (c.updateLedger p f).Plain :=
  h.fewer ((Fewer.refl c).update hf p) fun op ho => h.operation op (by simpa using ho)

/-- A flag is not a key. -/
theorem flag (h : c.Plain) (f : ParticipantLedger → ParticipantLedger)
    (hf : ∀ l, (f l).consumedCandidateOpportunities = l.consumedCandidateOpportunities) (p : ID) :
    (c.updateLedger p f).Plain :=
  h.update (fun l _ hn => (hf l).symm ▸ hn) p

/-- A write under a plain key. -/
theorem write (h : c.Plain) {key : String} (hkey : PlainKey key) (p : ID)
    (f : ParticipantLedger → CandidateOpportunity) :
    (c.updateLedger p fun l => { l with
      consumedCandidateOpportunities := l.consumedCandidateOpportunities.set key (f l) }).Plain := by
  refine ⟨fun q k hk => ?_, fun k hk => h.carriers k ?_, fun op ho => h.operation op (by simpa using ho)⟩
  · rw [opportunities_updateLedger] at hk
    split at hk
    · simp only [OMap.get_set] at hk
      split at hk
      · next heq => exact heq ▸ hkey
      · exact h.children p k hk
    · exact h.children q k hk
  · unfold updateLedger at hk
    split at hk <;> exact hk

/-- Steps over a list. -/
theorem foldl {α : Type} {f : Controller → α → Controller} {l : List α}
    (hf : ∀ d : Controller, d.Plain → ∀ a ∈ l, (f d a).Plain) (h : c.Plain) : (l.foldl f c).Plain := by
  induction l generalizing c with
  | nil => exact h
  | cons a l ih =>
    exact ih (fun d hd b hb => hf d hd b (List.mem_cons_of_mem _ hb)) (hf c h a List.mem_cons_self)

theorem foldlSnd {α β : Type} {f : β × Controller → α → β × Controller}
    (hf : ∀ s a, s.2.Plain → (f s a).2.Plain) :
    ∀ (l : List α) (s : β × Controller), s.2.Plain → (l.foldl f s).2.Plain
  | [], _, h => h
  | a :: l, s, h => foldlSnd hf l (f s a) (hf s a h)

theorem recordDemands (h : c.Plain) (l : List ID) (now : Option Int) (r : DemandReason) :
    (c.recordDemands l now r).Plain := h.same (by simp) (by simp)

theorem ensureDemand (h : c.Plain) (p : ID) (now : Int) (r : DemandReason) :
    (c.ensureDemand p now r).Plain := by
  unfold Controller.ensureDemand
  split
  · exact h
  · exact h.same rfl rfl

theorem noteRejection (h : c.Plain) (p : ID) (b : RejectionBucket) : (c.noteRejection p b).Plain :=
  h.same rfl rfl

theorem clearTiming (h : c.Plain) (p : ID) : (c.clearCandidateTiming p).Plain := h.same rfl rfl

theorem finishTiming (h : c.Plain) (p : ID) (now : Int) (r : FinalRoute) (b : RejectionBucket)
    (first : Bool) : (c.finishTiming p now r b first).Plain := h.same rfl rfl

/-! ## Charging -/

theorem consumeCandidate (h : c.Plain) {plan : CandidatePlan} (hp : plan.tuple.Plain) (p : ID) :
    (c.consumeCandidateOpportunity p plan).Plain :=
  h.write (hp.key _ p) p _

theorem settleCandidate (h : c.Plain) {op : Operation} (ho : op.Plain) :
    (c.settleCandidateOpportunity op).Plain := by
  unfold settleCandidateOpportunity
  split
  · exact h
  · next att hcur =>
    split
    · exact h
    · next progress hatt =>
      obtain ⟨hk, hr⟩ := ho.counted att hcur (by simp [hatt])
      split
      · refine h.write ⟨att.tuple, att.childSessionID, att.parentSessionID, hr, ?_⟩ _ _
        simp [ledgerKey, hk]
      · exact h.same rfl rfl

theorem consumeActiveEdge (h : c.Plain) (p : ID) (e : CommittedEdge) :
    (c.consumeActiveEdgeOpportunity p e).Plain := by
  unfold consumeActiveEdgeOpportunity
  dsimp only
  split
  · exact h
  · exact h.write (CandidateTuple.Plain.key (fun _ => rfl) _ p) p _

theorem not_quality {reason : DemandReason} (h : isAvailabilityOperation reason ∨ reason = .directConvergence) :
    reason ≠ .qualityConvergence := by
  rintro rfl
  revert h
  decide

theorem consumeAvailability (h : c.Plain) {op : Operation} (ho : op.Plain) :
    (c.consumeAvailabilityOperation op).Plain := by
  unfold consumeAvailabilityOperation
  split
  · exact h
  · next hr =>
    refine foldl (fun d hd plan hplan => ?_) h
    split
    · exact hd
    · exact hd.consumeCandidate (ho.candidates (not_quality (Or.inl (by simpa using hr))) plan
        (List.mem_of_mem_take hplan)) _

theorem consumeCurrent (h : c.Plain) {op : Operation} (ho : op.Plain) :
    (c.consumeCurrentCandidateOpportunity op).Plain := by
  unfold consumeCurrentCandidateOpportunity
  split
  · exact h
  · next hr =>
    have hq : op.reason ≠ .qualityConvergence := not_quality (by
      by_contra hn
      simp only [not_or] at hn
      simp [hn.1, hn.2] at hr)
    cases hplan : op.planAt op.cursor with
    | none => exact h
    | some plan =>
      dsimp only
      split
      · split
        · exact h
        · exact h.consumeCandidate (ho.planAt hq hplan) _
      · split
        · exact h
        · exact h.consumeCandidate (ho.planAt hq hplan) _

/-! ## Evidence and edges -/

theorem modifyParticipant (h : c.Plain) (p : ID) (f : Participant → Participant) :
    (c.modifyParticipant p f).Plain := h.same rfl rfl

theorem clearQuality (h : c.Plain) (p : ID) : (c.clearQualityForParticipant p).Plain :=
  h.same (by simp) (by simp)

theorem clearSfuQuality (h : c.Plain) : c.clearSfuQuality.Plain := by
  unfold Controller.clearSfuQuality
  exact foldl (fun d hd e _ => hd.clearQuality e.1) (h.same rfl rfl)

theorem bump (h : c.Plain) : c.bump.Plain := h.same rfl rfl

theorem touchFacts (h : c.Plain) : c.touchFacts.Plain := h.same rfl rfl

theorem raise (h : c.Plain) (f : Fault) : (c.raise f).Plain := h.same rfl rfl

theorem prune (h : c.Plain) : c.pruneRetiringSfuAnchors.Plain := h.same rfl rfl

theorem deactivateEdge (h : c.Plain) (p : ID) : (c.deactivateEdge p).Plain := h.same rfl rfl

theorem checkGraph (h : c.Plain) : ({ c with toCore := c.checkGraph } : Controller).Plain := by
  refine h.same rfl ?_
  unfold Core.checkGraph
  split <;> rfl

theorem resetSenderBaselines (h : c.Plain) (l : List ID) : (c.resetSenderBaselines l).Plain :=
  h.same (by simp) (by simp)

theorem resetProducerBaselines (h : c.Plain) (op : Operation) : (c.resetProducerBaselines op).Plain := by
  unfold Controller.resetProducerBaselines
  split
  · exact h
  · dsimp only
    split
    · exact h
    · exact h.resetSenderBaselines _

theorem rebase (h : c.Plain) (revision : Int) :
    (c.modifyOperation fun op => { op with baseRevision := revision }).Plain :=
  h.modify fun _ ho => ho.sub rfl (List.Subset.refl _) (Or.inl rfl)

theorem advanceActiveRevision (h : c.Plain) (op : Operation) : (c.advanceActiveRevision op).Plain :=
  (h.resetProducerBaselines op).bump.rebase _

theorem retireAttempt (h : c.Plain) (op : Operation) : (c.retireAttempt op).2.Plain := by
  unfold Controller.retireAttempt
  split
  · exact h.advanceActiveRevision op
  · exact h

theorem abort (h : c.Plain) (now : Option Int) (b : RejectionBucket) : (c.abortOperation now b).2.Plain :=
  h.ended (by simp) (by rw [abortOperation_toCore]; exact aborted_operation _)

/-- An abort on a condition. -/
theorem abortIf (h : c.Plain) (b : Prop) [Decidable b] (now : Option Int) (r : RejectionBucket) :
    (if b then c.abortOperation now r else ([], c)).2.Plain := by
  split
  · exact h.abort now r
  · exact h

theorem retireSfuEdge (h : c.Plain) (p : ID) (e : CommittedEdge) (keep : Bool) :
    (c.retireSfuEdge p e keep).2.Plain := by
  refine (h.clearQuality p).same rfl ?_
  show ((c.clearQualityForParticipant p).toCore.dropSfuEdge p e keep).operation = _
  unfold Core.dropSfuEdge
  split <;> rfl

theorem dropPublication (h : c.Plain) : c.dropPublication.2.Plain := by
  unfold Controller.dropPublication
  split
  · exact h
  · exact h.same rfl rfl

theorem dropOrphanedPublication (h : c.Plain) : c.dropOrphanedPublication.2.Plain := by
  unfold Controller.dropOrphanedPublication
  split
  · exact h
  · exact h.clearSfuQuality.dropPublication

theorem releaseEach {f : Controller → ID → CommittedEdge → List Resource × Controller}
    (hf : ∀ d : Controller, d.Plain → ∀ p e, (f d p e).2.Plain) :
    ∀ (l : List (ID × CommittedEdge)) {c : Controller}, c.Plain → (releaseEach f l c).2.Plain
  | [], _, h => h
  | (p, e) :: rest, c, h => releaseEach hf rest (hf c h p e)

theorem retireSubscribers (h : c.Plain) (l : List (ID × CommittedEdge)) :
    (Controller.releaseEach (fun c p e => c.retireSfuEdge p e (c.retainsAnchor p)) l c).2.Plain :=
  releaseEach (fun _ hd p e => hd.retireSfuEdge p e _) l h

theorem retireDepartedEdges (h : c.Plain) (now : Int) : (c.retireDepartedEdges now).2.Plain := by
  unfold Controller.retireDepartedEdges
  dsimp only
  split
  · exact h
  · have hretired := releaseEach (f := retireDepartedEdge) (fun d hd p e => by
      unfold retireDepartedEdge
      split
      · exact hd.retireSfuEdge p e _
      · exact hd.deactivateEdge p)
      (c.upstreamByViewer.entries.filter fun e => c.departedEdge e.1 e.2) (h.abort (some now) .aborted)
    exact hretired.dropOrphanedPublication.prune.bump.touchFacts

theorem clearDemand (h : c.Plain) (p : ID) : (c.clearSfuBootstrapForDemand p).Plain :=
  h.fewer ((Fewer.refl c).clearDemand p) fun op ho => h.operation op (by simpa using ho)

theorem removeLeaf (h : c.Plain) (p : ID) : (c.removeLeaf p).2.Plain := by
  have hedge : (c.dropLeafEdge p).2.Plain := by
    unfold dropLeafEdge
    split
    · exact h
    · split
      · exact h.retireSfuEdge p _ false
      · exact h.same rfl rfl
  unfold Controller.removeLeaf
  dsimp only
  refine clearDemand ?_ p
  refine (hedge.clearQuality p).fewer ⟨fun q key hn => ?_, fun _ hn => hn⟩ (hedge.clearQuality p).operation
  simp only [opportunities, ledger, OMap.get_delete] at hn ⊢
  split
  · exact OMap.get_empty _
  · exact hn

theorem pruneLeafPass : ∀ (l : List ID) {c : Controller}, c.Plain → (pruneLeafPass l c).2.2.Plain
  | [], _, h => h
  | p :: rest, c, h => by
    unfold Controller.pruneLeafPass
    split
    · exact pruneLeafPass rest h
    · exact pruneLeafPass rest (h.removeLeaf p)

theorem pruneLeafLoop : ∀ (n : ℕ) {c : Controller}, c.Plain → (pruneLeafLoop n c).2.2.Plain
  | 0, _, h => h
  | n + 1, c, h => by
    have hpass := pruneLeafPass c.participants.keys h
    unfold Controller.pruneLeafLoop
    dsimp only
    split
    · exact hpass
    · exact pruneLeafLoop n hpass

theorem pruneDepartedLeaves (h : c.Plain) : c.pruneDepartedLeaves.2.2.Plain := by
  have hloop := pruneLeafLoop (c.participants.len + 1) h
  unfold Controller.pruneDepartedLeaves
  dsimp only
  split
  · exact hloop
  · exact hloop.dropOrphanedPublication.bump.touchFacts.prune

theorem retireInvalidOperationEdge (h : c.Plain) (p : ID) :
    (c.retireInvalidOperationEdge p).2.2.Plain := by
  unfold Controller.retireInvalidOperationEdge
  split
  · exact h
  · next e _ =>
    split
    · exact h
    · split
      · have hretired := (h.retireSfuEdge p e (c.retainsAnchor p)).prune
        dsimp only
        split
        · exact hretired
        · exact hretired.dropPublication
      · exact h.deactivateEdge p

theorem removePublicationGeneration (h : c.Plain) (g : ID) :
    (c.removePublicationGeneration g).2.Plain := by
  unfold Controller.removePublicationGeneration
  have hretired := h.retireSubscribers (c.upstreamByViewer.entries.filter fun e =>
    e.2.kind == .sfu && e.2.publicationGeneration == g)
  dsimp only
  split
  · split
    · exact hretired.dropPublication.prune
    · exact hretired.prune
  · exact hretired.prune

theorem blockAndClear (h : c.Plain) (op : Operation) (block advanced : Bool) :
    (c.blockAndClear op block advanced).2.Plain := by
  have hclear : ({ c with operation := none } : Controller).Plain := h.ended rfl rfl
  unfold Controller.blockAndClear
  dsimp only
  split
  · exact hclear
  · have hcut := hclear.retireInvalidOperationEdge op.childPeerID
    generalize ({ c with operation := none } : Controller).retireInvalidOperationEdge
      op.childPeerID = x at hcut
    obtain ⟨cut, released, d⟩ := x
    have hbump : (if cut && !advanced then d.bump else d).Plain := by
      split
      · exact hcut.bump
      · exact hcut
    have htouch : (if cut then (if cut && !advanced then d.bump else d).touchFacts
        else if cut && !advanced then d.bump else d).Plain := by
      split
      · exact hbump.touchFacts
      · exact hbump
    exact htouch.flag (fun l => { l with availabilityExhausted := true }) (fun _ => rfl) _

/-! ## Quality and bootstrap -/

theorem consumeQualityCandidate (h : c.Plain) (op : Operation) (plan : Option CandidatePlan) :
    (c.consumeQualityCandidateOpportunity op plan).Plain := by
  unfold consumeQualityCandidateOpportunity
  split
  · exact h
  · split
    · exact h
    · split
      · exact h
      · exact h.same rfl rfl

theorem consumeQualityOperation (h : c.Plain) (op : Operation) :
    (c.consumeQualityOperationCandidates op).Plain :=
  foldl (fun _ hd plan _ => hd.consumeQualityCandidate op (some plan)) h

theorem deleteContinuation (h : c.Plain) (p : ID) : (c.deleteContinuation p).Plain := h.same rfl rfl

theorem consumeContinuation (h : c.Plain) (op : Operation) :
    (c.consumeDirectContinuationCandidate op).Plain := by
  unfold consumeDirectContinuationCandidate
  split
  · split
    · exact h
    · dsimp only
      split <;> exact h.same rfl rfl
  · exact h

theorem regenerationBlocked (h : c.Plain) (p : ID) (e : CommittedEdge) :
    (c.senderQualityRegenerationBlocked p e).2.Plain := by
  unfold senderQualityRegenerationBlocked
  split
  · exact h
  · dsimp only
    split_ifs <;> exact h.same rfl rfl

theorem buildQualityCandidates (h : c.Plain) (p : ID) (now : Int) :
    (c.buildQualityCandidates p now).2.Plain := by
  unfold Controller.buildQualityCandidates
  split
  · exact h
  · next e _ =>
    split
    · exact h
    · exact h.regenerationBlocked p e

theorem selectQualityChild (h : c.Plain) (now : Int) : (c.selectQualityChild now).2.Plain := by
  unfold Controller.selectQualityChild
  split
  · exact h
  · refine foldlSnd (fun s viewer hs => ?_) _ _ h
    dsimp only
    split
    · exact hs
    · split
      · exact hs.buildQualityCandidates viewer.peerID now
      · exact hs

theorem currentIntent (h : c.Plain) : c.currentSfuBootstrapIntent.2.Plain := by
  unfold currentSfuBootstrapIntent
  dsimp only
  split
  · exact h
  · split
    · exact h.same rfl rfl
    · split <;> exact h.same rfl rfl

theorem peekCarrier (h : c.Plain) : c.peekSfuBootstrapCarrier.2.Plain := by
  have hi := h.currentIntent
  unfold peekSfuBootstrapCarrier
  split <;> simp_all

theorem hasBootstrapWork (h : c.Plain) : c.hasSfuBootstrapWork.2.Plain := by
  have hi := h.currentIntent
  unfold hasSfuBootstrapWork
  split <;> simp_all

theorem reportFailures (h : c.Plain) (now : Int) : (c.reportSfuBootstrapFailures now).2.Plain := by
  unfold reportSfuBootstrapFailures
  refine foldlSnd (fun s demand hs => ?_) _ _ h
  dsimp only
  split
  · exact hs
  · exact (hs.flag (fun l => { l with bootstrapFailureReported := true }) (fun _ => rfl) _).finishTiming
      _ _ _ _ _

theorem takeCarrier (h : c.Plain) (now : Int) : (c.takeSfuBootstrapCarrier now).2.2.Plain := by
  have hp := h.peekCarrier
  unfold takeSfuBootstrapCarrier
  split
  · exact h
  · split
    · simp_all
    · next d heq =>
      rw [heq] at hp
      have htaken : Plain { d with sfuBootstrapIntent := none } := hp.same rfl rfl
      exact htaken.reportFailures now

theorem consumeCarrier (h : c.Plain) {plan : Option CandidatePlan}
    (hp : ∀ p, plan = some p → p.tuple.Plain) (carrier : ID) :
    (c.consumeCarrierAttempt carrier plan).Plain := by
  unfold consumeCarrierAttempt
  split
  · exact h
  · next plan =>
    have hplain := hp plan rfl
    refine consumeCandidate (c := c.consumeSfuBootstrapOpportunity carrier plan)
      ⟨h.children, fun key hk => ?_, h.operation⟩ hplain carrier
    by_cases hkey : key = c.sfuBootstrapOpportunityBase carrier plan
    · exact ⟨carrier, _, hkey, hplain.key c.toCore carrier⟩
    · refine h.carriers key ?_
      revert hk
      show (OMap.get (consumeOpportunity _ _ _) key).isSome → _
      rw [consumeOpportunity_get _ _ _ hkey]
      exact id

theorem completeCarrier (h : c.Plain) {plan : Option CandidatePlan}
    (hp : ∀ p, plan = some p → p.tuple.Plain) (carrier : ID) (now : Int) (b : RejectionBucket) :
    (c.completeSfuBootstrapCarrier carrier now b plan).2.Plain := by
  unfold completeSfuBootstrapCarrier
  split
  · exact h
  · next intent _ =>
    dsimp only
    have hc : (c.consumeCarrierAttempt carrier (plan <|>
        c.planCandidate carrier { kind := .sfu, publication := .create })).Plain := by
      refine h.consumeCarrier (fun p hplan => ?_) carrier
      cases plan with
      | some q => exact hp p hplan
      | none =>
        have hplan : c.planCandidate carrier { kind := .sfu, publication := .create } = some p := hplan
        rw [planCandidate_tuple hplan]
        intro hk
        cases hk
    split
    · exact hc
    · have hexhausted := hc.flag (fun l => { l with availabilityExhausted := true }) (fun _ => rfl)
        intent.demandPeerID
      exact ((hexhausted.finishTiming intent.demandPeerID now .failed b false).flag
        (fun l => { l with bootstrapFailureReported := true }) (fun _ => rfl)
          intent.demandPeerID).same rfl rfl

theorem rememberUnavailable (h : c.Plain) (p : ID) : (c.rememberUnavailableSfuBootstrap p).Plain := by
  unfold rememberUnavailableSfuBootstrap
  split
  · exact h
  · split
    · exact h
    · exact (h.flag (fun l => { l with bootstrapFailureReported := true }) (fun _ => rfl) p).same rfl rfl

theorem stageBootstrap (h : c.Plain) (op : Operation) : (c.stageSfuBootstrap op).Plain := by
  unfold stageSfuBootstrap
  split
  · exact h
  · split
    · exact h
    · exact h.same rfl rfl

theorem takeRoot (h : c.Plain) : c.takeRootConvergenceIntent.2.Plain := by
  unfold takeRootConvergenceIntent
  dsimp only
  split <;> exact h.same rfl rfl

theorem restoreContinuation (h : c.Plain) (p : ID) : (c.restoreDirectContinuation p).Plain := by
  unfold restoreDirectContinuation
  split
  · split
    · exact h
    · dsimp only
      split
      · exact h
      · exact h.same rfl rfl
  · exact h

theorem selectContinuation : ∀ (l : List (ID × DirectContinuation)) {c : Controller}, c.Plain →
    (selectContinuationLoop l c).2.Plain
  | [], _, h => h
  | (p, d) :: rest, c, h => by
    unfold selectContinuationLoop
    split
    · exact selectContinuation rest (h.same rfl rfl)
    · split
      · exact h
      · split
        · exact selectContinuation rest (h.same rfl rfl)
        · exact selectContinuation rest h

end Plain

end Controller

end Piik.Route
