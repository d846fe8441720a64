/-
  Root convergence (`route/root_convergence.go`) over runs: every commit for it
  moves one viewer from a Host root that feeds two or more to a root that feeds
  none, and changes nobody else's feed.
-/
import Piik.Route.Handoff
import Piik.Route.Safety
import Piik.Route.Wake

namespace Piik.Route

namespace Core

variable {c c' d : Core} {op : Operation} {att : Attempt} {p q : ID}

/-! ## Active direct children -/

/-- The parent feeds this edge. -/
def Fed (e : CommittedEdge) (p : ID) : Prop :=
  e.kind = .peer ∧ e.parentPeerID = p ∧ e.usable = true ∧ e.physicalActive = true

theorem mem_activeDirectChildren : q ∈ c.activeDirectChildren p ↔ ∃ e, c.edge q = some e ∧ Fed e p := by
  rw [activeDirectChildren, List.mem_filter, mem_childrenOf]
  constructor
  · rintro ⟨⟨e, he, hk, hp⟩, hactive⟩
    rw [he] at hactive
    simp only [Bool.and_eq_true, beq_iff_eq] at hactive
    exact ⟨e, he, hk, hp, hactive.1.2, hactive.2⟩
  · rintro ⟨e, he, hk, hp, hu, ha⟩
    refine ⟨⟨e, he, hk, hp⟩, ?_⟩
    rw [he]
    simp [hk, hu, ha]

theorem nodup_activeDirectChildren (c : Core) (p : ID) : (c.activeDirectChildren p).Nodup :=
  (nodup_childrenOf c p).filter _

/-- How many viewers a peer feeds. -/
def load (c : Core) (p : ID) : ℕ := (c.activeDirectChildren p).length

theorem load_eq (h : ∀ q, q ∈ c'.activeDirectChildren p ↔ q ∈ c.activeDirectChildren p) :
    c'.load p = c.load p :=
  ((List.perm_ext_iff_of_nodup (nodup_activeDirectChildren c' p) (nodup_activeDirectChildren c p)).2 h).length_eq

theorem load_succ (hnew : q ∉ c.activeDirectChildren p)
    (h : ∀ x, x ∈ c'.activeDirectChildren p ↔ x = q ∨ x ∈ c.activeDirectChildren p) :
    c'.load p = c.load p + 1 := by
  have hcons : (q :: c.activeDirectChildren p).Nodup :=
    List.nodup_cons.2 ⟨hnew, nodup_activeDirectChildren c p⟩
  refine ((List.perm_ext_iff_of_nodup (nodup_activeDirectChildren c' p) hcons).2 fun x => ?_).length_eq
  rw [h, List.mem_cons]

/-! ## What is checked before a commit -/

/-- The child's Host root feeds two viewers or more, the attempt's feeds none. -/
structure Unbalanced (c : Core) (op : Operation) (att : Attempt) (donor : ID) : Prop where
  kind : att.tuple.kind = .peer
  fed : ∃ e, c.edge op.childPeerID = some e ∧ Fed e donor
  moved : donor ≠ att.tuple.parentPeerID
  donorRoot : c.isActiveHostRoot donor = true
  freshRoot : c.isActiveHostRoot att.tuple.parentPeerID = true
  fresh : c.activeDirectChildren att.tuple.parentPeerID = []
  busy : 2 ≤ (c.activeDirectChildren donor).length

/-- A live attempt for root convergence still levels two roots. -/
def Levels (c : Core) : Prop :=
  ∀ op att, c.operation = some op → op.current = some att → op.reason = .rootConvergence →
    ∃ donor, Unbalanced c op att donor

theorem unbalanced_withAttempt {att' : Attempt} (hs : SameAttempt att att') {donor : ID} :
    Unbalanced { c with operation := some { op with current := some att' } }
      { op with current := some att' } att' donor ↔ Unbalanced c op att donor := by
  constructor
  · rintro ⟨h₁, h₂, h₃, h₄, h₅, h₆, h₇⟩
    rw [hs.tuple] at h₁ h₃ h₅ h₆
    exact ⟨h₁, h₂, h₃, h₄, h₅, h₆, h₇⟩
  · rintro ⟨h₁, h₂, h₃, h₄, h₅, h₆, h₇⟩
    rw [← hs.tuple] at h₁ h₃ h₅ h₆
    exact ⟨h₁, h₂, h₃, h₄, h₅, h₆, h₇⟩

theorem Levels.noted (hn : Controller.Noted c d) (h : Levels d) : Levels c := by
  obtain ⟨op, att, att', ho, hc, hs, rfl⟩ := hn
  intro op₁ att₁ ho₁ hc₁ hr
  cases ho.symm.trans ho₁
  cases hc.symm.trans hc₁
  obtain ⟨donor, hdonor⟩ := h _ _ rfl rfl hr
  exact ⟨donor, (unbalanced_withAttempt hs).1 hdonor⟩

theorem Narrowed.noted (hn : Controller.Noted c d) (h : c.Narrowed) : d.Narrowed := by
  obtain ⟨op, att, att', ho, hc, hs, rfl⟩ := hn
  intro op₁ ho₁
  cases ho₁
  exact h op ho

end Core

namespace Controller

open Piik.Route.Core

variable {c c' : Controller} {op : Operation} {att : Attempt}

theorem unbalanced_of_eligible (h : c.rootConvergenceOperationStillEligible op = true)
    (hc : op.current = some att) (hr : op.reason = .rootConvergence) :
    ∃ donor, Unbalanced c.toCore op att donor := by
  unfold rootConvergenceOperationStillEligible at h
  simp only [hr, ne_eq, not_true_eq_false, decide_false, Bool.false_or, Operation.currentTuple, hc] at h
  split at h
  · next tuple e htuple he =>
    cases htuple
    simp only [Bool.and_eq_true, beq_iff_eq, decide_eq_true_eq, List.isEmpty_iff] at h
    obtain ⟨⟨⟨⟨⟨⟨⟨⟨hkind, hpeer⟩, husable⟩, hactive⟩, hmoved⟩, hfresh⟩, hdonor⟩, hnone⟩, hbusy⟩ := h
    exact ⟨e.parentPeerID, hkind, ⟨e, he, hpeer, rfl, husable, hactive⟩, hmoved, hdonor, hfresh, hnone, hbusy⟩
  · cases h

/-- The commit gate validates first. -/
theorem candidateReady_levels {σ : Type} (hn : c.Narrowed) {guard : CandidateGuard} {now : Int}
    {commitReservation : CandidateReservation → σ → Bool × σ} {s : σ} {proof : CandidateProof}
    (hk : (c.candidateReady guard now commitReservation s proof).1.committed = true) :
    Levels c.toCore := by
  have hlive := fun {op att} => @validateOrAdvance_live c now none op att
  have hstand := fun {op'} => @validateOrAdvance_standing c hn now op'
  unfold candidateReady at hk
  generalize c.validateOrAdvance now none = x at hk hlive hstand
  obtain ⟨checked, c₁⟩ := x
  dsimp only at hk hlive hstand
  split at hk
  · cases hk
  · next op ho =>
    split at hk
    · cases hk
    · next att hc =>
      obtain ⟨rfl, -, -, -⟩ := hlive ho hc
      intro op₁ att₁ ho₁ hc₁ hr
      cases ho.symm.trans ho₁
      cases hc.symm.trans hc₁
      rcases hstand ho with hst | ⟨-, hattach, -⟩
      · exact unbalanced_of_eligible hst.eligible hc hr
      · exact absurd (hr.symm.trans hattach) (by decide)

theorem settleCandidateQuality_levels {σ : Type} (hn : c.Narrowed) (ho : c.operation = some op)
    (hc : op.current = some att) {state : SenderQualityState} {at_ : Int} {identity : ID}
    {sample : Option Int} {commitReservation : CandidateReservation → σ → Bool × σ} {s : σ}
    (hk : (c.settleCandidateQuality op att state at_ identity sample commitReservation s).1.committed = true) :
    Levels c.toCore := by
  unfold settleCandidateQuality at hk
  dsimp only at hk
  split at hk
  · cases hk
  · cases sample with
    | none => cases hk
    | some sample =>
      dsimp only at hk
      split at hk
      · cases hk
      · split at hk
        · cases hk
        · split at hk
          · cases hk
          · have hnoted : Noted c.toCore (c.setAttempt op (foldSample att state at_ identity sample)).toCore :=
              ⟨op, att, foldSample att state at_ identity sample, ho, hc,
                ⟨rfl, rfl, rfl, rfl, rfl, rfl, rfl, rfl, rfl⟩, rfl⟩
            split at hk
            · cases hk
            · split at hk
              · exact (candidateReady_levels (hn.noted hnoted) hk).noted hnoted
              · cases hk

/-- A sample of a committed edge commits nothing. -/
theorem observeEdgeSample_committed (c : Controller) (input : SenderQualityEvidenceInput) (session : ID) :
    (c.observeEdgeSample input session).1.committed = false := by
  unfold observeEdgeSample
  split
  · rfl
  · split
    · split
      · rfl
      · split
        · rfl
        · dsimp only
          split <;> rfl
    · rfl

theorem observeSenderQualityEvidence_levels {σ : Type} (hn : c.Narrowed)
    {input : SenderQualityEvidenceInput} {commitReservation : CandidateReservation → σ → Bool × σ} {s : σ}
    (hk : (c.observeSenderQualityEvidence input commitReservation s).1.committed = true) :
    Levels c.toCore := by
  unfold observeSenderQualityEvidence at hk
  split at hk
  · cases hk
  · split at hk
    · split at hk
      · cases hk
      · split at hk
        · next h =>
          obtain ⟨ho, hc⟩ := c.sampledCandidate_live h
          exact settleCandidateQuality_levels hn ho hc hk
        · split at hk
          · cases hk
          · exact absurd ((c.observeEdgeSample_committed input _).symm.trans hk) Bool.false_ne_true
    · cases hk

theorem observePublication_levels {σ : Type} (hn : c.Narrowed) {input : SfuPublisherQualityEvidenceInput}
    {sample : Int} {commitReservation : CandidateReservation → σ → Bool × σ} {s : σ}
    (hk : (c.observePublication input sample commitReservation s).1.committed = true) :
    Levels c.toCore := by
  unfold observePublication at hk
  split at hk
  · cases hk
  · have hs := c.recordPublisherSample_toCore input sample
    generalize c.recordPublisherSample input sample = c₁ at hs hk
    dsimp only at hk
    rw [← hs] at hn ⊢
    split at hk
    · cases hk
    · split at hk
      · cases hk
      · split at hk
        · cases hk
        · split at hk
          · exact candidateReady_levels hn hk
          · cases hk

theorem observeSfuPublisherQualityEvidence_levels {σ : Type} (hn : c.Narrowed)
    {input : SfuPublisherQualityEvidenceInput} {commitReservation : CandidateReservation → σ → Bool × σ} {s : σ}
    (hk : (c.observeSfuPublisherQualityEvidence input commitReservation s).1.committed = true) :
    Levels c.toCore := by
  unfold observeSfuPublisherQualityEvidence at hk
  split at hk
  · cases hk
  · split at hk
    · next h =>
      obtain ⟨ho, hc⟩ := c.publisherCandidate_live (Option.filter_eq_some_iff.1 h).1
      exact settleCandidateQuality_levels hn ho hc hk
    · split at hk
      · cases hk
      · split at hk
        · cases hk
        · split at hk
          · cases hk
          · exact observePublication_levels hn hk

/-- Whatever call commits, the operation was checked in the graph that it changes. -/
theorem run_levels (hn : c.Narrowed) (k : Call) (hk : (c.run k).1.committed = true) :
    Levels c.toCore := by
  cases k with
  | observeSenderQualityEvidence input commit => exact observeSenderQualityEvidence_levels hn hk
  | observeSfuPublisherQualityEvidence input commit =>
    exact observeSfuPublisherQualityEvidence_levels hn hk
  | candidateReady guard now proof commit => exact candidateReady_levels hn hk
  | adoptDirectConnection guard id now =>
    have : (c.adoptDirectConnection guard id now).1.committed = false := by
      unfold adoptDirectConnection
      split
      · rfl
      · split
        · rfl
        · dsimp only
          split <;> rfl
    exact absurd (this.symm.trans hk) Bool.false_ne_true
  | candidateTransportConnected guard now =>
    have : (c.candidateTransportConnected guard now).1.committed = false := by
      unfold candidateTransportConnected
      dsimp only
      split
      · rfl
      · split
        · rfl
        · split <;> rfl
    exact absurd (this.symm.trans hk) Bool.false_ne_true
  | candidateFailed guard now => cases hk
  | operationExpired now => cases hk
  | _ => cases hk

end Controller

namespace Core

variable {c c' c₁ : Core} {op : Operation} {att : Attempt} {p q : ID}

/-! ## What a commit changes -/

/-- A new direct edge is usable from the start. -/
theorem usable_of_installs {e : CommittedEdge} {pub : Option HostPublication} (hi : Installs c op att e pub)
    (hk : att.tuple.kind = .peer) (hfault : c.fault = none) : e.usable = true := by
  have hedge : (c.install op att).edge op.childPeerID = some e := by
    rw [hi.install, edge_graft, if_pos rfl]
  have hclear : (c.install op att).fault = none := by
    rw [hi.install]
    exact hfault
  unfold Core.install installPeer at hedge hclear
  rw [if_pos hk] at hedge hclear
  cases hp : c.participant att.tuple.parentPeerID with
  | none =>
    rw [hp] at hclear
    simp [raise, hfault] at hclear
  | some parent =>
    rw [hp] at hedge hclear
    dsimp only at hedge hclear
    split at hedge
    · next h =>
      rw [if_pos h] at hclear
      simp [raise, hfault] at hclear
    · rw [Core.edge, setEdge, OMap.get_set, if_pos rfl] at hedge
      cases hedge
      rfl

/-- After a commit, the child is its new parent's, and the others are whose they were. -/
theorem mem_activeDirectChildren_settled {e : CommittedEdge} {pub : Option HostPublication}
    {o : Option CommittedEdge} {m : OMap ID DirectContinuation} (hi : Installs c op att e pub)
    (hk : att.tuple.kind = .peer) (hfault : c.fault = none) :
    q ∈ (settled c op att e pub o m).activeDirectChildren p ↔
      q = op.childPeerID ∧ p = att.tuple.parentPeerID ∨
        q ≠ op.childPeerID ∧ q ∈ c.activeDirectChildren p := by
  rw [mem_activeDirectChildren, mem_activeDirectChildren]
  by_cases hq : q = op.childPeerID
  · subst hq
    rw [edge_settled_child hi.active]
    constructor
    · rintro ⟨e', he', -, hp, -, -⟩
      cases he'
      exact Or.inl ⟨rfl, hp.symm.trans (hi.parent hk)⟩
    · rintro (⟨-, rfl⟩ | ⟨hq, -⟩)
      · exact ⟨e, rfl, hi.kind.trans hk, hi.parent hk, usable_of_installs hi hk hfault, hi.active⟩
      · exact absurd rfl hq
  · rcases edge_settled_other c op att e pub o m hq with hsame | ⟨e', he', hsfu, -, hnone⟩
    · rw [hsame]
      simp [hq]
    · -- what is pruned is an edge from the SFU
      rw [hnone, he']
      constructor
      · rintro ⟨x, hx, -⟩
        cases hx
      · rintro (⟨rfl, -⟩ | ⟨-, x, hx, hpeer, -⟩)
        · exact absurd rfl hq
        · cases hx
          cases hsfu.symm.trans hpeer

/-- One of the `donor`'s viewers is the idle `fresh`'s now. -/
structure Levelled (c c' : Core) (donor fresh : ID) : Prop where
  distinct : donor ≠ fresh
  donorRoot : c.isActiveHostRoot donor = true
  freshRoot : c.isActiveHostRoot fresh = true
  busy : 2 ≤ c.load donor
  relieved : c'.load donor + 1 = c.load donor
  idle : c.load fresh = 0
  fed : c'.load fresh = 1
  others : ∀ p, p ≠ donor → p ≠ fresh → c'.load p = c.load p

theorem Unbalanced.levelled {donor : ID} {e : CommittedEdge} {pub : Option HostPublication}
    {o : Option CommittedEdge} {m : OMap ID DirectContinuation} (h : Unbalanced c op att donor)
    (hi : Installs c op att e pub) (hfault : c.fault = none) :
    Levelled c (settled c op att e pub o m) donor att.tuple.parentPeerID := by
  have hmem := fun {p q} => mem_activeDirectChildren_settled (q := q) (p := p) (o := o) (m := m) hi h.kind hfault
  obtain ⟨e₀, he₀, hpeer, hparent, husable, hactive⟩ := h.fed
  -- the child is fed by the donor only
  have hchild : ∀ p, op.childPeerID ∈ c.activeDirectChildren p ↔ p = donor := by
    intro p
    rw [mem_activeDirectChildren]
    constructor
    · rintro ⟨x, hx, -, hp, -⟩
      cases he₀.symm.trans hx
      exact hp.symm.trans hparent
    · rintro rfl
      exact ⟨e₀, he₀, hpeer, hparent, husable, hactive⟩
  have hrelieved : c.load donor = (settled c op att e pub o m).load donor + 1 := by
    refine load_succ (q := op.childPeerID) ?_ fun x => ?_
    · rw [hmem]
      rintro (⟨-, hp⟩ | ⟨hne, -⟩)
      · exact h.moved hp
      · exact hne rfl
    · rw [hmem]
      constructor
      · intro hx
        by_cases hq : x = op.childPeerID
        · exact Or.inl hq
        · exact Or.inr (Or.inr ⟨hq, hx⟩)
      · rintro (rfl | ⟨-, hp⟩ | ⟨-, hx⟩)
        · exact (hchild donor).2 rfl
        · exact absurd hp h.moved
        · exact hx
  have hidle : c.load att.tuple.parentPeerID = 0 := by
    rw [load, h.fresh, List.length_nil]
  refine ⟨h.moved, h.donorRoot, h.freshRoot, h.busy, hrelieved.symm, hidle, ?_, fun p hd hf => load_eq fun x => ?_⟩
  · rw [← Nat.zero_add 1, ← hidle]
    refine load_succ (q := op.childPeerID) ?_ fun x => ?_
    · rw [h.fresh]
      exact List.not_mem_nil
    · rw [hmem, h.fresh]
      simp
  · rw [hmem]
    constructor
    · rintro (⟨-, hp⟩ | ⟨-, hx⟩)
      · exact absurd hp hf
      · exact hx
    · intro hx
      refine Or.inr ⟨?_, hx⟩
      rintro rfl
      exact hd ((hchild p).1 hx)

end Core

namespace Controller

open Piik.Route.Core

variable {c c' : Controller} {k : Call} {reply : Reply} {op : Operation}

/-- A call that commits does not panic. -/
theorem Good.call_of_committed (h : c.Good) (hc : (c.run k).1.committed) : c.call k = .ok (c.run k) := by
  have hs := run_committed (v := .all) c (fun _ _ => trivial) h.sound.working.aligned k hc
  have hfault : (c.run k).2.fault = none := by
    generalize (c.run k).2.toCore = d at hs ⊢
    generalize (c.run k).1.released = r at hs
    cases hs with
    | accepts hn ha =>
      obtain ⟨op, att, att', ho, hcur, hsame, rfl⟩ := hn
      have hstep : Step .all false false [] [] c.toCore _ := .upkeep (.note ho hcur hsame trivial)
      have hsound := hstep.sound h.sound h.fault
      cases ha with
      | attached => exact h.fault
      | commits ho' hr hcur' hp hv hrep hm =>
        obtain ⟨e, pub, -, heq, -, hfault, -⟩ := committed_settled hsound ho' hr hcur' hp hv hrep
          (hm hsound.forest.outward (hsound.working.outward _ ho'))
        rw [heq, hfault]
        exact h.fault
  rw [Controller.call, hfault]

/-- **Root convergence levels.**  A commit for root convergence takes one viewer
    from a Host root that feeds two or more, gives it to a Host root that feeds
    none, and leaves what every other peer feeds. -/
theorem root_convergence_levels (h : c.Reachable) (hk : c.call k = .ok (reply, c'))
    (hc : reply.committed) (ho : c.operation = some op) (hr : op.reason = .rootConvergence) :
    ∃ att donor, op.current = some att ∧ Levelled c.toCore c'.toCore donor att.tuple.parentPeerID := by
  obtain ⟨d, ⟨op₁, att, att', ho₁, hcur, hsame, rfl⟩, hs, ha⟩ := h.good.call_accepted hk hc
  cases ho.symm.trans ho₁
  have hrun : (c.run k).1.committed = true := by
    rw [(h.good.call hk).2]
    exact hc
  obtain ⟨donor, hdonor⟩ := run_levels h.narrowed k hrun op att ho hcur hr
  refine ⟨att, donor, hcur, ?_⟩
  generalize hd : c'.toCore = d' at ha
  generalize reply.released = r at ha
  cases ha with
  | attached ho' hr' =>
    cases ho'
    exact absurd (hr.symm.trans hr') (by decide)
  | @commits _ c₁ _ _ plan m ho' hr' hcur' hp hv hrep hm =>
    cases ho'
    cases hcur'
    obtain ⟨e, pub, hi, heq, -⟩ := committed_settled hs rfl hr' rfl hp hv hrep
      (hm hs.forest.outward (hs.working.outward _ rfl))
    have hkind : att'.tuple.kind = .peer := by
      rw [hsame.tuple]
      exact hdonor.kind
    unfold Replaced at hrep
    rw [if_neg (by simp [hkind])] at hrep
    subst hrep
    have hlevel := ((unbalanced_withAttempt hsame).2 hdonor).levelled (o := c.edge op.childPeerID) (m := m) hi h.good.fault
    rw [heq, ← hsame.tuple]
    obtain ⟨h₁, h₂, h₃, h₄, h₅, h₆, h₇, h₈⟩ := hlevel
    exact ⟨h₁, h₂, h₃, h₄, h₅, h₆, h₇, h₈⟩

/-- A Host that can feed one viewer feeds two of them through it; then it can
    feed two, and the fourth viewer is a root of its own. -/
def twoRoots : List Call :=
  .upsertParticipant { hostInput with effectiveDownstreamCapacity := 1 } (some 0) ::
    served "a" "a1" "host" "ca" 0 2 1 ++ .setEffectiveCapacity "a" "a1" 2 (some 1) ::
    served "b" "b1" "a" "cb" 1 5 2 ++ .setEffectiveCapacity "b" "b1" 0 (some 2) ::
    served "c" "c1" "a" "cc" 2 8 3 ++ .setEffectiveCapacity "c" "c1" 0 (some 3) ::
    .setEffectiveCapacity "host" "h1" 2 (some 4) :: served "d" "d1" "host" "cd" 3 12 5

/-- The third viewer tries the new root, which can feed it. -/
def triesFresh : List Call :=
  twoRoots ++ [.reconcile 6,
    .beginCurrentCandidate
      { guard := { childPeerID := "c", childSessionID := "c1", baseRevision := 4, factVersion := 13, cursor := 0
                   plan := { tuple := { kind := .peer, parentPeerID := "d", transport := .direct }
                             endpointTransition := { kind := .none, producerPeerID := some "d" } } }
        nowMs := 6, connectionID := "ce", reservation := { kind := .direct } },
    .candidateTransportConnected
      { childPeerID := "c", childSessionID := "c1", revision := 5, connectionID := "ce" } 7,
    .observeSenderQualityEvidence
      { parentPeerID := "d", parentSessionID := "d1", childPeerID := "c", routeRevision := 5
        connectionID := "ce", senderIdentity := some "s", sampleTimestampMs := some 8
        state := .healthy, acceptedAtMs := 8 } true]

set_option maxRecDepth 4000 in
theorem root_convergence_levels_twoRoots : ∃ c c' : Controller, ∃ donor fresh, c.Reachable ∧
    Levelled c.toCore c'.toCore donor fresh := by
  have h : ∃ c : Controller, ∃ op, c.Reachable ∧
      (c.run (.candidateReady { childPeerID := "c", childSessionID := "c1", revision := 5
                                connectionID := "ce" } 9 {} true)).1.committed = true ∧
      c.operation = some op ∧ op.reason = .rootConvergence :=
    ⟨_, _, ⟨smallRoom, 0, _, triesFresh, rfl, rfl⟩, rfl, rfl, rfl⟩
  obtain ⟨c, op, hc, hcommitted, ho, hr⟩ := h
  obtain ⟨att, donor, -, hlevel⟩ := root_convergence_levels hc (hc.good.call_of_committed hcommitted) hcommitted ho hr
  exact ⟨c, _, donor, _, hc, hlevel⟩

end Controller

end Piik.Route
