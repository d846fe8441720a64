/-
  `boundedPacer` (`media/forwarding/transport.go`): the SDK's pacer holds tickets,
  the packets behind them stay here until the ticket is visited, the probe is
  cancelled or the queue stops.

  A packet is named after the call of `Enqueue` that was given it, and a ticket
  after its packet.  A step of the system is one critical section of `queue.mu`,
  or what a call does outside of it.
-/
import Piik.Lib.Steps

namespace Piik.Media

/-! ## Calls -/

/-- What the queue reads of a packet. -/
structure PacketInfo where
  isProbe : Bool := false
  probeClusterId : ℕ := 0
  deriving DecidableEq

/-- Where a call of `Enqueue` is. -/
inductive Enqueuing
  | idle
  /-- The packet was not admitted. -/
  | refused
  /-- The ticket is made; `queue.Pacer.Enqueue` is due. -/
  | scheduling
  | scheduled
  deriving DecidableEq

/-- Where the visit of a ticket is. -/
inductive Visit
  | unvisited
  /-- `sender.SendPacket` is due. -/
  | sending
  /-- The counters are due. -/
  | counting (written : ℕ)
  | returned
  deriving DecidableEq

/-- The SDK is sending the packet. -/
def Visit.isSending : Visit → Bool
  | .sending => true
  | _ => false

/-- A call that discards packets, one after another; the counter comes before each. -/
structure Discarding (ι : Type) where
  todo : List ι
  counted : Bool := false
  deriving DecidableEq

/-- The packets that are charged, with the SDK's queue beside them. -/
structure BoundedPacer (ι : Type) where
  limit : ℕ
  pending : List ι := []
  closed : Bool := false
  packets : ℕ := 0
  bytes : ℕ := 0
  dropped : ℕ := 0
  /-- `ticket.packet`. -/
  ticket : ι → Option PacketInfo := fun _ => none
  enqueuing : ι → Enqueuing := fun _ => .idle
  visit : ι → Visit := fun _ => .unvisited
  discarding : List (Discarding ι) := []
  /-- The packets handed to `sender.SendPacket` so far. -/
  sent : List ι := []
  /-- The packets handed to `discard` so far. -/
  discarded : List ι := []

/-- The steps of the callers and of the SDK. -/
inductive PacerEvent (ι : Type)
  | enqueue (p : ι) (info : PacketInfo)
  /-- The ticket is handed to the SDK. -/
  | schedule (p : ι)
  /-- The SDK calls `WriteRTP`. -/
  | visit (p : ι)
  | send (p : ι) (written : ℕ) (failed : Bool)
  | count (p : ι)
  /-- The tickets are visited in this order. -/
  | cancelProbes (id : ℕ) (order : List ι)
  | stop (order : List ι)
  | countDropped (i : ℕ)
  | discard (i : ℕ)

namespace BoundedPacer

variable {ι : Type} [DecidableEq ι] (s : BoundedPacer ι)

/-- The locked part of `Enqueue`. -/
def enqueue (p : ι) (info : PacketInfo) : BoundedPacer ι :=
  if s.closed || s.limit ≤ s.pending.length then
    { s with enqueuing := Function.update s.enqueuing p .refused
             discarding := s.discarding ++ [{ todo := [p] }] }
  else
    { s with enqueuing := Function.update s.enqueuing p .scheduling
             ticket := Function.update s.ticket p (some info), pending := s.pending ++ [p] }

/-- The locked part of `WriteRTP`. -/
def writeRTP (p : ι) : BoundedPacer ι :=
  { s with ticket := Function.update s.ticket p none, pending := s.pending.erase p
           visit := Function.update s.visit p (if (s.ticket p).isSome then .sending else .returned) }

/-- The packet of the ticket is a probe of the cluster. -/
def probes (id : ℕ) (p : ι) : Bool :=
  (s.ticket p).any fun info => info.isProbe && info.probeClusterId == id

/-- The tickets lose their packets to a call that discards these. -/
def retire (packets : List ι) : BoundedPacer ι :=
  { s with ticket := fun p => if p ∈ packets then none else s.ticket p
           discarding := s.discarding ++ [{ todo := packets }] }

/-- One event. `none` is an event that cannot happen now. -/
def step : PacerEvent ι → Option (BoundedPacer ι)
  | .enqueue p info => if s.enqueuing p = .idle then some (s.enqueue p info) else none
  | .schedule p =>
    if s.enqueuing p = .scheduling then
      some { s with enqueuing := Function.update s.enqueuing p .scheduled }
    else none
  | .visit p =>
    if s.enqueuing p = .scheduled ∧ s.visit p = .unvisited then some (s.writeRTP p) else none
  | .send p written failed =>
    if s.visit p = .sending then
      some { s with sent := s.sent ++ [p]
                    visit := Function.update s.visit p
                      (if !failed && 0 < written then .counting written else .returned) }
    else none
  | .count p => match s.visit p with
    | .counting written =>
      some { s with packets := s.packets + 1, bytes := s.bytes + written
                    visit := Function.update s.visit p .returned }
    | _ => none
  | .cancelProbes id order =>
    -- the slots stay charged
    if order.Perm s.pending then some (s.retire (order.filter (s.probes id))) else none
  | .stop order =>
    if s.closed then some s
    else if order.Perm s.pending then
      some { s.retire (order.filter fun p => (s.ticket p).isSome) with closed := true, pending := [] }
    else none
  | .countDropped i => match s.discarding[i]? with
    | some ⟨p :: todo, false⟩ =>
      some { s with dropped := s.dropped + 1
                    discarding := s.discarding.set i ⟨p :: todo, true⟩ }
    | _ => none
  | .discard i => match s.discarding[i]? with
    | some ⟨p :: todo, true⟩ =>
      some { s with discarded := s.discarded ++ [p], discarding := s.discarding.set i ⟨todo, false⟩ }
    | _ => none

/-- The packet was given to `Enqueue`. -/
def Given (p : ι) : Prop := s.enqueuing p ≠ .idle

/-- The packet got a ticket. -/
def Admitted (p : ι) : Prop := s.enqueuing p = .scheduling ∨ s.enqueuing p = .scheduled

/-- No call is in progress. -/
structure Quiet : Prop where
  enqueuing : ∀ p, s.enqueuing p ≠ .scheduling
  visit : ∀ p, s.visit p = .unvisited ∨ s.visit p = .returned
  discarding : ∀ w ∈ s.discarding, w.todo = []

/-- How often the packet was passed on, or is in the hands of a call or a ticket. -/
def owners (p : ι) : ℕ :=
  s.sent.count p + s.discarded.count p + (s.discarding.map fun w => w.todo.count p).sum +
    (s.ticket p).isSome.toNat + (s.visit p).isSending.toNat

/-- The invariant. -/
structure Inv : Prop where
  owned : ∀ p, s.owners p = if s.enqueuing p = .idle then 0 else 1
  bounded : s.pending.length ≤ s.limit
  nodup : s.pending.Nodup
  charged : ∀ p, s.Admitted p → s.visit p = .unvisited → s.closed = false → p ∈ s.pending
  admitted : ∀ p ∈ s.pending, s.Admitted p
  held : ∀ p, (s.ticket p).isSome = true → p ∈ s.pending ∧ s.visit p = .unvisited
  early : ∀ p, s.visit p ≠ .unvisited → s.enqueuing p = .scheduled
  dropped : s.dropped = s.discarded.length + (s.discarding.map fun w => w.counted.toNat).sum
  counted : ∀ w ∈ s.discarding, w.counted = true → w.todo ≠ []
  stopped : s.closed = true → s.pending = []

variable {s} {s' : BoundedPacer ι} {p : ι}

theorem owners_retire {packets : List ι} (hnodup : packets.Nodup)
    (hheld : ∀ p ∈ packets, (s.ticket p).isSome = true) (p : ι) :
    (s.retire packets).owners p = s.owners p := by
  simp only [owners, retire, Steps.sum_append_singleton]
  by_cases hp : p ∈ packets
  · simp only [hp, hheld p hp, List.count_eq_one_of_mem hnodup hp, if_true, Option.isSome_none,
      Bool.toNat_true, Bool.toNat_false]
    omega
  · simp only [hp, List.count_eq_zero_of_not_mem hp, if_false]
    omega

/-- Whoever holds a packet was given it. -/
theorem Inv.owners_le (h : s.Inv) (p : ι) : s.owners p ≤ 1 := by
  rw [h.owned]
  split <;> omega

theorem inv_new (limit : ℕ) : Inv ({ limit } : BoundedPacer ι) where
  owned p := rfl
  bounded := Nat.zero_le _
  nodup := List.nodup_nil
  charged p h := by rcases h with h | h <;> cases h
  admitted p h := by cases h
  held p h := by cases h
  early p h := absurd rfl h
  dropped := rfl
  counted w h := by cases h
  stopped _ := rfl

theorem Inv.enqueue (h : s.Inv) {info : PacketInfo} (hp : s.enqueuing p = .idle) :
    (s.enqueue p info).Inv := by
  have hvisit : s.visit p = .unvisited := by
    by_contra hne
    rw [h.early p hne] at hp
    cases hp
  have hout : p ∉ s.pending := by
    intro hmem
    rcases h.admitted p hmem with hadm | hadm <;> rw [hadm] at hp <;> cases hp
  have hticket : s.ticket p = none := by
    by_contra hne
    exact hout (h.held p (Option.isSome_iff_ne_none.2 hne)).1
  have hzero := h.owned p
  rw [if_pos hp] at hzero
  unfold BoundedPacer.enqueue
  split
  · refine ⟨fun q => ?_, h.bounded, h.nodup, fun q hq => ?_, fun q hq => ?_, h.held, fun q hq => ?_,
      ?_, fun w hw => ?_, h.stopped⟩
    · have hq := h.owned q
      simp only [owners, Steps.sum_append_singleton] at hzero hq ⊢
      by_cases hqp : q = p
      · subst hqp
        simp only [Function.update_self, List.count_singleton_self, reduceCtorEq, if_false]
        omega
      · simp only [Function.update_of_ne hqp, List.count_singleton, beq_iff_eq, Ne.symm hqp, if_false]
        omega
    · refine h.charged q ?_
      grind [Admitted]
    · have := h.admitted q hq
      grind [Admitted]
    · have := h.early q hq
      grind
    · simp [h.dropped]
    · have := h.counted w
      grind
  · rename_i hroom
    simp only [Bool.or_eq_true, decide_eq_true_eq, not_or, not_le] at hroom
    refine ⟨fun q => ?_, ?_, ?_, fun q hq hv hc => ?_, fun q hq => ?_, fun q hq => ?_, fun q hq => ?_,
      h.dropped, h.counted, fun hc => absurd hc hroom.1⟩
    · have hq := h.owned q
      simp only [owners] at hzero hq ⊢
      by_cases hqp : q = p
      · subst hqp
        simp only [Function.update_self, Option.isSome_some, Bool.toNat_true, hticket,
          Option.isSome_none, Bool.toNat_false, reduceCtorEq, if_false] at hzero ⊢
        omega
      · simp only [Function.update_of_ne hqp]
        exact hq
    · simp only [List.length_append, List.length_singleton]
      omega
    · exact List.nodup_append.2 ⟨h.nodup, List.nodup_singleton p, by grind⟩
    · have := h.charged q
      grind [Admitted]
    · have := h.admitted q
      grind [Admitted]
    · have := h.held q
      grind
    · have := h.early q hq
      grind

theorem writeRTP_visit_self : (s.writeRTP p).visit p ≠ .unvisited := by
  simp only [BoundedPacer.writeRTP, Function.update_self]
  split <;> nofun

theorem writeRTP_visit_of_ne {q : ι} (h : q ≠ p) : (s.writeRTP p).visit q = s.visit q :=
  Function.update_of_ne h _ _

theorem writeRTP_ticket_of_ne {q : ι} (h : q ≠ p) : (s.writeRTP p).ticket q = s.ticket q :=
  Function.update_of_ne h _ _

@[simp] theorem writeRTP_ticket_self : (s.writeRTP p).ticket p = none :=
  Function.update_self _ _ _

/-- The visit of a ticket takes the packet out, and frees the slot. -/
theorem Inv.writeRTP (h : s.Inv) (hp : s.enqueuing p = .scheduled) (hv : s.visit p = .unvisited) :
    (s.writeRTP p).Inv := by
  refine ⟨fun q => ?_, List.length_erase_le.trans h.bounded, h.nodup.erase p,
    fun q hq hvisit hc => ?_, fun q hq => h.admitted q (List.mem_of_mem_erase hq), fun q hq => ?_,
    fun q hq => ?_, h.dropped, h.counted, fun hc => by simp [BoundedPacer.writeRTP, h.stopped hc]⟩
  · have hq := h.owned q
    simp only [owners] at hq ⊢
    by_cases hqp : q = p
    · subst hqp
      rw [hv] at hq
      have hself : (s.writeRTP q).visit q = if (s.ticket q).isSome then .sending else .returned :=
        Function.update_self _ _ _
      rw [writeRTP_ticket_self, hself]
      show s.sent.count q + s.discarded.count q + _ + _ + _ = if s.enqueuing q = .idle then 0 else 1
      rw [← hq]
      cases s.ticket q <;> rfl
    · rw [writeRTP_visit_of_ne hqp, writeRTP_ticket_of_ne hqp]
      exact hq
  · have hqp : q ≠ p := by
      rintro rfl
      exact writeRTP_visit_self hvisit
    rw [writeRTP_visit_of_ne hqp] at hvisit
    exact (List.mem_erase_of_ne hqp).2 (h.charged q hq hvisit hc)
  · have hqp : q ≠ p := by
      rintro rfl
      simp at hq
    rw [writeRTP_ticket_of_ne hqp] at hq
    rw [writeRTP_visit_of_ne hqp]
    exact ⟨(List.mem_erase_of_ne hqp).2 (h.held q hq).1, (h.held q hq).2⟩
  · by_cases hqp : q = p
    · exact hqp ▸ hp
    · rw [writeRTP_visit_of_ne hqp] at hq
      exact h.early q hq

theorem Inv.retire (h : s.Inv) (packets : List ι) (hnodup : packets.Nodup)
    (hheld : ∀ p ∈ packets, (s.ticket p).isSome = true) : (s.retire packets).Inv := by
  refine ⟨fun q => ?_, h.bounded, h.nodup, h.charged, h.admitted, fun q hq => ?_, h.early, ?_,
    fun w hw => ?_, h.stopped⟩
  · rw [owners_retire hnodup hheld]
    exact h.owned q
  · refine h.held q ?_
    simp only [BoundedPacer.retire] at hq
    split at hq
    · cases hq
    · exact hq
  · simp [BoundedPacer.retire, h.dropped]
  · have := h.counted w
    grind [BoundedPacer.retire]

theorem Inv.stop (h : s.Inv) {order : List ι} (horder : order.Perm s.pending) :
    Inv { s.retire (order.filter fun p => (s.ticket p).isSome) with closed := true, pending := [] } := by
  have hretire := h.retire (order.filter fun p => (s.ticket p).isSome)
    ((horder.nodup_iff.2 h.nodup).filter _) (by simp)
  have hnone : ∀ p, ((s.retire (order.filter fun p => (s.ticket p).isSome)).ticket p).isSome = false := by
    intro p
    simp only [BoundedPacer.retire]
    split
    · rfl
    · rename_i hout
      by_contra hsome
      rw [Bool.not_eq_false] at hsome
      exact hout (List.mem_filter.2 ⟨horder.mem_iff.2 (h.held p hsome).1, hsome⟩)
  refine { hretire with bounded := Nat.zero_le _, nodup := List.nodup_nil, charged := nofun,
                        admitted := nofun, held := fun q hq => ?_, stopped := fun _ => rfl }
  rw [hnone q] at hq
  cases hq

/-- A visit that goes on hands nothing over unseen. -/
theorem Inv.moveOn (h : s.Inv) (hv : s.visit p ≠ .unvisited) {visit : Visit} (hvisit : visit ≠ .unvisited)
    {sent : List ι} {packets bytes : ℕ}
    (howners : ∀ q, owners { s with sent, packets, bytes, visit := Function.update s.visit p visit } q =
      s.owners q) :
    Inv { s with sent, packets, bytes, visit := Function.update s.visit p visit } := by
  have hsame : ∀ q, Function.update s.visit p visit q = .unvisited ↔ s.visit q = .unvisited := by
    intro q
    by_cases hq : q = p
    · subst hq
      simp [hv, hvisit]
    · rw [Function.update_of_ne hq]
  refine { h with owned := fun q => (howners q).trans (h.owned q)
                  charged := fun q hq hv hc => h.charged q hq ((hsame q).1 hv) hc
                  held := fun q hq => ⟨(h.held q hq).1, (hsame q).2 (h.held q hq).2⟩
                  early := fun q hq => h.early q (mt (hsame q).2 hq) }

/-- A packet on its way out goes to the sender. -/
theorem Inv.send (h : s.Inv) {visit : Visit} (hp : s.visit p = .sending)
    (hnext : visit.isSending = false) (hvisit : visit ≠ .unvisited) :
    Inv { s with sent := s.sent ++ [p], visit := Function.update s.visit p visit } := by
  refine h.moveOn (by simp [hp]) hvisit fun q => ?_
  simp only [owners, List.count_append]
  by_cases hqp : q = p
  · subst hqp
    have hsending : Visit.isSending .sending = true := rfl
    simp only [Function.update_self, hnext, hp, hsending, List.count_singleton_self,
      Bool.toNat_true, Bool.toNat_false]
    omega
  · simp only [Function.update_of_ne hqp, List.count_singleton, beq_iff_eq, Ne.symm hqp, if_false]
    omega

theorem Inv.returned (h : s.Inv) {packets bytes written : ℕ} (hp : s.visit p = .counting written) :
    Inv { s with packets, bytes, visit := Function.update s.visit p .returned } := by
  refine h.moveOn (by simp [hp]) (by nofun) fun q => ?_
  simp only [owners]
  by_cases hqp : q = p
  · subst hqp
    rw [Function.update_self, hp]
    rfl
  · rw [Function.update_of_ne hqp]

theorem Inv.countDropped (h : s.Inv) {i : ℕ} {todo : List ι}
    (hi : s.discarding[i]? = some ⟨p :: todo, false⟩) :
    Inv { s with dropped := s.dropped + 1, discarding := s.discarding.set i ⟨p :: todo, true⟩ } := by
  refine { h with owned := fun q => ?_, dropped := ?_, counted := fun w hw hc => ?_ }
  · have hq := h.owned q
    have hsum := Steps.sum_set ⟨p :: todo, true⟩ (fun w : Discarding ι => w.todo.count q) hi
    simp only [owners] at hq hsum ⊢
    omega
  · have hsum := Steps.sum_set ⟨p :: todo, true⟩ (fun w : Discarding ι => w.counted.toNat) hi
    have := h.dropped
    simp only [Bool.toNat_true, Bool.toNat_false] at hsum ⊢
    omega
  · rcases List.mem_or_eq_of_mem_set hw with hw | rfl
    · exact h.counted w hw hc
    · nofun

theorem Inv.discard (h : s.Inv) {i : ℕ} {todo : List ι}
    (hi : s.discarding[i]? = some ⟨p :: todo, true⟩) :
    Inv { s with discarded := s.discarded ++ [p], discarding := s.discarding.set i ⟨todo, false⟩ } := by
  refine { h with owned := fun q => ?_, dropped := ?_, counted := fun w hw hc => ?_ }
  · have hq := h.owned q
    have hsum := Steps.sum_set ⟨todo, false⟩ (fun w : Discarding ι => w.todo.count q) hi
    simp only [owners, List.count_append, List.count_cons, List.count_nil] at hq hsum ⊢
    omega
  · have hsum := Steps.sum_set ⟨todo, false⟩ (fun w : Discarding ι => w.counted.toNat) hi
    have := h.dropped
    simp only [Bool.toNat_true, Bool.toNat_false, List.length_append, List.length_singleton] at hsum ⊢
    omega
  · rcases List.mem_or_eq_of_mem_set hw with hw | rfl
    · exact h.counted w hw hc
    · cases hc

theorem Inv.schedule (h : s.Inv) (hp : s.enqueuing p = .scheduling) :
    Inv { s with enqueuing := Function.update s.enqueuing p .scheduled } := by
  have hadmitted : ∀ q, Admitted { s with enqueuing := Function.update s.enqueuing p .scheduled } q ↔
      s.Admitted q := by
    intro q
    by_cases hqp : q = p
    · subst hqp
      simp [Admitted, hp]
    · simp only [Admitted, Function.update_of_ne hqp]
  refine { h with owned := fun q => (h.owned q).trans ?_
                  charged := fun q hq => h.charged q ((hadmitted q).1 hq)
                  admitted := fun q hq => (hadmitted q).2 (h.admitted q hq)
                  early := fun q hq => ?_ }
  · by_cases hqp : q = p
    · subst hqp
      simp [hp]
    · simp only [Function.update_of_ne hqp]
  · by_cases hqp : q = p
    · subst hqp
      exact Function.update_self _ _ _
    · exact (Function.update_of_ne hqp _ _).trans (h.early q hq)

theorem Inv.step {e : PacerEvent ι} (h : s.Inv) (hs : s.step e = some s') : s'.Inv := by
  cases e with
  | enqueue p info =>
    simp only [BoundedPacer.step, Option.ite_none_right_eq_some, Option.some.injEq] at hs
    obtain ⟨hp, rfl⟩ := hs
    exact h.enqueue hp
  | schedule p =>
    simp only [BoundedPacer.step, Option.ite_none_right_eq_some, Option.some.injEq] at hs
    obtain ⟨hp, rfl⟩ := hs
    exact h.schedule hp
  | visit p =>
    simp only [BoundedPacer.step, Option.ite_none_right_eq_some, Option.some.injEq] at hs
    obtain ⟨⟨hp, hv⟩, rfl⟩ := hs
    exact h.writeRTP hp hv
  | send p written failed =>
    simp only [BoundedPacer.step, Option.ite_none_right_eq_some, Option.some.injEq] at hs
    obtain ⟨hp, rfl⟩ := hs
    refine h.send hp ?_ ?_ <;> split <;> first | rfl | nofun
  | count p =>
    simp only [BoundedPacer.step] at hs
    split at hs
    · rename_i written hp
      obtain rfl := Option.some.inj hs
      exact h.returned hp
    · cases hs
  | cancelProbes id order =>
    simp only [BoundedPacer.step, Option.ite_none_right_eq_some, Option.some.injEq] at hs
    obtain ⟨horder, rfl⟩ := hs
    refine h.retire _ ((horder.nodup_iff.2 h.nodup).filter _) fun p hp => ?_
    exact Option.isSome_of_any (List.mem_filter.1 hp).2
  | stop order =>
    simp only [BoundedPacer.step] at hs
    split at hs
    · exact Option.some.inj hs ▸ h
    · split at hs
      · rename_i horder
        exact Option.some.inj hs ▸ h.stop horder
      · cases hs
  | countDropped i =>
    simp only [BoundedPacer.step] at hs
    split at hs
    · rename_i p todo hi
      exact Option.some.inj hs ▸ h.countDropped hi
    · cases hs
  | discard i =>
    simp only [BoundedPacer.step] at hs
    split at hs
    · rename_i p todo hi
      exact Option.some.inj hs ▸ h.discard hi
    · cases hs

/-! ## One owner -/

/-- The runs of a queue. -/
def Reaches (limit : ℕ) : List (PacerEvent ι) → BoundedPacer ι → Prop :=
  Steps.Reaches step { limit }

theorem inv_reaches {limit : ℕ} {es : List (PacerEvent ι)} (h : Reaches limit es s) :
    s.Inv ∧ s.limit = limit := by
  refine h.invariant (P := fun s => s.Inv ∧ s.limit = limit) ⟨inv_new limit, rfl⟩ ?_
  rintro s e s' ⟨hinv, hlimit⟩ hs
  refine ⟨hinv.step hs, ?_⟩
  cases e <;> simp only [BoundedPacer.step] at hs <;> grind [BoundedPacer.enqueue,
    BoundedPacer.writeRTP, BoundedPacer.retire]

/-- Where nobody works, a packet is passed on, or waits in its ticket. -/
theorem Inv.settled (h : s.Inv) (hquiet : s.Quiet) (hp : s.Given p) :
    s.sent.count p + s.discarded.count p + (s.ticket p).isSome.toNat = 1 := by
  have howned := h.owned p
  rw [if_neg hp, owners] at howned
  have htodo : (s.discarding.map fun w => w.todo.count p).sum = 0 := by
    rw [List.sum_eq_zero_iff]
    intro n hn
    obtain ⟨w, hw, rfl⟩ := List.mem_map.1 hn
    rw [hquiet.discarding w hw]
    rfl
  have hvisit : (s.visit p).isSending = false := by
    rcases hquiet.visit p with hv | hv <;> rw [hv] <;> rfl
  rw [htodo, hvisit] at howned
  simpa using howned

/-- A packet is sent or discarded once at most, and exactly once where its ticket was visited or the
    queue stopped; a ticket keeps its slot, and the slots never exceed the limit; the counter
    counts what was discarded. -/
theorem one_owner {limit : ℕ} {es : List (PacerEvent ι)} (h : Reaches limit es s) :
    (∀ p, s.sent.count p + s.discarded.count p ≤ 1) ∧
    (s.Quiet → ∀ p, s.Given p → s.visit p ≠ .unvisited ∨ s.closed = true →
      s.sent.count p + s.discarded.count p = 1) ∧
    s.pending.length ≤ limit ∧
    (∀ p, s.Admitted p → s.ticket p = none → s.visit p = .unvisited → s.closed = false →
      p ∈ s.pending) ∧
    (s.Quiet → s.dropped = s.discarded.length) := by
  obtain ⟨hinv, rfl⟩ := inv_reaches h
  refine ⟨fun p => ?_, fun hquiet p hp hdone => ?_, hinv.bounded, fun p hp _ => hinv.charged p hp,
    fun hquiet => ?_⟩
  · have := hinv.owners_le p
    simp only [owners] at this
    omega
  · have hsettled := hinv.settled hquiet hp
    have hticket : (s.ticket p).isSome = false := by
      by_contra hsome
      rw [Bool.not_eq_false] at hsome
      obtain ⟨hpending, hunvisited⟩ := hinv.held p hsome
      rcases hdone with hvisited | hclosed
      · exact hvisited hunvisited
      · rw [hinv.stopped hclosed] at hpending
        cases hpending
    rw [hticket] at hsettled
    simpa using hsettled
  · have hcounted : (s.discarding.map fun w => w.counted.toNat).sum = 0 := by
      rw [List.sum_eq_zero_iff]
      intro n hn
      obtain ⟨w, hw, rfl⟩ := List.mem_map.1 hn
      cases hc : w.counted with
      | false => rfl
      | true => exact absurd (hquiet.discarding w hw) (hinv.counted w hw hc)
    rw [hinv.dropped, hcounted, Nat.add_zero]

/-- A cancelled probe, a packet that is sent, and one that finds no slot. -/
theorem one_owner_three :
    let events : List (PacerEvent ℕ) := [.enqueue 0 ⟨true, 7⟩, .schedule 0, .enqueue 1 {},
      .schedule 1, .cancelProbes 7 [1, 0], .enqueue 2 {}, .countDropped 0, .countDropped 1,
      .discard 0, .discard 1, .visit 1, .send 1 100 false, .count 1]
    ∃ s, Reaches 2 events s ∧ s.Quiet ∧ s.discarded = [0, 2] ∧ s.dropped = 2 ∧ s.pending = [0] ∧
      s.sent.count 1 + s.discarded.count 1 = 1 := by
  intro events
  obtain ⟨s, hs⟩ : ∃ s, Steps.run step { limit := 2 } events = some s := ⟨_, rfl⟩
  have hreach : Reaches 2 events s := Steps.reaches_of_run hs
  have hfinal := Option.some.inj hs
  have hquiet : s.Quiet := by
    rw [← hfinal]
    refine ⟨fun p => ?_, fun p => ?_, ?_⟩
    · rcases p with - | - | - | p <;> nofun
    · rcases p with - | - | - | p
      · exact .inl rfl
      · exact .inr rfl
      · exact .inl rfl
      · exact .inl rfl
    · intro w hw
      fin_cases hw <;> rfl
  refine ⟨s, hreach, hquiet, hfinal ▸ rfl, hfinal ▸ rfl, hfinal ▸ rfl, ?_⟩
  refine (one_owner hreach).2.1 hquiet 1 ?_ (.inl ?_)
  · rw [← hfinal]
    nofun
  · rw [← hfinal]
    nofun

end BoundedPacer

end Piik.Media
