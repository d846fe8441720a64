/-
  Every socket of a punch preparation has one owner, until it is closed or
  handed out.
-/
import Piik.Edge.Punch

namespace Piik.Edge.Punch

open Function

/-- The sockets that the call under way owns. -/
def Work.held : Work → List ℕ
  | .surveying socket _ | .surveyed socket _ | .dropping socket => [socket]
  | .opening _ sockets _ => sockets
  | .exchanging _ x => x.sockets
  | .closing _ rest winner => rest ++ winner.toList
  | .idle | .preparing | .listening | .starting _ | .retaining _ | .taking => []

/-- After the transition to `running`, and before the result of `Run`. -/
def Work.Running : Work → Prop
  | .retaining _ | .opening _ _ _ | .exchanging _ _ | .closing _ _ _ => True
  | _ => False

namespace State

variable (s : State)

/-- The sockets that are open and that somebody will close. -/
def owned : List ℕ := s.work.held ++ (s.socket.map (·.packetConn)).toList

/-- Each socket is closed, handed out or owned, and only one of these. -/
def Ledger : Prop :=
  ∀ i, s.closes i + s.taken.count i + s.owned.count i = if i < s.opened then 1 else 0

end State

/-- The exchange is within its budgets, and what was loaded of them was not spent. -/
structure Exchange.Within (sent answered : ℕ) (x : Exchange) : Prop where
  checks : sent + x.requestsLeft = 64
  replies : answered ≤ 64
  responses : answered ≤ x.responses
  readers : x.readers.length = x.sockets.length
  ready : ∀ i ∈ x.ready, i < x.sockets.length
  loaded : ∀ left, Reader.loaded left ∈ x.readers → 0 < left
  fanned : ∀ round index left, x.fanout = .loaded round index left → 0 < left

/-- How much has been sent by then. -/
def Work.Sent (checks replies : ℕ) : Work → Prop
  | .retaining _ | .opening _ _ _ => checks = 0 ∧ replies = 0
  | .exchanging _ x => x.Within checks replies
  | _ => checks ≤ 64 ∧ replies ≤ 64

/-- What holds of every state that a run reaches. -/
structure Sound (s : State) : Prop where
  ledger : s.Ledger
  empty : ∀ socket, s.socket = some socket → s.stage = .ready ∨ s.stage = .complete ∨
    s.stage = .running ∧ ∃ target, s.work = .retaining target
  complete : s.stage = .complete → s.socket.isSome
  running : s.work.Running → s.stage = .running ∨ s.stage = .closed
  sent : s.work.Sent s.checks s.replies
  unsent : s.stage = .new ∨ s.stage = .survey ∨ s.stage = .ready → s.checks = 0 ∧ s.replies = 0
  taken : s.taken ≠ [] → s.stage = .closed
  once : s.taken.length ≤ 1

variable {s s' : State}

/-! ## The steps -/

/-- The call goes on, and owns what it owned. -/
theorem Sound.goes (h : Sound s) {work : Work} (hheld : work.held = s.work.held)
    (hret : ∀ target, s.work = .retaining target → s.socket = none)
    (hrun : work.Running → s.stage = .running ∨ s.stage = .closed)
    (hsent : work.Sent s.checks s.replies) : Sound { s with work } where
  ledger i := by
    have := h.ledger i
    rw [State.owned] at this ⊢
    rw [hheld]
    exact this
  empty socket hs := by
    rcases h.empty socket hs with hr | hc | ⟨-, target, ht⟩
    · exact Or.inl hr
    · exact Or.inr (Or.inl hc)
    · cases hs.symm.trans (hret target ht)
  complete := h.complete
  running := hrun
  sent := hsent
  unsent := h.unsent
  taken := h.taken
  once := h.once

theorem count_one {i socket : ℕ} : [socket].count i = if i = socket then 1 else 0 := by
  rw [List.count_singleton]
  by_cases h : socket = i
  · simp [h]
  · simp [h, Ne.symm h]

theorem ledger_iff : s.Ledger ↔ ∀ i, s.closes i + s.taken.count i + (s.work.held.count i +
    (s.socket.map (·.packetConn)).toList.count i) = if i < s.opened then 1 else 0 := by
  simp only [State.Ledger, State.owned, List.count_append]

theorem transitions_iff {origin : Stage} :
    s.transitions origin = true ↔ s.cancelled = false ∧ s.stage = origin := by
  simp [State.transitions]

/-- No socket is kept while the preparation is new, surveys, or is closed. -/
theorem Sound.noSocket (h : Sound s) (hready : s.stage ≠ .ready) (hcomplete : s.stage ≠ .complete)
    (hret : s.stage = .running → ∀ target, s.work ≠ .retaining target) : s.socket = none := by
  cases hs : s.socket with
  | none => rfl
  | some socket =>
    rcases h.empty socket hs with hr | hc | ⟨hr, target, ht⟩
    · exact absurd hr hready
    · exact absurd hc hcomplete
    · exact absurd ht (hret hr target)

/-- A call that holds nothing starts, or returns. -/
theorem Sound.idles (h : Sound s) {work : Work} (hw : ¬s.work.Running) (hwork : ¬work.Running)
    (hheld : work.held = s.work.held) : Sound { s with work } := by
  refine h.goes hheld (fun target ht => ?_) (fun hr => absurd hr hwork) ?_
  · rw [ht] at hw
    exact absurd trivial hw
  · have hsent := h.sent
    have hle : s.checks ≤ 64 ∧ s.replies ≤ 64 := by
      cases hs : s.work with
      | retaining target =>
        rw [hs] at hw
        exact absurd trivial hw
      | opening target sockets count =>
        rw [hs] at hw
        exact absurd trivial hw
      | exchanging target x =>
        rw [hs] at hw
        exact absurd trivial hw
      | idle | preparing | listening | surveying | surveyed | dropping | starting | closing | taking =>
        rw [hs] at hsent
        exact hsent
    cases work with
    | retaining target => exact absurd trivial hwork
    | opening target sockets count => exact absurd trivial hwork
    | exchanging target x => exact absurd trivial hwork
    | idle | preparing | listening | surveying | surveyed | dropping | starting | closing | taking =>
      exact hle

theorem lock_sound (h : Sound s) {work : Work} (hs : s.lock work = some s') (hwork : ¬work.Running)
    (hheld : work.held = []) : Sound s' := by
  unfold State.lock at hs
  split at hs
  · next hw =>
    obtain rfl := Option.some.inj hs
    exact h.idles (by simp [hw, Work.Running]) hwork (by rw [hheld, hw]; rfl)
  · cases hs

theorem listen_sound (h : Sound s) {ok : Bool} (hs : s.listen ok = some s') : Sound s' := by
  unfold State.listen at hs
  split at hs
  · next hw =>
    split at hs
    · obtain rfl := Option.some.inj hs
      have hsent := h.sent
      rw [hw] at hsent
      refine { h with
        ledger := ledger_iff.2 fun i => ?_, empty := fun socket hk => ?_, running := ?_, sent := ?_ }
      · have := ledger_iff.1 h.ledger i
        simp only [hw, Work.held, List.count_nil, List.count_singleton] at this ⊢
        split_ifs at this ⊢ <;> simp_all <;> omega
      · rcases h.empty socket hk with hr | hc | ⟨-, target, ht⟩
        · exact Or.inl hr
        · exact Or.inr (Or.inl hc)
        · cases hw.symm.trans ht
      · exact fun hr => absurd hr (by simp [Work.Running])
      · exact hsent
    · obtain rfl := Option.some.inj hs
      exact h.idles (by simp [hw, Work.Running]) (by simp [Work.Running]) (by simp [hw, Work.held])
  · cases hs

theorem observe_sound (h : Sound s) {observation : Option Observation}
    (hs : s.observe observation = some s') : Sound s' := by
  have hgoes : ∀ {k : ℕ} {work : Work}, s.work.held = [k] → ¬s.work.Running →
      work.held = [k] → ¬work.Running → Sound { s with work } :=
    fun hheld hw hheld' hw' => h.idles hw hw' (hheld'.trans hheld.symm)
  cases observation with
  | none =>
    simp only [State.observe] at hs
    split at hs
    · next socket observations hw =>
      obtain rfl := Option.some.inj hs
      exact hgoes (k := socket) (by simp [hw, Work.held]) (by simp [hw, Work.Running]) rfl
        (by simp [Work.Running])
    · next socket prediction hw =>
      obtain rfl := Option.some.inj hs
      exact hgoes (k := socket) (by simp [hw, Work.held]) (by simp [hw, Work.Running]) rfl
        (by simp [Work.Running])
    · cases hs
  | some observation =>
    simp only [State.observe] at hs
    split at hs
    · next socket observations hw =>
      have hheld : s.work.held = [socket] := by simp [hw, Work.held]
      have hidle : ¬s.work.Running := by simp [hw, Work.Running]
      split at hs
      · split at hs
        · obtain rfl := Option.some.inj hs
          exact hgoes hheld hidle rfl (by simp [Work.Running])
        · obtain rfl := Option.some.inj hs
          exact hgoes hheld hidle rfl (by simp [Work.Running])
      · obtain rfl := Option.some.inj hs
        exact hgoes hheld hidle rfl (by simp [Work.Running])
    · cases hs

/-- The owned sockets close: one of them, and the call goes on without it. -/
theorem Sound.closes (h : Sound s) {socket : ℕ} {work : Work}
    (hheld : ∀ i, s.work.held.count i = work.held.count i + if i = socket then 1 else 0)
    (hret : ∀ target, s.work ≠ .retaining target)
    (hrun : work.Running → s.stage = .running ∨ s.stage = .closed)
    (hsent : work.Sent s.checks s.replies) : Sound { s.close socket with work } where
  ledger := ledger_iff.2 fun i => by
    have := ledger_iff.1 h.ledger i
    rw [hheld] at this
    refine Eq.trans ?_ this
    by_cases hi : i = socket
    · subst hi
      simp only [State.close, update_self, if_pos]
      omega
    · simp only [State.close, update_of_ne hi, if_neg hi]
      omega
  empty k hk := by
    rcases h.empty k hk with hr | hc | ⟨-, target, ht⟩
    · exact Or.inl hr
    · exact Or.inr (Or.inl hc)
    · exact absurd ht (hret target)
  complete := h.complete
  running := hrun
  sent := hsent
  unsent := h.unsent
  taken := h.taken
  once := h.once

theorem drop_sound (h : Sound s) {socket : ℕ} (hw : s.work = .dropping socket) :
    Sound { s.close socket with work := .idle } := by
  have hsent := h.sent
  rw [hw] at hsent
  refine h.closes (fun i => ?_) (by simp [hw]) (by simp [Work.Running]) hsent
  rw [hw, Work.held, count_one]
  exact (Nat.zero_add _).symm

theorem transition_sound (h : Sound s) (hw : s.work = .preparing) (hstage : s.stage = .new) :
    Sound { s with stage := .survey, work := .listening } := by
  have hsocket := h.noSocket (by simp [hstage]) (by simp [hstage]) (by simp [hstage])
  have hsent := h.sent
  rw [hw] at hsent
  refine ⟨ledger_iff.2 fun i => ?_, fun socket hk => ?_, by simp, by simp [Work.Running], hsent,
    fun _ => h.unsent (Or.inl hstage), fun ht => ?_, h.once⟩
  · have := ledger_iff.1 h.ledger i
    simpa [hw, Work.held] using this
  · cases hsocket.symm.trans hk
  · cases hstage.symm.trans (h.taken ht)

theorem publish_sound (h : Sound s) (hs : s.publish = some s') : Sound s' := by
  unfold State.publish at hs
  split at hs
  · next socket prediction hw =>
    have hsent := h.sent
    rw [hw] at hsent
    split at hs
    · obtain rfl := Option.some.inj hs
      exact h.idles (by simp [hw, Work.Running]) (by simp [Work.Running]) (by rw [hw]; rfl)
    · next ht =>
      rw [Bool.not_eq_true', Bool.not_eq_false, transitions_iff] at ht
      have hstage := ht.2
      have hsocket := h.noSocket (by simp [hstage]) (by simp [hstage]) (by simp [hstage])
      have hunsent := h.unsent (Or.inr (Or.inl hstage))
      have htaken : s.taken ≠ [] → False := fun ht => by cases hstage.symm.trans (h.taken ht)
      split at hs
      · obtain rfl := Option.some.inj hs
        refine ⟨ledger_iff.2 fun i => ?_, by simp, by simp, by simp [Work.Running], hsent, fun _ => hunsent,
          fun ht => (htaken ht).elim, h.once⟩
        have := ledger_iff.1 h.ledger i
        simpa [hw, hsocket, Work.held] using this
      · obtain rfl := Option.some.inj hs
        refine ⟨ledger_iff.2 fun i => ?_, by simp, by simp, by simp [Work.Running], hsent, fun _ => hunsent,
          fun ht => (htaken ht).elim, h.once⟩
        have := ledger_iff.1 h.ledger i
        simpa [hw, Work.held] using this
  · cases hs

theorem start_sound (h : Sound s) {target : UDPAddr} (hw : s.work = .starting target)
    (hstage : s.stage = .ready) : Sound { s with stage := .running, work := .retaining target } := by
  refine ⟨ledger_iff.2 fun i => ?_, fun socket hk => Or.inr (Or.inr ⟨rfl, target, rfl⟩), by simp,
    by simp, h.unsent (Or.inr (Or.inr hstage)), by simp, fun ht => ?_, h.once⟩
  · have := ledger_iff.1 h.ledger i
    simpa [hw, Work.held] using this
  · cases hstage.symm.trans (h.taken ht)

theorem retain_sound (h : Sound s) (hs : s.retain = some s') : Sound s' := by
  unfold State.retain at hs
  split at hs
  · next target hw =>
    have hsent := h.sent
    rw [hw] at hsent
    obtain ⟨hchecks, hreplies⟩ := hsent
    have hstage := h.running (by simp [hw, Work.Running])
    have hgone : s.stage ≠ .complete := by
      rcases hstage with hs | hs <;> simp [hs]
    have hgoes : ∀ work : Work, work.held = (s.socket.map (·.packetConn)).toList →
        work.Sent s.checks s.replies →
        Sound { s with socket := none, expired := false, work } := by
      intro work hheld hsent
      refine ⟨ledger_iff.2 fun i => ?_, by simp, fun hc => absurd hc hgone, fun _ => hstage, hsent, h.unsent,
        h.taken, h.once⟩
      have := ledger_iff.1 h.ledger i
      rw [hheld]
      simpa [hw, Work.held] using this
    dsimp only at hs
    split at hs
    · obtain rfl := Option.some.inj hs
      exact hgoes _ (by simp [Work.held]) (by simp [Work.Sent, hchecks, hreplies])
    · obtain rfl := Option.some.inj hs
      exact hgoes _ rfl ⟨hchecks, hreplies⟩
  · cases hs

theorem openSocket_sound (h : Sound s) {ok : Bool} (hs : s.openSocket ok = some s') : Sound s' := by
  unfold State.openSocket at hs
  split at hs
  · next target sockets count hw =>
    have hsent := h.sent
    rw [hw] at hsent
    have hstage := h.running (by simp [hw, Work.Running])
    split at hs
    · split at hs
      · obtain rfl := Option.some.inj hs
        exact h.goes (by simp [hw, Work.held]) (by simp [hw]) (fun _ => hstage)
          (by simp [Work.Sent, hsent.1, hsent.2])
      · obtain rfl := Option.some.inj hs
        refine ⟨ledger_iff.2 fun i => ?_, fun socket hk => ?_, h.complete, fun _ => hstage, hsent, h.unsent,
          h.taken, h.once⟩
        · have := ledger_iff.1 h.ledger i
          simp only [hw, Work.held, List.count_append, List.count_singleton] at this ⊢
          split_ifs at this ⊢ <;> simp_all <;> omega
        · rcases h.empty socket hk with hr | hc | ⟨-, target', ht⟩
          · exact Or.inl hr
          · exact Or.inr (Or.inl hc)
          · cases hw.symm.trans ht
    · cases hs
  · cases hs

theorem launch_sound (h : Sound s) {ok : Bool} (hs : s.launch ok = some s') : Sound s' := by
  unfold State.launch at hs
  split at hs
  · next target sockets count hw =>
    have hsent := h.sent
    rw [hw] at hsent
    have hstage := h.running (by simp [hw, Work.Running])
    split at hs
    · cases hs
    · split at hs
      · obtain rfl := Option.some.inj hs
        exact h.goes (by simp [hw, Work.held]) (by simp [hw]) (fun _ => hstage)
          (by simp [Work.Sent, hsent.1, hsent.2])
      · obtain rfl := Option.some.inj hs
        refine h.goes (by simp [hw, Work.held]) (by simp [hw]) (fun _ => hstage) ?_
        exact ⟨by simp [hsent.1], by simp [hsent.2], by simp [hsent.2], by simp, by simp, by simp, by simp⟩
  · cases hs

/-! ## The exchange -/

section Exchange

variable {target : UDPAddr} {x : Exchange}

/-- The exchange goes on with the same sockets, within its budgets. -/
theorem Sound.exchanges (h : Sound s) (hw : s.work = .exchanging target x) {x' : Exchange}
    {checks replies : ℕ} (hsockets : x'.sockets = x.sockets)
    (hsent : (Work.exchanging target x').Sent checks replies) :
    Sound { s with work := .exchanging target x', checks, replies } := by
  have hstage := h.running (by simp [hw, Work.Running])
  refine ⟨ledger_iff.2 fun i => ?_, fun socket hk => ?_, h.complete, fun _ => hstage, hsent, fun hu => ?_,
    h.taken, h.once⟩
  · have := ledger_iff.1 h.ledger i
    simpa [hw, Work.held, hsockets] using this
  · rcases h.empty socket hk with hr | hc | ⟨-, target', ht⟩
    · exact Or.inl hr
    · exact Or.inr (Or.inl hc)
    · cases hw.symm.trans ht
  · exfalso
    dsimp only at hu
    rcases hstage with hs | hs <;> simp [hs] at hu

theorem Sound.within (h : Sound s) (hw : s.work = .exchanging target x) :
    x.Within s.checks s.replies := by
  have := h.sent
  rw [hw] at this
  exact this

/-- A reader that stands elsewhere changes no budget. -/
theorem Exchange.Within.reads {sent answered i : ℕ} (h : x.Within sent answered) {r : Reader}
    (hnext : ∀ left, r = .loaded left → 0 < left) :
    ({ x with readers := x.readers.set i r } : Exchange).Within sent answered :=
  { h with
    readers := by simpa using h.readers
    loaded := fun left hl => by
      rcases List.mem_or_eq_of_mem_set hl with hl | hl
      · exact h.loaded left hl
      · exact hnext left hl.symm }

theorem datagram_sound (h : Sound s) {i : ℕ} {d : Datagram} (hs : s.datagram i d = some s') :
    Sound s' := by
  unfold State.datagram at hs
  split at hs
  · next target x hw =>
    have hx := h.within hw
    split at hs
    · cases hs
    · next hi =>
      rw [ne_eq, not_not] at hi
      obtain ⟨hlt, -⟩ := List.getElem?_eq_some_iff.1 hi
      cases d with
      | request =>
        dsimp only at hs
        split at hs
        · obtain rfl := Option.some.inj hs
          exact h.exchanges hw rfl { hx with responses := Nat.le_succ_of_le hx.responses }
        · next hle =>
          obtain rfl := Option.some.inj hs
          have hr := hx.reads (i := i) (r := .replied) (by simp)
          refine h.exchanges hw rfl { hr with replies := ?_, responses := Nat.succ_le_succ hx.responses }
          have := hx.responses
          omega
      | success =>
        obtain rfl := Option.some.inj hs
        refine h.exchanges hw rfl { hx with ready := fun j hj => ?_ }
        dsimp only at hj
        split at hj
        · rcases List.mem_append.1 hj with hj | hj
          · exact hx.ready j hj
          · rw [List.mem_singleton.1 hj, ← hx.readers]
            exact hlt
        · exact hx.ready j hj
  · cases hs

theorem reader_sound (h : Sound s) {i : ℕ} (hs : s.reader i = some s') : Sound s' := by
  unfold State.reader at hs
  split at hs
  · next target x hw =>
    have hx := h.within hw
    have hload : ∀ left, (if x.requestsLeft ≤ 0 then Reader.waiting else .loaded x.requestsLeft) =
        .loaded left → 0 < left := by
      intro left hl
      split at hl
      · cases hl
      · cases hl
        omega
    dsimp only at hs
    split at hs
    · obtain rfl := Option.some.inj hs
      refine h.exchanges hw rfl (hx.reads fun left hl => ?_)
      split at hl
      · cases hl
      · exact hload left hl
    · next left hl =>
      split at hs
      · next heq =>
        -- the check is paid for
        obtain rfl := Option.some.inj hs
        have hpos := hx.loaded left (List.mem_of_getElem? hl)
        have hr := hx.reads (i := i) (r := .waiting) (by simp)
        refine h.exchanges hw rfl { hr with checks := ?_ }
        have := hx.checks
        dsimp only
        omega
      · obtain rfl := Option.some.inj hs
        exact h.exchanges hw rfl (hx.reads hload)
    · cases hs
  · cases hs

theorem readerEnds_sound (h : Sound s) {i : ℕ} (hs : s.readerEnds i = some s') : Sound s' := by
  unfold State.readerEnds at hs
  split at hs
  · next target x hw =>
    split at hs
    · obtain rfl := Option.some.inj hs
      exact h.exchanges hw rfl ((h.within hw).reads (by simp))
    · cases hs
  · cases hs

theorem fanout_sound (h : Sound s) (hs : s.fanout = some s') : Sound s' := by
  unfold State.fanout at hs
  split at hs
  · next target x hw =>
    have hx := h.within hw
    have hload : ∀ round index round' index' left,
        (if x.requestsLeft ≤ x.sockets.length then Fanout.next round (index + 1)
          else .loaded round index x.requestsLeft) = .loaded round' index' left → 0 < left := by
      intro round index round' index' left hl
      split at hl
      · cases hl
      · cases hl
        omega
    dsimp only at hs
    split at hs
    · obtain rfl := Option.some.inj hs
      refine h.exchanges hw rfl { hx with fanned := fun round' index' left hl => ?_ }
      dsimp only at hl
      split at hl
      · cases hl
      · split at hl
        · exact hload _ _ _ _ _ hl
        · cases hl
    · next round index left hf =>
      split at hs
      · next heq =>
        obtain rfl := Option.some.inj hs
        have hpos := hx.fanned round index left hf
        refine h.exchanges hw rfl { hx with checks := ?_, fanned := by simp }
        have := hx.checks
        dsimp only
        omega
      · obtain rfl := Option.some.inj hs
        exact h.exchanges hw rfl { hx with fanned := fun _ _ _ hl => hload _ _ _ _ _ hl }
    · cases hs
  · cases hs

theorem collect_sound (h : Sound s) {ok : Bool} (hs : s.collect ok = some s') : Sound s' := by
  unfold State.collect at hs
  split at hs
  · next target x hw =>
    have hx := h.within hw
    have hstage := h.running (by simp [hw, Work.Running])
    have hsent : s.checks ≤ 64 ∧ s.replies ≤ 64 := ⟨by have := hx.checks; omega, hx.replies⟩
    have hlost : Sound { s with work := .closing target x.sockets none } :=
      h.goes (by simp [hw, Work.held]) (by simp [hw]) (fun _ => hstage) hsent
    dsimp only at hs
    split at hs
    · cases hs
    · split at hs
      · exact Option.some.inj hs ▸ hlost
      · split at hs
        · exact Option.some.inj hs ▸ hlost
        · next winner rest hr =>
          split at hs
          · exact Option.some.inj hs ▸ hlost
          · obtain rfl := Option.some.inj hs
            have hlt := hx.ready winner (by simp [hr])
            -- the winner is the one that is not closed
            have hperm := List.getElem_cons_eraseIdx_perm hlt
            refine ⟨ledger_iff.2 fun i => ?_, fun socket hk => ?_, h.complete, fun _ => hstage, hsent,
              h.unsent, h.taken, h.once⟩
            · refine Eq.trans ?_ (ledger_iff.1 h.ledger i)
              have := hperm.count_eq i
              simp only [hw, Work.held, List.getElem?_eq_getElem hlt, Option.toList_some,
                List.count_append, count_one] at this ⊢
              rw [← this, List.count_cons]
              by_cases hi : i = x.sockets[winner]
              · simp [hi]
              · simp [hi, Ne.symm hi]
            · rcases h.empty socket hk with hr | hc | ⟨-, target', ht⟩
              · exact Or.inl hr
              · exact Or.inr (Or.inl hc)
              · cases hw.symm.trans ht
  · cases hs

end Exchange

/-! ## Closing and handing out -/

theorem closeNext_sound (h : Sound s) (hs : s.closeNext = some s') : Sound s' := by
  unfold State.closeNext at hs
  split at hs
  · next target socket rest winner hw =>
    obtain rfl := Option.some.inj hs
    have hsent := h.sent
    rw [hw] at hsent
    refine h.closes (fun i => ?_) (by simp [hw]) (fun _ => h.running (by simp [hw, Work.Running])) hsent
    rw [hw]
    simp only [Work.held, List.cons_append, List.count_cons]
    by_cases hi : i = socket
    · simp [hi]
    · simp [hi, Ne.symm hi]
  · cases hs

theorem finish_sound (h : Sound s) (hs : s.finish = some s') : Sound s' := by
  unfold State.finish at hs
  split at hs
  · next target hw =>
    obtain rfl := Option.some.inj hs
    have hsent := h.sent
    rw [hw] at hsent
    exact h.goes (by simp [hw, Work.held]) (by simp [hw]) (by simp [Work.Running]) hsent
  · next target winner hw =>
    have hsent := h.sent
    rw [hw] at hsent
    split at hs
    · obtain rfl := Option.some.inj hs
      refine h.closes (fun i => ?_) (by simp [hw]) (by simp [Work.Running]) hsent
      simp [hw, Work.held, count_one]
    · next ht =>
      obtain rfl := Option.some.inj hs
      rw [Bool.not_eq_true', Bool.not_eq_false, transitions_iff] at ht
      have hstage := ht.2
      have hsocket := h.noSocket (by simp [hstage]) (by simp [hstage]) (by simp [hw])
      refine ⟨ledger_iff.2 fun i => ?_, by simp, by simp, by simp [Work.Running], hsent, by simp,
        fun ht => ?_, h.once⟩
      · have := ledger_iff.1 h.ledger i
        simpa [hw, hsocket, Work.held] using this
      · cases hstage.symm.trans (h.taken ht)
  · cases hs

theorem deliver_sound (h : Sound s) (hs : s.deliver = some s') : Sound s' := by
  unfold State.deliver at hs
  split at hs
  · next hw =>
    split at hs
    · obtain rfl := Option.some.inj hs
      exact h.idles (by simp [hw, Work.Running]) (by simp [Work.Running]) (by rw [hw]; rfl)
    · next ht =>
      obtain rfl := Option.some.inj hs
      rw [Bool.not_eq_true', Bool.not_eq_false, transitions_iff] at ht
      have hsent := h.sent
      rw [hw] at hsent
      have htaken : s.taken = [] := by
        by_contra hne
        cases ht.2.symm.trans (h.taken hne)
      refine ⟨ledger_iff.2 fun i => ?_, by simp, by simp, by simp [Work.Running], hsent, by simp, by simp, ?_⟩
      · have := ledger_iff.1 h.ledger i
        simp only [hw, Work.held, List.count_nil, List.count_append, Option.map_none,
          Option.toList_none] at this ⊢
        omega
      · cases hsocket : s.socket <;> simp [htaken]
  · cases hs

theorem retire_none (hs : s.socket = none) : s.retire = { s with stage := .closed } := by
  simp [State.retire, hs]

theorem retire_some {socket : PunchedSocket} (hs : s.socket = some socket) :
    s.retire = { s with
      stage := .closed, socket := none
      closes := update s.closes socket.packetConn (s.closes socket.packetConn + 1) } := by
  simp [State.retire, hs, State.close]

theorem retire_sound (h : Sound s) : Sound s.retire := by
  cases hs : s.socket with
  | none =>
    rw [retire_none hs]
    exact ⟨h.ledger, by simp [hs], by simp, fun _ => Or.inr rfl, h.sent, by simp, fun _ => rfl, h.once⟩
  | some socket =>
    rw [retire_some hs]
    refine ⟨ledger_iff.2 fun i => ?_, by simp, by simp, fun _ => Or.inr rfl, h.sent, by simp, fun _ => rfl,
      h.once⟩
    refine Eq.trans ?_ (ledger_iff.1 h.ledger i)
    simp only [hs, Option.map_some, Option.toList_some, Option.map_none, Option.toList_none,
      List.count_nil, count_one]
    by_cases hi : i = socket.packetConn
    · subst hi
      simp only [update_self, if_pos]
      omega
    · simp only [update_of_ne hi, if_neg hi]

/-- **Every event keeps the invariant.** -/
theorem Sound.step (h : Sound s) {e : Event} (hs : s.step e = some s') : Sound s' := by
  have hcancel : Sound { s with cancelled := true } := { h with }
  cases e with
  | prepare => exact lock_sound h hs (by simp [Work.Running]) rfl
  | transition =>
    simp only [State.step] at hs
    split at hs
    · next hw =>
      split at hs
      · next ht =>
        obtain rfl := Option.some.inj hs
        exact transition_sound h hw (transitions_iff.1 ht).2
      · obtain rfl := Option.some.inj hs
        exact h.idles (by simp [hw, Work.Running]) (by simp [Work.Running]) (by rw [hw]; rfl)
    · cases hs
  | listen ok => exact listen_sound h hs
  | observe observation => exact observe_sound h hs
  | publish => exact publish_sound h hs
  | drop =>
    simp only [State.step] at hs
    split at hs
    · next socket hw =>
      obtain rfl := Option.some.inj hs
      exact drop_sound h hw
    · cases hs
  | run remote =>
    simp only [State.step] at hs
    split at hs
    · cases hs
    · exact lock_sound h hs (by simp [Work.Running]) rfl
  | start =>
    simp only [State.step] at hs
    split at hs
    · next target hw =>
      split at hs
      · next ht =>
        obtain rfl := Option.some.inj hs
        exact start_sound h hw (transitions_iff.1 ht).2
      · obtain rfl := Option.some.inj hs
        exact h.idles (by simp [hw, Work.Running]) (by simp [Work.Running]) (by rw [hw]; rfl)
    · cases hs
  | retain => exact retain_sound h hs
  | openSocket ok => exact openSocket_sound h hs
  | launch ok => exact launch_sound h hs
  | datagram i d => exact datagram_sound h hs
  | reader i => exact reader_sound h hs
  | readerEnds i => exact readerEnds_sound h hs
  | fanout => exact fanout_sound h hs
  | arrayExpires =>
    obtain rfl := Option.some.inj hs
    exact { h with }
  | collect ok => exact collect_sound h hs
  | closeNext => exact closeNext_sound h hs
  | finish => exact finish_sound h hs
  | find connectionID source =>
    simp only [State.step] at hs
    split at hs
    · obtain rfl := Option.some.inj hs
      exact { h with }
    · cases hs
  | take =>
    have hfewer : Sound { s with takers := s.takers - 1 } := { h with }
    simp only [State.step] at hs
    split at hs
    · cases hs
    · split at hs
      · next hw =>
        obtain rfl := Option.some.inj hs
        exact hfewer.idles (by simp [hw, Work.Running]) (by simp [Work.Running]) (by rw [hw]; rfl)
      · exact Option.some.inj hs ▸ hfewer
  | deliver => exact deliver_sound h hs
  | closePunch connectionID =>
    simp only [State.step] at hs
    split at hs
    · exact Option.some.inj hs ▸ hcancel
    · cases hs
  | closeSourcePunch source =>
    simp only [State.step] at hs
    split at hs
    · exact Option.some.inj hs ▸ hcancel
    · cases hs
  | expire => exact Option.some.inj hs ▸ hcancel
  | retire =>
    simp only [State.step] at hs
    split at hs
    · exact Option.some.inj hs ▸ retire_sound h
    · cases hs
  | vacate =>
    simp only [State.step] at hs
    split at hs
    · obtain rfl := Option.some.inj hs
      exact { h with }
    · cases hs

/-! ## Winding down -/

/-- The steps that a reader has left. -/
def Reader.rank : Reader → ℕ
  | .ended => 0
  | .waiting => 1
  | .loaded _ => 2
  | .replied => 3

/-- The steps that a fanout has left. -/
def Fanout.rank : Fanout → ℕ
  | .done => 0
  | .next _ _ => 1
  | .loaded _ _ _ => 2

/-- How far the call under way is from its end, once it is cancelled. -/
def Work.rank : Work → ℕ
  | .idle => 0
  | .preparing | .listening | .dropping _ | .starting _ | .taking => 1
  | .surveying _ _ | .surveyed _ _ => 2
  | .closing _ rest _ => rest.length + 1
  | .opening _ sockets _ => sockets.length + 2
  | .retaining _ => 4
  | .exchanging _ x => (x.readers.map Reader.rank).sum + x.fanout.rank + x.sockets.length + 2

/-- Some events later, the cancelled call is closer to its end. -/
def Progresses (s : State) : Prop :=
  ∃ es s', Steps.Reaches State.step s es s' ∧ s'.cancelled ∧ s'.work.rank < s.work.rank

theorem progresses_of_step (e : Event) (s' : State) (hs : s.step e = some s') (hc : s'.cancelled)
    (hrank : s'.work.rank < s.work.rank) : Progresses s := ⟨_, _, .single hs, hc, hrank⟩

theorem Progresses.after (e : Event) (s₁ : State) (hs : s.step e = some s₁)
    (hrank : s₁.work.rank ≤ s.work.rank) (h : Progresses s₁) : Progresses s := by
  obtain ⟨es, s', hr, hc, hlt⟩ := h
  exact ⟨_, s', (Steps.Reaches.single hs).trans hr, hc, hlt.trans_le hrank⟩

theorem sum_rank_set {l : List Reader} {i : ℕ} {r : Reader} (r' : Reader) (h : l[i]? = some r) :
    ((l.set i r').map Reader.rank).sum + r.rank = (l.map Reader.rank).sum + r'.rank :=
  Steps.sum_set _ _ h

section Exchange

variable {target : UDPAddr} {x : Exchange}

/-- A reader that has not ended goes on. -/
theorem reader_progresses (hc : s.cancelled) (hw : s.work = .exchanging target x) {i : ℕ} {r : Reader}
    (hr : x.readers[i]? = some r) (hne : r ≠ .ended) : Progresses s := by
  have hread : ∀ next : Reader, s.step (.reader i) = some { s with
      work := .exchanging target { x with readers := x.readers.set i next } } → next.rank < r.rank →
      Progresses s := by
    intro next hs hlt
    refine progresses_of_step _ _ hs hc ?_
    have := sum_rank_set next hr
    rw [hw]
    simp only [Work.rank]
    omega
  -- what was loaded is still there: the swap succeeds
  have hswap : ∀ {s₁ : State} {x₁ : Exchange}, s₁.cancelled → s₁.work = .exchanging target x₁ →
      x₁.readers[i]? = some (.loaded x₁.requestsLeft) → Progresses s₁ := by
    intro s₁ x₁ hc₁ hw₁ hr₁
    refine progresses_of_step (.reader i) { s₁ with
      work := .exchanging target { x₁ with
        readers := x₁.readers.set i .waiting, requestsLeft := x₁.requestsLeft - 1 }
      checks := s₁.checks + 1 } ?_ hc₁ ?_
    · simp [State.step, State.reader, hw₁, hr₁]
    · have := sum_rank_set .waiting hr₁
      simp only [Reader.rank] at this
      rw [hw₁]
      simp only [Work.rank]
      omega
  cases r with
  | ended => exact absurd rfl hne
  | waiting =>
    refine progresses_of_step (.readerEnds i) { s with
      work := .exchanging target { x with readers := x.readers.set i .ended } } ?_ hc ?_
    · simp [State.step, State.readerEnds, hw, hr]
    · have := sum_rank_set .ended hr
      simp only [Reader.rank] at this
      rw [hw]
      simp only [Work.rank]
      omega
  | replied =>
    by_cases hp : x.proved
    · exact hread .waiting (by simp [State.step, State.reader, hw, hr, hp]) (by simp [Reader.rank])
    · by_cases hl : x.requestsLeft = 0
      · exact hread .waiting (by simp [State.step, State.reader, hw, hr, hp, hl])
          (by simp [Reader.rank])
      · exact hread (.loaded x.requestsLeft) (by simp [State.step, State.reader, hw, hr, hp, hl])
          (by simp [Reader.rank])
  | loaded left =>
    by_cases heq : x.requestsLeft = left
    · exact hswap hc hw (by rw [hr, heq])
    · by_cases hl : x.requestsLeft = 0
      · have hzero : 0 ≠ left := fun h => heq (hl.trans h)
        exact hread .waiting (by simp [State.step, State.reader, hw, hr, hl, hzero])
          (by simp [Reader.rank])
      · obtain ⟨hlt, -⟩ := List.getElem?_eq_some_iff.1 hr
        refine Progresses.after (.reader i) { s with work := .exchanging target { x with
          readers := x.readers.set i (.loaded x.requestsLeft) } } ?_ ?_ (hswap hc rfl ?_)
        · simp [State.step, State.reader, hw, hr, heq, hl]
        · have := sum_rank_set (.loaded x.requestsLeft) hr
          simp only [Reader.rank] at this
          rw [hw]
          simp only [Work.rank]
          omega
        · simp [hlt]

/-- The fanout of a cancelled exchange ends. -/
theorem fanout_progresses (hc : s.cancelled) (hw : s.work = .exchanging target x) (hne : x.fanout ≠ .done) :
    Progresses s := by
  have hctx : s.ctxErr = true := by simp [State.ctxErr, hc]
  have hswap : ∀ {s₁ : State} {x₁ : Exchange} {round index : ℕ}, s₁.cancelled →
      s₁.work = .exchanging target x₁ → x₁.fanout = .loaded round index x₁.requestsLeft →
      Progresses s₁ := by
    intro s₁ x₁ round index hc₁ hw₁ hf₁
    refine progresses_of_step .fanout { s₁ with
      work := .exchanging target { x₁ with
        fanout := .next round (index + 1), requestsLeft := x₁.requestsLeft - 1 }
      checks := s₁.checks + 1 } ?_ hc₁ ?_
    · simp [State.step, State.fanout, hw₁, hf₁]
    · rw [hw₁]
      simp only [Work.rank, hf₁, Fanout.rank]
      omega
  cases hf : x.fanout with
  | done => exact absurd hf hne
  | next round index =>
    refine progresses_of_step .fanout { s with
      work := .exchanging target { x with fanout := .done } } ?_ hc ?_
    · simp [State.step, State.fanout, hw, hf, hctx]
    · rw [hw]
      simp only [Work.rank, hf, Fanout.rank]
      omega
  | loaded round index left =>
    by_cases heq : x.requestsLeft = left
    · exact hswap hc hw (by rw [hf, heq])
    · by_cases hl : x.requestsLeft ≤ x.sockets.length
      · refine progresses_of_step .fanout { s with
          work := .exchanging target { x with fanout := .next round (index + 1) } } ?_ hc ?_
        · simp [State.step, State.fanout, hw, hf, heq, hl]
        · rw [hw]
          simp only [Work.rank, hf, Fanout.rank]
          omega
      · refine Progresses.after .fanout { s with work := .exchanging target { x with
          fanout := .loaded round index x.requestsLeft } } ?_ ?_ (hswap hc rfl rfl)
        · simp [State.step, State.fanout, hw, hf, heq, hl]
        · rw [hw]
          simp only [Work.rank, hf, Fanout.rank]
          omega

theorem exchange_progresses (hc : s.cancelled) (hw : s.work = .exchanging target x) : Progresses s := by
  by_cases hf : x.fanout = .done
  · by_cases hended : ∀ r ∈ x.readers, r = .ended
    · refine progresses_of_step (.collect true) { s with
        work := .closing target x.sockets none } ?_ hc ?_
      · have hctx : s.ctxErr = true := by simp [State.ctxErr, hc]
        simpa [State.step, State.collect, hw, hf, hctx, hc] using hended
      · rw [hw]
        simp only [Work.rank]
        omega
    · push Not at hended
      obtain ⟨r, hr, hne⟩ := hended
      obtain ⟨i, hi⟩ := List.mem_iff_getElem?.1 hr
      exact reader_progresses hc hw hi hne
  · exact fanout_progresses hc hw hf

end Exchange

/-- A cancelled call goes on until it returns. -/
theorem progresses (hc : s.cancelled) (hne : s.work ≠ .idle) : Progresses s := by
  have hfails : ∀ stage, s.transitions stage = false := by
    intro stage
    simp [State.transitions, hc]
  have hstep : ∀ (e : Event) (work : Work), s.step e = some { s with work } →
      work.rank < s.work.rank → Progresses s := fun e work hs hlt => progresses_of_step e _ hs hc hlt
  cases hw : s.work with
  | idle => exact absurd hw hne
  | preparing =>
    exact hstep .transition .idle (by simp [State.step, hw, hfails]) (by simp [hw, Work.rank])
  | listening =>
    exact hstep (.listen false) .idle (by simp [State.step, State.listen, hw])
      (by simp [hw, Work.rank])
  | surveying socket observations =>
    exact hstep (.observe none) (.dropping socket) (by simp [State.step, State.observe, hw])
      (by simp [hw, Work.rank])
  | surveyed socket prediction =>
    exact hstep (.observe none) (.dropping socket) (by simp [State.step, State.observe, hw])
      (by simp [hw, Work.rank])
  | dropping socket =>
    exact progresses_of_step .drop { s.close socket with work := .idle }
      (by simp [State.step, hw]) hc (by simp [hw, Work.rank])
  | starting target =>
    exact hstep .start .idle (by simp [State.step, hw, hfails]) (by simp [hw, Work.rank])
  | retaining target =>
    have hlen : (s.socket.map (·.packetConn)).toList.length ≤ 1 := by
      cases s.socket <;> simp
    refine progresses_of_step .retain { s with
      socket := none, expired := false
      work := if target.port < 1 ∨ target.port > 65535 ∨ s.secret.length ≠ 32 then
        .closing target (s.socket.map (·.packetConn)).toList none
        else .opening target (s.socket.map (·.packetConn)).toList
          (if (s.socket.map (·.packetConn)).toList = [] then 8 else 1) } ?_ hc ?_
    · simp only [State.step, State.retain, hw]
      split <;> simp_all
    · rw [hw]
      dsimp only
      split <;> simp only [Work.rank] <;> omega
  | opening target sockets count =>
    by_cases hlt : sockets.length < count
    · exact hstep (.openSocket false) (.closing target sockets none)
        (by simp [State.step, State.openSocket, hw, hlt]) (by simp [hw, Work.rank])
    · exact hstep (.launch false) (.closing target sockets none)
        (by simp [State.step, State.launch, hw, hlt]) (by simp [hw, Work.rank])
  | exchanging target x => exact exchange_progresses hc hw
  | closing target rest winner =>
    cases rest with
    | nil =>
      cases winner with
      | none =>
        exact hstep .finish .idle (by simp [State.step, State.finish, hw]) (by simp [hw, Work.rank])
      | some winner =>
        exact progresses_of_step .finish { s.close winner with work := .idle }
          (by simp [State.step, State.finish, hw, hfails]) hc (by simp [hw, Work.rank])
    | cons socket rest =>
      exact progresses_of_step .closeNext
        { s.close socket with work := .closing target rest winner }
        (by simp [State.step, State.closeNext, hw]) hc (by simp [hw, Work.rank])
  | taking =>
    exact hstep .deliver .idle (by simp [State.step, State.deliver, hw, hfails])
      (by simp [hw, Work.rank])

/-- Once it is cancelled, the preparation can come to its end. -/
theorem winds_down (hc : s.cancelled) : ∃ es s', Steps.Reaches State.step s es s' ∧ s'.cancelled ∧
    s'.work = .idle := by
  induction hn : s.work.rank using Nat.strong_induction_on generalizing s with
  | _ n ih =>
    by_cases hw : s.work = .idle
    · exact ⟨[], s, .start, hc, hw⟩
    · obtain ⟨es, s₁, hr, hc₁, hlt⟩ := progresses hc hw
      obtain ⟨es', s', hr', hc', hw'⟩ := ih _ (hn ▸ hlt) hc₁ rfl
      exact ⟨es ++ es', s', hr.trans hr', hc', hw'⟩

theorem retires (s : State) : ∃ es s', Steps.Reaches State.step s es s' ∧ s'.stage = .closed ∧
    s'.work = .idle := by
  have hexpire : s.step .expire = some { s with cancelled := true } := rfl
  obtain ⟨es, s₁, hr, hc, hw⟩ := winds_down (s := { s with cancelled := true }) rfl
  have hretire : s₁.step .retire = some s₁.retire := by simp [State.step, hc]
  refine ⟨_, s₁.retire, ((Steps.Reaches.single hexpire).trans hr).next hretire, ?_, ?_⟩
  · cases hs : s₁.socket with
    | none => rw [retire_none hs]
    | some socket => rw [retire_some hs]
  · cases hs : s₁.socket with
    | none => rw [retire_none hs, hw]
    | some socket => rw [retire_some hs, hw]

/-! ## Runs -/

theorem Sound.init {connectionID : String} {source : ℕ} {secret : List UInt8}
    (h : beginPunch connectionID source secret = some s) : Sound s := by
  unfold beginPunch at h
  split at h
  · cases h
  · obtain rfl := Option.some.inj h
    exact ⟨ledger_iff.2 fun i => by simp [Work.held], by simp, by simp, by simp [Work.Running],
      by simp [Work.Sent], by simp, by simp, by simp⟩

theorem Sound.budgets (h : Sound s) : s.checks ≤ 64 ∧ s.replies ≤ 64 := by
  have hsent := h.sent
  cases hw : s.work with
  | retaining target =>
    rw [hw] at hsent
    simp [hsent.1, hsent.2]
  | opening target sockets count =>
    rw [hw] at hsent
    simp [hsent.1, hsent.2]
  | exchanging target x =>
    have hx := h.within hw
    exact ⟨by have := hx.checks; omega, hx.replies⟩
  | idle | preparing | listening | surveying | surveyed | dropping | starting | closing | taking =>
    rw [hw] at hsent
    exact hsent

/-- Only a call of `TakePunchedSocket` hands a socket out. -/
theorem step_taken {e : Event} (hs : s.step e = some s') (he : e ≠ .deliver) : s'.taken = s.taken := by
  cases e with
  | deliver => exact absurd rfl he
  | retire =>
    simp only [State.step] at hs
    split at hs
    · obtain rfl := Option.some.inj hs
      cases hk : s.socket with
      | none => rw [retire_none hk]
      | some socket => rw [retire_some hk]
    · cases hs
  | observe observation =>
    cases observation <;> simp only [State.step, State.observe] at hs <;> (repeat' split at hs) <;>
      cases hs <;> rfl
  | prepare | run =>
    simp only [State.step, State.lock] at hs
    (repeat' split at hs) <;> cases hs
    rfl
  | transition | drop | start | find | take | arrayExpires | closePunch | closeSourcePunch | expire | vacate =>
    simp only [State.step] at hs
    (repeat' split at hs) <;> cases hs <;> rfl
  | listen | publish | retain | openSocket | launch | datagram | reader | readerEnds | fanout | collect
  | closeNext | finish =>
    simp only [State.step, State.listen, State.publish, State.retain, State.openSocket, State.launch,
      State.datagram, State.reader, State.readerEnds, State.fanout, State.collect, State.closeNext,
      State.finish] at hs
    (repeat' split at hs) <;> cases hs <;> rfl

theorem deliver_taken (h : Sound s) (hs : s.deliver = some s') : s'.taken = s.taken ∨
    s.stage = .complete ∧ ∃ socket, s.socket = some socket ∧
      s'.taken = s.taken ++ [socket.packetConn] := by
  unfold State.deliver at hs
  split at hs
  · split at hs
    · obtain rfl := Option.some.inj hs
      exact Or.inl rfl
    · next ht =>
      obtain rfl := Option.some.inj hs
      rw [Bool.not_eq_true', Bool.not_eq_false, transitions_iff] at ht
      obtain ⟨socket, hk⟩ := Option.isSome_iff_exists.1 (h.complete ht.2)
      exact Or.inr ⟨ht.2, socket, hk, by simp [hk]⟩
  · cases hs

/-- **Every socket of a preparation has one owner.**  In any order of its calls,
    the datagrams and the deadlines, a socket that was opened is closed once,
    handed out once, or still owned; it is handed out by one call only, after the
    preparation was complete; when the preparation is closed and no call is
    under way every socket is closed or handed out, and from every state it can
    come to that; and the checks and the replies keep to their bounds. -/
theorem punched_sockets_owned {connectionID : String} {source : ℕ} {secret : List UInt8} {s₀ : State}
    {es : List Event} (hbegin : beginPunch connectionID source secret = some s₀)
    (hr : Steps.Reaches State.step s₀ es s) :
    (∀ i, s.closes i + s.taken.count i ≤ 1) ∧
      (∀ i, s.closes i + s.taken.count i + s.owned.count i = if i < s.opened then 1 else 0) ∧
      (s.stage = .closed → s.work = .idle → ∀ i < s.opened, s.closes i + s.taken.count i = 1) ∧
      s.taken.length ≤ 1 ∧
      (∀ e s', s.step e = some s' → s'.taken = s.taken ∨ e = .deliver ∧ s.stage = .complete ∧
        ∃ socket, s.socket = some socket ∧ s'.taken = s.taken ++ [socket.packetConn]) ∧
      s.checks ≤ 64 ∧ s.replies ≤ 64 ∧
      ∃ es' s', Steps.Reaches State.step s es' s' ∧ s'.stage = .closed ∧ s'.work = .idle := by
  have h : Sound s := hr.invariant (Sound.init hbegin) fun h hs => h.step hs
  refine ⟨fun i => ?_, h.ledger, fun hclosed hidle i hi => ?_, h.once, fun e s' hs => ?_, h.budgets.1,
    h.budgets.2, retires s⟩
  · have := h.ledger i
    split at this <;> omega
  · have hsocket := h.noSocket (by simp [hclosed]) (by simp [hclosed]) (by simp [hclosed])
    have := h.ledger i
    rw [if_pos hi, State.owned, hidle, hsocket] at this
    simpa [Work.held] using this
  · by_cases he : e = .deliver
    · subst he
      exact (deliver_taken h hs).imp_right fun htaken => ⟨rfl, htaken⟩
    · exact Or.inl (step_taken hs he)

/-- An endpoint that every server sees at one port. -/
def stable : Observation := { address := ['2', '.', '0', '.', '0', '.', '7'], port := 5000 }

/-- The peer is proved on the retained socket, and the socket is taken. -/
def provedAndTaken : List Event :=
  [.prepare, .transition, .listen true, .observe (some stable), .observe (some stable),
    .observe (some stable), .publish, .run { address := stable.address, port := 6000, step := 0 }, .start,
    .retain, .launch true, .datagram 0 .success, .arrayExpires, .fanout, .readerEnds 0, .collect true,
    .finish, .find "connection" 1, .take, .deliver, .expire, .retire]

theorem punched_sockets_owned_provedAndTaken : ∃ s₀ s,
    beginPunch "connection" 1 (List.replicate 32 7) = some s₀ ∧
      Steps.Reaches State.step s₀ provedAndTaken s ∧ s.opened = 1 ∧ s.taken = [0] ∧ s.closes 0 = 0 := by
  have hbegin : beginPunch "connection" 1 (List.replicate 32 7) =
      some { connectionID := "connection", source := 1, secret := List.replicate 32 7 } :=
    if_neg (by decide +kernel)
  have hrun : ((Steps.run State.step
      { connectionID := "connection", source := 1, secret := List.replicate 32 7 } provedAndTaken).map
        fun s => (s.opened, s.taken)) = some (1, [0]) := by
    decide +kernel
  obtain ⟨s, hs, hends⟩ := Option.map_eq_some_iff.1 hrun
  obtain ⟨hopened, htaken⟩ := Prod.mk.inj hends
  have hreach := Steps.reaches_of_run hs
  have hone := (punched_sockets_owned hbegin hreach).1 0
  rw [htaken] at hone
  exact ⟨_, s, hbegin, hreach, hopened, htaken, by simpa using hone⟩

end Piik.Edge.Punch
