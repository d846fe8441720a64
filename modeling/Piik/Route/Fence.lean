/-
  The revision fence.

  A room draws its revisions from one sequence, which outlives its controllers.
  The live attempt holds the latest one, above the committed revision, so that
  a commit never goes back.
-/
import Piik.Route.Invariant

namespace Piik.Route

open Piik.Route.Core

variable {v : Licence} {b b' : Bool} {a r : List Resource} {c c' : Core}

/-! ## The invariant -/

namespace Core

variable (c : Core)

/-- The attempt under way. -/
def liveAttempt : Option Attempt := c.operation.bind Operation.current

/-- The revision that the live attempt was begun at. -/
def liveRevision : Option Int := c.liveAttempt.map Attempt.revision

/-- The operation is based on the committed revision, and the live attempt
    holds the latest one of the sequence. -/
structure Fence : Prop where
  base : ∀ op, c.operation = some op → op.baseRevision = c.revision
  live : ∀ att, c.liveAttempt = some att → att.revision = c.latest ∧ c.revision < att.revision
  bound : c.revision ≤ c.latest
  first : 0 ≤ c.revision

/-- Without a live attempt the committed revision is the latest one, unless the
    controller has none yet. -/
def AtHead : Prop := c.liveAttempt = none → c.revision = c.latest ∨ c.revision = 0

end Core

/-- How the revisions of a controller move: every new one is above those drawn before. -/
structure Moved (c c' : Core) : Prop where
  latest : c.latest ≤ c'.latest
  live : ∀ att', c'.liveAttempt = some att' →
    (∃ att, c.liveAttempt = some att ∧ SameAttempt att att') ∨ c.latest < att'.revision
  revision : c'.revision = c.revision ∨ c.liveRevision = some c'.revision ∨ c.latest < c'.revision

namespace Moved

theorem refl (c : Core) : Moved c c := ⟨le_rfl, fun att h => Or.inl ⟨att, h, .refl att⟩, Or.inl rfl⟩

theorem trans {c'' : Core} (h : Moved c c') (h' : Moved c' c'') : Moved c c'' := by
  refine ⟨h.latest.trans h'.latest, fun att'' ha => ?_, ?_⟩
  · rcases h'.live att'' ha with ⟨att', ha', hs'⟩ | hlt
    · rcases h.live att' ha' with ⟨att, ha, hs⟩ | hlt
      · exact Or.inl ⟨att, ha, hs.trans hs'⟩
      · exact Or.inr (hs'.revision ▸ hlt)
    · exact Or.inr (h.latest.trans_lt hlt)
  · rcases h'.revision with heq | hlive | hlt
    · rw [heq]
      exact h.revision
    · obtain ⟨att', ha', hr⟩ := Option.map_eq_some_iff.1 hlive
      rcases h.live att' ha' with ⟨att, ha, hs⟩ | hlt
      · exact Or.inr (Or.inl (by simp [liveRevision, ha, ← hs.revision, hr]))
      · exact Or.inr (Or.inr (hr ▸ hlt))
    · exact Or.inr (Or.inr (h.latest.trans_lt hlt))

end Moved

/-- The fence before and after, and how the revisions moved. -/
structure Fenced (v : Licence) (c c' : Core) : Prop where
  fence : c'.Fence
  moved : Moved c c'
  atHead : v.ends = false → c.AtHead → c'.AtHead

/-! ## Step by step -/

/-- Nothing that the fence reads changes. -/
theorem Fenced.of_eq (h : c.Fence) (ho : c'.operation = c.operation) (hr : c'.revision = c.revision)
    (hl : c'.latest = c.latest) : Fenced v c c' := by
  have hlive : c'.liveAttempt = c.liveAttempt := by rw [liveAttempt, ho, ← liveAttempt]
  refine ⟨⟨fun op hop => ?_, fun att ha => ?_, ?_, hr ▸ h.first⟩, ⟨hl.ge, fun att ha => ?_, Or.inl hr⟩,
    fun _ hh => ?_⟩
  · rw [hr]
    exact h.base op (ho ▸ hop)
  · rw [hr, hl]
    exact h.live att (hlive ▸ ha)
  · rw [hr, hl]
    exact h.bound
  · exact Or.inl ⟨att, hlive ▸ ha, .refl att⟩
  · unfold AtHead at *
    rw [hlive, hr, hl]
    exact hh

/-- The committed revision moves to a new one, and no attempt is live. -/
theorem Fenced.of_bump (h : c.Fence) (hi : c'.Idle)
    (hbase : ∀ op, c'.operation = some op → op.baseRevision = c'.revision)
    (hr : c'.revision = c'.latest) (hl : c.latest < c'.latest) : Fenced v c c' := by
  have hlive : ∀ att, c'.liveAttempt ≠ some att := fun att ha => by
    obtain ⟨op, ho, hc⟩ := Option.bind_eq_some_iff.1 ha
    simp [hi op ho] at hc
  refine ⟨⟨hbase, fun att ha => absurd ha (hlive att), hr.le, ?_⟩,
    ⟨hl.le, fun att ha => absurd ha (hlive att), Or.inr (Or.inr (hr ▸ hl))⟩, fun _ _ _ => Or.inl hr⟩
  have := h.first
  have := h.bound
  omega

/-- The live attempt's revision becomes the committed one. -/
theorem Fenced.of_commit {op : Operation} {att : Attempt} (h : c.Fence) (ho : c.operation = some op)
    (hc : op.current = some att) (ho' : c'.operation = none) (hr : c'.revision = att.revision)
    (hl : c'.latest = c.latest) : Fenced v c c' := by
  have hlive : c.liveAttempt = some att := by simp [liveAttempt, ho, hc]
  obtain ⟨hrev, hlt⟩ := h.live att hlive
  have hnone : c'.liveAttempt = none := by simp [liveAttempt, ho']
  refine ⟨⟨fun op hop => ?_, fun att ha => ?_, ?_, ?_⟩, ⟨hl.ge, fun att ha => ?_, ?_⟩, fun _ _ _ => ?_⟩
  · simp [ho'] at hop
  · simp [hnone] at ha
  · rw [hr, hl, hrev]
  · have := h.first
    omega
  · simp [hnone] at ha
  · exact Or.inr (Or.inl (by simp [liveRevision, hlive, hr]))
  · exact Or.inl (by rw [hr, hl, hrev])

/-- Removals, then a new revision for an operation without a live attempt. -/
theorem Fenced.of_trim {L : Core → ID → CommittedEdge → Prop} (h : c.Fence) (hi : c.Idle)
    (ht : Trim L r c c') : Fenced v c c'.rebased := by
  have hcourse := ht.sameCourse
  refine .of_bump h (fun op ho => ?_) (fun op ho => ?_) rfl ?_
  · obtain ⟨op', ho', rfl⟩ := Option.map_eq_some_iff.1 ho
    exact hi op' (hcourse.operation ▸ ho')
  · obtain ⟨op', -, rfl⟩ := Option.map_eq_some_iff.1 ho
    rfl
  · show c.latest < c'.latest + 1
    rw [hcourse.latest]
    exact Int.lt_succ _

/-- An attempt begins at a new revision. -/
theorem Fenced.of_begin {op : Operation} {att : Attempt} (h : c.Fence) (ho : c.operation = some op)
    (hr : att.revision = c.latest + 1) :
    Fenced v c { c.allocateRevision with operation := some { op with current := some att } } := by
  have hb := h.bound
  refine ⟨⟨fun op' ho' => ?_, fun att' ha => ?_, ?_, h.first⟩, ⟨?_, fun att' ha => ?_, Or.inl rfl⟩,
    fun _ _ hn => ?_⟩
  · cases ho'
    exact h.base op ho
  · cases ha
    refine ⟨hr, ?_⟩
    show c.revision < _
    omega
  · show c.revision ≤ c.latest + 1
    omega
  · show c.latest ≤ c.latest + 1
    omega
  · cases ha
    refine Or.inr ?_
    omega
  · cases hn

theorem Upkeep.fenced (h : Upkeep v b b' a r c c') (hf : c.Fence) (hfault : c'.fault = none) :
    Fenced v c c' := by
  have hb := hf.bound
  have hlt : c.latest < c.bump.latest := Int.lt_succ _
  cases h with
  | @plan _ _ op op' ho hs hc =>
    have hl : c.liveAttempt = op'.current := by simp [liveAttempt, ho, hc]
    refine ⟨⟨fun op₁ h₁ => ?_, fun att ha => hf.live att (hl ▸ ha), hb, hf.first⟩,
      ⟨le_rfl, fun att ha => Or.inl ⟨att, hl ▸ ha, .refl att⟩, Or.inl rfl⟩, fun _ hh hn => hh (hl ▸ hn)⟩
    cases h₁
    exact hs.baseRevision.trans (hf.base op ho)
  | defers => exact .of_eq hf rfl rfl rfl
  | @note _ _ op att att' ho hc hs =>
    have hl : c.liveAttempt = some att := by simp [liveAttempt, ho, hc]
    refine ⟨⟨fun op₁ h₁ => ?_, fun att₁ ha => ?_, hb, hf.first⟩,
      ⟨le_rfl, fun att₁ ha => ?_, Or.inl rfl⟩, fun _ _ hn => ?_⟩
    · cases h₁
      exact hf.base op ho
    · cases ha
      rw [hs.revision]
      exact hf.live att hl
    · cases ha
      exact Or.inl ⟨att, hl, hs⟩
    · cases hn
  | @opens _ _ op ho hc hbase =>
    have hl : c.liveAttempt = none := by simp [liveAttempt, ho]
    refine ⟨⟨fun op₁ h₁ => ?_, fun att ha => ?_, hb, hf.first⟩,
      ⟨le_rfl, fun att ha => ?_, Or.inl rfl⟩, fun _ hh _ => hh hl⟩
    · cases h₁
      exact hbase
    all_goals
      have ha : op.current = some att := ha
      simp [hc] at ha
  | begins ho _ _ _ _ hbegun => exact .of_begin hf ho hbegun.revision
  | attaches ho _ _ _ hr => exact .of_begin hf ho hr
  | abandons =>
    refine .of_bump hf (fun op ho => ?_) (fun op ho => ?_) rfl hlt <;> cases ho <;> rfl
  | @closes _ _ op ho hc =>
    have hl : c.liveAttempt = none := by simp [liveAttempt, ho, hc]
    exact ⟨⟨fun op₁ h₁ => by simp at h₁, fun att ha => by simp [liveAttempt] at ha, hb, hf.first⟩,
      ⟨le_rfl, fun att ha => by simp [liveAttempt] at ha, Or.inl rfl⟩, fun _ hh _ => hh hl⟩
  | detaches | unattached =>
    refine .of_bump hf (fun op ho => ?_) (fun op ho => ?_) rfl hlt <;> cases ho
  | trims hi ht => exact .of_trim hf hi ht
  | trimsMarked _ ht => exact .of_eq hf ht.sameCourse.operation ht.sameCourse.revision ht.sameCourse.latest
  | halts _ hc => simp [hc] at hfault
  | echoes => exact .of_eq hf rfl rfl rfl

/-- A commit ends the operation at the live attempt's revision. -/
theorem Accepted.course (h : Accepted r c c') : ∃ op att, c.operation = some op ∧
    op.current = some att ∧ c'.operation = none ∧ c'.revision = att.revision ∧
      c'.latest = c.latest := by
  cases h with
  | attached ho _ hc _ => exact ⟨_, _, ho, hc, rfl, rfl, rfl⟩
  | @commits _ c₁ op att _ m ho _ hc _ _ hrep =>
    obtain ⟨_, _, _, _, heq⟩ := committed_eq c₁ op att (c.edge op.childPeerID) m
    refine ⟨op, att, ho, hc, ?_, ?_, ?_⟩ <;> rw [heq]
    exact hrep.sameCourse.latest

theorem latest_le_aborted (c : Core) : c.latest ≤ c.aborted.latest := by
  unfold aborted
  split
  · exact le_rfl
  · split
    · exact (Int.lt_succ _).le
    · exact le_rfl

/-- **Every step keeps the fence.** -/
theorem Step.fenced (h : Step v b b' a r c c') (hf : c.Fence) (hfault : c'.fault = none) :
    Fenced v c c' := by
  cases h with
  | upkeep h => exact h.fenced hf hfault
  | gap hi ht => exact .of_trim hf hi ht
  | accepts _ h =>
    obtain ⟨op, att, ho, hc, hn, hr, hl⟩ := h.course
    exact .of_commit hf ho hc hn hr hl
  | reshapes h _ => exact .of_eq hf h.operation h.revision h.latest
  | @moves _ host host' =>
    have hn := aborted_operation c
    have hl := latest_le_aborted c
    have hcheck : ∀ d : Core, d.checkGraph.operation = d.operation ∧
        d.checkGraph.revision = d.revision ∧ d.checkGraph.latest = d.latest := fun d => by
      unfold checkGraph
      split <;> exact ⟨rfl, rfl, rfl⟩
    obtain ⟨h₁, h₂, h₃⟩ := hcheck (c.aborted.rehosted host').bump
    have hnone : (c.aborted.rehosted host').bump.checkGraph.operation = none := h₁.trans hn
    refine .of_bump hf (fun op ho => ?_) (fun op ho => ?_) (h₂.trans h₃.symm) ?_
    · simp [hnone] at ho
    · simp [hnone] at ho
    · rw [h₃]
      exact hl.trans_lt (Int.lt_succ _)
  | disposes hv =>
    exact ⟨⟨fun op ho => by simp [disposed] at ho, fun att ha => by simp [liveAttempt, disposed] at ha,
      hf.bound, hf.first⟩, ⟨le_rfl, fun att ha => by simp [liveAttempt, disposed] at ha, Or.inl rfl⟩,
      fun h => by simp [hv] at h⟩

/-- **A run keeps the fence.** -/
theorem fenced_of_runs (h : Runs (Step v) a r c c') (hf : c.Fence) (hfault : c'.fault = none) :
    Fenced v c c' := by
  obtain ⟨_, h⟩ := h false
  refine h.invariant (P := fun d => d.fault = none → Fenced v c d) (fun hd ih hn => ?_)
    (fun _ => .of_eq hf rfl rfl rfl) hfault
  have h₁ := ih (hd.fault_before hn)
  have h₂ := hd.fenced h₁.fence hn
  exact ⟨h₂.fence, h₁.moved.trans h₂.moved, fun hv ha => h₂.atHead hv (h₁.atHead hv ha)⟩

/-- An accepted commit takes the live attempt's revision, and draws none. -/
theorem Controller.Settles.course (h : Controller.Settles v true r c c') :
    c.liveRevision = some c'.revision ∧ c'.latest = c.latest := by
  cases h with
  | accepts hn h =>
    obtain ⟨op, att, att', ho, hc, hs, rfl⟩ := hn
    obtain ⟨op₁, att₁, ho₁, hc₁, -, hr, hl⟩ := h.course
    cases ho₁
    cases hc₁
    exact ⟨by simp [liveRevision, liveAttempt, ho, hc, hr, hs.revision], hl⟩

/-! ## The history of a room -/

/-- A call of the room's controller, or a new share: the controller is disposed
    and another one continues the sequence. -/
inductive RoomCall
  | call (k : Call)
  | share (o : Options)

/-- A room's controller, and the revisions that its attempts and its committed
    topologies were given, in order.  A new controller has committed none. -/
structure History where
  controller : Controller
  attempts : List Int := []
  topologies : List Int := []

namespace History

/-- A room draws from a sequence of its own. -/
def opened (o : Options) : Except Fault History := do
  let controller ← Controller.new o 0
  pure { controller }

/-- The controller after a call. -/
def record (h : History) (c : Controller) : History :=
  { controller := c
    attempts := if c.liveRevision = h.controller.liveRevision then h.attempts
      else h.attempts ++ c.liveRevision.toList
    topologies := if c.revision = h.controller.revision then h.topologies
      else h.topologies ++ [c.revision] }

/-- One call, noted in the history. -/
def step (h : History) : RoomCall → Except Fault (Reply × History)
  | .call k => do
    let (reply, c) ← h.controller.call k
    pure (reply, h.record c)
  | .share o => do
    let (reply, c) ← h.controller.call .dispose
    let controller ← Controller.new o c.latest
    pure (reply, { h.record c with controller })

/-- The calls one after the other. -/
def run (h : History) : List RoomCall → Except Fault History
  | [] => pure h
  | k :: ks => do
    let (_, h) ← h.step k
    h.run ks

/-- The controller is fenced, and every revision was given once, in order. -/
structure Sequenced (h : History) : Prop where
  good : h.controller.Good
  fence : h.controller.Fence
  attempts : h.attempts.Pairwise (· < ·)
  topologies : h.topologies.Pairwise (· < ·)
  drawn : ∀ n ∈ h.attempts ++ h.topologies, n ≤ h.controller.latest
  below : ∀ t ∈ h.topologies, ∀ n, h.controller.liveRevision = some n → t < n

theorem pairwise_append_singleton {l : List Int} {n : Int} (h : l.Pairwise (· < ·))
    (hn : ∀ x ∈ l, x < n) : (l ++ [n]).Pairwise (· < ·) :=
  List.pairwise_append.2 ⟨h, List.pairwise_singleton _ _, fun x hx y hy => by
    rw [List.mem_singleton.1 hy]
    exact hn x hx⟩

theorem Sequenced.record {h : History} (hs : h.Sequenced) {c : Controller} (hg : c.Good)
    (hf : c.Fence) (hm : Moved h.controller.toCore c.toCore) : (h.record c).Sequenced := by
  -- a live revision is the one from before, or above all drawn before
  have hlive : ∀ n, c.liveRevision = some n →
      n = c.latest ∧ c.revision < n ∧ (h.controller.liveRevision = some n ∨ h.controller.latest < n) := by
    intro n hn
    obtain ⟨att', ha', rfl⟩ := Option.map_eq_some_iff.1 hn
    refine ⟨(hf.live att' ha').1, (hf.live att' ha').2, ?_⟩
    rcases hm.live att' ha' with ⟨att, ha, hsame⟩ | hlt
    · exact Or.inl (by simp [liveRevision, ha, hsame.revision])
    · exact Or.inr hlt
  have hrev : c.revision ≠ h.controller.revision → ∀ t ∈ h.topologies, t < c.revision := by
    intro hne t ht
    rcases hm.revision with heq | hl | hlt
    · exact absurd heq hne
    · exact hs.below t ht _ hl
    · exact (hs.drawn t (List.mem_append_right _ ht)).trans_lt hlt
  have htop : ∀ t ∈ (h.record c).topologies, t ∈ h.topologies ∨ t = c.revision := by
    intro t ht
    unfold History.record at ht
    dsimp only at ht
    split at ht
    · exact Or.inl ht
    · exact (List.mem_append.1 ht).imp id List.mem_singleton.1
  have hatt : ∀ t ∈ (h.record c).attempts, t ∈ h.attempts ∨ c.liveRevision = some t := by
    intro t ht
    unfold History.record at ht
    dsimp only at ht
    split at ht
    · exact Or.inl ht
    · exact (List.mem_append.1 ht).imp id Option.mem_toList.1
  refine ⟨hg, hf, ?_, ?_, fun n hn => ?_, fun t ht n hn => ?_⟩
  · unfold History.record
    dsimp only
    split
    · exact hs.attempts
    · next hne =>
      cases hn : c.liveRevision with
      | none => simpa using hs.attempts
      | some n =>
        refine pairwise_append_singleton hs.attempts fun x hx => ?_
        rcases (hlive n hn).2.2 with hold | hlt
        · exact absurd (hn.trans hold.symm) hne
        · exact (hs.drawn x (List.mem_append_left _ hx)).trans_lt hlt
  · unfold History.record
    dsimp only
    split
    · exact hs.topologies
    · next hne => exact pairwise_append_singleton hs.topologies (hrev hne)
  · rcases List.mem_append.1 hn with hn | hn
    · rcases hatt n hn with hn | hn
      · exact (hs.drawn n (List.mem_append_left _ hn)).trans hm.latest
      · exact (hlive n hn).1.le
    · rcases htop n hn with hn | rfl
      · exact (hs.drawn n (List.mem_append_right _ hn)).trans hm.latest
      · exact hf.bound
  · obtain ⟨-, hlt, hold⟩ := hlive n hn
    rcases htop t ht with ht | rfl
    · rcases hold with hold | hlt
      · exact hs.below t ht n hold
      · exact (hs.drawn t (List.mem_append_right _ ht)).trans_lt hlt
    · exact hlt

end History

namespace Controller

variable {c : Controller}

theorem Good.call_fenced {c' : Controller} {k : Call} {reply : Reply} (h : c.Good) (hf : c.Fence)
    (hk : c.call k = .ok (reply, c')) : c'.Good ∧ Fenced .all c.toCore c'.toCore := by
  obtain ⟨hg, hr⟩ := h.call hk
  have hrun := c.run_runs h.sound.working.aligned k .all
  rw [hr] at hrun
  exact ⟨hg, fenced_of_runs hrun hf hg.fault⟩

theorem Good.call_committed {c' : Controller} {k : Call} {reply : Reply} (h : c.Good)
    (hk : c.call k = .ok (reply, c')) (hc : reply.committed) :
    c.liveRevision = some c'.revision ∧ c'.latest = c.latest := by
  obtain ⟨-, hr⟩ := h.call hk
  have := run_committed (v := .all) c (fun _ _ => trivial) h.sound.working.aligned k (by rw [hr]; exact hc)
  rw [hr] at this
  exact this.course

theorem new_fence {o : Options} {latest : Int} (hl : 0 ≤ latest) (h : new o latest = .ok c) :
    c.Fence ∧ c.latest = latest ∧ c.liveAttempt = none := by
  obtain ⟨-, rfl⟩ := new_eq h
  exact ⟨⟨fun op ho => (by cases ho), fun att ha => (by cases ha), hl, le_rfl⟩, rfl, rfl⟩

end Controller

namespace History

variable {h h' : History} {reply : Reply}

theorem Sequenced.step (hs : h.Sequenced) {k : RoomCall} (hk : h.step k = .ok (reply, h')) :
    h'.Sequenced := by
  cases k with
  | call k =>
    unfold History.step at hk
    cases hc : h.controller.call k with
    | error f => simp [hc, bind, Except.bind] at hk
    | ok p =>
      obtain ⟨reply₁, c⟩ := p
      simp only [hc, bind, Except.bind, pure, Except.pure, Except.ok.injEq, Prod.mk.injEq] at hk
      obtain ⟨-, rfl⟩ := hk
      obtain ⟨hg, hf⟩ := hs.good.call_fenced hs.fence hc
      exact hs.record hg hf.fence hf.moved
  | share o =>
    unfold History.step at hk
    cases hc : h.controller.call .dispose with
    | error f => simp [hc, bind, Except.bind] at hk
    | ok p =>
      obtain ⟨reply₁, c⟩ := p
      cases hn : Controller.new o c.latest with
      | error f => simp [hc, hn, bind, Except.bind] at hk
      | ok c' =>
        simp only [hc, hn, bind, Except.bind, pure, Except.pure, Except.ok.injEq, Prod.mk.injEq] at hk
        obtain ⟨-, rfl⟩ := hk
        obtain ⟨hg, hf⟩ := hs.good.call_fenced hs.fence hc
        have hr := hs.record hg hf.fence hf.moved
        obtain ⟨hf', hl, hlive⟩ := Controller.new_fence (hf.fence.first.trans hf.fence.bound) hn
        exact ⟨Controller.new_good hn, hf', hr.attempts, hr.topologies, fun n hn => hl ▸ hr.drawn n hn,
          fun t _ n hn => by simp [liveRevision, hlive] at hn⟩

theorem Sequenced.run (hs : h.Sequenced) {ks : List RoomCall} (hk : h.run ks = .ok h') :
    h'.Sequenced := by
  induction ks generalizing h with
  | nil =>
    cases hk
    exact hs
  | cons k ks ih =>
    unfold History.run at hk
    cases hc : h.step k with
    | error f => simp [hc, bind, Except.bind] at hk
    | ok p =>
      simp only [hc, bind, Except.bind] at hk
      exact ih (hs.step hc) hk

theorem opened_sequenced {o : Options} (ho : opened o = .ok h) : h.Sequenced := by
  unfold opened at ho
  cases hn : Controller.new o 0 with
  | error f => simp [hn, bind, Except.bind] at ho
  | ok c =>
    simp only [hn, bind, Except.bind, pure, Except.pure, Except.ok.injEq] at ho
    subst ho
    obtain ⟨hf, -, hlive⟩ := Controller.new_fence le_rfl hn
    exact ⟨Controller.new_good hn, hf, .nil, .nil, fun n hn => by simp at hn,
      fun t ht => by simp at ht⟩

/-- **The revision fence**, in every state of a room's history and for the call
    that comes next. -/
theorem revision_fence {o : Options} {h₀ : History} (hopen : opened o = .ok h₀)
    {ks : List RoomCall} (hk : h₀.run ks = .ok h) :
    h.controller.Fence ∧ h.attempts.Pairwise (· < ·) ∧ h.topologies.Pairwise (· < ·) ∧
      ∀ k reply h', h.step (.call k) = .ok (reply, h') →
        (∀ att att', h.controller.liveAttempt = some att → h'.controller.liveAttempt = some att' →
          att'.revision = att.revision → SameAttempt att att') ∧
        (reply.committed → h'.controller.revision = h'.controller.latest ∧
          h.controller.liveRevision = some h'.controller.revision ∧
          h'.topologies = h.topologies ++ [h'.controller.revision]) := by
  have hs := (opened_sequenced hopen).run hk
  refine ⟨hs.fence, hs.attempts, hs.topologies, fun k reply h' hstep => ?_⟩
  unfold History.step at hstep
  cases hc : h.controller.call k with
  | error f => simp [hc, bind, Except.bind] at hstep
  | ok p =>
    obtain ⟨reply₁, c⟩ := p
    simp only [hc, bind, Except.bind, pure, Except.pure, Except.ok.injEq, Prod.mk.injEq] at hstep
    obtain ⟨rfl, rfl⟩ := hstep
    obtain ⟨-, hf⟩ := hs.good.call_fenced hs.fence hc
    refine ⟨fun att att' ha ha' heq => ?_, fun hcm => ?_⟩
    · rcases hf.moved.live att' ha' with ⟨att₁, ha₁, hsame⟩ | hlt
      · cases ha.symm.trans ha₁
        exact hsame
      · have := (hs.fence.live att ha).1
        omega
    · obtain ⟨hlive, hlatest⟩ := hs.good.call_committed hc hcm
      obtain ⟨att, ha, hr⟩ := Option.map_eq_some_iff.1 hlive
      obtain ⟨heq, hlt⟩ := hs.fence.live att ha
      refine ⟨by rw [show (h.record c).controller = c from rfl, hlatest, ← hr, heq], hlive, ?_⟩
      show ite _ _ _ = _
      rw [if_neg]
      · rfl
      · omega

/-- A viewer is served, and the room is shared again. -/
def sharedTwice : List RoomCall :=
  .call (.upsertParticipant Controller.hostInput (some 0)) ::
    Controller.viewerServed.map .call ++ [.share Controller.smallRoom]

theorem revision_fence_sharedTwice : ∃ h₀ h, opened Controller.smallRoom = .ok h₀ ∧
    h₀.run sharedTwice = .ok h ∧ h.attempts = [1] ∧ h.topologies = [1] ∧
    h.controller.latest = 1 ∧ h.controller.Fence :=
  ⟨_, _, rfl, rfl, rfl, rfl, rfl, (@revision_fence _ Controller.smallRoom _ rfl sharedTwice rfl).1⟩

end History

end Piik.Route
