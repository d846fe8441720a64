/-
  A client's route converges: its revision only grows, the committed assignment
  is that of the highest committed revision that was not overtaken, and a token
  speaks for the route until the next accepted update.
-/
import Mathlib
import Piik.Client.RouteTransition

namespace Piik.Client

/-! ## Updates that landed -/

theorem landed_append {updates : List RouteUpdate} {update : RouteUpdate} {revision : ℕ} :
    Landed (updates ++ [update]) revision ↔ Landed updates revision ∨
      (update.phase = .active ∧ update.revision = revision ∧
        ∀ earlier ∈ updates, earlier.revision ≤ revision) := by
  constructor
  · rintro ⟨before, u, after, heq, hphase, hrev, hle⟩
    rcases List.eq_nil_or_concat' after with rfl | ⟨after, last, rfl⟩
    · obtain ⟨rfl, hlast⟩ := List.append_inj' heq rfl
      cases hlast
      exact .inr ⟨hphase, hrev, hle⟩
    · rw [← List.cons_append, ← List.append_assoc] at heq
      obtain ⟨rfl, -⟩ := List.append_inj' heq rfl
      exact .inl ⟨before, u, after, rfl, hphase, hrev, hle⟩
  · rintro (⟨before, u, after, rfl, hphase, hrev, hle⟩ | ⟨hphase, hrev, hle⟩)
    · exact ⟨before, u, after ++ [update], by simp, hphase, hrev, hle⟩
    · exact ⟨updates, update, [], rfl, hphase, hrev, hle⟩

theorem not_landed_nil {revision : ℕ} : ¬ Landed [] revision := by
  rintro ⟨before, u, after, heq, -⟩
  simp at heq

theorem sameAssignment_refl (assignment : ParticipantRouteAssignment) :
    sameAssignment assignment assignment = true := by
  simp [sameAssignment]

theorem Server.Issues.assignment {server : Server} {update : RouteUpdate}
    (h : server.Issues update) : update.assignment = server.assignment update.revision := by
  cases update with
  | prepare => exact h.1
  | active => exact h

theorem Server.Issues.candidate {server : Server} {update : RouteUpdate}
    (h : server.Issues update) {candidate : PreparedRouteCandidate}
    (hc : update.candidate = some candidate) : candidate = server.candidate update.revision := by
  cases update with
  | prepare =>
    cases hc
    exact h.2
  | active => cases hc

namespace MediaRouteTransition

variable {m m' : MediaRouteTransition} {server : Server} {updates : List RouteUpdate}

/-! ## One update -/

theorem accept_cases (m : MediaRouteTransition) (update : RouteUpdate) :
    ((m.accept update).1 ≠ .accepted ∧ (m.accept update).2 = m) ∨
      (m.accept update = (.accepted, m.install update) ∧ m.revision ≤ update.revision) := by
  unfold accept
  split
  · exact .inl ⟨nofun, rfl⟩
  · next hlt =>
    split
    · exact .inl ⟨nofun, rfl⟩
    · split
      · exact .inl ⟨nofun, rfl⟩
      · exact .inr ⟨rfl, not_lt.1 hlt⟩

@[simp] theorem install_revision (update : RouteUpdate) :
    (m.install update).revision = update.revision := by
  cases update with
  | prepare => rfl
  | active => rfl

@[simp] theorem install_phase (update : RouteUpdate) :
    (m.install update).phase = some update.phase := by
  cases update with
  | prepare => rfl
  | active => rfl

@[simp] theorem install_plannedAssignment (update : RouteUpdate) :
    (m.install update).plannedAssignment = some update.assignment := by
  cases update with
  | prepare => rfl
  | active => rfl

@[simp] theorem install_preparedCandidate (update : RouteUpdate) :
    (m.install update).preparedCandidate = update.candidate := by
  cases update with
  | prepare => rfl
  | active => rfl

@[simp] theorem install_generation (update : RouteUpdate) :
    (m.install update).generation = m.generation + 1 := by
  cases update with
  | prepare => rfl
  | active => rfl

@[simp] theorem install_mediaAssignment (update : RouteUpdate) :
    (m.install update).mediaAssignment = m.mediaAssignment := by
  cases update with
  | prepare => rfl
  | active => rfl

theorem revision_le_accept (m : MediaRouteTransition) (update : RouteUpdate) :
    m.revision ≤ (m.accept update).2.revision := by
  rcases m.accept_cases update with ⟨-, h⟩ | ⟨h, hle⟩
  · rw [h]
  · rw [h, install_revision]
    exact hle

/-! ## What was delivered -/

/-- The state after the updates heard since the last reset. -/
structure Heard (server : Server) (updates : List RouteUpdate) (m : MediaRouteTransition) : Prop where
  bound : ∀ update ∈ updates, update.revision ≤ m.revision
  reached : (m.revision = -1 ∧ m.phase = none ∧ m.activeToken = none) ∨
    ∃ update ∈ updates, update.revision = m.revision
  planned : ∀ revision : ℕ, m.revision = revision →
    m.plannedAssignment = some (server.assignment revision)
  prepared : ∀ revision : ℕ, m.revision = revision → m.phase = some .prepare →
    m.preparedCandidate = some (server.candidate revision)
  none_active : m.activeToken = none → m.activeAssignment = none ∧ ∀ revision, ¬ Landed updates revision
  some_active : ∀ token, m.activeToken = some token → ∃ revision : ℕ, token.revision = revision ∧
    m.activeAssignment = some (server.assignment revision) ∧ Landed updates revision ∧
    ∀ revision', Landed updates revision' → revision' ≤ revision
  current : m.phase = some .active → m.activeToken.map RouteOperationToken.revision = some m.revision

theorem heard_nil (generation : ℕ) : Heard server [] { generation } where
  bound := nofun
  reached := .inl ⟨rfl, rfl, rfl⟩
  planned := nofun
  prepared := nofun
  none_active := fun _ => ⟨rfl, fun _ => not_landed_nil⟩
  some_active := nofun
  current := nofun

theorem Heard.landed_le (h : Heard server updates m) {revision : ℕ} (hl : Landed updates revision) :
    revision ≤ m.revision := by
  obtain ⟨before, update, after, rfl, -, rfl, -⟩ := hl
  exact h.bound update (List.mem_append_right _ (List.mem_cons_self ..))

/-- An update that changes nothing lands nothing new. -/
theorem Heard.still (h : Heard server updates m) {update : RouteUpdate}
    (hle : update.revision ≤ m.revision)
    (hland : update.phase = .active → (∀ earlier ∈ updates, earlier.revision ≤ update.revision) →
      Landed updates update.revision) : Heard server (updates ++ [update]) m := by
  have hsame : ∀ revision, Landed (updates ++ [update]) revision ↔ Landed updates revision := by
    intro revision
    rw [landed_append]
    refine ⟨?_, .inl⟩
    rintro (hl | ⟨hphase, rfl, hbefore⟩)
    · exact hl
    · exact hland hphase hbefore
  refine ⟨?_, ?_, h.planned, h.prepared, ?_, ?_, h.current⟩
  · intro u hu
    rcases List.mem_append.1 hu with hu | hu
    · exact h.bound u hu
    · rw [List.mem_singleton.1 hu]
      exact hle
  · rcases h.reached with hnone | ⟨u, hu, hrev⟩
    · exact .inl hnone
    · exact .inr ⟨u, List.mem_append_left _ hu, hrev⟩
  · intro hnone
    obtain ⟨hassignment, hno⟩ := h.none_active hnone
    exact ⟨hassignment, fun revision hl => hno revision ((hsame revision).1 hl)⟩
  · intro token htoken
    obtain ⟨revision, hrev, hassignment, hl, hmax⟩ := h.some_active token htoken
    exact ⟨revision, hrev, hassignment, (hsame revision).2 hl,
      fun revision' hl' => hmax revision' ((hsame revision').1 hl')⟩

/-- An update that is refused was overtaken, or says nothing new. -/
theorem Heard.refused (h : Heard server updates m) {update : RouteUpdate}
    (hissued : server.Issues update) (hr : (m.accept update).1 ≠ .accepted) :
    Heard server (updates ++ [update]) m := by
  unfold accept at hr
  split at hr
  · next hlt =>
    refine h.still (Int.le_of_lt hlt) fun _ hbefore => ?_
    rcases h.reached with ⟨hnone, -⟩ | ⟨u, hu, hrev⟩
    · omega
    · have := hbefore u hu
      omega
  · split at hr
    · next hcontra =>
      obtain ⟨hrev, hcontra⟩ := hcontra
      refine h.still (Int.le_of_eq hrev) fun hactive _ => ?_
      have hplanned := h.planned update.revision hrev.symm
      cases update with
      | prepare => cases hactive
      | active revision assignment =>
        obtain rfl : assignment = server.assignment revision := hissued
        simp [contradicts, hplanned, RouteUpdate.assignment, RouteUpdate.revision,
          RouteUpdate.candidate, RouteUpdate.phase, sameAssignment_refl] at hcontra
    · split at hr
      · next hdup =>
        obtain ⟨hrev, hphase⟩ := hdup
        refine h.still (Int.le_of_eq hrev) fun hactive _ => ?_
        rw [hactive] at hphase
        obtain ⟨token, htoken, htrev⟩ := Option.map_eq_some_iff.1 (h.current hphase)
        obtain ⟨revision, hrev', -, hl, -⟩ := h.some_active token htoken
        obtain rfl : revision = update.revision := by omega
        exact hl
      · exact absurd rfl hr

theorem Heard.accepted (h : Heard server updates m) {update : RouteUpdate}
    (hissued : server.Issues update) (hle : m.revision ≤ update.revision) :
    Heard server (updates ++ [update]) (m.install update) := by
  have hbound : ∀ u ∈ updates, u.revision ≤ update.revision := by
    intro u hu
    have := h.bound u hu
    omega
  have hreached : ∃ u ∈ updates ++ [update], (u.revision : ℤ) = update.revision :=
    ⟨update, List.mem_append_right _ (List.mem_singleton.2 rfl), rfl⟩
  have hbound' : ∀ u ∈ updates ++ [update], (u.revision : ℤ) ≤ update.revision := by
    intro u hu
    rcases List.mem_append.1 hu with hu | hu
    · exact Int.ofNat_le.2 (hbound u hu)
    · rw [List.mem_singleton.1 hu]
  cases update with
  | prepare revision assignment candidate =>
    obtain ⟨rfl, rfl⟩ := hissued
    have hsame : ∀ revision', Landed (updates ++ [.prepare revision (server.assignment revision)
        (server.candidate revision)]) revision' ↔ Landed updates revision' := by
      intro revision'
      rw [landed_append]
      exact or_iff_left fun hactive => by cases hactive.1
    refine ⟨hbound', .inr hreached, ?_, ?_, ?_, ?_, nofun⟩
    · intro revision' hrev
      obtain rfl := Int.ofNat_inj.1 hrev
      rfl
    · intro revision' hrev _
      obtain rfl := Int.ofNat_inj.1 hrev
      rfl
    · intro hnone
      obtain ⟨hassignment, hno⟩ := h.none_active hnone
      exact ⟨hassignment, fun revision' hl => hno revision' ((hsame revision').1 hl)⟩
    · intro token htoken
      obtain ⟨revision', hrev, hassignment, hl, hmax⟩ := h.some_active token htoken
      exact ⟨revision', hrev, hassignment, (hsame revision').2 hl,
        fun r hl' => hmax r ((hsame r).1 hl')⟩
  | active revision assignment =>
    obtain rfl : assignment = server.assignment revision := hissued
    refine ⟨hbound', .inr hreached, ?_, nofun, nofun, ?_, fun _ => rfl⟩
    · intro revision' hrev
      obtain rfl := Int.ofNat_inj.1 hrev
      rfl
    · intro token htoken
      cases htoken
      refine ⟨revision, rfl, rfl, landed_append.2 (.inr ⟨rfl, rfl, hbound⟩), ?_⟩
      intro revision' hl
      rcases landed_append.1 hl with hl | ⟨-, hrev, -⟩
      · have := h.landed_le hl
        exact Int.ofNat_le.1 (le_trans this hle)
      · exact le_of_eq hrev.symm

theorem Heard.accept (h : Heard server updates m) {update : RouteUpdate}
    (hissued : server.Issues update) : Heard server (updates ++ [update]) (m.accept update).2 := by
  rcases m.accept_cases update with ⟨hr, hsame⟩ | ⟨hr, hle⟩
  · rw [hsame]
    exact h.refused hissued hr
  · rw [hr]
    exact h.accepted hissued hle

theorem Heard.markMediaActive (h : Heard server updates m) (token : RouteOperationToken) :
    Heard server updates (m.markMediaActive token).2 := by
  unfold MediaRouteTransition.markMediaActive
  split
  · exact h
  · exact ⟨h.bound, h.reached, h.planned, h.prepared, h.none_active, h.some_active, h.current⟩

/-- What a run has heard accounts for the state it is in. -/
theorem run_heard (ops : List Op) (hissued : ∀ update, .accept update ∈ ops → server.Issues update) :
    Heard server (heard ops) (run {} ops) := by
  induction ops using List.reverseRecOn with
  | nil => exact heard_nil 0
  | append_singleton ops op ih =>
    have ih := ih fun update hu => hissued update (List.mem_append_left _ hu)
    rw [run, List.foldl_append, heard, List.foldl_append]
    cases op with
    | accept update =>
      exact ih.accept (hissued update (List.mem_append_right _ (List.mem_singleton.2 rfl)))
    | markMediaActive token => exact ih.markMediaActive token
    | reset => exact heard_nil _

/-! ## Tokens -/

/-- The generations a state has given out. -/
structure Counted (m : MediaRouteTransition) : Prop where
  idle : m.revision < 0 ↔ m.phase = none
  active : ∀ token, m.activeToken = some token → token.generation ≤ m.generation
  prepared : m.phase = some .prepare → ∀ token, m.activeToken = some token →
    token.generation < m.generation

theorem counted_fresh : Counted {} where
  idle := iff_of_true (show (-1 : ℤ) < 0 by decide) rfl
  active := fun _ htoken => by cases htoken
  prepared := fun hphase => by cases hphase

theorem counted_step (h : Counted m) (op : Op) : Counted (m.step op) := by
  cases op with
  | accept update =>
    rw [step]
    rcases m.accept_cases update with ⟨-, hsame⟩ | ⟨hr, -⟩
    · rw [hsame]
      exact h
    · rw [hr]
      cases update with
      | prepare revision assignment candidate =>
        refine ⟨?_, ?_, ?_⟩
        · exact iff_of_false (not_lt.2 (Int.natCast_nonneg revision)) nofun
        · exact fun token htoken => le_trans (h.active token htoken) (Nat.le_succ _)
        · exact fun _ token htoken => Nat.lt_succ_of_le (h.active token htoken)
      | active revision assignment =>
        refine ⟨?_, ?_, nofun⟩
        · exact iff_of_false (not_lt.2 (Int.natCast_nonneg revision)) nofun
        · intro token htoken
          cases htoken
          exact le_rfl
  | markMediaActive token =>
    rw [step, MediaRouteTransition.markMediaActive]
    split
    · exact h
    · exact ⟨h.idle, h.active, h.prepared⟩
  | reset => exact ⟨iff_of_true (show (-1 : ℤ) < 0 by decide) rfl, nofun, nofun⟩

theorem counted_run (h : Counted m) (ops : List Op) : Counted (m.run ops) := by
  induction ops generalizing m with
  | nil => exact h
  | cons op ops ih => exact ih (counted_step h op)

/-- No update with the property is accepted in the run, and the route is not reset. -/
def Undisturbed (p : RouteUpdate → Prop) : MediaRouteTransition → List Op → Prop
  | _, [] => True
  | m, op :: ops => (match op with
      | .accept update => (m.accept update).1 = .accepted → ¬ p update
      | .markMediaActive _ => True
      | .reset => False) ∧ Undisturbed p (m.step op) ops

theorem generation_le_step (m : MediaRouteTransition) (op : Op) :
    m.generation ≤ (m.step op).generation := by
  cases op with
  | accept update =>
    rw [step]
    rcases m.accept_cases update with ⟨-, hsame⟩ | ⟨hr, -⟩
    · rw [hsame]
    · rw [hr, install_generation]
      exact Nat.le_succ _
  | markMediaActive token =>
    rw [step, MediaRouteTransition.markMediaActive]
    split
    · exact le_rfl
    · exact le_rfl
  | reset => exact Nat.le_succ _

theorem generation_le_run (m : MediaRouteTransition) (ops : List Op) :
    m.generation ≤ (m.run ops).generation := by
  induction ops generalizing m with
  | nil => exact le_rfl
  | cons op ops ih => exact le_trans (generation_le_step m op) (ih _)

theorem undisturbed_all {ops : List Op} (h : Undisturbed (fun _ => True) m ops) :
    (m.run ops).generation = m.generation ∧ (m.run ops).revision = m.revision ∧
      (m.run ops).phase = m.phase := by
  induction ops generalizing m with
  | nil => exact ⟨rfl, rfl, rfl⟩
  | cons op ops ih =>
    obtain ⟨hop, hrest⟩ := h
    obtain ⟨hgeneration, hrevision, hphase⟩ := ih hrest
    have hstep : (m.step op).generation = m.generation ∧ (m.step op).revision = m.revision ∧
        (m.step op).phase = m.phase := by
      cases op with
      | accept update =>
        rcases m.accept_cases update with ⟨-, hsame⟩ | ⟨hr, -⟩
        · rw [step, hsame]
          exact ⟨rfl, rfl, rfl⟩
        · exact absurd trivial (hop (by rw [hr]))
      | markMediaActive token =>
        rw [step, MediaRouteTransition.markMediaActive]
        split
        · exact ⟨rfl, rfl, rfl⟩
        · exact ⟨rfl, rfl, rfl⟩
      | reset => exact hop.elim
    exact ⟨hgeneration.trans hstep.1, hrevision.trans hstep.2.1, hphase.trans hstep.2.2⟩

theorem disturbed_all {ops : List Op} (h : ¬ Undisturbed (fun _ => True) m ops) :
    m.generation < (m.run ops).generation := by
  induction ops generalizing m with
  | nil => exact absurd trivial h
  | cons op ops ih =>
    by_cases hrest : Undisturbed (fun _ => True) (m.step op) ops
    · refine lt_of_lt_of_le ?_ (generation_le_run (m.step op) ops)
      cases op with
      | accept update =>
        rcases m.accept_cases update with ⟨hr, -⟩ | ⟨hr, -⟩
        · exact absurd ⟨fun haccepted => absurd haccepted hr, hrest⟩ h
        · rw [step, hr, install_generation]
          exact Nat.lt_succ_self _
      | markMediaActive token => exact absurd ⟨trivial, hrest⟩ h
      | reset => exact Nat.lt_succ_self _
    · exact lt_of_le_of_lt (generation_le_step m op) (ih hrest)

theorem undisturbed_active {ops : List Op} (h : Undisturbed (fun u => u.phase = .active) m ops) :
    (m.run ops).activeToken = m.activeToken := by
  induction ops generalizing m with
  | nil => rfl
  | cons op ops ih =>
    obtain ⟨hop, hrest⟩ := h
    refine (ih hrest).trans ?_
    cases op with
    | accept update =>
      rcases m.accept_cases update with ⟨-, hsame⟩ | ⟨hr, -⟩
      · rw [step, hsame]
      · rw [step, hr]
        cases update with
        | prepare => rfl
        | active => exact absurd rfl (hop (by rw [hr]))
    | markMediaActive token =>
      rw [step, MediaRouteTransition.markMediaActive]
      split
      · rfl
      · rfl
    | reset => exact hop.elim

/-- The active token, if there is one, was given after the generation. -/
def Newer (generation : ℕ) (m : MediaRouteTransition) : Prop :=
  ∀ token, m.activeToken = some token → generation < token.generation

theorem newer_step {generation : ℕ} (hle : generation ≤ m.generation) (h : Newer generation m)
    (op : Op) : Newer generation (m.step op) := by
  cases op with
  | accept update =>
    rw [step]
    rcases m.accept_cases update with ⟨-, hsame⟩ | ⟨hr, -⟩
    · rw [hsame]
      exact h
    · rw [hr]
      cases update with
      | prepare => exact h
      | active revision assignment =>
        intro token htoken
        cases htoken
        exact Nat.lt_succ_of_le hle
  | markMediaActive token =>
    rw [step, MediaRouteTransition.markMediaActive]
    split
    · exact h
    · exact h
  | reset => exact nofun

theorem newer_run {generation : ℕ} {ops : List Op} (hle : generation ≤ m.generation)
    (h : Newer generation m) : Newer generation (m.run ops) := by
  induction ops generalizing m with
  | nil => exact h
  | cons op ops ih => exact ih (le_trans hle (generation_le_step m op)) (newer_step hle h op)

theorem disturbed_active {ops : List Op} (h : ¬ Undisturbed (fun u => u.phase = .active) m ops) :
    Newer m.generation (m.run ops) := by
  induction ops generalizing m with
  | nil => exact absurd trivial h
  | cons op ops ih =>
    by_cases hrest : Undisturbed (fun u => u.phase = .active) (m.step op) ops
    · have hstep : Newer m.generation (m.step op) → Newer m.generation (m.run (op :: ops)) :=
        newer_run (generation_le_step m op)
      refine hstep ?_
      cases op with
      | accept update =>
        rcases m.accept_cases update with ⟨hr, -⟩ | ⟨hr, -⟩
        · exact absurd ⟨fun haccepted => absurd haccepted hr, hrest⟩ h
        · rw [step, hr]
          cases update with
          | prepare => exact absurd ⟨fun _ => nofun, hrest⟩ h
          | active revision assignment =>
            intro token htoken
            cases htoken
            exact Nat.lt_succ_self _
      | markMediaActive token => exact absurd ⟨trivial, hrest⟩ h
      | reset =>
        intro token htoken
        cases htoken
    · exact fun token htoken =>
        lt_of_le_of_lt (generation_le_step m op) (ih hrest token htoken)

/-! ## Convergence -/

theorem token_eq_some_iff {token : RouteOperationToken} : m.token = some token ↔
    0 ≤ m.revision ∧ m.phase ≠ none ∧ token = ⟨m.revision, m.generation⟩ := by
  unfold MediaRouteTransition.token
  split
  · next h =>
    rw [Bool.or_eq_true, decide_eq_true_eq, decide_eq_true_eq] at h
    refine iff_of_false (fun hnone => by cases hnone) fun ⟨hle, hphase, _⟩ => ?_
    rcases h with h | h
    · omega
    · exact hphase h
  · next h =>
    rw [Bool.or_eq_true, decide_eq_true_eq, decide_eq_true_eq, not_or] at h
    rw [Option.some_inj, eq_comm]
    exact ⟨fun heq => ⟨by omega, h.2, heq⟩, fun ⟨_, _, heq⟩ => heq⟩

theorem owns_iff {token : RouteOperationToken} {phase : Option MediaRoutePhase} :
    m.owns token phase = true ↔ token = ⟨m.revision, m.generation⟩ ∧ (phase = none ∨ m.phase = phase) := by
  cases token with
  | mk revision generation => simp [owns]

theorem ownsActive_iff {token : RouteOperationToken} :
    m.ownsActive token = true ↔ m.activeToken = some token := by
  simp [ownsActive]

/-- The route of a client over every run of updates from one server, in any order and any
    number of times, with resets and late uses of tokens in between. -/
theorem route_converges (server : Server) (ops : List Op)
    (hissued : ∀ update, .accept update ∈ ops → server.Issues update) :
    let m := run {} ops
    (∀ update, m.revision ≤ (m.accept update).2.revision ∧
      ((m.accept update).1 ≠ .accepted → (m.accept update).2 = m)) ∧
    ((m.activeToken = none ∧ m.activeAssignment = none ∧ ∀ revision, ¬ Landed (heard ops) revision) ∨
      ∃ revision : ℕ, Landed (heard ops) revision ∧
        (∀ revision', Landed (heard ops) revision' → revision' ≤ revision) ∧
        m.getActiveRevision = some (revision : ℤ) ∧
        m.activeAssignment = some (server.assignment revision)) ∧
    (∀ update, (m.accept update).1 = .accepted →
      (m.accept update).2.token = some ⟨update.revision, m.generation + 1⟩ ∧
      (update.phase = .active →
        (m.accept update).2.activeToken = some ⟨update.revision, m.generation + 1⟩)) ∧
    (∀ token phase, 0 ≤ token.revision →
      (m.owns token phase = true ↔ m.token = some token ∧ (phase = none ∨ m.phase = phase))) ∧
    (∀ token, m.token = some token → ∀ later,
      ((m.run later).owns token none = true ↔ Undisturbed (fun _ => True) m later) ∧
      (m.phase = some .prepare → (m.run later).ownsActive token = false)) ∧
    (∀ token, m.activeToken = some token → ∀ later,
      ((m.run later).ownsActive token = true ↔ Undisturbed (fun u => u.phase = .active) m later)) ∧
    ∀ token, match m.markMediaActive token with
      | (true, m') => m.activeToken = some token ∧ m' = { m with mediaAssignment := m.activeAssignment }
      | (false, m') => m' = m := by
  have hheard := run_heard ops hissued
  have hcounted : Counted (run {} ops) := counted_run counted_fresh ops
  generalize run {} ops = m at hheard hcounted
  refine ⟨?_, ?_, ?_, ?_, ?_, ?_, ?_⟩
  · intro update
    refine ⟨revision_le_accept m update, fun hr => ?_⟩
    rcases m.accept_cases update with ⟨-, hsame⟩ | ⟨haccepted, -⟩
    · exact hsame
    · exact absurd (by rw [haccepted]) hr
  · cases htoken : m.activeToken with
    | none =>
      obtain ⟨hassignment, hno⟩ := hheard.none_active htoken
      exact .inl ⟨rfl, hassignment, hno⟩
    | some token =>
      obtain ⟨revision, hrev, hassignment, hl, hmax⟩ := hheard.some_active token htoken
      refine .inr ⟨revision, hl, hmax, ?_, hassignment⟩
      rw [getActiveRevision, htoken, Option.map_some, hrev]
  · intro update hr
    rcases m.accept_cases update with ⟨hrefused, -⟩ | ⟨haccepted, -⟩
    · exact absurd hr hrefused
    · rw [haccepted]
      refine ⟨token_eq_some_iff.2 ⟨?_, ?_, ?_⟩, fun hactive => ?_⟩
      · rw [install_revision]
        exact Int.natCast_nonneg _
      · rw [install_phase]
        exact nofun
      · rw [install_revision, install_generation]
      · cases update with
        | prepare => cases hactive
        | active => rfl
  · intro token phase hle
    rw [owns_iff, token_eq_some_iff]
    refine and_congr_left fun _ => ⟨?_, fun ⟨_, _, heq⟩ => heq⟩
    rintro rfl
    exact ⟨hle, fun hphase => absurd (hcounted.idle.2 hphase) (not_lt.2 hle), rfl⟩
  · intro token htoken later
    obtain ⟨hle, -, rfl⟩ := token_eq_some_iff.1 htoken
    constructor
    · rw [owns_iff]
      by_cases h : Undisturbed (fun _ => True) m later
      · obtain ⟨hgeneration, hrevision, -⟩ := undisturbed_all h
        exact iff_of_true ⟨by rw [hgeneration, hrevision], .inl rfl⟩ h
      · refine iff_of_false (fun ⟨heq, _⟩ => ?_) h
        exact absurd (congrArg RouteOperationToken.generation heq) (ne_of_lt (disturbed_all h))
    · intro hphase
      refine Bool.eq_false_iff.2 fun howns => ?_
      rw [ownsActive_iff] at howns
      by_cases h : Undisturbed (fun u => u.phase = .active) m later
      · rw [undisturbed_active h] at howns
        exact lt_irrefl _ (hcounted.prepared hphase _ howns)
      · exact lt_irrefl _ (disturbed_active h _ howns)
  · intro token htoken later
    rw [ownsActive_iff]
    by_cases h : Undisturbed (fun u => u.phase = .active) m later
    · exact iff_of_true (by rw [undisturbed_active h, htoken]) h
    · refine iff_of_false (fun howns => ?_) h
      exact absurd (disturbed_active h _ howns) (not_lt.2 (hcounted.active token htoken))
  · intro token
    unfold MediaRouteTransition.markMediaActive
    by_cases h : !m.ownsActive token || m.activeAssignment = none
    · rw [if_pos h]
    · rw [if_neg h]
      rw [Bool.or_eq_true, not_or, Bool.not_eq_true, Bool.not_eq_false'] at h
      exact ⟨ownsActive_iff.1 h.1, rfl⟩

/-- A server that has the viewer on the SFU in every revision. -/
def sfuServer : Server where
  assignment _ := { upstream := .sfu, childPeerIDs := [], sfuPublicationGeneration := some "g" }
  candidate _ := { childPeerID := "v", connectionID := "c", transport := .sfu, qualityProbe := false }

/-- Revision 2 is prepared before revision 1 commits, and overtakes it. -/
def overtaken : List Op := [
  .accept (.active 0 (sfuServer.assignment 0)),
  .accept (.prepare 1 (sfuServer.assignment 1) (sfuServer.candidate 1)),
  .accept (.prepare 2 (sfuServer.assignment 2) (sfuServer.candidate 2)),
  .accept (.active 1 (sfuServer.assignment 1))]

theorem route_converges_overtaken :
    let m := run {} overtaken
    (m.activeToken = none ∧ m.activeAssignment = none ∧
      ∀ revision, ¬ Landed (heard overtaken) revision) ∨
    ∃ revision : ℕ, Landed (heard overtaken) revision ∧
      (∀ revision', Landed (heard overtaken) revision' → revision' ≤ revision) ∧
      m.getActiveRevision = some (revision : ℤ) ∧
      m.activeAssignment = some (sfuServer.assignment revision) := by
  refine (route_converges sfuServer overtaken fun update hmem => ?_).2.1
  simp only [overtaken, List.mem_cons, Op.accept.injEq, List.not_mem_nil, or_false] at hmem
  rcases hmem with rfl | rfl | rfl | rfl
  · rfl
  · exact ⟨rfl, rfl⟩
  · exact ⟨rfl, rfl⟩
  · rfl

example : (run {} overtaken).getActiveRevision = some 0 := by decide

end MediaRouteTransition

end Piik.Client
