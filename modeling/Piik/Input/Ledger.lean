/-
  What is held down at the Host (`held.go`).

  `pressed` gives the keys and buttons that are physically down.  `Physical`
  says what the sink promises: a press that fails presses nothing, a release
  that succeeds lets go, and a `Reset` that succeeds lets go of everything.

  * `Ledger owed m`: whatever is down is recorded as held by a connection,
    pending, or in `owed`; nothing pending is recorded as held;
  * `Cleans m m'`: the step from `m` to `m'` calls `Apply` for releases only,
    takes no record of a held input up, and leaves the grants alone.
-/
import Piik.Input.Grants

namespace Piik.Input

/-- An input that can be down. -/
inductive Held
  | key (code : String)
  | button (button : ℤ)
  deriving DecidableEq, Repr

namespace InputEvent

/-- The input an event presses or lets go. -/
def input (event : InputEvent) : Option Held :=
  match event.type with
  | .key => some (.key event.code)
  | .button => some (.button event.button)
  | _ => none

end InputEvent

/-- The calls of the platform that carry no input. -/
inductive Platform.Silent {σ : Type} (P : Platform σ) : σ → σ → Prop
  | authorize (s) : Silent P s (P.authorize s).2
  | target (t c s) : Silent P s (P.target t c s).2
  | closeSink (s) : Silent P s (P.closeSink s)
  | openGamepadBackend (s) : Silent P s (P.openGamepadBackend s).2
  | closeGamepadBackend (s) : Silent P s (P.closeGamepadBackend s)
  | updatePad (c r s) : Silent P s (P.updatePad c r s).2
  | closePad (c s) : Silent P s (P.closePad c s)
  | registerStop (k s) : Silent P s (P.registerStop k s).2
  | releaseStop (s) : Silent P s (P.releaseStop s)
  | now (s) : Silent P s (P.now s).2
  | random (n s) : Silent P s (P.random n s).2
  | range (l s) : Silent P s (P.range l s).2
  | rangeKeys (l s) : Silent P s (P.rangeKeys l s).2
  | rangeButtons (l s) : Silent P s (P.rangeButtons l s).2

/-- What is physically down, as the calls of the sink leave it. -/
structure Physical {σ : Type} (P : Platform σ) (pressed : σ → Set Held) : Prop where
  silent : ∀ {s s'}, P.Silent s s' → pressed s' ⊆ pressed s
  apply_failed : ∀ b e s, (P.apply b e s).1 ≠ none → pressed (P.apply b e s).2 ⊆ pressed s
  apply_press : ∀ b e s, pressed (P.apply b e s).2 ⊆ pressed s ∪ {h | e.input = some h}
  apply_release : ∀ b e s h, (P.apply b e s).1 = none → e.releasing → e.input = some h →
    pressed (P.apply b e s).2 ⊆ pressed s \ {h}
  reset : ∀ s, (P.reset s).1 = none → pressed (P.reset s).2 = ∅
  reset_failed : ∀ s, pressed (P.reset s).2 ⊆ pressed s

/-- The inputs a connection is recorded as holding. -/
def Connection.held (conn : Connection) : Set Held :=
  {h | match h with
    | .key code => code ∈ conn.keys
    | .button button => button ∈ conn.buttons}

@[simp] theorem Connection.key_mem_held {conn : Connection} {code : String} :
    Held.key code ∈ conn.held ↔ code ∈ conn.keys := Iff.rfl

@[simp] theorem Connection.button_mem_held {conn : Connection} {button : ℤ} :
    Held.button button ∈ conn.held ↔ button ∈ conn.buttons := Iff.rfl

theorem Connection.held_eq_empty {conn : Connection} :
    conn.held = ∅ ↔ conn.keys = [] ∧ conn.buttons = [] := by
  simp only [Set.eq_empty_iff_forall_notMem, List.eq_nil_iff_forall_not_mem]
  constructor
  · intro h
    exact ⟨fun code => h (.key code), fun button => h (.button button)⟩
  · rintro ⟨hk, hb⟩ (code | button)
    · exact hk code
    · exact hb button

/-- A connection without its record of held inputs. -/
def Connection.bare (conn : Connection) : Connection :=
  { conn with keys := [], buttons := [], inputFailed := false }

namespace Manager

variable {σ : Type}

/-- What the connections hold. -/
def held (m : Manager σ) : Set Held :=
  {h | ∃ c conn, m.connections.get c = some conn ∧ h ∈ conn.held}

/-- What is still to be let go of. -/
def pending (m : Manager σ) : Set Held :=
  {h | match h with
    | .key code => code ∈ m.pendingKeys
    | .button button => button ∈ m.pendingButtons}

@[simp] theorem key_mem_pending {m : Manager σ} {code : String} :
    Held.key code ∈ m.pending ↔ code ∈ m.pendingKeys := Iff.rfl

@[simp] theorem button_mem_pending {m : Manager σ} {button : ℤ} :
    Held.button button ∈ m.pending ↔ button ∈ m.pendingButtons := Iff.rfl

theorem keyHeld_iff {m : Manager σ} {code : String} :
    m.keyHeld code = true ↔ Held.key code ∈ m.held := by
  simp only [keyHeld, List.any_eq_true, OMap.mem_values, decide_eq_true_eq]
  constructor
  · rintro ⟨conn, ⟨c, hc⟩, hk⟩
    exact ⟨c, conn, hc, hk⟩
  · rintro ⟨c, conn, hc, hk⟩
    exact ⟨conn, ⟨c, hc⟩, hk⟩

theorem buttonHeld_iff {m : Manager σ} {button : ℤ} :
    m.buttonHeld button = true ↔ Held.button button ∈ m.held := by
  simp only [buttonHeld, List.any_eq_true, OMap.mem_values, decide_eq_true_eq]
  constructor
  · rintro ⟨conn, ⟨c, hc⟩, hk⟩
    exact ⟨c, conn, hc, hk⟩
  · rintro ⟨c, conn, hc, hk⟩
    exact ⟨conn, ⟨c, hc⟩, hk⟩

theorem releasePending_iff {m : Manager σ} : m.releasePending = false ↔ m.pending = ∅ := by
  simp only [releasePending, Bool.or_eq_false_iff, decide_eq_false_iff_not, not_not]
  constructor
  · rintro ⟨hk, hb⟩
    ext h
    cases h <;> simp [hk, hb]
  · intro h
    constructor
    · exact List.eq_nil_iff_forall_not_mem.2 fun code hc => by
        have : Held.key code ∈ m.pending := hc
        rw [h] at this
        exact this
    · exact List.eq_nil_iff_forall_not_mem.2 fun button hb => by
        have : Held.button button ∈ m.pending := hb
        rw [h] at this
        exact this

theorem conn_eq {m : Manager σ} {c : EndpointKey} {conn : Connection}
    (h : m.connections.get c = some conn) : m.conn c = conn := by
  rw [Manager.conn, h]; rfl

theorem get_setConn (m : Manager σ) (c c' : EndpointKey) (f : Connection → Connection) :
    (m.setConn c f).connections.get c' =
      if c' = c then (m.connections.get c).map f else m.connections.get c' := by
  by_cases h : c' = c
  · subst h; simp [setConn]
  · rw [if_neg h]; exact OMap.get_modify_of_ne _ f h

end Manager

/-! ## The ledger -/

/-- Whatever is pressed on the platform is held by somebody, pending, or owed by the step under way.
    -/
structure Ledger {σ : Type} (pressed : σ → Set Held) (owed : Set Held) (m : Manager σ) : Prop where
  recorded : pressed m.sink ⊆ m.held ∪ m.pending ∪ owed
  disjoint : ∀ h ∈ m.pending, h ∉ m.held

namespace Ledger

variable {σ : Type} {pressed : σ → Set Held} {owed owed' : Set Held} {m m' : Manager σ}

theorem mono (h : Ledger pressed owed m) (ho : owed ⊆ m.held ∪ m.pending ∪ owed') :
    Ledger pressed owed' m where
  recorded := by
    intro x hx
    rcases h.recorded hx with hx | hx
    · exact Or.inl hx
    · exact ho hx
  disjoint := h.disjoint

/-- A step that leaves the records alone and presses nothing. -/
theorem same (h : Ledger pressed owed m) (hheld : m'.held = m.held) (hpend : m'.pending = m.pending)
    (hs : pressed m'.sink ⊆ pressed m.sink) : Ledger pressed owed m' where
  recorded := by rw [hheld, hpend]; exact hs.trans h.recorded
  disjoint := by rw [hheld, hpend]; exact h.disjoint

/-- A release that succeeded. -/
theorem released {x : Held} (h : Ledger pressed (insert x owed) m) (hheld : m'.held = m.held)
    (hpend : m'.pending = m.pending \ {x}) (hs : pressed m'.sink ⊆ pressed m.sink \ {x}) :
    Ledger pressed owed m' where
  recorded := by
    intro y hy
    have hy' := hs hy
    rw [hheld, hpend]
    rcases h.recorded hy'.1 with (hr | hr) | hr
    · exact Or.inl (Or.inl hr)
    · exact Or.inl (Or.inr ⟨hr, hy'.2⟩)
    · exact Or.inr (hr.resolve_left hy'.2)
  disjoint := by
    rw [hheld, hpend]
    exact fun y hy => h.disjoint y hy.1

/-- A release that failed stays due, as long as nobody holds the input. -/
theorem retained {x : Held} (h : Ledger pressed (insert x owed) m) (hx : x ∉ m.held)
    (hheld : m'.held = m.held) (hpend : m'.pending = insert x m.pending)
    (hs : pressed m'.sink ⊆ pressed m.sink) : Ledger pressed owed m' where
  recorded := by
    intro y hy
    rw [hheld, hpend]
    rcases h.recorded (hs hy) with (hr | hr) | hr
    · exact Or.inl (Or.inl hr)
    · exact Or.inl (Or.inr (Or.inr hr))
    · rcases hr with rfl | hr
      · exact Or.inl (Or.inr (Or.inl rfl))
      · exact Or.inr hr
  disjoint := by
    rw [hheld, hpend]
    rintro y (rfl | hy)
    · exact hx
    · exact h.disjoint y hy

end Ledger

/-! ## Steps that only clean up -/

/-- The record of a call that is no release. -/
def inputs (applied : List Applied) : List Applied := applied.filter fun a => !a.event.releasing

@[simp] theorem inputs_nil : inputs [] = [] := rfl

@[simp] theorem inputs_append (l l' : List Applied) : inputs (l ++ l') = inputs l ++ inputs l' :=
  List.filter_append ..

/-- Nothing changes but what is held and pending, and what is told of it. -/
structure Cleans {σ : Type} (m m' : Manager σ) : Prop where
  owner : m'.owner = m.owner
  sessions : m'.sessions = m.sessions
  closed : m'.closed = m.closed
  bare : ∀ c, (m'.connections.get c).map Connection.bare = (m.connections.get c).map Connection.bare
  shrinks : ∀ c conn', m'.connections.get c = some conn' →
    ∃ conn, m.connections.get c = some conn ∧ conn'.held ⊆ conn.held
  applied : ∃ new, m'.applied = m.applied ++ new ∧ inputs new = []

namespace Cleans

variable {σ : Type} {m m₁ m₂ : Manager σ}

theorem refl (m : Manager σ) : Cleans m m where
  owner := rfl
  sessions := rfl
  closed := rfl
  bare _ := rfl
  shrinks _ conn' h := ⟨conn', h, subset_rfl⟩
  applied := ⟨[], by simp⟩

theorem trans (h : Cleans m m₁) (h' : Cleans m₁ m₂) : Cleans m m₂ where
  owner := h'.owner.trans h.owner
  sessions := h'.sessions.trans h.sessions
  closed := h'.closed.trans h.closed
  bare c := (h'.bare c).trans (h.bare c)
  shrinks c conn' hc := by
    obtain ⟨conn₁, hc₁, hs₁⟩ := h'.shrinks c conn' hc
    obtain ⟨conn, hc₀, hs₀⟩ := h.shrinks c conn₁ hc₁
    exact ⟨conn, hc₀, hs₁.trans hs₀⟩
  applied := by
    obtain ⟨new, hn, hi⟩ := h.applied
    obtain ⟨new', hn', hi'⟩ := h'.applied
    exact ⟨new ++ new', by rw [hn', hn, List.append_assoc], by rw [inputs_append, hi, hi']; rfl⟩

/-- A step that leaves the connections, the owner, the sessions and the calls alone. -/
theorem of_eq (hc : m₁.connections = m.connections) (ho : m₁.owner = m.owner)
    (hs : m₁.sessions = m.sessions) (hcl : m₁.closed = m.closed) (ha : m₁.applied = m.applied) :
    Cleans m m₁ where
  owner := ho
  sessions := hs
  closed := hcl
  bare c := by rw [hc]
  shrinks c conn' h := ⟨conn', by rw [← hc]; exact h, subset_rfl⟩
  applied := ⟨[], by simp [ha]⟩

theorem setConn (c : EndpointKey) (f : Connection → Connection) (hb : ∀ conn, (f conn).bare = conn.bare)
    (hh : ∀ conn, (f conn).held ⊆ conn.held) : Cleans m (m.setConn c f) where
  owner := rfl
  sessions := rfl
  closed := rfl
  bare c' := by
    rw [Manager.get_setConn]
    by_cases h : c' = c
    · subst h
      rw [if_pos rfl]
      cases m.connections.get c' <;> simp [hb]
    · rw [if_neg h]
  shrinks c' conn' hc := by
    rw [Manager.get_setConn] at hc
    by_cases h : c' = c
    · subst h
      rw [if_pos rfl, Option.map_eq_some_iff] at hc
      obtain ⟨conn, hc, rfl⟩ := hc
      exact ⟨conn, hc, hh conn⟩
    · rw [if_neg h] at hc
      exact ⟨conn', hc, subset_rfl⟩
  applied := ⟨[], by simp [Manager.setConn]⟩

theorem held (h : Cleans m m₁) : m₁.held ⊆ m.held := by
  rintro x ⟨c, conn', hc, hx⟩
  obtain ⟨conn, hc', hs⟩ := h.shrinks c conn' hc
  exact ⟨c, conn, hc', hs hx⟩

end Cleans

namespace Manager

variable {σ : Type} {P : Platform σ} {pressed : σ → Set Held} {owed : Set Held} {m : Manager σ}

theorem joinEach_induct {α : Type} {f : α → Manager σ → Option String × Manager σ}
    {I : List α → Manager σ → Prop} (step : ∀ a as m, I (a :: as) m → I as (f a m).2) :
    ∀ (as : List α) (err : Option String) (m : Manager σ), I as m → I [] (joinEach f as (err, m)).2
  | [], _, _, h => h
  | a :: as, _, m, h => joinEach_induct step as _ _ (step a as m h)

theorem joinEach_cleans {α : Type} {f : α → Manager σ → Option String × Manager σ}
    (step : ∀ a m, Cleans m (f a m).2) (as : List α) (err : Option String) (m : Manager σ) :
    Cleans m (joinEach f as (err, m)).2 :=
  joinEach_induct (I := fun _ m' => Cleans m m') (fun a _ m' h => h.trans (step a m')) as err m
    (.refl m)

theorem held_congr {m m' : Manager σ} (h : m'.connections = m.connections) : m'.held = m.held := by
  rw [held, held, h]

theorem pending_congr {m m' : Manager σ} (hk : m'.pendingKeys = m.pendingKeys)
    (hb : m'.pendingButtons = m.pendingButtons) : m'.pending = m.pending := by
  rw [pending, pending, hk, hb]

/-! ## One release -/

theorem applyInput_eq (b : Bounds) (event : InputEvent) (m : Manager σ) :
    m.applyInput P b event = ((P.apply b event m.sink).1,
      { m with
        sink := (P.apply b event m.sink).2
        applied := m.applied ++ [⟨event, (P.apply b event m.sink).1.isNone, m.connections,
          m.pendingKeys, m.pendingButtons⟩] }) := rfl

theorem releaseKey_cleans (code : String) (m : Manager σ) : Cleans m (m.releaseKey P code).2 := by
  simp only [releaseKey, applyInput_eq]
  have hshrinks (c : EndpointKey) (conn : Connection) (h : m.connections.get c = some conn) :
      ∃ conn', m.connections.get c = some conn' ∧ conn.held ⊆ conn'.held := ⟨conn, h, subset_rfl⟩
  rcases (P.apply {} { type := .key, code } m.sink).1 with _ | err
  · exact ⟨rfl, rfl, rfl, fun _ => rfl, hshrinks, _, rfl, rfl⟩
  · exact ⟨rfl, rfl, rfl, fun _ => rfl, hshrinks, _, rfl, rfl⟩

theorem releaseButton_cleans (button : ℤ) (m : Manager σ) :
    Cleans m (m.releaseButton P button).2 := by
  simp only [releaseButton, applyInput_eq]
  have hshrinks (c : EndpointKey) (conn : Connection) (h : m.connections.get c = some conn) :
      ∃ conn', m.connections.get c = some conn' ∧ conn.held ⊆ conn'.held := ⟨conn, h, subset_rfl⟩
  rcases (P.apply {} { type := .button, button } m.sink).1 with _ | err
  · exact ⟨rfl, rfl, rfl, fun _ => rfl, hshrinks, _, rfl, rfl⟩
  · exact ⟨rfl, rfl, rfl, fun _ => rfl, hshrinks, _, rfl, rfl⟩

theorem releaseKey_ledger (phys : Physical P pressed) {code : String}
    (h : Ledger pressed (insert (.key code) owed) m) (hk : Held.key code ∉ m.held) :
    Ledger pressed owed (m.releaseKey P code).2 := by
  have hok := phys.apply_release {} { type := .key, code } m.sink (.key code)
  have hfail := phys.apply_failed {} { type := .key, code } m.sink
  simp only [releaseKey, applyInput_eq]
  generalize P.apply {} { type := .key, code } m.sink = r at hok hfail ⊢
  obtain ⟨_ | err, s⟩ := r
  · refine h.released (held_congr rfl) ?_ (hok rfl rfl rfl)
    ext x
    cases x <;> simp
  · refine h.retained hk (held_congr rfl) ?_ (hfail (by simp))
    ext x
    cases x <;> simp

theorem releaseButton_ledger (phys : Physical P pressed) {button : ℤ}
    (h : Ledger pressed (insert (.button button) owed) m) (hb : Held.button button ∉ m.held) :
    Ledger pressed owed (m.releaseButton P button).2 := by
  have hok := phys.apply_release {} { type := .button, button } m.sink (.button button)
  have hfail := phys.apply_failed {} { type := .button, button } m.sink
  simp only [releaseButton, applyInput_eq]
  generalize P.apply {} { type := .button, button } m.sink = r at hok hfail ⊢
  obtain ⟨_ | err, s⟩ := r
  · refine h.released (held_congr rfl) ?_ (hok rfl rfl rfl)
    ext x
    cases x <;> simp
  · refine h.retained hb (held_congr rfl) ?_ (hfail (by simp))
    ext x
    cases x <;> simp

theorem clearKey_ledger (phys : Physical P pressed) {code : String}
    (h : Ledger pressed (insert (.key code) owed) m) :
    Ledger pressed owed (m.clearKey P code).2 := by
  by_cases hk : m.keyHeld code
  · rw [clearKey, if_pos hk]
    refine h.mono ?_
    rintro x (rfl | hx)
    · exact Or.inl (Or.inl (keyHeld_iff.1 hk))
    · exact Or.inr hx
  · rw [clearKey, if_neg hk]
    exact releaseKey_ledger phys h fun hh => hk (keyHeld_iff.2 hh)

theorem clearButton_ledger (phys : Physical P pressed) {button : ℤ}
    (h : Ledger pressed (insert (.button button) owed) m) :
    Ledger pressed owed (m.clearButton P button).2 := by
  by_cases hb : m.buttonHeld button
  · rw [clearButton, if_pos hb]
    refine h.mono ?_
    rintro x (rfl | hx)
    · exact Or.inl (Or.inl (buttonHeld_iff.1 hb))
    · exact Or.inr hx
  · rw [clearButton, if_neg hb]
    exact releaseButton_ledger phys h fun hh => hb (buttonHeld_iff.2 hh)

/-! ## Many releases -/

/-- Releases of keys, each unless somebody still holds it. -/
theorem releaseKeys_ledger (phys : Physical P pressed) (codes : List String) (err : Option String)
    (h : Ledger pressed ({x | ∃ code ∈ codes, x = .key code} ∪ owed) m) :
    Ledger pressed owed (joinEach (clearKey P) codes (err, m)).2 := by
  refine (joinEach_induct (I := fun codes m =>
    Ledger pressed ({x | ∃ code ∈ codes, x = .key code} ∪ owed) m) ?_ codes err m h).mono (by simp)
  intro code codes m h
  have hsplit : {x | ∃ k ∈ code :: codes, x = Held.key k} ∪ owed =
      insert (.key code) ({x | ∃ k ∈ codes, x = Held.key k} ∪ owed) := by
    ext x
    simp [or_assoc]
  rw [hsplit] at h
  exact clearKey_ledger phys h

theorem releaseButtons_ledger (phys : Physical P pressed) (buttons : List ℤ) (err : Option String)
    (h : Ledger pressed ({x | ∃ button ∈ buttons, x = .button button} ∪ owed) m) :
    Ledger pressed owed (joinEach (clearButton P) buttons (err, m)).2 := by
  refine (joinEach_induct (I := fun buttons m =>
    Ledger pressed ({x | ∃ button ∈ buttons, x = .button button} ∪ owed) m) ?_ buttons err m
      h).mono (by simp)
  intro button buttons m h
  have hsplit : {x | ∃ b ∈ button :: buttons, x = Held.button b} ∪ owed =
      insert (.button button) ({x | ∃ b ∈ buttons, x = Held.button b} ∪ owed) := by
    ext x
    simp [or_assoc]
  rw [hsplit] at h
  exact clearButton_ledger phys h

/-- A release that is not due for anybody else changes no record of a held input. -/
theorem releaseKey_held (code : String) (m : Manager σ) : (m.releaseKey P code).2.held = m.held := by
  simp only [releaseKey, applyInput_eq]
  rcases (P.apply {} { type := .key, code } m.sink).1 with _ | err <;> rfl

theorem releaseButton_held (button : ℤ) (m : Manager σ) :
    (m.releaseButton P button).2.held = m.held := by
  simp only [releaseButton, applyInput_eq]
  rcases (P.apply {} { type := .button, button } m.sink).1 with _ | err <;> rfl

theorem setSink_cleans (m : Manager σ) (s : σ) : Cleans m (m.setSink s) :=
  .of_eq rfl rfl rfl rfl rfl

@[simp] theorem setSink_held (m : Manager σ) (s : σ) : (m.setSink s).held = m.held := rfl

@[simp] theorem setSink_pending (m : Manager σ) (s : σ) : (m.setSink s).pending = m.pending := rfl

@[simp] theorem setSink_connections (m : Manager σ) (s : σ) :
    (m.setSink s).connections = m.connections := rfl

theorem setSink_ledger (phys : Physical P pressed) (h : Ledger pressed owed m) {s : σ}
    (hs : P.Silent m.sink s) : Ledger pressed owed (m.setSink s) :=
  h.same rfl rfl (phys.silent hs)

theorem retryKeys_cleans (m : Manager σ) : Cleans m (m.retryKeys P).2 :=
  (setSink_cleans m _).trans (joinEach_cleans (f := retryKey P) releaseKey_cleans _ _ _)

theorem retryButtons_cleans (err : Option String) (m : Manager σ) :
    Cleans m (m.retryButtons P err).2 :=
  (setSink_cleans m _).trans (joinEach_cleans (f := retryButton P) releaseButton_cleans _ _ _)

theorem retryReleases_cleans (m : Manager σ) : Cleans m (m.retryReleases P).2 :=
  (retryKeys_cleans m).trans (retryButtons_cleans _ _)

/-- What is pending is held by nobody, so a retry lets nobody's input go. -/
theorem retryKeys_ledger (phys : Physical P pressed) (h : Ledger pressed owed m) :
    Ledger pressed owed (m.retryKeys P).2 ∧ (m.retryKeys P).2.held = m.held := by
  have hkeys := joinEach_induct
    (f := retryKey P)
    (I := fun codes m' => Ledger pressed owed m' ∧ m'.held = m.held ∧
      ∀ code ∈ codes, Held.key code ∉ m.held) (fun code codes m' hI => by
      obtain ⟨hl, hh, hc⟩ := hI
      have hk : Held.key code ∉ m'.held := by
        rw [hh]
        exact hc code (List.mem_cons_self ..)
      refine ⟨releaseKey_ledger phys (hl.mono ?_) hk, (releaseKey_held code m').trans hh, ?_⟩
      · exact fun x hx => Or.inr (Or.inr hx)
      · exact fun code' hc' => hc code' (List.mem_cons_of_mem _ hc'))
    (P.rangeKeys m.pendingKeys m.sink).1 none (m.setSink (P.rangeKeys m.pendingKeys m.sink).2)
    ⟨setSink_ledger phys h (.rangeKeys ..), rfl, fun code hc =>
      h.disjoint _ (((P.rangeKeys_perm _ _).mem_iff).1 hc)⟩
  exact ⟨hkeys.1, hkeys.2.1⟩

theorem retryButtons_ledger (phys : Physical P pressed) (err : Option String)
    (h : Ledger pressed owed m) :
    Ledger pressed owed (m.retryButtons P err).2 ∧ (m.retryButtons P err).2.held = m.held := by
  have hbuttons := joinEach_induct
    (f := retryButton P)
    (I := fun buttons m' => Ledger pressed owed m' ∧ m'.held = m.held ∧
      ∀ button ∈ buttons, Held.button button ∉ m.held) (fun button buttons m' hI => by
      obtain ⟨hl, hh, hb⟩ := hI
      have hk : Held.button button ∉ m'.held := by
        rw [hh]
        exact hb button (List.mem_cons_self ..)
      refine ⟨releaseButton_ledger phys (hl.mono ?_) hk, (releaseButton_held button m').trans hh, ?_⟩
      · exact fun x hx => Or.inr (Or.inr hx)
      · exact fun button' hb' => hb button' (List.mem_cons_of_mem _ hb'))
    (P.rangeButtons m.pendingButtons m.sink).1 err
    (m.setSink (P.rangeButtons m.pendingButtons m.sink).2)
    ⟨setSink_ledger phys h (.rangeButtons ..), rfl, fun button hb =>
      h.disjoint _ (((P.rangeButtons_perm _ _).mem_iff).1 hb)⟩
  exact ⟨hbuttons.1, hbuttons.2.1⟩

theorem retryReleases_ledger (phys : Physical P pressed) (h : Ledger pressed owed m) :
    Ledger pressed owed (m.retryReleases P).2 ∧ (m.retryReleases P).2.held = m.held := by
  obtain ⟨hl, hh⟩ := retryKeys_ledger phys h
  obtain ⟨hl', hh'⟩ := retryButtons_ledger phys (m.retryKeys P).1 hl
  exact ⟨hl', hh'.trans hh⟩

/-- Taking records up leaves what they recorded owed. -/
theorem setConn_ledger (h : Ledger pressed owed m) (c : EndpointKey) (f : Connection → Connection)
    (hf : ∀ conn, (f conn).held ⊆ conn.held) :
    Ledger pressed ({x | x ∈ (m.conn c).held ∧ x ∉ (f (m.conn c)).held} ∪ owed) (m.setConn c f) := by
  have hsub : (m.setConn c f).held ⊆ m.held := by
    rintro x ⟨c', conn, hc, hx⟩
    rw [get_setConn] at hc
    by_cases hcc : c' = c
    · rw [if_pos hcc, Option.map_eq_some_iff] at hc
      obtain ⟨conn', hc, rfl⟩ := hc
      exact ⟨c, conn', hc, hf conn' hx⟩
    · rw [if_neg hcc] at hc
      exact ⟨c', conn, hc, hx⟩
  constructor
  · intro x hx
    rcases h.recorded hx with (⟨c', conn, hc, hh⟩ | hp) | ho
    · by_cases hcc : c' = c
      · subst hcc
        rw [conn_eq hc]
        by_cases hf' : x ∈ (f conn).held
        · refine Or.inl (Or.inl ⟨c', f conn, ?_, hf'⟩)
          rw [get_setConn, if_pos rfl, hc]; rfl
        · exact Or.inr (Or.inl ⟨hh, hf'⟩)
      · refine Or.inl (Or.inl ⟨c', conn, ?_, hh⟩)
        rw [get_setConn, if_neg hcc]
        exact hc
    · exact Or.inl (Or.inr hp)
    · exact Or.inr (Or.inr ho)
  · exact fun x hx hh => h.disjoint x hx (hsub hh)

theorem noKeys_held (conn : Connection) : conn.noKeys.held ⊆ conn.held := by
  rintro (k | b) hx
  · simp [Connection.noKeys] at hx
  · exact hx

theorem noButtons_held (conn : Connection) : conn.noButtons.held ⊆ conn.held := by
  rintro (k | b) hx
  · exact hx
  · simp [Connection.noButtons] at hx

theorem clearKey_cleans (code : String) (m : Manager σ) : Cleans m (m.clearKey P code).2 := by
  rw [clearKey]
  split
  · exact .refl m
  · exact releaseKey_cleans code m

theorem clearButton_cleans (button : ℤ) (m : Manager σ) : Cleans m (m.clearButton P button).2 := by
  rw [clearButton]
  split
  · exact .refl m
  · exact releaseButton_cleans button m

theorem clearKeys_cleans (c : EndpointKey) (m : Manager σ) : Cleans m (m.clearKeys P c).2 :=
  (Cleans.setConn c .noKeys (fun _ => rfl) noKeys_held).trans ((setSink_cleans _ _).trans
    (joinEach_cleans clearKey_cleans _ _ _))

theorem clearButtons_cleans (c : EndpointKey) (err : Option String) (m : Manager σ) :
    Cleans m (m.clearButtons P c err).2 :=
  (Cleans.setConn c .noButtons (fun _ => rfl) noButtons_held).trans ((setSink_cleans _ _).trans
    (joinEach_cleans clearButton_cleans _ _ _))

theorem clearHeld_cleans (c : EndpointKey) (m : Manager σ) : Cleans m (m.clearHeld P c).2 :=
  (clearKeys_cleans c m).trans (clearButtons_cleans c _ _)

theorem clearKeys_ledger (phys : Physical P pressed) (c : EndpointKey)
    (h : Ledger pressed owed m) : Ledger pressed owed (m.clearKeys P c).2 := by
  refine releaseKeys_ledger phys _ none
    ((setSink_ledger phys (setConn_ledger h c _ noKeys_held) (.rangeKeys ..)).mono ?_)
  rintro x (⟨hx, hx'⟩ | hx)
  · cases x with
    | key code =>
      exact Or.inr (Or.inl ⟨code, ((P.rangeKeys_perm _ _).mem_iff).2 hx, rfl⟩)
    | button button => exact absurd hx hx'
  · exact Or.inr (Or.inr hx)

theorem clearButtons_ledger (phys : Physical P pressed) (c : EndpointKey) (err : Option String)
    (h : Ledger pressed owed m) : Ledger pressed owed (m.clearButtons P c err).2 := by
  refine releaseButtons_ledger phys _ err
    ((setSink_ledger phys (setConn_ledger h c _ noButtons_held) (.rangeButtons ..)).mono ?_)
  rintro x (⟨hx, hx'⟩ | hx)
  · cases x with
    | key code => exact absurd hx hx'
    | button button =>
      exact Or.inr (Or.inl ⟨button, ((P.rangeButtons_perm _ _).mem_iff).2 hx, rfl⟩)
  · exact Or.inr (Or.inr hx)

theorem clearHeld_ledger (phys : Physical P pressed) (c : EndpointKey)
    (h : Ledger pressed owed m) : Ledger pressed owed (m.clearHeld P c).2 :=
  clearButtons_ledger phys c _ (clearKeys_ledger phys c h)

/-- After `clearHeld` the connection is recorded as holding nothing. -/
theorem clearHeld_empty (c : EndpointKey) (m : Manager σ) (conn : Connection)
    (hc : (m.clearHeld P c).2.connections.get c = some conn) : conn.held = ∅ := by
  rw [Set.eq_empty_iff_forall_notMem]
  rintro (code | button) hx
  · obtain ⟨conn₂, hc₂, hs₂⟩ := (clearButtons_cleans (P := P) c _ _).shrinks c conn hc
    obtain ⟨conn₁, hc₁, hs₁⟩ := ((setSink_cleans _ _).trans
      (joinEach_cleans (clearKey_cleans (P := P)) _ _ _)).shrinks c conn₂ hc₂
    rw [get_setConn, if_pos rfl, Option.map_eq_some_iff] at hc₁
    obtain ⟨conn₀, -, rfl⟩ := hc₁
    have := hs₁ (hs₂ hx)
    simp [Connection.noKeys] at this
  · obtain ⟨conn₁, hc₁, hs₁⟩ := ((setSink_cleans _ _).trans
      (joinEach_cleans (clearButton_cleans (P := P)) _ _ _)).shrinks c conn hc
    rw [get_setConn, if_pos rfl, Option.map_eq_some_iff] at hc₁
    obtain ⟨conn₀, -, rfl⟩ := hc₁
    have := hs₁ hx
    simp [Connection.noButtons] at this

/-! ## Resetting a source -/

/-- Every held input belongs to the session. -/
def HeldBy (s : ℕ) (m : Manager σ) : Prop :=
  ∀ c conn, m.connections.get c = some conn → c.owner ≠ s → conn.held = ∅

theorem emptyHanded_held {s : ℕ} {c : EndpointKey} (conn : Connection) (hc : c.owner = s) :
    (emptyHanded s c conn).held = ∅ := by
  rw [emptyHanded, if_pos hc, Connection.held_eq_empty]
  exact ⟨rfl, rfl⟩

theorem emptyHanded_bare (s : ℕ) (c : EndpointKey) (conn : Connection) :
    (emptyHanded s c conn).bare = conn.bare := by
  rw [emptyHanded]
  split <;> rfl

theorem emptyHanded_sub (s : ℕ) (c : EndpointKey) (conn : Connection) :
    (emptyHanded s c conn).held ⊆ conn.held := by
  by_cases hc : c.owner = s
  · rw [emptyHanded_held conn hc]
    exact Set.empty_subset _
  · rw [emptyHanded, if_neg hc]

theorem owe_cleans (s : ℕ) (m : Manager σ) : Cleans m (m.owe s) where
  owner := rfl
  sessions := rfl
  closed := rfl
  bare c := by
    simp only [owe, OMap.get_mapValues, Option.map_map]
    congr 1
    funext conn
    exact emptyHanded_bare s c conn
  shrinks c conn' hc := by
    simp only [owe, OMap.get_mapValues, Option.map_eq_some_iff] at hc
    obtain ⟨conn, hc, rfl⟩ := hc
    exact ⟨conn, hc, emptyHanded_sub s c conn⟩
  applied := ⟨[], by simp [owe]⟩

theorem owe_held {s : ℕ} (hby : m.HeldBy s) : (m.owe s).held = ∅ := by
  rw [Set.eq_empty_iff_forall_notMem]
  rintro x ⟨c, conn', hc, hx⟩
  simp only [owe, OMap.get_mapValues, Option.map_eq_some_iff] at hc
  obtain ⟨conn, hc, rfl⟩ := hc
  by_cases hs : c.owner = s
  · rw [emptyHanded_held conn hs] at hx
    exact hx
  · have := emptyHanded_sub s c conn hx
    rw [hby c conn hc hs] at this
    exact this

theorem mem_heldKeys {s : ℕ} {code : String} :
    code ∈ m.heldKeys s ↔ ∃ c conn, m.connections.get c = some conn ∧ c.owner = s ∧
      code ∈ conn.keys := by
  simp only [heldKeys, List.mem_flatMap, List.mem_filter, OMap.mem_keys, decide_eq_true_eq]
  constructor
  · rintro ⟨c, ⟨⟨conn, hc⟩, hs⟩, hk⟩
    exact ⟨c, conn, hc, hs, by rwa [conn_eq hc] at hk⟩
  · rintro ⟨c, conn, hc, hs, hk⟩
    exact ⟨c, ⟨⟨conn, hc⟩, hs⟩, by rwa [conn_eq hc]⟩

theorem mem_heldButtons {s : ℕ} {button : ℤ} :
    button ∈ m.heldButtons s ↔ ∃ c conn, m.connections.get c = some conn ∧ c.owner = s ∧
      button ∈ conn.buttons := by
  simp only [heldButtons, List.mem_flatMap, List.mem_filter, OMap.mem_keys, decide_eq_true_eq]
  constructor
  · rintro ⟨c, ⟨⟨conn, hc⟩, hs⟩, hk⟩
    exact ⟨c, conn, hc, hs, by rwa [conn_eq hc] at hk⟩
  · rintro ⟨c, conn, hc, hs, hk⟩
    exact ⟨c, ⟨⟨conn, hc⟩, hs⟩, by rwa [conn_eq hc]⟩

theorem owe_pending (s : ℕ) (m : Manager σ) : m.pending ⊆ (m.owe s).pending := by
  rintro (code | button) hx
  · exact List.mem_union_iff.2 (Or.inr hx)
  · exact List.mem_union_iff.2 (Or.inr hx)

theorem held_sub_owe {s : ℕ} (hby : m.HeldBy s) : m.held ⊆ (m.owe s).pending := by
  rintro x ⟨c, conn, hc, hx⟩
  have hs : c.owner = s := by
    by_contra hs
    rw [hby c conn hc hs] at hx
    exact hx
  cases x with
  | key code => exact List.mem_union_iff.2 (Or.inl (mem_heldKeys.2 ⟨c, conn, hc, hs, hx⟩))
  | button button => exact List.mem_union_iff.2 (Or.inl (mem_heldButtons.2 ⟨c, conn, hc, hs, hx⟩))

theorem resetHeld_eq (s : ℕ) (m : Manager σ) :
    m.resetHeld P s = match (P.reset m.sink).1 with
      | none => (none, { (m.owe s).setSink (P.reset m.sink).2 with
          pendingKeys := [], pendingButtons := [] })
      | some err => (some err, (m.owe s).setSink (P.reset m.sink).2) := by
  have hs : (m.owe s).sink = m.sink := rfl
  rw [resetHeld, hs]
  rcases P.reset m.sink with ⟨_ | err, s'⟩ <;> rfl

theorem resetHeld_cleans (s : ℕ) (m : Manager σ) : Cleans m (m.resetHeld P s).2 := by
  rw [resetHeld_eq]
  rcases (P.reset m.sink).1 with _ | err
  · exact (owe_cleans s m).trans (.of_eq rfl rfl rfl rfl rfl)
  · exact (owe_cleans s m).trans (setSink_cleans _ _)

theorem resetHeld_held {s : ℕ} (hby : m.HeldBy s) : (m.resetHeld P s).2.held = ∅ := by
  rw [resetHeld_eq]
  rcases (P.reset m.sink).1 with _ | err
  · exact (held_congr rfl).trans (owe_held hby)
  · exact owe_held hby

theorem resetHeld_ledger (phys : Physical P pressed) {s : ℕ} (hby : m.HeldBy s)
    (h : Ledger pressed owed m) : Ledger pressed owed (m.resetHeld P s).2 := by
  have hok := phys.reset m.sink
  have hfail := phys.reset_failed m.sink
  rw [resetHeld_eq]
  rcases hr : (P.reset m.sink).1 with _ | err
  · constructor
    · show pressed (P.reset m.sink).2 ⊆ _
      rw [hok hr]
      exact Set.empty_subset _
    · intro x hx
      cases x <;> simp at hx
  · constructor
    · intro x hx
      rcases h.recorded (hfail hx) with (hr | hr) | hr
      · exact Or.inl (Or.inr (held_sub_owe hby hr))
      · exact Or.inl (Or.inr (owe_pending s m hr))
      · exact Or.inr hr
    · intro x _ hx
      have : x ∈ (m.owe s).held := hx
      rw [owe_held hby] at this
      exact this

end Manager

end Piik.Input
