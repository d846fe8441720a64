/-
  What one input event does to the desktop (`applyHeld`, `applyText`).

  `Plays events err m m'`: the step from `m` to `m'` hands the sink, besides
  releases, only events of the list, in their order and none after one that was
  refused, each of them while nothing is pending; grants are left alone.
-/
import Piik.Input.Ledger

namespace Piik.Input

variable {σ : Type}

/-- The connections are the same up to what they are recorded as holding. -/
def SameGrants (l l' : OMap EndpointKey Connection) : Prop :=
  ∀ c, (l'.get c).map Connection.bare = (l.get c).map Connection.bare

/-- The platform was given these events for a connection, and nothing else changed. -/
structure Plays (c : EndpointKey) (events : List InputEvent) (err : Option String)
    (m m' : Manager σ) : Prop where
  owner : m'.owner = m.owner
  sessions : m'.sessions = m.sessions
  closed : m'.closed = m.closed
  bare : SameGrants m.connections m'.connections
  shrinks : ∀ c' conn', c' ≠ c → m'.connections.get c' = some conn' →
    ∃ conn, m.connections.get c' = some conn ∧ conn'.held ⊆ conn.held
  applied : ∃ new, m'.applied = m.applied ++ new ∧
    ((inputs new).map (·.event)).Sublist events ∧
    (∀ a ∈ inputs new, a.pendingKeys = [] ∧ a.pendingButtons = [] ∧
      SameGrants m.connections a.connections) ∧
    (∀ a ∈ (inputs new).dropLast, a.accepted = true) ∧
    (err = none → ∀ a ∈ inputs new, a.accepted = true)

namespace Plays

variable {c : EndpointKey} {events events' : List InputEvent} {err : Option String}
  {m m₁ m₂ : Manager σ}

theorem of_cleans (h : Cleans m m₁) : Plays c events err m m₁ where
  owner := h.owner
  sessions := h.sessions
  closed := h.closed
  bare := h.bare
  shrinks c' conn' _ hc := h.shrinks c' conn' hc
  applied := by
    obtain ⟨new, hn, hi⟩ := h.applied
    exact ⟨new, hn, by simp [hi], by simp [hi], by simp [hi], by simp [hi]⟩

theorem trans (h : Plays c events none m m₁) (h' : Plays c events' err m₁ m₂) :
    Plays c (events ++ events') err m m₂ where
  owner := h'.owner.trans h.owner
  sessions := h'.sessions.trans h.sessions
  closed := h'.closed.trans h.closed
  bare c' := (h'.bare c').trans (h.bare c')
  shrinks c' conn' hne hc := by
    obtain ⟨conn₁, hc₁, hs₁⟩ := h'.shrinks c' conn' hne hc
    obtain ⟨conn, hc₀, hs₀⟩ := h.shrinks c' conn₁ hne hc₁
    exact ⟨conn, hc₀, hs₁.trans hs₀⟩
  applied := by
    obtain ⟨new, hn, hsub, hat, -, hok⟩ := h.applied
    obtain ⟨new', hn', hsub', hat', hlast', hok'⟩ := h'.applied
    refine ⟨new ++ new', by rw [hn', hn, List.append_assoc], ?_, ?_, ?_, ?_⟩
    · rw [inputs_append, List.map_append]
      exact hsub.append hsub'
    · intro a ha
      rw [inputs_append, List.mem_append] at ha
      rcases ha with ha | ha
      · exact hat a ha
      · obtain ⟨hk, hb, hg⟩ := hat' a ha
        exact ⟨hk, hb, fun c' => (hg c').trans (h.bare c')⟩
    · intro a ha
      rw [inputs_append] at ha
      by_cases hnil : inputs new' = []
      · rw [hnil, List.append_nil] at ha
        exact hok rfl a (List.dropLast_subset _ ha)
      · rw [List.dropLast_append_of_ne_nil hnil, List.mem_append] at ha
        rcases ha with ha | ha
        · exact hok rfl a ha
        · exact hlast' a ha
    · intro he a ha
      rw [inputs_append, List.mem_append] at ha
      rcases ha with ha | ha
      · exact hok rfl a ha
      · exact hok' he a ha

theorem sub (h : Plays c events err m m₁) (hs : events.Sublist events') :
    Plays c events' err m m₁ :=
  { h with
    applied := by
      obtain ⟨new, hn, hsub, hrest⟩ := h.applied
      exact ⟨new, hn, hsub.trans hs, hrest⟩ }

theorem clean_trans (h : Cleans m m₁) (h' : Plays c events err m₁ m₂) : Plays c events err m m₂ :=
  (of_cleans h : Plays c [] none m m₁).trans h'

theorem has (h : Plays c events err m m₁) (c' : EndpointKey) :
    m₁.connections.has c' = m.connections.has c' := by
  have hb := congrArg Option.isSome (h.bare c')
  simpa [OMap.has] using hb

end Plays

namespace Manager

variable {P : Platform σ} {pressed : σ → Set Held} {owed : Set Held} {m : Manager σ}

theorem applyInput_plays (c : EndpointKey) (b : Bounds) (event : InputEvent)
    (hp : m.pending = ∅) : Plays c [event] (m.applyInput P b event).1 m (m.applyInput P b event).2 := by
  rw [applyInput_eq]
  refine ⟨rfl, rfl, rfl, fun _ => rfl, fun c' conn' _ hc => ⟨conn', hc, subset_rfl⟩, _, rfl, ?_⟩
  rw [← releasePending_iff] at hp
  simp only [releasePending, Bool.or_eq_false_iff, decide_eq_false_iff_not, not_not] at hp
  by_cases he : event.releasing
  · simp [inputs, he]
  · have hi : ∀ a : Applied, a.event = event → inputs [a] = [a] := by
      intro a ha
      simp [inputs, ha, he]
    rw [hi _ rfl]
    refine ⟨List.Sublist.refl _, ?_, by simp, ?_⟩
    · intro a ha
      rw [List.mem_singleton] at ha
      subst ha
      exact ⟨hp.1, hp.2, fun _ => rfl⟩
    · intro hn a ha
      rw [List.mem_singleton] at ha
      subst ha
      exact Option.isNone_iff_eq_none.2 hn

/-! ## One event -/

theorem setConn_record (m : Manager σ) (c : EndpointKey) (record : Connection → Connection)
    (hb : ∀ conn, (record conn).bare = conn.bare) :
    Plays c [] none m (m.setConn c record) where
  owner := rfl
  sessions := rfl
  closed := rfl
  bare c' := by
    rw [get_setConn]
    by_cases h : c' = c
    · subst h
      rw [if_pos rfl]
      cases m.connections.get c' <;> simp [hb]
    · rw [if_neg h]
  shrinks c' conn' hne hc := by
    rw [get_setConn, if_neg hne] at hc
    exact ⟨conn', hc, subset_rfl⟩
  applied := ⟨[], by simp [setConn]⟩

theorem press_plays (c : EndpointKey) (b : Bounds) (event : InputEvent) (fresh : Bool)
    (record : Connection → Connection) (hb : ∀ conn, (record conn).bare = conn.bare)
    (hp : m.pending = ∅) :
    Plays c [event] (m.press P c b event fresh record).1 m (m.press P c b event fresh record).2 := by
  cases fresh with
  | false => exact (setConn_record m c record hb).sub (List.nil_sublist _)
  | true =>
    have ha := applyInput_plays (P := P) c b event hp
    simp only [press, if_true]
    generalize m.applyInput P b event = r at ha ⊢
    obtain ⟨_ | err, m₁⟩ := r
    · exact ha.trans (setConn_record m₁ c record hb)
    · exact ha

theorem addKey_bare (code : String) (conn : Connection) : (conn.addKey code).bare = conn.bare := rfl

theorem addButton_bare (button : ℤ) (conn : Connection) :
    (conn.addButton button).bare = conn.bare := rfl

theorem dropKey_held (code : String) (conn : Connection) : (conn.dropKey code).held ⊆ conn.held := by
  rintro (k | b) hx
  · exact List.mem_of_mem_filter hx
  · exact hx

theorem dropButton_held (button : ℤ) (conn : Connection) :
    (conn.dropButton button).held ⊆ conn.held := by
  rintro (k | b) hx
  · exact hx
  · exact List.mem_of_mem_filter hx

theorem applyKey_plays (c : EndpointKey) (b : Bounds) (event : InputEvent)
    (hp : event.down → m.pending = ∅) :
    Plays c [event] (m.applyKey P c b event).1 m (m.applyKey P c b event).2 := by
  rw [applyKey]
  dsimp only
  split
  · exact .of_cleans (.refl m)
  split
  · exact press_plays c b event _ _ (addKey_bare _) (hp ‹_›)
  split
  · exact .of_cleans (.refl m)
  · exact .of_cleans ((Cleans.setConn c (.dropKey event.code) (fun _ => rfl) (dropKey_held _)).trans
      (clearKey_cleans _ _))

theorem applyButton_plays (c : EndpointKey) (b : Bounds) (event : InputEvent)
    (hp : event.down → m.pending = ∅) :
    Plays c [event] (m.applyButton P c b event).1 m (m.applyButton P c b event).2 := by
  rw [applyButton]
  dsimp only
  split
  · exact .of_cleans (.refl m)
  split
  · exact press_plays c b event _ _ (addButton_bare _) (hp ‹_›)
  · exact .of_cleans ((Cleans.setConn c (.dropButton event.button) (fun _ => rfl) (dropButton_held _)).trans
      (clearButton_cleans _ _))

theorem applyHeld_plays (c : EndpointKey) (b : Bounds) (event : InputEvent) (m : Manager σ) :
    Plays c [event] (m.applyHeld P c b event).1 m (m.applyHeld P c b event).2 := by
  have hclean := retryReleases_cleans (P := P) m
  rw [applyHeld]
  generalize m.retryReleases P = r at hclean ⊢
  obtain ⟨err, m₁⟩ := r
  dsimp only at hclean ⊢
  split
  · exact .of_cleans hclean
  rename_i hgo
  -- Past the guard, only a release can meet anything pending.
  have hp (hr : event.releasing = false) : m₁.pending = ∅ := by
    rw [← releasePending_iff]
    simpa [hr] using hgo
  have hdown (hd : event.down = true) : m₁.pending = ∅ := by
    refine hp ?_
    simp [InputEvent.releasing, hd]
  split
  · exact .clean_trans hclean (applyKey_plays c b event hdown)
  · exact .clean_trans hclean (applyButton_plays c b event hdown)
  · refine .clean_trans hclean (applyInput_plays c b event (hp ?_))
    simp_all [InputEvent.releasing]

/-! ## The ledger under one event -/

theorem setConn_held {c : EndpointKey} {conn : Connection} (hc : m.connections.get c = some conn)
    {record : Connection → Connection} {x : Held} (hr : ∀ conn, (record conn).held = insert x conn.held) :
    (m.setConn c record).held = insert x m.held := by
  ext y
  constructor
  · rintro ⟨c', conn', hc', hy⟩
    rw [get_setConn] at hc'
    by_cases h : c' = c
    · rw [if_pos h, hc] at hc'
      cases hc'
      rw [hr] at hy
      rcases hy with hy | hy
      · exact Or.inl hy
      · exact Or.inr ⟨c, conn, hc, hy⟩
    · rw [if_neg h] at hc'
      exact Or.inr ⟨c', conn', hc', hy⟩
  · intro hy
    have hput : (m.setConn c record).connections.get c = some (record conn) := by
      rw [get_setConn, if_pos rfl, hc]; rfl
    rcases hy with rfl | ⟨c', conn', hc', hy⟩
    · exact ⟨c, record conn, hput, by rw [hr]; exact Or.inl rfl⟩
    · by_cases h : c' = c
      · subst h
        rw [hc] at hc'
        cases hc'
        exact ⟨c', record conn, hput, by rw [hr]; exact Or.inr hy⟩
      · exact ⟨c', conn', by rw [get_setConn, if_neg h]; exact hc', hy⟩

theorem press_ledger (phys : Physical P pressed) (h : Ledger pressed owed m) {c : EndpointKey}
    {conn : Connection} (hc : m.connections.get c = some conn) (b : Bounds) {event : InputEvent}
    {fresh : Bool} {record : Connection → Connection} {x : Held} (hx : event.input = some x)
    (hr : ∀ conn, (record conn).held = insert x conn.held) (hp : m.pending = ∅) :
    Ledger pressed owed (m.press P c b event fresh record).2 := by
  -- A shared press, or one the sink accepted, is recorded.
  have hrecord (m₁ : Manager σ) (hconn : m₁.connections = m.connections)
      (hp₁ : m₁.pending = ∅) (hs : pressed m₁.sink ⊆ pressed m.sink ∪ {x}) :
      Ledger pressed owed (m₁.setConn c record) := by
    have hh : (m₁.setConn c record).held = insert x m.held := by
      have hc₁ : m₁.connections.get c = some conn := by
        rw [hconn]
        exact hc
      rw [setConn_held hc₁ hr, held_congr hconn]
    constructor
    · intro y hy
      rw [hh]
      rcases hs hy with hy | hy
      · rcases h.recorded hy with (hr | hr) | hr
        · exact Or.inl (Or.inl (Or.inr hr))
        · rw [hp] at hr
          exact absurd hr (Set.notMem_empty y)
        · exact Or.inr hr
      · exact Or.inl (Or.inl (Or.inl hy))
    · intro y hy
      have : y ∈ m₁.pending := hy
      rw [hp₁] at this
      exact absurd this (Set.notMem_empty y)
  cases fresh with
  | false => exact hrecord m rfl hp Set.subset_union_left
  | true =>
    have hok := phys.apply_press b event m.sink
    have hfail := phys.apply_failed b event m.sink
    simp only [press, if_true, applyInput_eq]
    generalize P.apply b event m.sink = r at hok hfail ⊢
    obtain ⟨_ | err, s⟩ := r
    · refine hrecord _ rfl hp (hok.trans ?_)
      refine Set.union_subset_union_right _ fun y hy => ?_
      change event.input = some y at hy
      rw [hx] at hy
      exact (Option.some.inj hy).symm
    · exact h.same (held_congr rfl) (pending_congr rfl rfl) (hfail (by simp))

theorem addKey_held (code : String) (conn : Connection) :
    (conn.addKey code).held = insert (.key code) conn.held := by
  ext x
  cases x <;> simp [Connection.addKey]

theorem addButton_held (button : ℤ) (conn : Connection) :
    (conn.addButton button).held = insert (.button button) conn.held := by
  ext x
  cases x <;> simp [Connection.addButton]

theorem applyKey_ledger (phys : Physical P pressed) (h : Ledger pressed owed m) {c : EndpointKey}
    {conn : Connection} (hc : m.connections.get c = some conn) (b : Bounds) {event : InputEvent}
    (ht : event.type = .key) (hp : event.down → m.pending = ∅) :
    Ledger pressed owed (m.applyKey P c b event).2 := by
  rw [applyKey]
  dsimp only
  split
  · exact h
  split
  · exact press_ledger phys h hc b (by rw [InputEvent.input, ht]) (addKey_held _) (hp ‹_›)
  split
  · exact h
  · refine clearKey_ledger phys ((setConn_ledger h c _ (dropKey_held _)).mono ?_)
    rintro x (⟨hx, hx'⟩ | hx)
    · refine Or.inr (Or.inl ?_)
      cases x with
      | key k =>
        by_contra hne
        exact hx' (List.mem_filter.2 ⟨hx, by simpa using fun h => hne (by rw [h])⟩)
      | button k => exact absurd hx hx'
    · exact Or.inr (Or.inr hx)

theorem applyButton_ledger (phys : Physical P pressed) (h : Ledger pressed owed m) {c : EndpointKey}
    {conn : Connection} (hc : m.connections.get c = some conn) (b : Bounds) {event : InputEvent}
    (ht : event.type = .button) (hp : event.down → m.pending = ∅) :
    Ledger pressed owed (m.applyButton P c b event).2 := by
  rw [applyButton]
  dsimp only
  split
  · exact h
  split
  · exact press_ledger phys h hc b (by rw [InputEvent.input, ht]) (addButton_held _) (hp ‹_›)
  · refine clearButton_ledger phys ((setConn_ledger h c _ (dropButton_held _)).mono ?_)
    rintro x (⟨hx, hx'⟩ | hx)
    · refine Or.inr (Or.inl ?_)
      cases x with
      | key k => exact absurd hx hx'
      | button k =>
        by_contra hne
        exact hx' (List.mem_filter.2 ⟨hx, by simpa using fun h => hne (by rw [h])⟩)
    · exact Or.inr (Or.inr hx)

theorem applyHeld_ledger (phys : Physical P pressed) (h : Ledger pressed owed m) {c : EndpointKey}
    (hc : m.connections.has c) (b : Bounds) (event : InputEvent) :
    Ledger pressed owed (m.applyHeld P c b event).2 := by
  have hclean := retryReleases_cleans (P := P) m
  have hretry := (retryReleases_ledger phys h).1
  rw [applyHeld]
  generalize m.retryReleases P = r at hclean hretry ⊢
  obtain ⟨err, m₁⟩ := r
  dsimp only at hclean hretry ⊢
  split
  · exact hretry
  rename_i hgo
  have hp (hr : event.releasing = false) : m₁.pending = ∅ := by
    rw [← releasePending_iff]
    simpa [hr] using hgo
  have hdown (hd : event.down = true) : m₁.pending = ∅ := by
    refine hp ?_
    simp [InputEvent.releasing, hd]
  obtain ⟨conn, hconn⟩ : ∃ conn, m₁.connections.get c = some conn := by
    have hb := hclean.bare c
    rw [OMap.has, Option.isSome_iff_exists] at hc
    obtain ⟨conn, hconn⟩ := hc
    rw [hconn, Option.map_some, Option.map_eq_some_iff] at hb
    obtain ⟨conn', hconn', -⟩ := hb
    exact ⟨conn', hconn'⟩
  split
  · exact applyKey_ledger phys hretry hconn b ‹_› hdown
  · exact applyButton_ledger phys hretry hconn b ‹_› hdown
  · have hpress := phys.apply_press b event m₁.sink
    refine hretry.same (held_congr rfl) (pending_congr rfl rfl) (hpress.trans ?_)
    have hnone : event.input = none := by
      rw [InputEvent.input]
      split <;> simp_all
    simp [hnone]

/-! ## Text -/

theorem applyEach_plays (c : EndpointKey) (b : Bounds) :
    ∀ (events : List InputEvent) (m : Manager σ),
      Plays c events (applyEach P c b events m).1 m (applyEach P c b events m).2
  | [], m => .of_cleans (.refl m)
  | event :: events, m => by
    have hone := applyHeld_plays (P := P) c b event m
    rw [applyEach]
    generalize m.applyHeld P c b event = r at hone ⊢
    obtain ⟨_ | err, m₁⟩ := r
    · exact hone.trans (applyEach_plays c b events m₁)
    · exact hone.sub (List.singleton_sublist.2 (List.mem_cons_self ..))

/-- The events a text asks for. -/
def textScript (text : String) : List InputEvent := textEvents [] (normalizeNewlines text.toList)

theorem applyText_plays (c : EndpointKey) (b : Bounds) (text : String) (m : Manager σ) :
    Plays c (textScript text) (m.applyText P c b text).1 m (m.applyText P c b text).2 := by
  rw [applyText]
  split
  · exact .of_cleans (.refl m)
  dsimp only
  split
  · exact .of_cleans (.refl m)
  have hreset := resetHeld_cleans (P := P) c.owner m
  generalize m.resetHeld P c.owner = r at hreset ⊢
  obtain ⟨_ | err, m₁⟩ := r
  · exact .clean_trans hreset (applyEach_plays c b _ m₁)
  · exact .of_cleans hreset

theorem applyEach_ledger (phys : Physical P pressed) {c : EndpointKey} (b : Bounds) :
    ∀ (events : List InputEvent) {m : Manager σ}, Ledger pressed owed m → m.connections.has c →
      Ledger pressed owed (applyEach P c b events m).2
  | [], _, h, _ => h
  | event :: events, m, h, hc => by
    have hone := applyHeld_plays (P := P) c b event m
    have hl := applyHeld_ledger phys h hc b event
    rw [applyEach]
    generalize m.applyHeld P c b event = r at hone hl ⊢
    obtain ⟨_ | err, m₁⟩ := r
    · exact applyEach_ledger phys b events hl ((hone.has c).trans hc)
    · exact hl

theorem applyText_ledger (phys : Physical P pressed) (h : Ledger pressed owed m) {c : EndpointKey}
    (hc : m.connections.has c) (hby : m.HeldBy c.owner) (b : Bounds) (text : String) :
    Ledger pressed owed (m.applyText P c b text).2 := by
  rw [applyText]
  split
  · exact h
  dsimp only
  split
  · exact h
  have hreset := resetHeld_cleans (P := P) c.owner m
  have hl := resetHeld_ledger phys hby h
  generalize m.resetHeld P c.owner = r at hreset hl ⊢
  obtain ⟨_ | err, m₁⟩ := r
  · refine applyEach_ledger phys b _ hl ?_
    have hplays : Plays c [] none m m₁ := .of_cleans hreset
    rw [hplays.has c]
    exact hc
  · exact hl

end Manager

end Piik.Input
