/-
  Who may drive the desktop (`manager.go`, `policy.go`).

  * `Sound m`: every grant belongs to the owner of the desktop, only a holder
    of a grant holds input, and the ledger is in order;
  * `LiveBut s m`: the grants and requests of all sessions but `s` rest on a
    session that is open, unpaused, has a source and a mode, and on an edge;
  * `Calms m m'`: a step that grants nothing and injects nothing.
-/
import Piik.Input.Inject

namespace Piik.Input

variable {σ : Type}

/-- No input but releases between two states. -/
def Quiet (m m' : Manager σ) : Prop := ∃ new, m'.applied = m.applied ++ new ∧ inputs new = []

namespace Quiet

variable {m m₁ m₂ : Manager σ}

theorem refl (m : Manager σ) : Quiet m m := ⟨[], by simp⟩

theorem of_eq (h : m₁.applied = m.applied) : Quiet m m₁ := ⟨[], by simp [h]⟩

theorem trans (h : Quiet m m₁) (h' : Quiet m₁ m₂) : Quiet m m₂ := by
  obtain ⟨new, hn, hi⟩ := h
  obtain ⟨new', hn', hi'⟩ := h'
  exact ⟨new ++ new', by rw [hn', hn, List.append_assoc], by rw [inputs_append, hi, hi']; rfl⟩

end Quiet

/-- What holds of every manager that a run reaches. -/
structure Sound (pressed : σ → Set Held) (m : Manager σ) : Prop where
  owner : ∀ c conn, m.connections.get c = some conn → conn.grant ≠ "" → m.owner = some c.owner
  held : ∀ c conn, m.connections.get c = some conn → conn.grant = "" → conn.held = ∅
  ledger : Ledger pressed ∅ m

theorem Sound.heldBy {pressed : σ → Set Held} {m : Manager σ} (h : Sound pressed m) {s : ℕ}
    (ho : ∀ s', m.owner = some s' → s' = s) :
    m.HeldBy s := by
  intro c conn hc hs
  by_cases hg : conn.grant = ""
  · exact h.held c conn hc hg
  · exact absurd (ho _ (h.owner c conn hc hg)) hs

/-- What a connection keeps when it is granted nothing. -/
structure Connection.Kept (conn conn' : Connection) : Prop where
  edgeID : conn'.edgeID = conn.edgeID
  epoch : conn'.epoch = conn.epoch
  extended : conn'.extended = conn.extended
  secret : conn'.secret = conn.secret
  received : conn'.received = conn.received
  requested : conn'.requested = true → conn.requested = true
  grant : conn'.grant = conn.grant ∨ conn'.grant = ""

namespace Connection.Kept

variable {conn conn₁ conn₂ : Connection}

theorem refl (conn : Connection) : conn.Kept conn := ⟨rfl, rfl, rfl, rfl, rfl, id, Or.inl rfl⟩

theorem trans (h : conn.Kept conn₁) (h' : conn₁.Kept conn₂) : conn.Kept conn₂ where
  edgeID := h'.edgeID.trans h.edgeID
  epoch := h'.epoch.trans h.epoch
  extended := h'.extended.trans h.extended
  secret := h'.secret.trans h.secret
  received := h'.received.trans h.received
  requested hr := h.requested (h'.requested hr)
  grant := by
    rcases h'.grant with hg | hg
    · rw [hg]
      exact h.grant
    · exact Or.inr hg

theorem of_bare (h : conn₁.bare = conn.bare) : conn.Kept conn₁ := by
  have hreq : conn₁.bare.requested = conn.bare.requested := by rw [h]
  have hgrant : conn₁.bare.grant = conn.bare.grant := by rw [h]
  constructor
  · show conn₁.bare.edgeID = conn.bare.edgeID
    rw [h]
  · show conn₁.bare.epoch = conn.bare.epoch
    rw [h]
  · show conn₁.bare.extended = conn.bare.extended
    rw [h]
  · show conn₁.bare.secret = conn.bare.secret
    rw [h]
  · show conn₁.bare.received = conn.bare.received
    rw [h]
  · intro hr
    exact hreq.symm.trans hr
  · exact Or.inl hgrant

theorem grant_of_bare (h : conn₁.bare = conn.bare) : conn₁.grant = conn.grant := by
  show conn₁.bare.grant = conn.bare.grant
  rw [h]

end Connection.Kept

/-- Nothing changes but that grants, and what they hold, may end. -/
structure Retires (m m' : Manager σ) : Prop where
  sessions : m'.sessions = m.sessions
  closed : m'.closed = m.closed
  has : ∀ c, m'.connections.has c = m.connections.has c
  kept : ∀ c conn', m'.connections.get c = some conn' →
    ∃ conn, m.connections.get c = some conn ∧ conn.Kept conn'
  quiet : Quiet m m'

namespace Retires

variable {m m₁ m₂ : Manager σ}

theorem refl (m : Manager σ) : Retires m m where
  sessions := rfl
  closed := rfl
  has _ := rfl
  kept _ conn' h := ⟨conn', h, .refl _⟩
  quiet := .refl m

theorem trans (h : Retires m m₁) (h' : Retires m₁ m₂) : Retires m m₂ where
  sessions := h'.sessions.trans h.sessions
  closed := h'.closed.trans h.closed
  has c := (h'.has c).trans (h.has c)
  kept c conn' hc := by
    obtain ⟨conn₁, hc₁, hk₁⟩ := h'.kept c conn' hc
    obtain ⟨conn, hc₀, hk₀⟩ := h.kept c conn₁ hc₁
    exact ⟨conn, hc₀, hk₀.trans hk₁⟩
  quiet := h.quiet.trans h'.quiet

theorem of_cleans (h : Cleans m m₁) : Retires m m₁ where
  sessions := h.sessions
  closed := h.closed
  has c := by simpa [OMap.has] using congrArg Option.isSome (h.bare c)
  kept c conn' hc := by
    obtain ⟨conn, hc', -⟩ := h.shrinks c conn' hc
    have hb := h.bare c
    rw [hc, hc'] at hb
    exact ⟨conn, hc', .of_bare (Option.some.inj hb)⟩
  quiet := h.applied

theorem setConn (m : Manager σ) (c : EndpointKey) {f : Connection → Connection}
    (hf : ∀ conn : Connection, conn.Kept (f conn)) : Retires m (m.setConn c f) where
  sessions := rfl
  closed := rfl
  has c' := by
    rw [OMap.has, OMap.has, Manager.get_setConn]
    by_cases h : c' = c
    · subst h
      rw [if_pos rfl, Option.isSome_map]
    · rw [if_neg h]
  kept c' conn' hc := by
    rw [Manager.get_setConn] at hc
    by_cases h : c' = c
    · subst h
      rw [if_pos rfl, Option.map_eq_some_iff] at hc
      obtain ⟨conn, hc, rfl⟩ := hc
      exact ⟨conn, hc, hf conn⟩
    · rw [if_neg h] at hc
      exact ⟨conn', hc, .refl _⟩
  quiet := .of_eq rfl

end Retires

/-- Nobody holds a grant. -/
def NoGrant (m : Manager σ) : Prop :=
  ∀ c conn, m.connections.get c = some conn → conn.grant = ""

/-- `Retires`, with what held before still true. -/
structure Calms (pressed : σ → Set Held) (m m' : Manager σ) : Prop extends Retires m m' where
  owner : m'.owner = m.owner ∨ m'.owner = none ∧ NoGrant m'
  sound : Sound pressed m'

theorem Retires.noGrant {m m' : Manager σ} (h : Retires m m') (hn : NoGrant m) : NoGrant m' := by
  intro c conn' hc
  obtain ⟨conn, hc', hk⟩ := h.kept c conn' hc
  rcases hk.grant with hg | hg
  · rw [hg]
    exact hn c conn hc'
  · exact hg

namespace Calms

variable {pressed : σ → Set Held} {m m₁ m₂ : Manager σ}

theorem refl (h : Sound pressed m) : Calms pressed m m := ⟨.refl m, Or.inl rfl, h⟩

theorem trans (h : Calms pressed m m₁) (h' : Calms pressed m₁ m₂) : Calms pressed m m₂ where
  toRetires := h.toRetires.trans h'.toRetires
  owner := by
    rcases h'.owner with ho | ho
    · rcases h.owner with ho' | ⟨ho', hn⟩
      · exact Or.inl (ho.trans ho')
      · exact Or.inr ⟨ho.trans ho', h'.noGrant hn⟩
    · exact Or.inr ho
  sound := h'.sound

theorem of_cleans (h : Sound pressed m) (hc : Cleans m m₁) (hl : Ledger pressed ∅ m₁) :
    Calms pressed m m₁ where
  toRetires := .of_cleans hc
  owner := Or.inl hc.owner
  sound := by
    refine ⟨?_, ?_, hl⟩
    · intro c conn' hc' hg
      obtain ⟨conn, hc₀, hk⟩ := (Retires.of_cleans hc).kept c conn' hc'
      rcases hk.grant with hg' | hg'
      · rw [hc.owner]
        exact h.owner c conn hc₀ (by rwa [← hg'])
      · exact absurd hg' hg
    · intro c conn' hc' hg
      obtain ⟨conn, hc₀, hs⟩ := hc.shrinks c conn' hc'
      have hb := hc.bare c
      rw [hc', hc₀] at hb
      have hg' : conn.grant = "" :=
        (Connection.Kept.grant_of_bare (Option.some.inj hb)).symm.trans hg
      rw [h.held c conn hc₀ hg'] at hs
      exact Set.subset_empty_iff.1 hs

/-- A connection without a grant does not get one. -/
theorem grant {c : EndpointKey} (h : Calms pressed m m₁)
    (hc : ∀ conn, m.connections.get c = some conn → conn.grant = "") (conn' : Connection)
    (hc' : m₁.connections.get c = some conn') : conn'.grant = "" := by
  obtain ⟨conn, hc₀, hk⟩ := h.kept c conn' hc'
  rcases hk.grant with hg | hg
  · rw [hg]
    exact hc conn hc₀
  · exact hg

theorem owner_or (h : Calms pressed m m₁) {s : ℕ}
    (ho : m.owner = some s ∨ m.owner = none) : m₁.owner = some s ∨ m₁.owner = none := by
  rcases h.owner with ho' | ⟨ho', -⟩
  · rw [ho']
    exact ho
  · exact Or.inr ho'

end Calms

namespace Manager

variable {P : Platform σ} {pressed : σ → Set Held} {m : Manager σ} {c : EndpointKey}

/-! ## Small steps -/

theorem reply_cleans (c : EndpointKey) (state : ReplyState) (reason : String) (m : Manager σ) :
    Cleans m (m.reply P c state reason) := by
  rw [reply]
  split
  · exact .refl m
  · exact .of_eq rfl rfl rfl rfl rfl

theorem reply_calms (h : Sound pressed m) (c : EndpointKey) (state : ReplyState) (reason : String) :
    Calms pressed m (m.reply P c state reason) := by
  refine .of_cleans h (reply_cleans c state reason m) ?_
  rw [reply]
  split
  · exact h.ledger
  · exact h.ledger.same rfl rfl subset_rfl

theorem send_calms (h : Sound pressed m) (c : EndpointKey) (state : ReplyState) :
    Calms pressed m (m.send P c state) := reply_calms h c state ""

theorem setSink_calms (phys : Physical P pressed) (h : Sound pressed m) {s : σ}
    (hs : P.Silent m.sink s) : Calms pressed m (m.setSink s) :=
  .of_cleans h (setSink_cleans m s) (setSink_ledger phys h.ledger hs)

theorem held_setConn {f : Connection → Connection} (hf : ∀ conn, (f conn).held = conn.held) :
    (m.setConn c f).held = m.held := by
  ext x
  constructor
  · rintro ⟨c', conn', hc, hx⟩
    rw [get_setConn] at hc
    by_cases h : c' = c
    · rw [if_pos h, Option.map_eq_some_iff] at hc
      obtain ⟨conn, hc, rfl⟩ := hc
      exact ⟨c, conn, hc, by rwa [hf] at hx⟩
    · rw [if_neg h] at hc
      exact ⟨c', conn', hc, hx⟩
  · rintro ⟨c', conn', hc, hx⟩
    by_cases h : c' = c
    · subst h
      refine ⟨c', f conn', ?_, by rwa [hf]⟩
      rw [get_setConn, if_pos rfl, hc]; rfl
    · exact ⟨c', conn', by rw [get_setConn, if_neg h]; exact hc, hx⟩

/-- A change of a connection that leaves its grant and what it holds. -/
theorem setConn_sound (h : Sound pressed m) (c : EndpointKey) {f : Connection → Connection}
    (hg : ∀ conn, (f conn).grant = conn.grant) (hh : ∀ conn, (f conn).held = conn.held) :
    Sound pressed (m.setConn c f) := by
  refine ⟨?_, ?_, h.ledger.same (held_setConn hh) rfl subset_rfl⟩
  · intro c' conn' hc hg'
    rw [get_setConn] at hc
    by_cases hcc : c' = c
    · subst hcc
      rw [if_pos rfl, Option.map_eq_some_iff] at hc
      obtain ⟨conn, hc, rfl⟩ := hc
      exact h.owner c' conn hc (by rwa [hg] at hg')
    · rw [if_neg hcc] at hc
      exact h.owner c' conn' hc hg'
  · intro c' conn' hc hg'
    rw [get_setConn] at hc
    by_cases hcc : c' = c
    · subst hcc
      rw [if_pos rfl, Option.map_eq_some_iff] at hc
      obtain ⟨conn, hc, rfl⟩ := hc
      rw [hh]
      exact h.held c' conn hc (by rwa [hg] at hg')
    · rw [if_neg hcc] at hc
      exact h.held c' conn' hc hg'

theorem setConn_calms (h : Sound pressed m) (c : EndpointKey) {f : Connection → Connection}
    (hf : ∀ conn : Connection, conn.Kept (f conn)) (hg : ∀ conn, (f conn).grant = conn.grant)
    (hh : ∀ conn, (f conn).held = conn.held) : Calms pressed m (m.setConn c f) where
  toRetires := .setConn m c hf
  owner := Or.inl rfl
  sound := setConn_sound h c hg hh

theorem closePad_calms (phys : Physical P pressed) (h : Sound pressed m) (c : EndpointKey) :
    Calms pressed m (m.closePad P c) := by
  rw [closePad]
  split
  · have hpad : Calms pressed m (m.setConn c fun conn => { conn with pad := false }) :=
      setConn_calms h c (fun _ => ⟨rfl, rfl, rfl, rfl, rfl, id, Or.inl rfl⟩) (fun _ => rfl)
        (fun _ => rfl)
    exact hpad.trans (setSink_calms phys hpad.sound (.closePad c m.sink))
  · exact .refl h

theorem failGamepad_calms (phys : Physical P pressed) (h : Sound pressed m) (c : EndpointKey) :
    Calms pressed m (m.failGamepad P c) := by
  have hclose := closePad_calms phys h c
  have hfail : Calms pressed (m.closePad P c)
      ((m.closePad P c).setConn c fun conn => { conn with padFailed := true }) :=
    setConn_calms hclose.sound c (fun _ => ⟨rfl, rfl, rfl, rfl, rfl, id, Or.inl rfl⟩)
      (fun _ => rfl) (fun _ => rfl)
  exact (hclose.trans hfail).trans (reply_calms hfail.sound _ _ _)

theorem noteInputResult_calms (h : Sound pressed m) (c : EndpointKey) (err : Option String) :
    Calms pressed m (m.noteInputResult P c err) := by
  rw [noteInputResult]
  split
  · exact .refl h
  · have hnote : Calms pressed m
        (m.setConn c fun conn => { conn with inputFailed := err.isSome || m.releasePending }) :=
      setConn_calms h c (fun _ => ⟨rfl, rfl, rfl, rfl, rfl, id, Or.inl rfl⟩) (fun _ => rfl)
        (fun _ => rfl)
    exact hnote.trans (send_calms hnote.sound _ _)

theorem neutralPad_calms (phys : Physical P pressed) (h : Sound pressed m) (c : EndpointKey) :
    Calms pressed m (m.neutralPad P c) := by
  rw [neutralPad]
  split
  · have hpad := setSink_calms phys h (.updatePad c {} m.sink)
    dsimp only
    split
    · exact hpad.trans (failGamepad_calms phys hpad.sound c)
    · exact hpad
  · exact .refl h

theorem clearHeld_calms (phys : Physical P pressed) (h : Sound pressed m) (c : EndpointKey) :
    Calms pressed m (m.clearHeld P c).2 :=
  .of_cleans h (clearHeld_cleans c m) (clearHeld_ledger phys c h.ledger)

/-! ## Releasing a source -/

theorem foldl_induct {α : Type} {f : Manager σ → α → Manager σ} {I : List α → Manager σ → Prop}
    (step : ∀ a as m, I (a :: as) m → I as (f m a)) :
    ∀ (as : List α) (m : Manager σ), I as m → I [] (as.foldl f m)
  | [], _, h => h
  | a :: as, m, h => foldl_induct step as _ (step a as m h)

/-- The connections of a session, in the order they are ranged over. -/
def rangeOf (P : Platform σ) (s : ℕ) (m : Manager σ) : List EndpointKey :=
  (P.range m.connections.keys m.sink).1.filter (·.owner = s)

theorem mem_rangeOf {s : ℕ} : c ∈ m.rangeOf P s ↔ m.connections.has c = true ∧ c.owner = s := by
  rw [rangeOf, List.mem_filter, (P.range_perm _ _).mem_iff, OMap.has_iff, decide_eq_true_eq]

theorem eachConnection_eq (s : ℕ) (f : EndpointKey → Manager σ → Manager σ) (m : Manager σ) :
    m.eachConnection P s f = (m.rangeOf P s).foldl (fun m c => f c m)
      (m.setSink (P.range m.connections.keys m.sink).2) := rfl

/-- A round over the connections of a session calms when each of its steps does. -/
theorem eachConnection_calms (phys : Physical P pressed) (h : Sound pressed m) {s : ℕ}
    {f : EndpointKey → Manager σ → Manager σ}
    (hf : ∀ c m, Sound pressed m → Calms pressed m (f c m)) :
    Calms pressed m (m.eachConnection P s f) := by
  have hstart := setSink_calms phys h (.range m.connections.keys m.sink)
  rw [eachConnection_eq]
  exact foldl_induct (I := fun _ m' => Calms pressed m m')
    (fun c _ m' hI => hI.trans (hf c m' hI.sound)) _ _ hstart

theorem ungranted_kept (conn : Connection) : conn.Kept conn.ungranted :=
  ⟨rfl, rfl, rfl, rfl, rfl, id, Or.inr rfl⟩

theorem closePad_retires (c : EndpointKey) (m : Manager σ) : Retires m (m.closePad P c) := by
  rw [closePad]
  split
  · exact (Retires.setConn m c (f := fun conn => { conn with pad := false })
      fun _ => ⟨rfl, rfl, rfl, rfl, rfl, id, Or.inl rfl⟩).trans (.of_cleans (setSink_cleans _ _))
  · exact .refl m

theorem closePad_owner (c : EndpointKey) (m : Manager σ) : (m.closePad P c).owner = m.owner := by
  rw [closePad]
  split <;> rfl

theorem closePad_held (c : EndpointKey) (m : Manager σ) : (m.closePad P c).held = m.held := by
  rw [closePad]
  split
  · exact held_setConn fun _ => rfl
  · rfl

theorem closePad_ledger (phys : Physical P pressed) (h : Ledger pressed ∅ m) (c : EndpointKey) :
    Ledger pressed ∅ (m.closePad P c) := by
  refine h.same (closePad_held c m) ?_ ?_
  · rw [closePad]
    split <;> rfl
  · rw [closePad]
    split
    · exact phys.silent (.closePad c m.sink)
    · exact subset_rfl

theorem retire_retires (c : EndpointKey) (m : Manager σ) : Retires m (m.retire P c) := by
  rw [retire]
  split
  · exact ((closePad_retires c m).trans (.setConn _ c ungranted_kept)).trans
      (.of_cleans (reply_cleans _ _ _ _))
  · exact .refl m

theorem reply_connections (c : EndpointKey) (state : ReplyState) (reason : String) (m : Manager σ) :
    (m.reply P c state reason).connections = m.connections := by
  rw [reply]
  split <;> rfl

theorem reply_owner (c : EndpointKey) (state : ReplyState) (reason : String) (m : Manager σ) :
    (m.reply P c state reason).owner = m.owner := by
  rw [reply]
  split <;> rfl

theorem reply_ledger {owed : Set Held} (h : Ledger pressed owed m) (c : EndpointKey)
    (state : ReplyState) (reason : String) : Ledger pressed owed (m.reply P c state reason) := by
  rw [reply]
  split
  · exact h
  · exact h.same rfl rfl subset_rfl

/-- A retired connection holds no grant. -/
theorem retire_grant (c : EndpointKey) (m : Manager σ) (conn : Connection)
    (hc : (m.retire P c).connections.get c = some conn) : conn.grant = "" := by
  rw [retire] at hc
  split at hc
  · rw [send, reply_connections, dropGrant, get_setConn, if_pos rfl, Option.map_eq_some_iff] at hc
    obtain ⟨conn₀, -, rfl⟩ := hc
    rfl
  · rename_i hg
    rw [conn_eq hc] at hg
    exact not_not.1 hg

theorem retire_owner (c : EndpointKey) (m : Manager σ) : (m.retire P c).owner = m.owner := by
  rw [retire]
  split
  · exact (reply_owner _ _ _ _).trans (closePad_owner c m)
  · rfl

theorem retire_held (c : EndpointKey) (m : Manager σ) : (m.retire P c).held = m.held := by
  rw [retire]
  split
  · rw [send, held_congr (reply_connections _ _ _ _), dropGrant,
      held_setConn (f := Connection.ungranted) fun _ => rfl, closePad_held]
  · rfl

theorem retire_ledger (phys : Physical P pressed) (h : Ledger pressed ∅ m) (c : EndpointKey) :
    Ledger pressed ∅ (m.retire P c) := by
  rw [retire]
  split
  · refine reply_ledger ?_ c _ _
    exact (closePad_ledger phys h c).same (held_setConn fun _ => rfl) rfl subset_rfl
  · exact h

theorem noGrant_of_owner (h : Sound pressed m) (ho : m.owner = none) : NoGrant m := by
  intro c conn hc
  by_contra hg
  have := h.owner c conn hc hg
  rw [ho] at this
  cases this

/-- What `release` leaves: no owner, no grant, and the ledger in order. -/
theorem release_calms (phys : Physical P pressed) (h : Sound pressed m) :
    Calms pressed m (m.release P) ∧ (m.release P).owner = none ∧ NoGrant (m.release P) := by
  rw [release]
  split
  · rename_i ho
    exact ⟨.refl h, ho, noGrant_of_owner h ho⟩
  rename_i s ho
  have hby : (m.setOwner none).HeldBy s := h.heldBy fun s' hs' => by
    rw [ho] at hs'
    exact (Option.some.inj hs').symm
  have hl : Ledger pressed ∅ (m.setOwner none) :=
    h.ledger.same rfl rfl subset_rfl
  have hclean := resetHeld_cleans (P := P) s (m.setOwner none)
  have hheld := resetHeld_held (P := P) hby
  have hreset := resetHeld_ledger phys hby hl
  generalize (m.setOwner none).resetHeld P s = r at hclean hheld hreset ⊢
  obtain ⟨err, m₁⟩ := r
  dsimp only at hclean hheld hreset ⊢
  have hdrop : Retires m m₁ := by
    have howner : Retires m (m.setOwner none) :=
      ⟨rfl, rfl, fun _ => rfl, fun c conn hc => ⟨conn, hc, .refl _⟩, .of_eq rfl⟩
    exact howner.trans (.of_cleans hclean)
  -- In the round, the grants left are those of the connections still to come.
  have hround : Retires m (m₁.eachConnection P s (retire P)) ∧
      (m₁.eachConnection P s (retire P)).owner = none ∧
      (m₁.eachConnection P s (retire P)).held = ∅ ∧
      Ledger pressed ∅ (m₁.eachConnection P s (retire P)) ∧
      ∀ c conn, (m₁.eachConnection P s (retire P)).connections.get c = some conn →
        conn.grant ≠ "" → c ∈ ([] : List EndpointKey) := by
    rw [eachConnection_eq]
    refine foldl_induct (I := fun cs m' => Retires m m' ∧ m'.owner = none ∧ m'.held = ∅ ∧
      Ledger pressed ∅ m' ∧ ∀ c conn, m'.connections.get c = some conn → conn.grant ≠ "" → c ∈ cs)
      ?_ _ _ ⟨?_, hclean.owner, hheld, ?_, ?_⟩
    · rintro c cs m' ⟨hr, ho', hh, hl', hg⟩
      refine ⟨hr.trans (retire_retires c m'), (retire_owner c m').trans ho',
        (retire_held c m').trans hh, retire_ledger phys hl' c, ?_⟩
      intro c' conn' hc' hne
      by_cases hcc : c' = c
      · subst hcc
        exact absurd (retire_grant c' m' conn' hc') hne
      · obtain ⟨conn, hc, hk⟩ := (retire_retires c m').kept c' conn' hc'
        rcases hk.grant with hg' | hg'
        · rw [hg'] at hne
          exact (List.mem_cons.1 (hg c' conn hc hne)).resolve_left hcc
        · exact absurd hg' hne
    · exact hdrop.trans (.of_cleans (setSink_cleans _ _))
    · exact setSink_ledger phys hreset (.range ..)
    · intro c conn' hc hne
      obtain ⟨conn, hc₀, hk⟩ := hdrop.kept c conn' hc
      rcases hk.grant with hg | hg
      · rw [hg] at hne
        have hs := h.owner c conn hc₀ hne
        rw [ho] at hs
        refine mem_rangeOf.2 ⟨?_, (Option.some.inj hs).symm⟩
        rw [OMap.has, show m₁.connections.get c = some conn' from hc]
        rfl
      · exact absurd hg hne
  obtain ⟨hr, ho', hh, hl', hg⟩ := hround
  have hnone : NoGrant (m₁.eachConnection P s (retire P)) := by
    intro c conn hc
    by_contra hne
    exact absurd (hg c conn hc hne) (List.not_mem_nil)
  refine ⟨⟨hr, Or.inr ⟨ho', hnone⟩, ⟨?_, ?_, hl'⟩⟩, ho', hnone⟩
  · exact fun c conn hc hne => absurd (hnone c conn hc) hne
  · intro c conn hc _
    rw [Set.eq_empty_iff_forall_notMem]
    intro x hx
    have : x ∈ (m₁.eachConnection P s (retire P)).held := ⟨c, conn, hc, hx⟩
    rw [hh] at this
    exact this

/-! ## Releasing a connection -/

theorem dropGrant_calms (phys : Physical P pressed) (h : Sound pressed m) (c : EndpointKey)
    (hc : ∀ conn, m.connections.get c = some conn → conn.held = ∅) :
    Calms pressed m (m.dropGrant P c) := by
  have hpad := closePad_calms phys h c
  have hheld := closePad_held (P := P) c m
  rw [dropGrant]
  refine hpad.trans ⟨.setConn _ c ungranted_kept, Or.inl rfl, ?_, ?_, ?_⟩
  · intro c' conn' hc' hg
    rw [get_setConn] at hc'
    by_cases hcc : c' = c
    · subst hcc
      rw [if_pos rfl, Option.map_eq_some_iff] at hc'
      obtain ⟨conn, -, rfl⟩ := hc'
      exact absurd rfl hg
    · rw [if_neg hcc] at hc'
      exact hpad.sound.owner c' conn' hc' hg
  · intro c' conn' hc' hg
    rw [get_setConn] at hc'
    by_cases hcc : c' = c
    · subst hcc
      rw [if_pos rfl, Option.map_eq_some_iff] at hc'
      obtain ⟨conn, hc', rfl⟩ := hc'
      show conn.held = ∅
      rw [closePad] at hc'
      split at hc'
      · rw [setSink_connections, get_setConn, if_pos rfl, Option.map_eq_some_iff] at hc'
        obtain ⟨conn₀, hc₀, rfl⟩ := hc'
        exact hc conn₀ hc₀
      · exact hc conn hc'
    · rw [if_neg hcc] at hc'
      exact hpad.sound.held c' conn' hc' hg
  · exact hpad.sound.ledger.same (held_setConn (f := Connection.ungranted) fun _ => rfl) rfl
      subset_rfl

theorem dropGrant_grant (c : EndpointKey) (m : Manager σ) (conn : Connection)
    (hc : (m.dropGrant P c).connections.get c = some conn) : conn.grant = "" := by
  rw [dropGrant, get_setConn, if_pos rfl, Option.map_eq_some_iff] at hc
  obtain ⟨conn₀, -, rfl⟩ := hc
  rfl

theorem mem_holders {s : ℕ} : c ∈ m.holders s ↔
    ∃ conn, m.connections.get c = some conn ∧ c.owner = s ∧ conn.grant ≠ "" := by
  rw [holders, List.mem_filter, OMap.mem_keys, Bool.and_eq_true, decide_eq_true_eq,
    decide_eq_true_eq]
  constructor
  · rintro ⟨⟨conn, hc⟩, hs, hg⟩
    rw [conn_eq hc] at hg
    exact ⟨conn, hc, hs, hg⟩
  · rintro ⟨conn, hc, hs, hg⟩
    rw [conn_eq hc]
    exact ⟨⟨conn, hc⟩, hs, hg⟩

/-- The last part of `releaseConnection`: a source without a holder gives the desktop up. -/
theorem giveUp_calms (h : Sound pressed m) {s : ℕ} (ho : m.owner = some s ∨ m.owner = none) :
    Calms pressed m (if m.holders s = [] then m.setOwner none else m) := by
  split
  · rename_i hnil
    have hnone : NoGrant m := by
      intro c conn hc
      by_contra hg
      have hown := h.owner c conn hc hg
      rcases ho with ho | ho
      · rw [ho] at hown
        have : c ∈ m.holders s := mem_holders.2 ⟨conn, hc, (Option.some.inj hown).symm, hg⟩
        rw [hnil] at this
        exact absurd this List.not_mem_nil
      · rw [ho] at hown
        cases hown
    refine ⟨⟨rfl, rfl, fun _ => rfl, fun c conn hc => ⟨conn, hc, .refl _⟩, .of_eq rfl⟩,
      Or.inr ⟨rfl, hnone⟩, ?_, h.held, h.ledger.same rfl rfl subset_rfl⟩
    exact fun c conn hc hg => absurd (hnone c conn hc) hg
  · exact .refl h

theorem tellController_calms (h : Sound pressed m) (c : Option EndpointKey) :
    Calms pressed m (m.tellController P c) := by
  cases c with
  | none => exact .refl h
  | some c =>
    simp only [tellController]
    split
    · exact send_calms h _ _
    · exact .refl h

theorem releaseConnection_calms (phys : Physical P pressed) (h : Sound pressed m)
    (c : EndpointKey) :
    Calms pressed m (m.releaseConnection P c) ∧
      ∀ conn, (m.releaseConnection P c).connections.get c = some conn → conn.grant = "" := by
  rw [releaseConnection]
  split
  · rename_i hg
    refine ⟨.refl h, fun conn hc => ?_⟩
    rwa [conn_eq hc] at hg
  rename_i hg
  split
  · obtain ⟨hcalm, -, hnone⟩ := release_calms phys h
    exact ⟨hcalm, hnone c⟩
  have hown : m.owner = some c.owner ∨ m.owner = none := by
    rcases hc : m.connections.get c with _ | conn
    · rw [conn, hc] at hg
      exact absurd rfl hg
    · rw [conn_eq hc] at hg
      exact Or.inl (h.owner c conn hc hg)
  have hclear := clearHeld_calms phys h c
  have hempty := clearHeld_empty (P := P) c m
  generalize m.clearHeld P c = r at hclear hempty ⊢
  obtain ⟨err, m₁⟩ := r
  dsimp only at hclear hempty ⊢
  have hdrop := hclear.trans (dropGrant_calms phys hclear.sound c hempty)
  have htell := hdrop.trans (tellController_calms (P := P) hdrop.sound
    ((m₁.dropGrant P c).singleController c.owner))
  have hend := htell.trans (giveUp_calms htell.sound (htell.owner_or hown))
  exact ⟨hend, ((tellController_calms (P := P) hdrop.sound
    ((m₁.dropGrant P c).singleController c.owner)).trans
    (giveUp_calms htell.sound (htell.owner_or hown))).grant (dropGrant_grant c m₁)⟩

theorem unrequested_kept (conn : Connection) : conn.Kept { conn with requested := false } :=
  ⟨rfl, rfl, rfl, rfl, rfl, fun h => absurd h Bool.false_ne_true, Or.inl rfl⟩

theorem revoke_calms (phys : Physical P pressed) (h : Sound pressed m) (c : EndpointKey) :
    Calms pressed m (m.revoke P c) ∧
      ∀ conn, (m.revoke P c).connections.get c = some conn →
        conn.grant = "" ∧ conn.requested = false := by
  have hreq : Calms pressed m (m.setConn c fun conn => { conn with requested := false }) :=
    setConn_calms h c unrequested_kept (fun _ => rfl) (fun _ => rfl)
  obtain ⟨hrel, hg⟩ := releaseConnection_calms phys hreq.sound c
  have hsend := send_calms (P := P) hrel.sound c .ready
  refine ⟨(hreq.trans hrel).trans hsend, fun conn hc => ⟨hsend.grant hg conn hc, ?_⟩⟩
  obtain ⟨conn₁, hc₁, hk₁⟩ := (hrel.trans hsend).kept c conn hc
  rw [get_setConn, if_pos rfl, Option.map_eq_some_iff] at hc₁
  obtain ⟨conn₀, -, rfl⟩ := hc₁
  by_contra hr
  exact absurd (hk₁.requested (by simpa using hr)) Bool.false_ne_true

/-! ## The target -/

theorem refreshSuspended_calms (suspended : Bool) (c : EndpointKey) (m : Manager σ)
    (h : Sound pressed m) : Calms pressed m (m.refreshSuspended P suspended c) := by
  rw [refreshSuspended]
  split
  · have hset : Calms pressed m (m.setConn c fun conn => { conn with suspended }) :=
      setConn_calms h c (fun _ => ⟨rfl, rfl, rfl, rfl, rfl, id, Or.inl rfl⟩) (fun _ => rfl)
        (fun _ => rfl)
    exact hset.trans (send_calms hset.sound _ _)
  · exact .refl h

theorem loseFocus_calms (phys : Physical P pressed) (err : Option String) (c : EndpointKey)
    (m : Manager σ) (h : Sound pressed m) : Calms pressed m (m.loseFocus P err c) := by
  rw [loseFocus]
  split
  · have hnote := noteInputResult_calms (P := P) h c err
    exact hnote.trans (neutralPad_calms phys hnote.sound c)
  · exact neutralPad_calms phys h c

theorem resetHeld_calms (phys : Physical P pressed) (h : Sound pressed m) {s : ℕ}
    (ho : m.owner = some s ∨ m.owner = none) : Calms pressed m (m.resetHeld P s).2 := by
  refine .of_cleans h (resetHeld_cleans s m) (resetHeld_ledger phys (h.heldBy ?_) h.ledger)
  intro s' hs'
  rcases ho with ho | ho
  · rw [ho] at hs'
    exact (Option.some.inj hs').symm
  · rw [ho] at hs'
    cases hs'

theorem refreshActive_calms (phys : Physical P pressed) (h : Sound pressed m) :
    Calms pressed m (m.refreshActive P).2 := by
  rw [refreshActive]
  split
  · exact .refl h
  rename_i s ho
  have htarget := phys.silent (.target (m.session s).target (m.session s).capture m.sink)
  have hsilent := Platform.Silent.target (P := P) (m.session s).target (m.session s).capture m.sink
  generalize P.target (m.session s).target (m.session s).capture m.sink = r at hsilent ⊢
  obtain ⟨found, sink⟩ := r
  dsimp only at hsilent ⊢
  have hsink := setSink_calms phys h hsilent
  split
  · have hrange : Calms pressed m (m.setSink (P.range m.connections.keys sink).2) :=
      hsink.trans (setSink_calms (m := m.setSink sink) phys hsink.sound (.range _ sink))
    obtain ⟨hrel, -⟩ := release_calms phys hrange.sound
    exact foldl_induct (I := fun _ m' => Calms pressed m m')
      (fun c _ m' hI => hI.trans (send_calms hI.sound c .failed)) _ _ (hrange.trans hrel)
  · rename_i b focused
    have hround := hsink.trans (eachConnection_calms phys hsink.sound (s := s)
      (refreshSuspended_calms (P := P) (!focused)))
    split
    · have hreset := hround.trans (resetHeld_calms phys hround.sound
        (hround.owner_or (Or.inl ho)))
      exact hreset.trans (eachConnection_calms phys hreset.sound (s := s)
        (loseFocus_calms phys _))
    · exact hround

/-! ## Gamepads -/

theorem assignGamepad_calms (phys : Physical P pressed) (h : Sound pressed m) (c : EndpointKey) :
    Calms pressed m (m.assignGamepad P c) := by
  rw [assignGamepad]
  split
  · exact .refl h
  split
  · exact failGamepad_calms phys h c
  · exact .of_cleans h (.of_eq rfl rfl rfl rfl rfl) (h.ledger.same rfl rfl subset_rfl)

theorem receiveGamepad_calms (phys : Physical P pressed) (h : Sound pressed m) (c : EndpointKey)
    (event : InputEvent) : Calms pressed m (m.receiveGamepad P c event) := by
  rw [receiveGamepad]
  split
  · exact .refl h
  split
  · have hstop : Calms pressed m
        (m.setConn c fun conn => { conn with padIntent := conn.padIntent + 1 }) :=
      setConn_calms h c (fun _ => ⟨rfl, rfl, rfl, rfl, rfl, id, Or.inl rfl⟩) (fun _ => rfl)
        (fun _ => rfl)
    exact hstop.trans (closePad_calms phys hstop.sound c)
  · exact neutralPad_calms phys h c
  · split
    · exact .refl h
    have hfresh := refreshActive_calms phys h
    generalize m.refreshActive P = r at hfresh ⊢
    obtain ⟨⟨b, focused⟩, m₁⟩ := r
    dsimp only at hfresh ⊢
    split
    · exact hfresh
    split
    · exact hfresh.trans (assignGamepad_calms phys hfresh.sound c)
    · rename_i report _ _ _ _ _
      have hpad := hfresh.trans (setSink_calms phys hfresh.sound (.updatePad c report m₁.sink))
      split
      · exact hpad.trans (failGamepad_calms phys hpad.sound c)
      · exact hpad
  · exact .refl h

end Manager

end Piik.Input
