/-
  The packets of the input route, and the runs of a manager.

  `Driven c edgeID epoch event m m'`: between the two states the sink is
  handed, besides releases, only what the event asks for, while the
  connection holds the grant the event names on that edge and epoch.
-/
import Piik.Input.Operations

namespace Piik.Input

variable {σ : Type}

/-- The inputs an event asks for. -/
def InputEvent.script (event : InputEvent) : List InputEvent :=
  if event.type = .text then Manager.textScript event.text else [event]

/-- The grant an input is injected under. -/
def Authentic (c : EndpointKey) (edgeID epoch : String) (event : InputEvent) (a : Applied) : Prop :=
  ∃ conn, a.connections.get c = some conn ∧ conn.edgeID = edgeID ∧ conn.epoch = epoch ∧
    conn.grant = event.grant ∧ conn.grant ≠ ""

/-- What was applied belongs to the event, and nothing was pending then. -/
structure Injection (c : EndpointKey) (edgeID epoch : String) (event : InputEvent)
    (new : List Applied) : Prop where
  script : ((inputs new).map (·.event)).Sublist event.script
  settled : ∀ a ∈ inputs new, a.pendingKeys = [] ∧ a.pendingButtons = []
  authentic : ∀ a ∈ inputs new, Authentic c edgeID epoch event a
  accepted : ∀ a ∈ (inputs new).dropLast, a.accepted = true

/-- The manager applied nothing but what belongs to the event. -/
def Driven (c : EndpointKey) (edgeID epoch : String) (event : InputEvent) (m m' : Manager σ) :
    Prop :=
  ∃ new, m'.applied = m.applied ++ new ∧ Injection c edgeID epoch event new

namespace Driven

variable {c : EndpointKey} {edgeID epoch : String} {event : InputEvent} {m m₁ m₂ : Manager σ}

theorem of_quiet (h : Quiet m m₁) : Driven c edgeID epoch event m m₁ := by
  obtain ⟨new, hn, hi⟩ := h
  exact ⟨new, hn, by simp [hi], by simp [hi], by simp [hi], by simp [hi]⟩

theorem after (h : Quiet m m₁) (h' : Driven c edgeID epoch event m₁ m₂) :
    Driven c edgeID epoch event m m₂ := by
  obtain ⟨new, hn, hi⟩ := h
  obtain ⟨new', hn', hs, ht, ha, hacc⟩ := h'
  have hin : inputs (new ++ new') = inputs new' := by rw [inputs_append, hi, List.nil_append]
  exact ⟨new ++ new', by rw [hn', hn, List.append_assoc], by rwa [hin], by rwa [hin], by rwa [hin],
    by rwa [hin]⟩

theorem before (h : Driven c edgeID epoch event m m₁) (h' : Quiet m₁ m₂) :
    Driven c edgeID epoch event m m₂ := by
  obtain ⟨new, hn, hs, ht, ha, hacc⟩ := h
  obtain ⟨new', hn', hi⟩ := h'
  have hin : inputs (new ++ new') = inputs new := by rw [inputs_append, hi, List.append_nil]
  exact ⟨new ++ new', by rw [hn', hn, List.append_assoc], by rwa [hin], by rwa [hin], by rwa [hin],
    by rwa [hin]⟩

end Driven

namespace Manager

variable {P : Platform σ} {pressed : σ → Set Held} {m : Manager σ} {c : EndpointKey}

/-! ## Input under a grant -/

/-- A target in focus costs nobody the grant. -/
theorem refreshActive_focused (hf : (m.refreshActive P).1.2 = true) (conn' : Connection)
    (hc : (m.refreshActive P).2.connections.get c = some conn') :
    ∃ conn, m.connections.get c = some conn ∧ conn'.grant = conn.grant := by
  rw [refreshActive] at hf hc
  split at hf
  · exact absurd hf Bool.false_ne_true
  rename_i s ho
  rw [ho] at hc
  dsimp only at hf hc
  split at hf
  · exact absurd hf Bool.false_ne_true
  rename_i b focused hfound
  rw [hfound] at hc
  dsimp only at hf hc
  have hfocus : focused = true := by
    split at hf
    · exact hf
    · exact hf
  rw [if_neg (by simp [hfocus]), eachConnection_eq] at hc
  -- Each step of the round leaves every grant.
  refine foldl_induct (f := fun m c => refreshSuspended P (!focused) c m)
    (I := fun _ m' => ∀ conn', m'.connections.get c = some conn' →
      ∃ conn, m.connections.get c = some conn ∧ conn'.grant = conn.grant) ?_ _ _ ?_ conn' hc
  · intro c' cs m' hI conn₁ hc₁
    rw [refreshSuspended] at hc₁
    split at hc₁
    · rw [send, reply_connections, get_setConn] at hc₁
      split at hc₁
      · rename_i hcc
        subst hcc
        rw [Option.map_eq_some_iff] at hc₁
        obtain ⟨conn₀, hc₀, rfl⟩ := hc₁
        exact hI conn₀ hc₀
      · exact hI conn₁ hc₁
    · exact hI conn₁ hc₁
  · exact fun conn₁ hc₁ => ⟨conn₁, hc₁, rfl⟩

theorem plays_safe (h : Sound pressed m) (hl : Live m) {events : List InputEvent}
    {err : Option String} {m' : Manager σ} (hp : Plays c events err m m')
    (hled : Ledger pressed ∅ m') {conn : Connection} (hc : m.connections.get c = some conn)
    (hg : conn.grant ≠ "") : Sound pressed m' ∧ Live m' := by
  have hkept (c' : EndpointKey) (conn' : Connection) (hc' : m'.connections.get c' = some conn') :
      ∃ conn, m.connections.get c' = some conn ∧ conn'.bare = conn.bare := by
    have hb := hp.bare c'
    rw [hc', Option.map_some, eq_comm, Option.map_eq_some_iff] at hb
    obtain ⟨conn, hc₀, hb⟩ := hb
    exact ⟨conn, hc₀, hb.symm⟩
  refine ⟨⟨?_, ?_, hled⟩, hl.of_kept hp.sessions hp.closed fun c' conn' hc' => ?_⟩
  · intro c' conn' hc' hg'
    obtain ⟨conn₀, hc₀, hb⟩ := hkept c' conn' hc'
    rw [hp.owner]
    exact h.owner c' conn₀ hc₀ (by rwa [← Connection.Kept.grant_of_bare hb])
  · intro c' conn' hc' hg'
    obtain ⟨conn₀, hc₀, hb⟩ := hkept c' conn' hc'
    rw [Connection.Kept.grant_of_bare hb] at hg'
    by_cases hcc : c' = c
    · subst hcc
      rw [hc] at hc₀
      cases hc₀
      exact absurd hg' hg
    · obtain ⟨conn₁, hc₁, hs⟩ := hp.shrinks c' conn' hcc hc'
      rw [hc₀] at hc₁
      cases hc₁
      rw [h.held c' conn₀ hc₀ hg'] at hs
      exact Set.subset_empty_iff.1 hs
  · obtain ⟨conn₀, hc₀, hb⟩ := hkept c' conn' hc'
    exact ⟨conn₀, hc₀, .of_bare hb⟩

theorem plays_driven {event : InputEvent} {err : Option String} {m' : Manager σ}
    (hp : Plays c event.script err m m') {conn : Connection} (hc : m.connections.get c = some conn)
    (hg : conn.grant ≠ "") (he : event.grant = conn.grant) :
    Driven c conn.edgeID conn.epoch event m m' := by
  obtain ⟨new, hn, hsub, hat, hlast, -⟩ := hp.applied
  refine ⟨new, hn, hsub, fun a ha => ⟨(hat a ha).1, (hat a ha).2.1⟩, fun a ha => ?_, hlast⟩
  have hb := (hat a ha).2.2 c
  rw [hc, Option.map_some, Option.map_eq_some_iff] at hb
  obtain ⟨conn', hc', hb⟩ := hb
  have hgr := Connection.Kept.grant_of_bare hb
  have hk := Connection.Kept.of_bare hb
  exact ⟨conn', hc', hk.edgeID, hk.epoch, hgr.trans he.symm, by rwa [hgr]⟩

/-- What a packet does: the invariants stay, and input is injected under its grant only. -/
structure Takes (pressed : σ → Set Held) (c : EndpointKey) (edgeID epoch : String)
    (event : InputEvent) (m m' : Manager σ) : Prop where
  sound : Sound pressed m'
  live : Live m'
  driven : Driven c edgeID epoch event m m'

theorem takes_of_safe {edgeID epoch : String} {event : InputEvent} {m' : Manager σ}
    (h : Safe pressed none m m') : Takes pressed c edgeID epoch event m m' :=
  ⟨h.sound, h.live, .of_quiet h.quiet⟩

theorem receiveInput_takes (phys : Physical P pressed) (h : Sound pressed m) (hl : Live m)
    {conn : Connection} (hc : m.connections.get c = some conn) (hg : conn.grant ≠ "")
    {event : InputEvent} (he : event.grant = conn.grant) :
    Takes pressed c conn.edgeID conn.epoch event m (m.receiveInput P c event) := by
  rw [receiveInput]
  split
  · exact takes_of_safe (.of_calms hl (receiveGamepad_calms phys h c event))
  split
  · exact takes_of_safe (.refl h hl)
  split
  · have hpad := Safe.of_calms hl (receiveGamepad_calms (P := P) phys h c { type := .gamepadReset })
    have hclear := hpad.calms (clearHeld_calms phys hpad.sound c)
    exact takes_of_safe (hclear.calms (noteInputResult_calms hclear.sound c _))
  split
  · exact takes_of_safe (.refl h hl)
  have hfresh := refreshActive_calms phys h
  have hfocus := refreshActive_focused (P := P) (m := m) (c := c)
  generalize m.refreshActive P = r at hfresh hfocus ⊢
  obtain ⟨⟨b, focused⟩, m₁⟩ := r
  dsimp only at hfresh hfocus ⊢
  have hsafe := Safe.of_calms hl hfresh
  split
  · exact takes_of_safe hsafe
  rename_i hf
  -- The target is in focus, so the connection still holds its grant.
  have hhas : m₁.connections.has c = true := by
    rw [hfresh.has, OMap.has, hc]; rfl
  obtain ⟨conn₁, hc₁⟩ := Option.isSome_iff_exists.1 hhas
  obtain ⟨conn₀, hc₀, hgr⟩ := hfocus (by simpa using hf) conn₁ hc₁
  rw [hc] at hc₀
  cases hc₀
  obtain ⟨conn₀, hc₀, hk⟩ := hfresh.kept c conn₁ hc₁
  rw [hc] at hc₀
  cases hc₀
  have hby : m₁.HeldBy c.owner := hsafe.sound.heldBy fun s hs => by
    have := hsafe.sound.owner c conn₁ hc₁ (by rwa [hgr])
    rw [this] at hs
    exact (Option.some.inj hs).symm
  have hplay : ∃ m₂ err, (if event.type = .text then m₁.applyText P c b event.text
      else m₁.applyHeld P c b event) = (err, m₂) ∧ Plays c event.script err m₁ m₂ ∧
        Ledger pressed ∅ m₂ := by
    by_cases ht : event.type = .text
    · rw [if_pos ht, InputEvent.script, if_pos ht]
      exact ⟨_, _, rfl, applyText_plays c b event.text m₁,
        applyText_ledger phys hsafe.sound.ledger hhas hby b event.text⟩
    · rw [if_neg ht, InputEvent.script, if_neg ht]
      exact ⟨_, _, rfl, applyHeld_plays c b event m₁,
        applyHeld_ledger phys hsafe.sound.ledger hhas b event⟩
  obtain ⟨m₂, err, hrun, hp, hled⟩ := hplay
  rw [hrun]
  obtain ⟨hsound₂, hlive₂⟩ := plays_safe hsafe.sound hsafe.live hp hled hc₁ (by rwa [hgr])
  have hnote := Safe.of_calms hlive₂ (noteInputResult_calms (P := P) hsound₂ c err)
  have hdriven := plays_driven hp hc₁ (by rwa [hgr]) (by rw [he, hgr])
  rw [hk.edgeID, hk.epoch] at hdriven
  exact ⟨hnote.sound, hnote.live, (Driven.after hsafe.quiet hdriven).before hnote.quiet⟩

/-! ## Asking for a grant -/

/-- A change of a connection that keeps what its grant and its request rest on. -/
theorem setConn_live (hl : Live m) {f : Connection → Connection}
    (hg : ∀ conn, (f conn).grant = conn.grant)
    (hkeep : ∀ conn, m.connections.get c = some conn → conn.grant ≠ "" →
      (f conn).edgeID ≠ "" ∧ (conn.extended = true → (f conn).extended = true))
    (hask : ∀ conn, m.connections.get c = some conn → (f conn).requested = true →
      (m.session c.owner).mode ≠ .off) : Live (m.setConn c f) := by
  -- Every connection has one before it with the same grant.
  have hget (c' : EndpointKey) (conn' : Connection)
      (hc : (m.setConn c f).connections.get c' = some conn') :
      ∃ conn, m.connections.get c' = some conn ∧ conn'.grant = conn.grant ∧
        (conn.grant ≠ "" → (conn.edgeID ≠ "" → conn'.edgeID ≠ "") ∧
          (conn.extended = true → conn'.extended = true)) ∧
        (conn'.requested = true → conn.requested = true ∨ (m.session c'.owner).mode ≠ .off) := by
    rw [get_setConn] at hc
    by_cases hcc : c' = c
    · subst hcc
      rw [if_pos rfl, Option.map_eq_some_iff] at hc
      obtain ⟨conn, hc, rfl⟩ := hc
      exact ⟨conn, hc, hg conn, fun hne => ⟨fun _ => (hkeep conn hc hne).1, (hkeep conn hc hne).2⟩,
        fun hr => Or.inr (hask conn hc hr)⟩
    · rw [if_neg hcc] at hc
      exact ⟨conn', hc, rfl, fun _ => ⟨id, id⟩, Or.inl⟩
  constructor
  · intro c' conn' hc hne hg'
    obtain ⟨conn, hc₀, hgr, hk, -⟩ := hget c' conn' hc
    rw [hgr] at hg'
    obtain ⟨hcl, hav, hm, he⟩ := hl.granted c' conn hc₀ hne hg'
    exact ⟨hcl, hav, hm, (hk hg').1 he⟩
  · intro c' conn' hc hne hr
    obtain ⟨conn, hc₀, -, -, hreq⟩ := hget c' conn' hc
    rcases hreq hr with hr | hm
    · exact hl.asked c' conn hc₀ hne hr
    · exact hm
  · intro c₁ c₂ conn₁ conn₂ h₁ h₂ hne hcc hg₁ hg₂
    obtain ⟨conn₁', hc₁, hgr₁, hk₁, -⟩ := hget c₁ conn₁ h₁
    obtain ⟨conn₂', hc₂, hgr₂, hk₂, -⟩ := hget c₂ conn₂ h₂
    rw [hgr₁] at hg₁
    rw [hgr₂] at hg₂
    obtain ⟨hco, hsi, he₁, he₂⟩ := hl.shared c₁ c₂ conn₁' conn₂' hc₁ hc₂ hne hcc hg₁ hg₂
    exact ⟨hco, hsi, (hk₁ hg₁).2 he₁, (hk₂ hg₂).2 he₂⟩

theorem authorize_safe (phys : Physical P pressed) (h : Sound pressed m) (hl : Live m) (s : ℕ)
    (password : String) : Safe pressed none m (m.authorize P s password).2 ∧
      (m.authorize P s password).2.connections = m.connections ∧
      (m.authorize P s password).2.closed = m.closed ∧
      ∀ x, ((m.authorize P s password).2.session x).terms = (m.session x).terms := by
  rw [authorize]
  split
  · exact ⟨.refl h hl, rfl, rfl, fun _ => rfl⟩
  have hnow := Safe.of_calms hl (setSink_calms phys h (.now m.sink))
  generalize P.now m.sink = r at hnow ⊢
  obtain ⟨now, sink⟩ := r
  dsimp only at hnow ⊢
  split
  · exact ⟨hnow, rfl, rfl, fun _ => rfl⟩
  have hretry := hnow.trans (setSession_safe hnow.sound hnow.live s
    (f := fun session => { session with passwordRetry := now + 1000000000 }) fun _ => rfl)
  have hterms (x : ℕ) : (((m.setSink sink).setSession s fun session =>
      { session with passwordRetry := now + 1000000000 }).session x).terms =
        (m.session x).terms := by
    rw [session_setSession]
    split
    · rename_i hx
      rw [hx.1]
      rfl
    · rfl
  split
  · exact ⟨hretry, rfl, rfl, hterms⟩
  · exact ⟨hretry, rfl, rfl, hterms⟩

theorem receiveRequest_safe (phys : Physical P pressed) (h : Sound pressed m) (hl : Live m)
    {conn : Connection} (hc : m.connections.get c = some conn) (hedge : conn.edgeID ≠ "")
    (hclosed : m.closed = false) (event : InputEvent) :
    Safe pressed none m (m.receiveRequest P c event) := by
  rw [receiveRequest]
  split
  · exact .refl h hl
  rename_i hgo
  simp only [Bool.or_eq_true, Bool.not_eq_true', decide_eq_true_eq, not_or,
    Bool.not_eq_false] at hgo
  obtain ⟨⟨⟨hav, hmode⟩, hreq⟩, hg⟩ := hgo
  split
  · exact .refl h hl
  have hsink := Safe.of_calms hl (setSink_calms phys h (.random 16 m.sink))
  generalize P.random 16 m.sink = r at hsink ⊢
  obtain ⟨id, sink⟩ := r
  dsimp only at hsink ⊢
  have hid : Safe pressed none m ((m.setSink sink).setConn c fun conn =>
      { conn with requestID := encodeHex id, intent := event.intent }) :=
    hsink.calms (setConn_calms hsink.sound c
      (fun _ => ⟨rfl, rfl, rfl, rfl, rfl, fun h => h, Or.inl rfl⟩) (fun _ => rfl) (fun _ => rfl))
  obtain ⟨conn₁, hget, hedge₁⟩ : ∃ conn₁, ((m.setSink sink).setConn c fun conn =>
      { conn with requestID := encodeHex id, intent := event.intent }).connections.get c =
        some conn₁ ∧ conn₁.edgeID ≠ "" := by
    rw [get_setConn, if_pos rfl, setSink_connections, hc]
    exact ⟨_, rfl, hedge⟩
  have hsess (s : ℕ) : ((m.setSink sink).setConn c fun conn =>
      { conn with requestID := encodeHex id, intent := event.intent }).session s = m.session s := rfl
  generalize hm₁ : (m.setSink sink).setConn c _ = m₁ at hid hget hsess ⊢
  have hclosed₁ : m₁.closed = false := by rw [← hm₁]; exact hclosed
  split
  · obtain ⟨hauth, hconn, hcl, hterms⟩ := authorize_safe (P := P) phys hid.sound hid.live c.owner
      event.password
    generalize m₁.authorize P c.owner event.password = r at hauth hconn hcl hterms ⊢
    obtain ⟨reason, m₂⟩ := r
    dsimp only at hauth hconn hcl hterms ⊢
    have hsafe := hid.trans hauth
    split
    · exact hsafe.calms (reply_calms hsafe.sound _ _ _)
    split
    · exact hsafe.calms (reply_calms hsafe.sound _ _ _)
    · have ht := hterms c.owner
      rw [hsess] at ht
      simp only [Session.terms, Prod.mk.injEq] at ht
      obtain ⟨hc₁, hp₁, ht₁, hm, -⟩ := ht
      refine hsafe.trans (grant_safe phys hsafe.sound hsafe.live (by rw [hconn]; exact hget) hedge₁
        (by rw [hcl]; exact hclosed₁) ?_ ?_)
      · rw [sessionAvailable, hc₁, hp₁, ht₁]
        exact hav
      · rwa [hm]
  · have hask : Safe pressed none m₁ (m₁.setConn c fun conn => { conn with requested := true }) :=
      ⟨setConn_sound hid.sound c (fun _ => rfl) (fun _ => rfl),
        setConn_live hid.live (fun _ => rfl) (fun conn hc hg =>
          ⟨(hid.live.granted c conn hc (Option.some_ne_none _) hg).2.2.2, fun h => h⟩)
          (fun _ _ _ => by rw [hsess]; exact hmode), .of_eq rfl⟩
    exact (hid.trans hask).calms (send_calms hask.sound _ _)

/-! ## Packets -/

theorem receiveEvent_takes (phys : Physical P pressed) (h : Sound pressed m) (hl : Live m)
    {conn : Connection} (hc : m.connections.get c = some conn) (hedge : conn.edgeID ≠ "")
    (hclosed : m.closed = false) (event : InputEvent) :
    Takes pressed c conn.edgeID conn.epoch event m (m.receiveEvent P c event) := by
  have hlive (conn : Connection) (hc : m.connections.get c = some conn) (hg : conn.grant ≠ "") :
      conn.edgeID ≠ "" := (hl.granted c conn hc (Option.some_ne_none _) hg).2.2.2
  rw [receiveEvent]
  split
  · exact takes_of_safe (.of_calms hl (send_calms h _ _))
  · have hset : Safe pressed none m (m.setConn c fun conn =>
        { conn with extended := true, inputFeedback := event.inputFeedback }) :=
      ⟨setConn_sound h c (fun _ => rfl) (fun _ => rfl),
        setConn_live hl (fun _ => rfl) (fun conn hc hg => ⟨hlive conn hc hg, fun _ => rfl⟩)
          (fun conn hc hr => hl.asked c conn hc (Option.some_ne_none _) hr), .of_eq rfl⟩
    exact takes_of_safe (hset.calms (send_calms hset.sound _ _))
  · exact takes_of_safe (receiveRequest_safe phys h hl hc hedge hclosed event)
  · split
    · exact takes_of_safe (.refl h hl)
    · have hreq : Calms pressed m (m.setConn c fun conn => { conn with requested := false }) :=
        setConn_calms h c unrequested_kept (fun _ => rfl) (fun _ => rfl)
      have hrel := hreq.trans (releaseConnection_calms phys hreq.sound c).1
      exact takes_of_safe (.of_calms hl (hrel.trans (send_calms hrel.sound _ _)))
  · split
    · exact takes_of_safe (.refl h hl)
    · rename_i hgo
      simp only [Bool.or_eq_true, decide_eq_true_eq, not_or] at hgo
      obtain ⟨⟨hg, he⟩, -⟩ := hgo
      rw [conn_eq hc] at hg he
      exact receiveInput_takes phys h hl hc hg (not_not.1 he)

theorem bindEdge_safe (phys : Physical P pressed) (h : Sound pressed m) (hl : Live m)
    {edgeID : String} (hedge : edgeID ≠ "") (epoch : String) :
    Safe pressed none m (m.bindEdge P c edgeID epoch) ∧
      (m.bindEdge P c edgeID epoch).closed = m.closed ∧
      (m.bindEdge P c edgeID epoch).connections.has c = m.connections.has c ∧
      ∀ conn, (m.bindEdge P c edgeID epoch).connections.get c = some conn →
        conn.edgeID = edgeID ∧ conn.epoch = epoch := by
  rw [bindEdge]
  have hrev : Calms pressed m (if ((m.conn c).edgeID ≠ "" && ((m.conn c).edgeID ≠ edgeID ||
      (m.conn c).epoch ≠ epoch)) = true then m.revoke P c else m) := by
    split
    · exact (revoke_calms phys h c).1
    · exact .refl h
  -- What still has a grant had this very edge and epoch before.
  have hsame : ∀ conn, (if ((m.conn c).edgeID ≠ "" && ((m.conn c).edgeID ≠ edgeID ||
      (m.conn c).epoch ≠ epoch)) = true then m.revoke P c else m).connections.get c = some conn →
      conn.grant ≠ "" → conn.epoch = epoch := by
    intro conn hc hg
    split at hc
    · exact absurd ((revoke_calms phys h c).2 conn hc).1 hg
    · rename_i hno
      rw [conn_eq hc] at hno
      have he := (hl.granted c conn hc (Option.some_ne_none _) hg).2.2.2
      simp only [Bool.and_eq_true, decide_eq_true_eq, Bool.or_eq_true, not_and, not_or] at hno
      exact not_not.1 (hno he).2
  generalize (if ((m.conn c).edgeID ≠ "" && ((m.conn c).edgeID ≠ edgeID ||
    (m.conn c).epoch ≠ epoch)) = true then m.revoke P c else m) = m₁ at hrev hsame ⊢
  have hsafe := Safe.of_calms hl hrev
  refine ⟨⟨setConn_sound hsafe.sound c (fun _ => rfl) (fun _ => rfl), ?_,
    hsafe.quiet.trans (.of_eq rfl)⟩, hrev.closed, ?_, ?_⟩
  · refine setConn_live hsafe.live (fun _ => rfl) (fun conn hc hg => ⟨hedge, fun hx => ?_⟩)
      fun conn hc hr => hsafe.live.asked c conn hc (Option.some_ne_none _) hr
    dsimp only
    rw [if_neg (not_not.2 (hsame conn hc hg))]
    exact hx
  · rw [← hrev.has c, OMap.has, get_setConn, if_pos rfl, Option.isSome_map, OMap.has]
  · intro conn hc
    rw [get_setConn, if_pos rfl, Option.map_eq_some_iff] at hc
    obtain ⟨conn₀, -, rfl⟩ := hc
    exact ⟨rfl, rfl⟩

theorem receivePacket_takes (phys : Physical P pressed) (h : Sound pressed m) (hl : Live m)
    (s : ℕ) {edgeID : String} (hedge : edgeID ≠ "") (packet : Packet) (current : Bool) :
    Safe pressed none m (m.receivePacket P s edgeID packet current) ∨
      ∃ conn seq plain event, packet.closed = false ∧ current = true ∧
        m.connections.get ⟨s, packet.id⟩ = some conn ∧
        openPacket P conn packet.data packet.epoch = some (seq, plain) ∧
        P.decode plain = some event ∧
        Takes pressed ⟨s, packet.id⟩ edgeID packet.epoch event m
          (m.receivePacket P s edgeID packet current) := by
  rw [receivePacket]
  dsimp only
  split
  · exact Or.inl (.refl h hl)
  rename_i hgo
  simp only [Bool.or_eq_true, Bool.not_eq_true', not_or, Bool.not_eq_false, Bool.not_eq_true] at hgo
  obtain ⟨⟨hhas, hclosed⟩, -⟩ := hgo
  obtain ⟨conn, hc⟩ := Option.isSome_iff_exists.1 hhas
  split
  · split
    · -- An edge that is given up leaves no grant behind.
      obtain ⟨hrev, hnone⟩ := revoke_calms phys h (P := P) ⟨s, packet.id⟩
      have hsafe := Safe.of_calms hl hrev
      exact Or.inl ⟨setConn_sound hsafe.sound _ (fun _ => rfl) (fun _ => rfl),
        setConn_live hsafe.live (fun _ => rfl) (fun conn hc hg => absurd (hnone conn hc).1 hg)
          (fun conn hc hr => hsafe.live.asked _ conn hc (Option.some_ne_none _) hr),
        hsafe.quiet.trans (.of_eq rfl)⟩
    · exact Or.inl (.refl h hl)
  rename_i hpc
  split
  · exact Or.inl (.refl h hl)
  rename_i hcur
  split
  · exact Or.inl (.refl h hl)
  rename_i seq plain hopen
  have hrecv : Safe pressed none m
      (m.setConn ⟨s, packet.id⟩ fun conn => { conn with received := seq }) :=
    ⟨setConn_sound h _ (fun _ => rfl) (fun _ => rfl),
      setConn_live hl (fun _ => rfl) (fun conn hc hg =>
        ⟨(hl.granted _ conn hc (Option.some_ne_none _) hg).2.2.2, fun h => h⟩)
        (fun conn hc hr => hl.asked _ conn hc (Option.some_ne_none _) hr), .of_eq rfl⟩
  have hhas' : (m.setConn ⟨s, packet.id⟩ fun conn => { conn with received := seq }).connections.has
      ⟨s, packet.id⟩ = true := by
    rw [OMap.has, get_setConn, if_pos rfl, Option.isSome_map]
    exact hhas
  obtain ⟨hbind, hcl, hhas'', hat⟩ := bindEdge_safe phys hrecv.sound hrecv.live
    (c := ⟨s, packet.id⟩) hedge packet.epoch
  have hsafe := hrecv.trans hbind
  rw [hhas'] at hhas''
  rw [show (m.setConn ⟨s, packet.id⟩ fun conn => { conn with received := seq }).closed = false from
    hclosed] at hcl
  generalize (m.setConn ⟨s, packet.id⟩ fun conn => { conn with received := seq }).bindEdge P
    ⟨s, packet.id⟩ edgeID packet.epoch = m₁
    at hbind hat hsafe hcl hhas'' ⊢
  obtain ⟨conn₁, hc₁⟩ := Option.isSome_iff_exists.1 hhas''
  rw [receiveLocked]
  split
  · exact Or.inl hsafe
  split
  · exact Or.inl hsafe
  rename_i event hevent
  refine Or.inr ⟨conn, seq, plain, event, by simpa using hpc, by simpa using hcur, hc, ?_, hevent, ?_⟩
  · rwa [conn_eq hc] at hopen
  · have htake := receiveEvent_takes phys hsafe.sound hsafe.live hc₁
      (by rw [(hat conn₁ hc₁).1]; exact hedge) hcl event
    rw [(hat conn₁ hc₁).1, (hat conn₁ hc₁).2] at htake
    exact ⟨htake.sound, htake.live, .after hsafe.quiet htake.driven⟩

/-! ## Runs -/

/-- An operation that opens a packet of a connection, with the event in it. -/
def Opens (P : Platform σ) (m : Manager σ) (op : Op) (c : EndpointKey) (edgeID epoch : String)
    (event : InputEvent) : Prop :=
  ∃ (edge : EdgeID) (packet : Packet) (conn : Connection) (seq : ℕ) (plain : List UInt8),
    op = .packet c.owner edge packet true ∧ edge.1 = edgeID ∧ packet.id = c.id ∧
      packet.epoch = epoch ∧ packet.closed = false ∧ m.connections.get c = some conn ∧
      openPacket P conn packet.data epoch = some (seq, plain) ∧ P.decode plain = some event

theorem run_keeps (phys : Physical P pressed) (h : Sound pressed m) (hl : Live m) (op : Op) :
    Sound pressed (m.run P op) ∧ Live (m.run P op) ∧
      (Quiet m (m.run P op) ∨ ∃ c edgeID epoch event, m.Opens P op c edgeID epoch event ∧
        Driven c edgeID epoch event m (m.run P op)) := by
  have hsafe {m' : Manager σ} (hs : Safe pressed none m m') : Sound pressed m' ∧ Live m' ∧
      (Quiet m m' ∨ ∃ c edgeID epoch event, m.Opens P op c edgeID epoch event ∧
        Driven c edgeID epoch event m m') := ⟨hs.sound, hs.live, Or.inl hs.quiet⟩
  cases op with
  | newSession => exact hsafe (newSession_safe h hl)
  | setTarget s target capture change => exact hsafe (setTarget_safe phys h hl s target capture change)
  | setPeers s peers => exact hsafe (setPeers_safe phys h hl s peers)
  | packet s edge packet current =>
    rcases receivePacket_takes phys h hl s edge.2 packet current with
      hs | ⟨conn, seq, plain, event, hpc, rfl, hc, hopen, hevent, ht⟩
    · exact hsafe hs
    · exact ⟨ht.sound, ht.live, Or.inr ⟨⟨s, packet.id⟩, edge.1, packet.epoch, event,
        ⟨edge, packet, conn, seq, plain, rfl, rfl, rfl, rfl, hpc, hc, hopen, hevent⟩, ht.driven⟩⟩
  | transportLost s edge reset => exact hsafe (transportLost_safe phys h hl s edge.1 reset)
  | beginPolicy s mode password coPlay ended =>
    exact hsafe (beginPolicy_safe phys h hl s mode password coPlay ended)
  | closePolicy change => exact hsafe (closePolicy_safe h hl change)
  | applyChange change ended endedAfter =>
    exact hsafe (applyChange_safe phys h hl change ended endedAfter)
  | setSimultaneous s enabled => exact hsafe (setSimultaneous_safe phys h hl s enabled)
  | decide s id allow => exact hsafe (sessionDecide_safe phys h hl s id allow)
  | pause s paused => exact hsafe (pause_safe phys h hl s paused)
  | closeSession s => exact hsafe (closeSession_safe phys h hl s)
  | revoke order => exact hsafe (revokeAll_safe phys h hl order)
  | close => exact hsafe (closeManager_safe phys h hl)
  | tick => exact hsafe (tick_safe phys h hl)
  | gamepadOpened err => exact hsafe (gamepadOpened_safe phys h hl err)
  | gamepadSettled => exact hsafe (gamepadSettled_safe phys h hl)
  | setStopShortcut key => exact hsafe (setStopShortcut_safe phys h hl key)
  | readStopShortcut => exact hsafe (readStopShortcut_safe phys h hl)

/-- A new manager keeps the invariants, while nothing is down. -/
theorem start_keeps (sink : σ) (h₀ : pressed sink = ∅) :
    Sound pressed ({ sink } : Manager σ) ∧ Live ({ sink } : Manager σ) := by
  refine ⟨⟨?_, ?_, ⟨?_, ?_⟩⟩, ⟨?_, ?_, ?_⟩⟩
  · exact fun c conn hc => by cases hc
  · exact fun c conn hc => by cases hc
  · rw [h₀]
    exact Set.empty_subset _
  · intro x hx
    cases x <;> cases hx
  · exact fun c conn hc => by cases hc
  · exact fun c conn hc => by cases hc
  · exact fun c c' conn conn' hc => by cases hc

theorem after_keeps (phys : Physical P pressed) (sink : σ) (h₀ : pressed sink = ∅)
    (ops : List Op) : Sound pressed (after P sink ops) ∧ Live (after P sink ops) := by
  rw [after]
  refine foldl_induct (f := run P) (I := fun _ m => Sound pressed m ∧ Live m) ?_ ops _
    (start_keeps sink h₀)
  intro op _ m hI
  obtain ⟨hs, hl, -⟩ := run_keeps phys hI.1 hI.2 op
  exact ⟨hs, hl⟩

/-- The inputs an operation injects come from the packet it opens. -/
theorem callsOf_injection (phys : Physical P pressed) (h : Sound pressed m) (hl : Live m) (op : Op) :
    inputs (m.callsOf P op) = [] ∨ ∃ c edgeID epoch event, m.Opens P op c edgeID epoch event ∧
      Injection c edgeID epoch event (m.callsOf P op) := by
  obtain ⟨-, -, hrun⟩ := run_keeps phys h hl op
  rcases hrun with ⟨new, hn, hi⟩ | ⟨c, edgeID, epoch, event, hopen, new, hn, hinj⟩
  · refine Or.inl ?_
    rw [callsOf, hn, List.drop_left]
    exact hi
  · refine Or.inr ⟨c, edgeID, epoch, event, hopen, ?_⟩
    rw [callsOf, hn, List.drop_left]
    exact hinj

end Manager

/-! ## Who drives the desktop, and what stays down -/

/-- A platform of which nothing physical is known. -/
theorem unobserved (P : Platform σ) : Physical P fun _ => ∅ where
  silent _ := subset_rfl
  apply_failed _ _ _ _ := subset_rfl
  apply_press _ _ _ := Set.empty_subset _
  apply_release _ _ _ _ _ _ _ := Set.empty_subset _
  reset _ _ := rfl
  reset_failed _ := subset_rfl

/-- In every state of every run a grant rests on the owner, an open and unpaused session with
    a source and a mode, and an edge; holders side by side share and are extended; and an
    operation injects input only for a packet it opens, under the grant the packet names. -/
theorem grants_are_current (P : Platform σ) (sink : σ) (ops : List Op) :
    (∀ c conn, (Manager.after P sink ops).connections.get c = some conn → conn.grant ≠ "" →
      (Manager.after P sink ops).owner = some c.owner ∧
      (Manager.after P sink ops).closed = false ∧
      ((Manager.after P sink ops).session c.owner).closed = false ∧
      ((Manager.after P sink ops).session c.owner).paused = false ∧
      ((Manager.after P sink ops).session c.owner).target.sourceID ≠ "" ∧
      ((Manager.after P sink ops).session c.owner).mode ≠ .off ∧ conn.edgeID ≠ "") ∧
    (∀ c c' conn conn', (Manager.after P sink ops).connections.get c = some conn →
      (Manager.after P sink ops).connections.get c' = some conn' → c ≠ c' →
      conn.grant ≠ "" → conn'.grant ≠ "" →
      c'.owner = c.owner ∧ ((Manager.after P sink ops).session c.owner).coPlay = true ∧
      ((Manager.after P sink ops).session c.owner).simultaneous = true ∧
      conn.extended = true ∧ conn'.extended = true) ∧
    ∀ op, ∀ a ∈ (Manager.after P sink ops).callsOf P op, a.event.releasing = false →
      ∃ c edgeID epoch event, (Manager.after P sink ops).Opens P op c edgeID epoch event ∧
        Authentic c edgeID epoch event a ∧ a.event ∈ event.script := by
  obtain ⟨hs, hl⟩ := Manager.after_keeps (unobserved P) sink rfl ops
  refine ⟨?_, ?_, ?_⟩
  · intro c conn hc hg
    obtain ⟨hcl, hav, hm, he⟩ := hl.granted c conn hc (Option.some_ne_none _) hg
    simp only [Manager.sessionAvailable, Bool.and_eq_true, Bool.not_eq_true',
      decide_eq_true_eq] at hav
    exact ⟨hs.owner c conn hc hg, hcl, hav.1.1, hav.1.2, hav.2, hm, he⟩
  · intro c c' conn conn' hc hc' hne hg hg'
    have hown := hs.owner c conn hc hg
    rw [hs.owner c' conn' hc' hg'] at hown
    exact ⟨Option.some.inj hown, hl.shared c c' conn conn' hc hc' (Option.some_ne_none _) hne hg hg'⟩
  · intro op a ha hr
    have hin : a ∈ inputs ((Manager.after P sink ops).callsOf P op) := by
      rw [inputs, List.mem_filter, hr]
      exact ⟨ha, rfl⟩
    rcases Manager.callsOf_injection (unobserved P) hs hl op with
      hnil | ⟨c, edgeID, epoch, event, hopen, hinj⟩
    · rw [hnil] at hin
      exact absurd hin List.not_mem_nil
    · exact ⟨c, edgeID, epoch, event, hopen, hinj.authentic a hin,
        hinj.script.subset (List.mem_map_of_mem hin)⟩

/-- In every state of every run whatever is down is recorded as held or pending, nothing
    pending is recorded as held, nothing is injected while anything is pending, and an
    operation injects inputs of its own packet only, none after one that was refused. -/
theorem nothing_sticks {P : Platform σ} {pressed : σ → Set Held} (phys : Physical P pressed)
    {sink : σ} (h₀ : pressed sink = ∅) (ops : List Op) :
    (∀ h ∈ pressed (Manager.after P sink ops).sink,
      (∃ c conn, (Manager.after P sink ops).connections.get c = some conn ∧ h ∈ conn.held) ∨
        h ∈ (Manager.after P sink ops).pending) ∧
    (∀ h ∈ (Manager.after P sink ops).pending, ∀ c conn,
      (Manager.after P sink ops).connections.get c = some conn → h ∉ conn.held) ∧
    (∀ op, ∀ a ∈ (Manager.after P sink ops).callsOf P op, a.event.releasing = false →
      a.pendingKeys = [] ∧ a.pendingButtons = []) ∧
    ∀ op, inputs ((Manager.after P sink ops).callsOf P op) = [] ∨
      ∃ c edgeID epoch event, (Manager.after P sink ops).Opens P op c edgeID epoch event ∧
        ((inputs ((Manager.after P sink ops).callsOf P op)).map (·.event)).Sublist event.script ∧
        ∀ a ∈ (inputs ((Manager.after P sink ops).callsOf P op)).dropLast, a.accepted = true := by
  obtain ⟨hs, hl⟩ := Manager.after_keeps phys _ h₀ ops
  refine ⟨?_, ?_, ?_, ?_⟩
  · intro h hh
    rcases hs.ledger.recorded hh with (hh | hh) | hh
    · exact Or.inl hh
    · exact Or.inr hh
    · exact absurd hh (Set.notMem_empty h)
  · exact fun h hp c conn hc hh => hs.ledger.disjoint h hp ⟨c, conn, hc, hh⟩
  · intro op a ha hr
    have hin : a ∈ inputs ((Manager.after P sink ops).callsOf P op) := by
      rw [inputs, List.mem_filter, hr]
      exact ⟨ha, rfl⟩
    rcases Manager.callsOf_injection phys hs hl op with hnil | ⟨c, edgeID, epoch, event, -, hinj⟩
    · rw [hnil] at hin
      exact absurd hin List.not_mem_nil
    · exact hinj.settled a hin
  · intro op
    rcases Manager.callsOf_injection phys hs hl op with
      hnil | ⟨c, edgeID, epoch, event, hopen, hinj⟩
    · exact Or.inl hnil
    · exact Or.inr ⟨c, edgeID, epoch, event, hopen, hinj.script, hinj.accepted⟩

/-- A platform whose state is what is down, with a target always in focus; every release and
    every reset fails.  A seal is sixteen zeros, and an event is found by its text. -/
def stubbornDesk : Platform (List Held) where
  goos := "windows"
  authorize s := (none, s)
  target _ _ s := (.ok ({}, true), s)
  apply _ event s := match event.input with
    | some h => if event.releasing then (some "refused", s) else (none, h :: s)
    | none => (none, s)
  reset s := (some "refused", s)
  closeSink s := s
  openGamepadBackend s := (false, s)
  closeGamepadBackend s := s
  updatePad _ _ s := (none, s)
  closePad _ s := s
  supportsStop := false
  registerStop _ s := (none, s)
  releaseStop s := s
  now s := (0, s)
  random n s := (List.replicate n 0, s)
  range l s := (l, s)
  rangeKeys l s := (l, s)
  rangeButtons l s := (l, s)
  range_perm _ _ := .refl _
  rangeKeys_perm _ _ := .refl _
  rangeButtons_perm _ _ := .refl _
  base64 := Base64.decodeString
  openSealed _ _ sealed _ :=
    if sealed.drop (sealed.length - 16) = List.replicate 16 0 then some (sealed.take (sealed.length - 16)) else none
  decode plain := match String.ofList (plain.map fun b => Char.ofNat b.toNat) with
    | "request" => some { type := .request, intent := encodeHex (List.replicate 16 7) }
    | "press a" => some { type := .key, code := "KeyA", down := true, grant := encodeHex (List.replicate 32 0) }
    | "release a" => some { type := .key, code := "KeyA", grant := encodeHex (List.replicate 32 0) }
    | "press b" => some { type := .key, code := "KeyB", down := true, grant := encodeHex (List.replicate 32 0) }
    | _ => none

/-- The packet with this number and text. -/
def sealedPacket (seq : UInt8) (text : String) : Op :=
  .packet 0 ⟨"edge", by decide⟩
    { id := "00000000000000000000000000000001", epoch := "e"
      data := Base64.encodeToString (List.replicate 7 0 ++ [seq] ++ List.replicate 12 0 ++
        text.toList.map (fun c : Char => c.toNat.toUInt8) ++ List.replicate 16 0) } true

/-- A viewer is granted control, presses a key and lets it go. -/
def pressedOnce : List Op :=
  [.newSession, .setTarget 0 { kind := "display", sourceID := "screen" } none none,
    .beginPolicy 0 .room "" false false, .applyChange 0 false false,
    .setPeers 0 [{ peerID := "peer-0001", endpointID := "00000000000000000000000000000001"
                   secret := "0000000000000000000000000000000000000000000000000000000000000000" }],
    sealedPacket 1 "request", sealedPacket 2 "press a"]

theorem stubbornDesk_physical : Physical stubbornDesk fun s => {h | h ∈ s} where
  silent h := by cases h <;> exact subset_rfl
  apply_failed _ event s h := by
    intro x hx
    simp only [stubbornDesk] at h hx
    split at hx
    · split at hx
      · exact hx
      · simp_all
    · exact hx
  apply_press _ event s := by
    intro x hx
    simp only [stubbornDesk] at hx
    split at hx
    · next h hi =>
      split at hx
      · exact .inl hx
      · rcases List.mem_cons.1 hx with rfl | hx
        · exact .inr hi
        · exact .inl hx
    · exact .inl hx
  apply_release _ event s h hok hr hi := by
    simp [stubbornDesk, hi, hr] at hok
  reset _ h := by cases h
  reset_failed _ := subset_rfl

/-- The release and the reset fail: the key stays down and is pending, no connection is recorded
    as holding it, and the next press is not applied. -/
theorem nothing_sticks_stubbornDesk :
    let held := Manager.after stubbornDesk [] pressedOnce
    let released := Manager.after stubbornDesk [] (pressedOnce ++ [sealedPacket 3 "release a"])
    Physical stubbornDesk (fun s => {h | h ∈ s}) ∧ held.sink = [.key "KeyA"] ∧ released.sink = [.key "KeyA"] ∧
      (∃ c conn, held.connections.get c = some conn ∧ conn.grant ≠ "" ∧ Held.key "KeyA" ∈ conn.held) ∧
      Held.key "KeyA" ∈ released.pending ∧
      (∀ c conn, released.connections.get c = some conn → Held.key "KeyA" ∉ conn.held) ∧
      ∀ a ∈ released.callsOf stubbornDesk (sealedPacket 4 "press b"), a.event.releasing = true := by
  intro held released
  have h₀ : { h | h ∈ ([] : List Held) } = ∅ := by
    ext h
    simp
  have hrun : held.sink = [.key "KeyA"] ∧ held.pendingKeys = [] ∧
      held.connections.values.all (fun conn => conn.grant ≠ "") = true := by
    decide +kernel
  have hrun' : released.sink = [.key "KeyA"] ∧ released.pendingKeys = ["KeyA"] ∧
      (released.callsOf stubbornDesk (sealedPacket 4 "press b")).all (fun a => a.pendingKeys ≠ []) = true := by
    decide +kernel
  obtain ⟨hpressed, hempty, hgranted⟩ := hrun
  obtain ⟨hdown, hpending, hcalls⟩ := hrun'
  obtain ⟨hrecorded, -⟩ := nothing_sticks stubbornDesk_physical h₀ pressedOnce
  obtain ⟨-, hdisjoint, hsettled, -⟩ :=
    nothing_sticks stubbornDesk_physical h₀ (pressedOnce ++ [sealedPacket 3 "release a"])
  have hkey : Held.key "KeyA" ∈ released.pending := by
    rw [Manager.key_mem_pending, hpending]
    exact List.mem_singleton_self _
  refine ⟨stubbornDesk_physical, hpressed, hdown, ?_, hkey, hdisjoint _ hkey, fun a ha => ?_⟩
  · have hin : Held.key "KeyA" ∈ {h | h ∈ held.sink} := by
      rw [hpressed]
      exact List.mem_singleton_self _
    rcases hrecorded _ hin with ⟨c, conn, hc, hh⟩ | hp
    · refine ⟨c, conn, hc, ?_, hh⟩
      simpa using List.all_eq_true.1 hgranted conn (OMap.mem_values.2 ⟨c, hc⟩)
    · have hp : "KeyA" ∈ held.pendingKeys := hp
      rw [hempty] at hp
      exact absurd hp List.not_mem_nil
  · -- while the release is pending the press is not among the calls
    cases hr : a.event.releasing with
    | true => rfl
    | false => exact absurd (hsettled _ a ha hr).1 (by simpa using List.all_eq_true.1 hcalls a ha)

end Piik.Input
