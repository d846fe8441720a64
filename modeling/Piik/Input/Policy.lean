/-
  What grants rest on (`policy.go`, and the sessions of `manager.go`).

  `LiveBut s m`: the grants and requests of all sessions but `s` rest on an open
  manager, an open and unpaused session with a source, a mode that is not off,
  and an edge; holders side by side are extended, in a session that shares.
  A change of a session's terms breaks it for that session only, and
  `applyPolicy` mends it.
-/
import Piik.Input.Authority

namespace Piik.Input

variable {σ : Type}

/-- A grant is in order, except perhaps in one session. -/
structure LiveBut (s : Option ℕ) (m : Manager σ) : Prop where
  granted : ∀ c conn, m.connections.get c = some conn → some c.owner ≠ s → conn.grant ≠ "" →
    m.closed = false ∧ m.sessionAvailable c.owner = true ∧ (m.session c.owner).mode ≠ .off ∧
      conn.edgeID ≠ ""
  asked : ∀ c conn, m.connections.get c = some conn → some c.owner ≠ s → conn.requested = true →
    (m.session c.owner).mode ≠ .off
  shared : ∀ c c' conn conn', m.connections.get c = some conn → m.connections.get c' = some conn' →
    some c.owner ≠ s → c ≠ c' → conn.grant ≠ "" → conn'.grant ≠ "" →
    (m.session c.owner).coPlay = true ∧ (m.session c.owner).simultaneous = true ∧
      conn.extended = true ∧ conn'.extended = true

/-- Every grant is in order. -/
abbrev Live (m : Manager σ) : Prop := LiveBut none m

/-- The terms of a session that grants rest on. -/
def Session.terms (session : Session) : Bool × Bool × CaptureTarget × Mode × Bool × Bool :=
  (session.closed, session.paused, session.target, session.mode, session.coPlay,
    session.simultaneous)

namespace LiveBut

variable {s : Option ℕ} {m m' : Manager σ}

theorem of_kept (h : LiveBut s m) (hs : m'.sessions = m.sessions) (hc : m'.closed = m.closed)
    (hk : ∀ c conn', m'.connections.get c = some conn' →
      ∃ conn, m.connections.get c = some conn ∧ conn.Kept conn') : LiveBut s m' := by
  have hsess (s : ℕ) : m'.session s = m.session s := by rw [Manager.session, Manager.session, hs]
  have hav (s : ℕ) : m'.sessionAvailable s = m.sessionAvailable s := by
    rw [Manager.sessionAvailable, Manager.sessionAvailable, hsess]
  have hgrant {conn conn' : Connection} (hk : conn.Kept conn') (hg : conn'.grant ≠ "") :
      conn.grant ≠ "" := by
    rcases hk.grant with h | h
    · rwa [← h]
    · exact absurd h hg
  constructor
  · intro c conn' hc' hne hg
    obtain ⟨conn, hc₀, hkept⟩ := hk c conn' hc'
    rw [hc, hav, hsess, hkept.edgeID]
    exact h.granted c conn hc₀ hne (hgrant hkept hg)
  · intro c conn' hc' hne hr
    obtain ⟨conn, hc₀, hkept⟩ := hk c conn' hc'
    rw [hsess]
    exact h.asked c conn hc₀ hne (hkept.requested hr)
  · intro c c' conn₁' conn₂' h₁ h₂ hne hcc hg₁ hg₂
    obtain ⟨conn₁, hc₁, hk₁⟩ := hk c conn₁' h₁
    obtain ⟨conn₂, hc₂, hk₂⟩ := hk c' conn₂' h₂
    rw [hsess, hk₁.extended, hk₂.extended]
    exact h.shared c c' conn₁ conn₂ hc₁ hc₂ hne hcc (hgrant hk₁ hg₁) (hgrant hk₂ hg₂)

/-- A change that leaves the connections and the terms of the other sessions. -/
theorem of_terms {s' : Option ℕ} (h : LiveBut s m) (hconn : m'.connections = m.connections)
    (hc : m'.closed = m.closed) (hsub : ∀ x, some x ≠ s' → some x ≠ s)
    (ht : ∀ x, some x ≠ s' → (m'.session x).terms = (m.session x).terms) : LiveBut s' m' := by
  have hterms {x : ℕ} (hx : some x ≠ s') : (m'.session x).mode = (m.session x).mode ∧
      (m'.session x).coPlay = (m.session x).coPlay ∧
      (m'.session x).simultaneous = (m.session x).simultaneous ∧
      m'.sessionAvailable x = m.sessionAvailable x := by
    have := ht x hx
    simp only [Session.terms, Prod.mk.injEq] at this
    obtain ⟨hcl, hp, hta, hm, hco, hsi⟩ := this
    exact ⟨hm, hco, hsi, by rw [Manager.sessionAvailable, Manager.sessionAvailable, hcl, hp, hta]⟩
  constructor
  · intro c conn hc' hne hg
    obtain ⟨hm, -, -, hav⟩ := hterms hne
    rw [hconn] at hc'
    rw [hc, hav, hm]
    exact h.granted c conn hc' (hsub _ hne) hg
  · intro c conn hc' hne hr
    rw [hconn] at hc'
    rw [(hterms hne).1]
    exact h.asked c conn hc' (hsub _ hne) hr
  · intro c c' conn conn' h₁ h₂ hne hcc hg₁ hg₂
    obtain ⟨-, hco, hsi, -⟩ := hterms hne
    rw [hconn] at h₁ h₂
    rw [hco, hsi]
    exact h.shared c c' conn conn' h₁ h₂ (hsub _ hne) hcc hg₁ hg₂

/-- It holds of every session when the one left out has no grant and no request. -/
theorem full {s : ℕ} (h : LiveBut (some s) m)
    (hs : ∀ c conn, m.connections.get c = some conn → c.owner = s →
      conn.grant = "" ∧ (conn.requested = true → (m.session s).mode ≠ .off)) : Live m := by
  constructor
  · intro c conn hc _ hg
    by_cases hcs : c.owner = s
    · exact absurd (hs c conn hc hcs).1 hg
    · exact h.granted c conn hc (by simpa using hcs) hg
  · intro c conn hc _ hr
    by_cases hcs : c.owner = s
    · rw [hcs]
      exact (hs c conn hc hcs).2 hr
    · exact h.asked c conn hc (by simpa using hcs) hr
  · intro c c' conn conn' h₁ h₂ _ hcc hg₁ hg₂
    by_cases hcs : c.owner = s
    · exact absurd (hs c conn h₁ hcs).1 hg₁
    · exact h.shared c c' conn conn' h₁ h₂ (by simpa using hcs) hcc hg₁ hg₂

theorem leave (h : Live m) (s : ℕ) : LiveBut (some s) m :=
  h.of_terms rfl rfl (fun _ _ => Option.some_ne_none _) fun _ _ => rfl

end LiveBut

/-- What an operation keeps: the invariants, for all sessions but `s`, and no input. -/
structure Safe (pressed : σ → Set Held) (s : Option ℕ) (m m' : Manager σ) : Prop where
  sound : Sound pressed m'
  live : LiveBut s m'
  quiet : Quiet m m'

namespace Safe

variable {pressed : σ → Set Held} {s s' : Option ℕ} {m m₁ m₂ : Manager σ}

theorem refl (h : Sound pressed m) (hl : LiveBut s m) : Safe pressed s m m := ⟨h, hl, .refl m⟩

theorem trans (h : Safe pressed s m m₁) (h' : Safe pressed s' m₁ m₂) : Safe pressed s' m m₂ :=
  ⟨h'.sound, h'.live, h.quiet.trans h'.quiet⟩

theorem of_calms (hl : LiveBut s m) (h : Calms pressed m m₁) : Safe pressed s m m₁ :=
  ⟨h.sound, hl.of_kept h.sessions h.closed h.kept, h.quiet⟩

theorem calms (h : Safe pressed s m m₁) (h' : Calms pressed m₁ m₂) : Safe pressed s m m₂ :=
  h.trans (.of_calms h.live h')

end Safe

namespace Manager

variable {P : Platform σ} {pressed : σ → Set Held} {m : Manager σ} {c : EndpointKey}

theorem session_setSession (m : Manager σ) (s s' : ℕ) (f : Session → Session) :
    (m.setSession s f).session s' =
      if s' = s ∧ s < m.sessions.length then f (m.session s) else m.session s' := by
  simp only [session, setSession, List.getElem?_modify]
  by_cases hs : s = s'
  · subst hs
    by_cases hlt : s < m.sessions.length
    · simp [hlt]
    · simp [hlt]
  · simp [hs, Ne.symm hs]

/-- A change of a session the grants do not rest on, or are not asked to. -/
theorem setSession_safe (h : Sound pressed m) {s' : Option ℕ} (hl : LiveBut s' m) (s : ℕ)
    {f : Session → Session} (hf : some s ≠ s' → (f (m.session s)).terms = (m.session s).terms) :
    Safe pressed s' m (m.setSession s f) where
  sound := ⟨h.owner, h.held, h.ledger.same rfl rfl subset_rfl⟩
  live := by
    refine hl.of_terms rfl rfl (fun _ hx => hx) fun x hx => ?_
    rw [session_setSession]
    split
    · rename_i hxs
      rw [hxs.1] at hx ⊢
      exact hf hx
    · rfl
  quiet := .of_eq rfl

theorem cancelPolicy_safe (h : Sound pressed m) {s' : Option ℕ} (hl : LiveBut s' m) (s : ℕ) :
    Safe pressed s' m (m.cancelPolicy s) := by
  rw [cancelPolicy]
  split
  · exact .refl h hl
  · have hset := setSession_safe h hl s (f := fun session => { session with policyChange := none })
      fun _ => rfl
    exact ⟨⟨hset.sound.owner, hset.sound.held, hset.sound.ledger.same rfl rfl subset_rfl⟩,
      hset.live.of_terms rfl rfl (fun _ hx => hx) fun _ _ => rfl, hset.quiet⟩

theorem releaseIdleShortcut_safe (phys : Physical P pressed) (h : Sound pressed m)
    {s' : Option ℕ} (hl : LiveBut s' m) : Safe pressed s' m (m.releaseIdleShortcut P) := by
  rw [releaseIdleShortcut]
  split
  · exact .refl h hl
  split
  · exact .refl h hl
  · exact ⟨⟨h.owner, h.held, h.ledger.same rfl rfl (phys.silent (.releaseStop m.sink))⟩,
      hl.of_terms rfl rfl (fun _ hx => hx) fun _ _ => rfl, .of_eq rfl⟩

/-- Every connection of a session is revoked. -/
theorem revokeAllOf_calms (phys : Physical P pressed) (h : Sound pressed m) (s : ℕ) :
    Calms pressed m (m.eachConnection P s (revoke P)) ∧
      ∀ c conn, (m.eachConnection P s (revoke P)).connections.get c = some conn → c.owner = s →
        conn.grant = "" ∧ conn.requested = false := by
  rw [eachConnection_eq]
  have hstart := setSink_calms phys h (.range m.connections.keys m.sink)
  have hround := foldl_induct (f := fun m c => revoke P c m)
    (I := fun cs m' => Calms pressed m m' ∧ ∀ c conn, m'.connections.get c = some conn →
      c.owner = s → c ∈ cs ∨ conn.grant = "" ∧ conn.requested = false)
    (fun c cs m' ⟨hc, hI⟩ => by
      obtain ⟨hrev, hg⟩ := revoke_calms phys hc.sound c
      refine ⟨hc.trans hrev, fun c' conn' hc' hs => ?_⟩
      by_cases hcc : c' = c
      · subst hcc
        exact Or.inr (hg conn' hc')
      · obtain ⟨conn, hc₀, hk⟩ := hrev.kept c' conn' hc'
        rcases hI c' conn hc₀ hs with hmem | ⟨hgr, hreq⟩
        · exact Or.inl ((List.mem_cons.1 hmem).resolve_left hcc)
        · refine Or.inr ⟨?_, ?_⟩
          · rcases hk.grant with hg' | hg'
            · rw [hg', hgr]
            · exact hg'
          · by_contra hr
            have := hk.requested (by simpa using hr)
            rw [hreq] at this
            exact absurd this Bool.false_ne_true)
    (m.rangeOf P s) (m.setSink (P.range m.connections.keys m.sink).2)
    ⟨hstart, fun c conn hc hs => Or.inl (mem_rangeOf.2 ⟨by
      rw [OMap.has, show m.connections.get c = some conn from hc]; rfl, hs⟩)⟩
  exact ⟨hround.1, fun c conn hc hs => (hround.2 c conn hc hs).resolve_left List.not_mem_nil⟩

theorem releaseIf_calms (phys : Physical P pressed) (h : Sound pressed m) (p : Prop) [Decidable p] :
    Calms pressed m (if p then m.release P else m) := by
  split
  · exact (release_calms phys h).1
  · exact .refl h

/-- `applyPolicy` leaves the session without grants and requests, so it mends its terms. -/
theorem applyPolicy_safe (phys : Physical P pressed) (h : Sound pressed m) {s : ℕ}
    (hl : LiveBut (some s) m) (mode : Mode) (password : List ℕ) (coPlay : Bool) :
    Safe pressed none m (m.applyPolicy P s mode password coPlay) := by
  have hmode := setSession_safe h hl s (f := fun session => { session with mode, password })
    fun hne => absurd rfl hne
  have hrel := hmode.calms (releaseIf_calms phys hmode.sound
    ((m.setSession s fun session => { session with mode, password }).owner = some s))
  have hplay := hrel.trans (setSession_safe hrel.sound hrel.live s
    (f := fun session => { session with coPlay }) fun hne => absurd rfl hne)
  have hidle := hplay.trans (releaseIdleShortcut_safe phys hplay.sound hplay.live)
  obtain ⟨hrev, hnone⟩ := revokeAllOf_calms phys hidle.sound s
  have hend := hidle.calms hrev
  exact ⟨hend.sound, hend.live.full fun c conn hc hs =>
    ⟨(hnone c conn hc hs).1, fun hr => by
      rw [(hnone c conn hc hs).2] at hr
      exact absurd hr Bool.false_ne_true⟩, hend.quiet⟩

theorem setPolicy_safe (phys : Physical P pressed) (h : Sound pressed m) (hl : Live m) (s : ℕ)
    (mode : Mode) (password : List ℕ) : Safe pressed none m (m.setPolicy P s mode password) := by
  have hcancel := cancelPolicy_safe h (LiveBut.leave hl s) s
  exact hcancel.trans (applyPolicy_safe phys hcancel.sound hcancel.live _ _ _)

/-! ## Granting -/

/-- What a connection needs before it gets a grant. -/
structure Eligible (m : Manager σ) (c : EndpointKey) (conn : Connection) : Prop where
  get : m.connections.get c = some conn
  ungranted : conn.grant = ""
  edgeID : conn.edgeID ≠ ""
  closed : m.closed = false
  available : m.sessionAvailable c.owner = true
  mode : (m.session c.owner).mode ≠ .off
  /-- Nobody else, or only extended holders of the same session, in one that shares. -/
  exclusive : NoGrant m ∨ m.owner = some c.owner ∧ (m.session c.owner).coPlay = true ∧
    (m.session c.owner).simultaneous = true ∧ conn.extended = true ∧
    ∀ c' conn', m.connections.get c' = some conn' → conn'.grant ≠ "" → conn'.extended = true

theorem canJoin_exclusive (h : Sound pressed m) {conn : Connection}
    (hc : m.connections.get c = some conn) (hj : m.canJoin c = true) :
    NoGrant m ∨ m.owner = some c.owner ∧ (m.session c.owner).coPlay = true ∧
      (m.session c.owner).simultaneous = true ∧ conn.extended = true ∧
      ∀ c' conn', m.connections.get c' = some conn' → conn'.grant ≠ "" → conn'.extended = true := by
  rw [canJoin] at hj
  split at hj
  · rename_i ho
    exact Or.inl (noGrant_of_owner h ho)
  · rename_i s ho
    simp only [Bool.and_eq_true, decide_eq_true_eq, List.all_eq_true, Bool.or_eq_true] at hj
    obtain ⟨⟨⟨⟨hs, hco⟩, hsi⟩, hex⟩, hall⟩ := hj
    rw [conn_eq hc] at hex
    refine Or.inr ⟨by rw [ho, hs], hco, hsi, hex, fun c' conn' hc' hg => ?_⟩
    exact (hall conn' (OMap.mem_values.2 ⟨c', hc'⟩)).resolve_left hg

/-- The entry of a grant, before the target is looked at. -/
theorem enter_safe (h : Sound pressed m) (hl : Live m) {conn : Connection}
    (he : m.Eligible c conn) (token : String) :
    Safe pressed none m (m.enter c token) := by
  -- Whoever else holds a grant is extended, in the session of this connection.
  have hother (c' : EndpointKey) (conn' : Connection) (hc' : m.connections.get c' = some conn')
      (hg : conn'.grant ≠ "") : m.owner = some c.owner ∧ (m.session c.owner).coPlay = true ∧
        (m.session c.owner).simultaneous = true ∧ conn.extended = true ∧ conn'.extended = true := by
    rcases he.exclusive with hn | ⟨ho, hco, hsi, hex, hall⟩
    · exact absurd (hn c' conn' hc') hg
    · exact ⟨ho, hco, hsi, hex, hall c' conn' hc' hg⟩
  have hheld (f : Connection → Connection) (hf : ∀ conn, (f conn).held = conn.held) :
      (m.setConn c f).held = m.held := held_setConn hf
  refine ⟨⟨?_, ?_, ?_⟩, ⟨?_, ?_, ?_⟩, .of_eq rfl⟩
  · intro c' conn' hc' hg
    change (m.setConn c _).connections.get c' = some conn' at hc'
    rw [get_setConn] at hc'
    by_cases hcc : c' = c
    · rw [hcc]; rfl
    · rw [if_neg hcc] at hc'
      have := h.owner c' conn' hc' hg
      rw [(hother c' conn' hc' hg).1] at this
      exact this
  · intro c' conn' hc' hg
    change (m.setConn c _).connections.get c' = some conn' at hc'
    rw [get_setConn] at hc'
    by_cases hcc : c' = c
    · rw [if_pos hcc, he.get] at hc'
      cases hc'
      exact h.held c conn he.get he.ungranted
    · rw [if_neg hcc] at hc'
      exact h.held c' conn' hc' hg
  · exact h.ledger.same (hheld _ fun _ => rfl) rfl subset_rfl
  · intro c' conn' hc' hne hg
    change (m.setConn c _).connections.get c' = some conn' at hc'
    rw [get_setConn] at hc'
    by_cases hcc : c' = c
    · rw [if_pos hcc, he.get] at hc'
      cases hc'
      rw [hcc]
      exact ⟨he.closed, he.available, he.mode, he.edgeID⟩
    · rw [if_neg hcc] at hc'
      exact hl.granted c' conn' hc' hne hg
  · intro c' conn' hc' hne hr
    change (m.setConn c _).connections.get c' = some conn' at hc'
    rw [get_setConn] at hc'
    by_cases hcc : c' = c
    · rw [if_pos hcc, he.get] at hc'
      cases hc'
      exact absurd hr Bool.false_ne_true
    · rw [if_neg hcc] at hc'
      exact hl.asked c' conn' hc' hne hr
  · intro c₁ c₂ conn₁ conn₂ h₁ h₂ hne hcc hg₁ hg₂
    change (m.setConn c _).connections.get c₁ = some conn₁ at h₁
    change (m.setConn c _).connections.get c₂ = some conn₂ at h₂
    rw [get_setConn] at h₁ h₂
    by_cases hc₁ : c₁ = c
    · subst hc₁
      rw [if_neg (Ne.symm hcc)] at h₂
      rw [if_pos rfl, he.get] at h₁
      cases h₁
      obtain ⟨-, hco, hsi, hex, hex'⟩ := hother c₂ conn₂ h₂ hg₂
      exact ⟨hco, hsi, hex, hex'⟩
    · rw [if_neg hc₁] at h₁
      by_cases hc₂ : c₂ = c
      · subst hc₂
        rw [if_pos rfl, he.get] at h₂
        cases h₂
        obtain ⟨ho, hco, hsi, hex, hex'⟩ := hother c₁ conn₁ h₁ hg₁
        have hown := h.owner c₁ conn₁ h₁ hg₁
        rw [ho] at hown
        rw [← Option.some.inj hown]
        exact ⟨hco, hsi, hex', hex⟩
      · rw [if_neg hc₂] at h₂
        exact hl.shared c₁ c₂ conn₁ conn₂ h₁ h₂ hne hcc hg₁ hg₂

theorem Eligible.setSink {conn : Connection} (he : m.Eligible c conn) (s : σ) :
    (m.setSink s).Eligible c conn :=
  ⟨he.get, he.ungranted, he.edgeID, he.closed, he.available, he.mode, he.exclusive⟩

theorem install_safe (phys : Physical P pressed) (h : Sound pressed m) (hl : Live m)
    {conn : Connection} (he : m.Eligible c conn) : Safe pressed none m (m.install P c) := by
  have hsink := Safe.of_calms hl (setSink_calms phys h (.random 32 m.sink))
  have henter := hsink.trans (enter_safe hsink.sound hsink.live (he.setSink _)
    (encodeHex (P.random 32 m.sink).1))
  have htell := henter.calms (tellController_calms (P := P) henter.sound
    (m.singleController c.owner))
  have hfresh := htell.calms (refreshActive_calms phys htell.sound)
  rw [install]
  dsimp only
  split
  · exact hfresh.calms (send_calms hfresh.sound _ _)
  · exact hfresh

theorem grant_safe (phys : Physical P pressed) (h : Sound pressed m) (hl : Live m)
    {conn : Connection} (hc : m.connections.get c = some conn) (hedge : conn.edgeID ≠ "")
    (hclosed : m.closed = false) (hav : m.sessionAvailable c.owner = true)
    (hmode : (m.session c.owner).mode ≠ .off) : Safe pressed none m (m.grant P c).2 := by
  rw [grant]
  split
  · exact .refl h hl
  rename_i hg
  rw [conn_eq hc, not_not] at hg
  split
  · split
    · exact .of_calms hl (reply_calms h _ _ _)
    · rename_i hj
      refine install_safe phys h hl ⟨hc, hg, hedge, hclosed, hav, hmode, canJoin_exclusive h hc ?_⟩
      simpa using hj
  · obtain ⟨hrel, -, hnone⟩ := release_calms phys h
    have hsafe := Safe.of_calms hl hrel
    have hhas : (m.release P).connections.has c = true := by
      rw [hrel.has, OMap.has, hc]; rfl
    obtain ⟨conn', hc'⟩ := Option.isSome_iff_exists.1 hhas
    obtain ⟨conn₀, hc₀, hk⟩ := hrel.kept c conn' hc'
    rw [hc] at hc₀
    cases hc₀
    have hsess (s : ℕ) : (m.release P).session s = m.session s := by
      rw [Manager.session, Manager.session, hrel.sessions]
    refine hsafe.trans (install_safe phys hsafe.sound hsafe.live
      ⟨hc', hnone c conn' hc', ?_, ?_, ?_, ?_, Or.inl hnone⟩)
    · rwa [hk.edgeID]
    · rwa [hrel.closed]
    · rwa [sessionAvailable, hsess]
    · rwa [hsess]

/-! ## Policies -/

/-- A change of what neither grants nor the ledger depend on. -/
theorem safe_of_eq (phys : Physical P pressed) (h : Sound pressed m) {s : Option ℕ}
    (hl : LiveBut s m) {m' : Manager σ} (hconn : m'.connections = m.connections)
    (hpk : m'.pendingKeys = m.pendingKeys) (hpb : m'.pendingButtons = m.pendingButtons)
    (ho : m'.owner = m.owner) (hs : m'.sessions = m.sessions) (hc : m'.closed = m.closed)
    (ha : m'.applied = m.applied) (hsink : m'.sink = m.sink ∨ P.Silent m.sink m'.sink) :
    Safe pressed s m m' where
  sound := by
    refine ⟨?_, ?_, h.ledger.same (held_congr hconn) (pending_congr hpk hpb) ?_⟩
    · rw [hconn, ho]
      exact h.owner
    · rw [hconn]
      exact h.held
    · rcases hsink with hsink | hsink
      · rw [hsink]
      · exact phys.silent hsink
  live := hl.of_terms hconn hc (fun _ hx => hx) fun x _ => by
    rw [Manager.session, Manager.session, hs]
  quiet := .of_eq ha

theorem beginPolicy_safe (phys : Physical P pressed) (h : Sound pressed m) (hl : Live m) (s : ℕ)
    (mode : Mode) (password : String) (coPlay ended : Bool) :
    Safe pressed none m (m.beginPolicy s mode password coPlay ended).2 := by
  rw [beginPolicy]
  split
  · exact .refl h hl
  split
  · exact .refl h hl
  · have hcancel := cancelPolicy_safe h hl s
    have hset := hcancel.trans (setSession_safe hcancel.sound hcancel.live s
      (f := fun session => { session with policyChange := some (m.cancelPolicy s).changes.length })
      fun _ => rfl)
    exact hset.trans (safe_of_eq phys hset.sound hset.live rfl rfl rfl rfl rfl rfl rfl (Or.inl rfl))

theorem closePolicy_safe (h : Sound pressed m) (hl : Live m) (change : ℕ) :
    Safe pressed none m (m.closePolicy change) := by
  rw [closePolicy]
  split
  · exact .refl h hl
  split
  · exact cancelPolicy_safe h hl _
  · exact .refl h hl

theorem ensureStopShortcut_safe (phys : Physical P pressed) (h : Sound pressed m) {s : Option ℕ}
    (hl : LiveBut s m) : Safe pressed s m (m.ensureStopShortcut P).2 := by
  rw [ensureStopShortcut]
  split
  · exact .refl h hl
  · exact safe_of_eq phys h hl rfl rfl rfl rfl rfl rfl rfl (Or.inr (.registerStop m.stopKey m.sink))

theorem setSimultaneous_safe (phys : Physical P pressed) (h : Sound pressed m) (hl : Live m)
    (s : ℕ) (enabled : Bool) : Safe pressed none m (m.setSimultaneous P s enabled).2 := by
  rw [setSimultaneous]
  split
  · exact .refl h hl
  split
  · exact .refl h hl
  · have hcancel := cancelPolicy_safe h (hl.leave s) s
    have hset := hcancel.trans (setSession_safe hcancel.sound hcancel.live s
      (f := fun session => { session with simultaneous := enabled }) fun hne => absurd rfl hne)
    exact hset.trans (applyPolicy_safe phys hset.sound hset.live _ _ _)

/-! ## Sessions -/

theorem newSession_safe (h : Sound pressed m) (hl : Live m) : Safe pressed none m m.newSession := by
  rw [newSession]
  split
  · exact .refl h hl
  · refine ⟨⟨h.owner, h.held, h.ledger.same rfl rfl subset_rfl⟩, ?_, .of_eq rfl⟩
    refine hl.of_terms rfl rfl (fun _ hx => hx) fun x _ => ?_
    simp only [Manager.session, List.getElem?_append]
    split
    · rfl
    · rename_i hx
      rw [List.getElem?_eq_none (not_lt.1 hx), List.getElem?_singleton]
      split <;> rfl

theorem setTarget_safe (phys : Physical P pressed) (h : Sound pressed m) (hl : Live m) (s : ℕ)
    (target : CaptureTarget) (capture change : Option ℕ) :
    Safe pressed none m (m.setTarget P s target capture change) := by
  rw [setTarget]
  split
  · exact .refl h hl
  have hset := setSession_safe h (hl.leave s) s (f := fun session =>
    { session with target := inputTarget P target, capture, simultaneous := false })
    fun hne => absurd rfl hne
  dsimp only
  generalize m.setSession s _ = m₁ at hset ⊢
  have hcancel : Safe pressed (some s) m
      (if change = none ∨ (m₁.session s).policyChange ≠ change then m₁.cancelPolicy s else m₁) := by
    split
    · exact hset.trans (cancelPolicy_safe hset.sound hset.live s)
    · exact hset
  simp only [Bool.or_eq_true, decide_eq_true_eq]
  generalize (if change = none ∨ (m₁.session s).policyChange ≠ change then m₁.cancelPolicy s
    else m₁) = m₂ at hcancel ⊢
  have hrel := hcancel.calms (releaseIf_calms phys hcancel.sound (m₂.owner = some s))
  exact hrel.trans (applyPolicy_safe phys hrel.sound hrel.live _ _ _)

theorem sessions_cancelPolicy_terms (m : Manager σ) (s x : ℕ) :
    ((m.cancelPolicy s).session x).terms = (m.session x).terms := by
  rw [cancelPolicy]
  split
  · rfl
  · show ((m.setSession s _).session x).terms = _
    rw [session_setSession]
    split
    · rename_i hx
      rw [hx.1]
      rfl
    · rfl

theorem tellPaused_calms (h : Sound pressed m) (paused : Bool) (c : EndpointKey) :
    Calms pressed m (m.tellPaused P paused c) := by
  have hset : Calms pressed m
      (if paused then m.setConn c fun conn => { conn with requested := false } else m) := by
    split
    · exact setConn_calms h c unrequested_kept (fun _ => rfl) (fun _ => rfl)
    · exact .refl h
  exact hset.trans (send_calms hset.sound _ _)

/-- The start of `Pause`: what it does to the session, and the release. -/
theorem pauseStart_safe (phys : Physical P pressed) (h : Sound pressed m) (hl : Live m) (s : ℕ)
    (paused : Bool) (m₁ m₂ m₃ : Manager σ)
    (h₁ : m₁ = m.setSession s fun session => { session with paused })
    (h₂ : m₂ = if paused then m₁.cancelPolicy s else m₁)
    (h₃ : m₃ = if paused = true ∧ m₂.owner = some s then m₂.release P else m₂) :
    Safe pressed none m m₃ := by
  -- The terms change for this session only, and its mode does not.
  have hset : Safe pressed (some s) m m₁ := by
    rw [h₁]
    exact setSession_safe h (hl.leave s) s fun hne => absurd rfl hne
  have hcancel : Safe pressed (some s) m m₂ := by
    rw [h₂]
    split
    · exact hset.trans (cancelPolicy_safe hset.sound hset.live s)
    · exact hset
  have hrel : Calms pressed m₂ m₃ := by
    rw [h₃]
    exact releaseIf_calms phys hcancel.sound _
  have hend := hcancel.calms hrel
  have hconn : m₂.connections = m.connections := by
    rw [h₂, h₁]
    split
    · rw [cancelPolicy]
      split <;> rfl
    · rfl
  have hmode : (m₃.session s).mode = (m.session s).mode := by
    have hsess : m₃.session s = m₂.session s := by
      rw [Manager.session, Manager.session, hrel.sessions]
    have hmode₁ : (m₁.session s).mode = (m.session s).mode := by
      rw [h₁, session_setSession]
      split <;> rfl
    rw [hsess, ← hmode₁, h₂]
    split
    · have := sessions_cancelPolicy_terms m₁ s s
      simp only [Session.terms, Prod.mk.injEq] at this
      exact this.2.2.2.1
    · rfl
  have hnone (hp : paused = true ∨ (m.session s).paused = true) (c : EndpointKey)
      (conn : Connection) (hc : m₃.connections.get c = some conn) (hs : c.owner = s) :
      conn.grant = "" := by
    by_contra hg
    by_cases hpaused : paused = true
    · have hown := hend.sound.owner c conn hc hg
      rw [h₃] at hown hc
      by_cases ho : m₂.owner = some s
      · rw [if_pos ⟨hpaused, ho⟩] at hc
        exact hg ((release_calms phys hcancel.sound).2.2 c conn hc)
      · rw [if_neg fun hand => ho hand.2, hs] at hown
        exact ho hown
    · obtain ⟨conn₀, hc₀, hk⟩ := hrel.kept c conn hc
      rw [hconn] at hc₀
      have hg₀ : conn₀.grant ≠ "" := by
        rcases hk.grant with hk | hk
        · rwa [← hk]
        · exact absurd hk hg
      obtain ⟨-, hav, -, -⟩ := hl.granted c conn₀ hc₀ (Option.some_ne_none _) hg₀
      rw [hs, sessionAvailable, hp.resolve_left hpaused] at hav
      simp at hav
  by_cases hp : paused = true ∨ (m.session s).paused = true
  · refine ⟨hend.sound, hend.live.full fun c conn hc hs =>
      ⟨hnone hp c conn hc hs, fun hr => ?_⟩, hend.quiet⟩
    obtain ⟨conn₀, hc₀, hk⟩ := hrel.kept c conn hc
    rw [hconn] at hc₀
    rw [hmode, ← hs]
    exact hl.asked c conn₀ hc₀ (Option.some_ne_none _) (hk.requested hr)
  · -- A session that goes on unpaused keeps its terms.
    rw [not_or, Bool.not_eq_true, Bool.not_eq_true] at hp
    have hsame : Safe pressed none m m₁ := by
      rw [h₁]
      refine setSession_safe h hl s fun _ => ?_
      simp only [Session.terms, hp.1, hp.2]
    have hm₂ : m₂ = m₁ := by rw [h₂, hp.1]; rfl
    have hm₃ : m₃ = m₂ := by
      rw [h₃, if_neg fun hand => absurd hand.1 (by simp [hp.1])]
    rw [hm₃, hm₂]
    exact hsame

theorem pause_safe (phys : Physical P pressed) (h : Sound pressed m) (hl : Live m) (s : ℕ)
    (paused : Bool) : Safe pressed none m (m.pause P s paused) := by
  have hstart := pauseStart_safe phys h hl s paused _ _ _ rfl rfl rfl
  rw [pause]
  simp only [Bool.and_eq_true, decide_eq_true_eq]
  exact hstart.calms (eachConnection_calms phys hstart.sound (s := s)
    (fun c m hm => tellPaused_calms hm paused c))

theorem forget_safe (h : Sound pressed m) {s : ℕ} (hl : LiveBut (some s) m)
    (hnone : ∀ c conn, m.connections.get c = some conn → c.owner = s → conn.grant = "") :
    Safe pressed none m (m.forget s) := by
  have hget (c : EndpointKey) (conn : Connection)
      (hc : (m.forget s).connections.get c = some conn) :
      m.connections.get c = some conn ∧ c.owner ≠ s := by
    rw [forget, OMap.get_filter] at hc
    rcases hg : m.connections.get c with _ | conn₀
    · simp [hg] at hc
    · simp [hg] at hc
      exact ⟨by rw [hc.1], hc.2⟩
  have hheld : (m.forget s).held = m.held := by
    ext x
    constructor
    · rintro ⟨c, conn, hc, hx⟩
      exact ⟨c, conn, (hget c conn hc).1, hx⟩
    · rintro ⟨c, conn, hc, hx⟩
      by_cases hs : c.owner = s
      · rw [h.held c conn hc (hnone c conn hc hs)] at hx
        exact absurd hx (Set.notMem_empty x)
      · refine ⟨c, conn, ?_, hx⟩
        rw [forget, OMap.get_filter, hc]
        simp [hs]
  refine ⟨⟨fun c conn hc => h.owner c conn (hget c conn hc).1,
    fun c conn hc => h.held c conn (hget c conn hc).1, h.ledger.same hheld rfl subset_rfl⟩,
    ⟨?_, ?_, ?_⟩, .of_eq rfl⟩
  · intro c conn hc _ hg
    obtain ⟨hc, hs⟩ := hget c conn hc
    exact hl.granted c conn hc (by simpa using hs) hg
  · intro c conn hc _ hr
    obtain ⟨hc, hs⟩ := hget c conn hc
    exact hl.asked c conn hc (by simpa using hs) hr
  · intro c c' conn conn' hc hc' _ hcc hg hg'
    obtain ⟨hc, hs⟩ := hget c conn hc
    exact hl.shared c c' conn conn' hc (hget c' conn' hc').1 (by simpa using hs) hcc hg hg'

theorem closeSession_safe (phys : Physical P pressed) (h : Sound pressed m) (hl : Live m) (s : ℕ) :
    Safe pressed none m (m.closeSession P s) := by
  have hset := setSession_safe h (hl.leave s) s (f := fun session => { session with closed := true })
    fun hne => absurd rfl hne
  have hcancel := hset.trans (cancelPolicy_safe hset.sound hset.live s)
  rw [closeSession]
  generalize (m.setSession s _).cancelPolicy s = m₂ at hcancel ⊢
  have hrel := releaseIf_calms phys hcancel.sound (m₂.owner = some s)
  have hend := hcancel.calms hrel
  have hnone : ∀ c conn, (if m₂.owner = some s then m₂.release P else m₂).connections.get c =
      some conn → c.owner = s → conn.grant = "" := by
    intro c conn hc hs
    by_contra hg
    have hown := hend.sound.owner c conn hc hg
    by_cases ho : m₂.owner = some s
    · rw [if_pos ho] at hc
      exact hg ((release_calms phys hcancel.sound).2.2 c conn hc)
    · rw [if_neg ho, hs] at hown
      exact ho hown
  have hforget := hend.trans (forget_safe hend.sound hend.live hnone)
  exact hforget.trans (releaseIdleShortcut_safe phys hforget.sound hforget.live)

end Manager

end Piik.Input
