/-
  Every operation of a manager keeps its invariants: the rest of the Host's
  side, and the packets of the input route.
-/
import Piik.Input.Policy

namespace Piik.Input

variable {σ : Type}

namespace Manager

variable {P : Platform σ} {pressed : σ → Set Held} {m : Manager σ} {c : EndpointKey}

/-! ## The Host's side -/

theorem applyChange_safe (phys : Physical P pressed) (h : Sound pressed m) (hl : Live m)
    (change : ℕ) (ended endedAfter : Bool) :
    Safe pressed none m (m.applyChange P change ended endedAfter).2 := by
  rw [applyChange]
  split
  · exact .refl h hl
  rename_i ch _
  split
  · exact .refl h hl
  have hask : Safe pressed none m
      (m.setSink (if ch.mode ≠ .off then P.authorize m.sink else (none, m.sink)).2) := by
    split
    · exact .of_calms hl (setSink_calms phys h (.authorize m.sink))
    · exact .refl h hl
  generalize (if ch.mode ≠ .off then P.authorize m.sink else (none, m.sink)) = asked at hask ⊢
  obtain ⟨err, sink⟩ := asked
  dsimp only at hask ⊢
  generalize m.setSink sink = m₁ at hask ⊢
  split
  · exact hask
  split
  · exact hask
  have hstop : Safe pressed none m (if ch.mode ≠ .off then m₁.ensureStopShortcut P else (none, m₁)).2 := by
    split
    · exact hask.trans (ensureStopShortcut_safe phys hask.sound hask.live)
    · exact hask
  generalize (if ch.mode ≠ .off then m₁.ensureStopShortcut P else (none, m₁)) = r at hstop ⊢
  obtain ⟨err', m₂⟩ := r
  dsimp only at hstop ⊢
  split
  · exact hstop
  have hopen : Safe pressed none m { m₂ with
      gamepads := (if ch.coPlay && !m₂.gamepads then P.openGamepadBackend m₂.sink
        else (m₂.gamepads, m₂.sink)).1
      sink := (if ch.coPlay && !m₂.gamepads then P.openGamepadBackend m₂.sink
        else (m₂.gamepads, m₂.sink)).2 } := by
    refine hstop.trans (safe_of_eq phys hstop.sound hstop.live rfl rfl rfl rfl rfl rfl rfl ?_)
    dsimp only
    split
    · exact Or.inr (.openGamepadBackend m₂.sink)
    · exact Or.inl rfl
  have hcancel := hopen.trans (cancelPolicy_safe hopen.sound (hopen.live.leave ch.session)
    ch.session)
  exact hcancel.trans (applyPolicy_safe phys hcancel.sound hcancel.live _ _ _)

/-- A connection that holds nothing can be replaced by a fresh one. -/
theorem bindPeer_safe (h : Sound pressed m) (hl : Live m)
    (hempty : ∀ conn, m.connections.get c = some conn → conn.grant = "") (peer : RemoteInputPeer) :
    Safe pressed none m (m.bindPeer c peer) := by
  have hget (c' : EndpointKey) (conn : Connection)
      (hc : (m.bindPeer c peer).connections.get c' = some conn) :
      (c' = c ∧ conn.grant = "" ∧ conn.requested = false ∧ conn.held = ∅) ∨
        m.connections.get c' = some conn := by
    rw [bindPeer, OMap.get_set] at hc
    split at hc
    · rename_i hcc
      cases hc
      exact Or.inl ⟨hcc, rfl, rfl, Connection.held_eq_empty.2 ⟨rfl, rfl⟩⟩
    · exact Or.inr hc
  have hheld : (m.bindPeer c peer).held = m.held := by
    ext x
    constructor
    · rintro ⟨c', conn, hc, hx⟩
      rcases hget c' conn hc with ⟨-, -, -, he⟩ | hc
      · rw [he] at hx
        exact absurd hx (Set.notMem_empty x)
      · exact ⟨c', conn, hc, hx⟩
    · rintro ⟨c', conn, hc, hx⟩
      by_cases hcc : c' = c
      · subst hcc
        rw [h.held c' conn hc (hempty conn hc)] at hx
        exact absurd hx (Set.notMem_empty x)
      · exact ⟨c', conn, by rw [bindPeer, OMap.get_set, if_neg hcc]; exact hc, hx⟩
  refine ⟨⟨?_, ?_, h.ledger.same hheld rfl subset_rfl⟩, ⟨?_, ?_, ?_⟩, .of_eq rfl⟩
  · intro c' conn hc hg
    rcases hget c' conn hc with ⟨-, he, -⟩ | hc
    · exact absurd he hg
    · exact h.owner c' conn hc hg
  · intro c' conn hc hg
    rcases hget c' conn hc with ⟨-, -, -, he⟩ | hc
    · exact he
    · exact h.held c' conn hc hg
  · intro c' conn hc hne hg
    rcases hget c' conn hc with ⟨-, he, -⟩ | hc
    · exact absurd he hg
    · exact hl.granted c' conn hc hne hg
  · intro c' conn hc hne hr
    rcases hget c' conn hc with ⟨-, -, he, -⟩ | hc
    · rw [he] at hr
      exact absurd hr Bool.false_ne_true
    · exact hl.asked c' conn hc hne hr
  · intro c₁ c₂ conn₁ conn₂ h₁ h₂ hne hcc hg₁ hg₂
    rcases hget c₁ conn₁ h₁ with ⟨-, he, -⟩ | h₁
    · exact absurd he hg₁
    rcases hget c₂ conn₂ h₂ with ⟨-, he, -⟩ | h₂
    · exact absurd he hg₂
    exact hl.shared c₁ c₂ conn₁ conn₂ h₁ h₂ hne hcc hg₁ hg₂

theorem setPeer_safe (phys : Physical P pressed) (h : Sound pressed m) (hl : Live m) (s : ℕ)
    (peer : RemoteInputPeer) : Safe pressed none m (m.setPeer P s peer) := by
  rw [setPeer]
  split
  · exact .refl h hl
  split
  · obtain ⟨hrev, hg⟩ := revoke_calms phys h ⟨s, peer.endpointID⟩
    have hsafe := Safe.of_calms hl hrev
    exact hsafe.trans (bindPeer_safe hsafe.sound hsafe.live (fun conn hc => (hg conn hc).1) peer)
  · rename_i hhas
    refine bindPeer_safe h hl (fun conn hc => ?_) peer
    rw [OMap.has, hc] at hhas
    exact absurd rfl hhas

/-- A connection that holds nothing can be dropped. -/
theorem delete_safe (h : Sound pressed m) (hl : Live m)
    (hempty : ∀ conn, m.connections.get c = some conn → conn.grant = "") :
    Safe pressed none m { m with connections := m.connections.delete c } := by
  have hget (c' : EndpointKey) (conn : Connection)
      (hc : (m.connections.delete c).get c' = some conn) : m.connections.get c' = some conn := by
    rw [OMap.get_delete] at hc
    split at hc
    · cases hc
    · exact hc
  have hheld : ({ m with connections := m.connections.delete c } : Manager σ).held = m.held := by
    ext x
    constructor
    · rintro ⟨c', conn, hc, hx⟩
      exact ⟨c', conn, hget c' conn hc, hx⟩
    · rintro ⟨c', conn, hc, hx⟩
      by_cases hcc : c' = c
      · subst hcc
        rw [h.held c' conn hc (hempty conn hc)] at hx
        exact absurd hx (Set.notMem_empty x)
      · refine ⟨c', conn, ?_, hx⟩
        show (m.connections.delete c).get c' = some conn
        rw [OMap.get_delete, if_neg hcc]
        exact hc
  exact ⟨⟨fun c' conn hc => h.owner c' conn (hget c' conn hc),
    fun c' conn hc => h.held c' conn (hget c' conn hc), h.ledger.same hheld rfl subset_rfl⟩,
    ⟨fun c' conn hc => hl.granted c' conn (hget c' conn hc),
      fun c' conn hc => hl.asked c' conn (hget c' conn hc),
      fun c₁ c₂ conn₁ conn₂ h₁ h₂ => hl.shared c₁ c₂ conn₁ conn₂ (hget c₁ conn₁ h₁)
        (hget c₂ conn₂ h₂)⟩, .of_eq rfl⟩

theorem dropPeer_safe (phys : Physical P pressed) (h : Sound pressed m) (hl : Live m)
    (retained : List String) (c : EndpointKey) :
    Safe pressed none m (m.dropPeer P retained c) := by
  rw [dropPeer]
  split
  · exact .refl h hl
  · obtain ⟨hrev, hg⟩ := revoke_calms phys h c
    have hsafe := Safe.of_calms hl hrev
    exact hsafe.trans (delete_safe hsafe.sound hsafe.live fun conn hc => (hg conn hc).1)

theorem foldl_safe {α : Type} {f : Manager σ → α → Manager σ}
    (hf : ∀ a m, Sound pressed m → Live m → Safe pressed none m (f m a)) (as : List α)
    {m m' : Manager σ} (h : Safe pressed none m m') : Safe pressed none m (as.foldl f m') :=
  foldl_induct (I := fun _ m' => Safe pressed none m m')
    (fun a _ m' hI => hI.trans (hf a m' hI.sound hI.live)) as m' h

theorem eachConnection_safe (phys : Physical P pressed) (h : Sound pressed m) (hl : Live m) (s : ℕ)
    {f : EndpointKey → Manager σ → Manager σ}
    (hf : ∀ c m, Sound pressed m → Live m → Safe pressed none m (f c m)) :
    Safe pressed none m (m.eachConnection P s f) := by
  rw [eachConnection_eq]
  exact foldl_safe hf _ (.of_calms hl (setSink_calms phys h (.range ..)))

theorem setPeers_safe (phys : Physical P pressed) (h : Sound pressed m) (hl : Live m) (s : ℕ)
    (peers : List RemoteInputPeer) : Safe pressed none m (m.setPeers P s peers).2 := by
  rw [setPeers]
  split
  · exact .refl h hl
  split
  · exact .refl h hl
  · have hpeers := foldl_safe (f := setPeer P s)
      (fun peer m hm hlm => setPeer_safe phys hm hlm s peer) peers (.refl h hl)
    exact hpeers.trans (eachConnection_safe phys hpeers.sound hpeers.live s
      fun c m hm hlm => dropPeer_safe phys hm hlm _ c)

theorem transportLost_safe (phys : Physical P pressed) (h : Sound pressed m) (hl : Live m) (s : ℕ)
    (edgeID : String) (reset : Bool) : Safe pressed none m (m.transportLost P s edgeID reset) := by
  rw [transportLost]
  split
  · refine eachConnection_safe phys h hl s fun c m hm hlm => ?_
    split
    · exact .of_calms hlm (revoke_calms phys hm c).1
    · exact .refl hm hlm
  · exact .refl h hl

theorem sessionDecide_safe (phys : Physical P pressed) (h : Sound pressed m) (hl : Live m) (s : ℕ)
    (id : String) (allow : Bool) : Safe pressed none m (m.sessionDecide P s id allow).2 := by
  rw [sessionDecide]
  have hrange := Safe.of_calms hl (setSink_calms phys h (.range m.connections.keys m.sink))
  have hperm := P.range_perm m.connections.keys m.sink
  generalize P.range m.connections.keys m.sink = r at hrange hperm ⊢
  obtain ⟨order, sink⟩ := r
  dsimp only at hrange hperm ⊢
  generalize hm₁ : m.setSink sink = m₁ at hrange ⊢
  have hkeys : m₁.connections = m.connections := by rw [← hm₁]; rfl
  split
  · exact hrange
  rename_i c hfind
  split
  · exact hrange
  rename_i hgo
  simp only [Bool.or_eq_true, Bool.not_eq_true', decide_eq_true_eq, not_or] at hgo
  obtain ⟨⟨⟨hclosed, hav⟩, hedge⟩, hreq⟩ := hgo
  have hcs : c.owner = s := by
    have := List.find?_some hfind
    simp only [Bool.and_eq_true, decide_eq_true_eq] at this
    exact this.1
  obtain ⟨conn, hc⟩ : ∃ conn, m₁.connections.get c = some conn := by
    rw [← OMap.mem_keys, hkeys]
    exact hperm.mem_iff.1 (List.mem_of_find?_eq_some hfind)
  split
  · split
    · exact hrange.trans (setPolicy_safe phys hrange.sound hrange.live _ _ _)
    · exact hrange.calms (revoke_calms phys hrange.sound c).1
  · -- What is asked for, or granted, rests on a mode that is not off.
    have hmode : (m₁.session s).mode ≠ .off := by
      rw [conn_eq hc] at hreq
      simp only [Bool.and_eq_true, Bool.not_eq_true', decide_eq_true_eq, not_and_or,
        Bool.not_eq_false] at hreq
      rw [← hcs]
      rcases hreq with hreq | hreq
      · exact hrange.live.asked c conn hc (Option.some_ne_none _) hreq
      · exact (hrange.live.granted c conn hc (Option.some_ne_none _) hreq).2.2.1
    have hrel := releaseIf_calms (P := P) phys hrange.sound
      (((m₁.conn c).requested && (m₁.session s).coPlay && !(m₁.session s).simultaneous &&
        decide (m₁.owner = some s)) = true)
    generalize (if ((m₁.conn c).requested && (m₁.session s).coPlay &&
      !(m₁.session s).simultaneous && decide (m₁.owner = some s)) = true then m₁.release P
      else m₁) = m₂ at hrel ⊢
    have hsafe := hrange.calms hrel
    have hhas : m₂.connections.has c = true := by
      rw [hrel.has, OMap.has, hc]; rfl
    obtain ⟨conn', hc'⟩ := Option.isSome_iff_exists.1 hhas
    obtain ⟨conn₀, hc₀, hk⟩ := hrel.kept c conn' hc'
    rw [hc] at hc₀
    cases hc₀
    have hsess (s : ℕ) : m₂.session s = m₁.session s := by
      rw [Manager.session, Manager.session, hrel.sessions]
    refine hsafe.trans (grant_safe phys hsafe.sound hsafe.live hc' ?_ ?_ ?_ ?_)
    · rw [hk.edgeID]
      rwa [conn_eq hc] at hedge
    · rw [hrel.closed]
      simpa using hclosed
    · rw [sessionAvailable, hsess, hcs]
      simpa [sessionAvailable, and_assoc] using hav
    · rw [hsess, hcs]
      exact hmode

theorem revokeAll_safe (phys : Physical P pressed) (h : Sound pressed m) (hl : Live m)
    (order : List ℕ) : Safe pressed none m (m.revokeAll P order) := by
  rw [revokeAll]
  split
  · exact .refl h hl
  · refine foldl_safe (fun s m hm hlm => ?_) order (.refl h hl)
    rw [revokeSession]
    split
    · exact .refl hm hlm
    split
    · exact setPolicy_safe phys hm hlm _ _ _
    · exact cancelPolicy_safe hm hlm s

theorem retryReleases_calms (phys : Physical P pressed) (h : Sound pressed m) :
    Calms pressed m (m.retryReleases P).2 :=
  .of_cleans h (retryReleases_cleans m) (retryReleases_ledger phys h.ledger).1

theorem closeManager_safe (phys : Physical P pressed) (h : Sound pressed m) (hl : Live m) :
    Safe pressed none m (m.closeManager P) := by
  rw [closeManager]
  split
  · exact .refl h hl
  -- Closed, the manager has released every grant; the requests stay as they were.
  have hsound : Sound pressed ({ m with closed := true } : Manager σ) :=
    ⟨h.owner, h.held, h.ledger.same rfl rfl subset_rfl⟩
  obtain ⟨hrel, -, hnone⟩ := release_calms phys hsound
  have hstart : Safe pressed none m ({ m with closed := true }.release P) := by
    refine ⟨hrel.sound, ⟨?_, ?_, ?_⟩, (Quiet.of_eq rfl).trans hrel.quiet⟩
    · exact fun c conn hc _ hg => absurd (hnone c conn hc) hg
    · intro c conn hc hne hr
      obtain ⟨conn₀, hc₀, hk⟩ := hrel.kept c conn hc
      have hsess : ({ m with closed := true }.release P).session c.owner = m.session c.owner := by
        rw [Manager.session, hrel.sessions]
        rfl
      rw [hsess]
      exact hl.asked c conn₀ hc₀ hne (hk.requested hr)
    · exact fun c _ conn _ hc _ _ _ hg _ => absurd (hnone c conn hc) hg
  have hretry := hstart.calms (retryReleases_calms phys hstart.sound)
  generalize ({ m with closed := true }.release P).retryReleases P = r at hretry ⊢
  obtain ⟨err, m₁⟩ := r
  dsimp only at hretry ⊢
  have hpads : Safe pressed none m
      (m₁.setSink (if m₁.gamepads then P.closeGamepadBackend m₁.sink else m₁.sink)) := by
    split
    · exact hretry.calms (setSink_calms phys hretry.sound (.closeGamepadBackend m₁.sink))
    · exact hretry
  generalize (if m₁.gamepads then P.closeGamepadBackend m₁.sink else m₁.sink) = s at hpads ⊢
  have hsink := hpads.calms (setSink_calms phys hpads.sound (.closeSink s))
  have hstop : Safe pressed none m (m₁.setSink
      (if m₁.stopShortcut then P.releaseStop (P.closeSink s) else P.closeSink s)) := by
    split
    · exact hsink.calms (setSink_calms phys hsink.sound (.releaseStop (P.closeSink s)))
    · exact hsink
  exact hstop.trans (safe_of_eq phys hstop.sound hstop.live rfl rfl rfl rfl rfl rfl rfl
    (Or.inl rfl))

theorem tick_safe (phys : Physical P pressed) (h : Sound pressed m) (hl : Live m) :
    Safe pressed none m (m.tick P) := by
  have hretry := Safe.of_calms hl (retryReleases_calms (P := P) phys h)
  exact hretry.calms (refreshActive_calms phys hretry.sound)

theorem gamepadOpened_safe (phys : Physical P pressed) (h : Sound pressed m) (hl : Live m)
    (err : Option String) : Safe pressed none m (m.gamepadOpened P err) := by
  rw [gamepadOpened]
  split
  · exact .refl h hl
  rename_i opening _
  split
  · exact .refl h hl
  have hset : Safe pressed none m
      { m with gamepadOpening := some { opening with delivered := true } } :=
    safe_of_eq phys h hl rfl rfl rfl rfl rfl rfl rfl (Or.inl rfl)
  dsimp only
  split
  · split
    · exact hset.calms (failGamepad_calms phys hset.sound _)
    · exact hset.calms (setConn_calms hset.sound _
        (fun _ => ⟨rfl, rfl, rfl, rfl, rfl, id, Or.inl rfl⟩) (fun _ => rfl) (fun _ => rfl))
  split
  · exact hset
  · exact hset.calms (setSink_calms phys hset.sound (.closePad _ _))

theorem gamepadSettled_safe (phys : Physical P pressed) (h : Sound pressed m) (hl : Live m) :
    Safe pressed none m m.gamepadSettled := by
  rw [gamepadSettled]
  split
  · split
    · exact safe_of_eq phys h hl rfl rfl rfl rfl rfl rfl rfl (Or.inl rfl)
    · exact .refl h hl
  · exact .refl h hl

theorem setStopShortcut_safe (phys : Physical P pressed) (h : Sound pressed m) (hl : Live m)
    (key : ℕ) : Safe pressed none m (m.setStopShortcut P key) := by
  rw [setStopShortcut]
  split
  · exact .refl h hl
  split
  · exact .refl h hl
  have hreg := Safe.of_calms hl (setSink_calms phys h (.registerStop key m.sink))
  generalize P.registerStop key m.sink = r at hreg ⊢
  obtain ⟨err, sink⟩ := r
  dsimp only at hreg ⊢
  split
  · exact hreg
  · exact hreg.trans (safe_of_eq phys hreg.sound hreg.live rfl rfl rfl rfl rfl rfl rfl
      (Or.inr (.releaseStop sink)))

theorem readStopShortcut_safe (phys : Physical P pressed) (h : Sound pressed m) (hl : Live m) :
    Safe pressed none m (m.readStopShortcut P) := by
  rw [readStopShortcut]
  split
  · exact .refl h hl
  have hreg := Safe.of_calms hl (setSink_calms phys h (.registerStop m.stopKey m.sink))
  generalize P.registerStop m.stopKey m.sink = r at hreg ⊢
  obtain ⟨err, sink⟩ := r
  dsimp only at hreg ⊢
  split
  · exact hreg
  · exact hreg.calms (setSink_calms phys hreg.sound (.releaseStop sink))

end Manager

end Piik.Input
