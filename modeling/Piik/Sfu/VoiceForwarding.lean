/-
  Who hears whom: an output is fed only by a source that another open
  connection of the room publishes now, for a publication that both plans name.
-/
import Piik.Sfu.VoiceSlots

namespace Piik.Sfu

open Piik.Voice (VoicePublication)

namespace VoiceMedia

open VoiceConnection

variable {m m' : VoiceMedia} {room : String} {i r source : ℕ} {pub : VoicePublication}
  {plan : Voice.VoiceConnectionPlan} {c : VoiceConnection} {X : List (Option ℕ)}
  {F : ℕ → ℕ → VoicePublication → Prop}

/-- Another open connection of the room publishes this, and the source is its input's. -/
def Feeds (m : VoiceMedia) (i source : ℕ) (pub : VoicePublication) : Prop :=
  ∃ d < m.made, d ≠ i ∧ (m.conns d).closed = false ∧ (m.conns d).key.room = (m.conns i).key.room ∧
    pub ∈ (m.conns d).plan.publish ∧ ∃ mid r, (m.conns d).bindings.get mid = some r ∧
      (m.inputs r).source = some source ∧ (m.inputs r).publication = pub

/-- What holds of the connections one by one. -/
structure Base (m : VoiceMedia) : Prop where
  registered : ∀ key i, m.connections.get key = some i → i < m.made ∧ (m.conns i).key = key
  kept : ∀ i < m.made, (m.conns i).Kept
  duty : ∀ i < m.made, (m.conns i).Duty
  current : ∀ i < m.made, (m.conns i).closed = false → m.current i = true
  reading : ∀ r < m.started, (m.inputs r).conn < m.made
  bound : ∀ i < m.made, ∀ mid r, (m.conns i).bindings.get mid = some r →
    r < m.started ∧ (m.inputs r).conn = i ∧ (m.inputs r).mid = mid
  bounded : ∀ room, m.roomCount room ≤ maxVoicePublications + 2

/-- Every output that is fed is fed in a given way, but for some sources in one room. -/
def FedBut (F : ℕ → ℕ → VoicePublication → Prop) (m : VoiceMedia) (room : String)
    (X : List (Option ℕ)) : Prop :=
  ∀ i < m.made, ∀ (k : ℕ) (slot : SendSlot) (source : ℕ), (m.conns i).sendSlots[k]? = some slot →
    slot.input = some source →
      F i source slot.publication ∨ (m.conns i).key.room = room ∧ some source ∈ X

/-- What holds of every state that a run reaches. -/
structure Sound (m : VoiceMedia) : Prop where
  base : m.Base
  fed : FedBut m.Feeds m "" []

theorem current_iff : m.current i = true ↔ m.connections.get (m.conns i).key = some i :=
  decide_eq_true_iff

/-- The state that differs in what the connections keep to themselves. -/
theorem Base.alike (h : Base m) (hconns : ∀ j, Alike (m.conns j) (m'.conns j))
    (hkept : ∀ j < m.made, (m'.conns j).Kept ∧ (m'.conns j).Duty)
    (hconnections : m'.connections = m.connections) (hmade : m'.made = m.made)
    (hinputs : m'.inputs = m.inputs) (hstarted : m'.started = m.started) : Base m' where
  registered := by
    rw [hconnections, hmade]
    intro key j hget
    exact ⟨(h.registered key j hget).1, (hconns j).key.trans (h.registered key j hget).2⟩
  kept j hj := (hkept j (hmade ▸ hj)).1
  duty j hj := (hkept j (hmade ▸ hj)).2
  current := by
    rw [hmade]
    intro j hj hopen
    rw [current_iff, hconnections, (hconns j).key]
    exact current_iff.1 (h.current j hj ((hconns j).closed ▸ hopen))
  reading := by
    rw [hstarted, hinputs, hmade]
    exact h.reading
  bound := by
    rw [hmade, hstarted, hinputs]
    intro j hj mid r hget
    exact h.bound j hj mid r ((hconns j).bindings ▸ hget)
  bounded room := by
    rw [roomCount, hconnections]
    exact h.bounded room

theorem Feeds.alike (h : m.Feeds i source pub) (hconns : ∀ j, Alike (m.conns j) (m'.conns j))
    (hmade : m'.made = m.made) (hinputs : m'.inputs = m.inputs) : m'.Feeds i source pub := by
  obtain ⟨d, hd, hne, hopen, hroom, hpub, mid, r, hget, hr⟩ := h
  refine ⟨d, hmade ▸ hd, hne, ?_, ?_, ?_, mid, r, ?_, hinputs ▸ hr⟩
  · rw [(hconns d).closed, hopen]
  · rw [(hconns d).key, (hconns i).key, hroom]
  · rw [(hconns d).publish]
    exact hpub
  · rw [(hconns d).bindings, hget]

/-! ## Detaching -/

theorem detachInput_conns (m : VoiceMedia) (room : String) (source : ℕ) (j : ℕ) :
    (m.detachInput room (some source)).conns j =
      if m.current j && (m.conns j).key.room = room then (m.conns j).detach source else m.conns j := rfl

theorem detachInput_alike (m : VoiceMedia) (room : String) (source : Option ℕ) (j : ℕ) :
    Alike (m.conns j) ((m.detachInput room source).conns j) := by
  cases source with
  | none => exact ⟨rfl, rfl, rfl, rfl⟩
  | some source =>
    rw [detachInput_conns]
    split
    · exact ⟨rfl, rfl, rfl, rfl⟩
    · exact ⟨rfl, rfl, rfl, rfl⟩

theorem detachInput_frame (m : VoiceMedia) (room : String) (source : Option ℕ) :
    (m.detachInput room source).connections = m.connections ∧
      (m.detachInput room source).made = m.made ∧ (m.detachInput room source).inputs = m.inputs ∧
      (m.detachInput room source).started = m.started := by
  cases source with
  | none => exact ⟨rfl, rfl, rfl, rfl⟩
  | some source => exact ⟨rfl, rfl, rfl, rfl⟩

theorem Base.detachInput (h : Base m) (room : String) (source : Option ℕ) :
    Base (m.detachInput room source) := by
  obtain ⟨h₁, h₂, h₃, h₄⟩ := detachInput_frame m room source
  refine h.alike (detachInput_alike m room source) (fun j hj => ?_) h₁ h₂ h₃ h₄
  cases source with
  | none => exact ⟨h.kept j hj, h.duty j hj⟩
  | some source =>
    rw [detachInput_conns]
    split
    · exact ⟨(h.kept j hj).detach source, (h.duty j hj).detach source⟩
    · exact ⟨h.kept j hj, h.duty j hj⟩

/-- The exception shrinks by the source that is detached: no output can be fed by it that the
    loops do not reach. -/
theorem Base.detachInput_fed (h : Base m) {s : Option ℕ} (hfed : FedBut F m room (s :: X)) :
    FedBut F (m.detachInput room s) room X := by
  cases s with
  | none =>
    intro i hi k slot source hk hin
    refine (hfed i hi k slot source hk hin).imp_right fun hexc => ⟨hexc.1, ?_⟩
    exact (List.mem_cons.1 hexc.2).resolve_left (Option.some_ne_none source)
  | some s =>
    intro i hi k slot' source hk hin
    rw [detachInput_conns] at hk ⊢
    split at hk
    · next hcond =>
      rw [if_pos hcond]
      obtain ⟨slot, hslot, hpub, hinput⟩ := (h.kept i hi).detach_input hk
      obtain ⟨hold, hne⟩ := hinput source hin
      rw [hpub]
      refine (hfed i hi k slot source hslot hold).imp_right fun hexc => ⟨hexc.1, ?_⟩
      exact (List.mem_cons.1 hexc.2).resolve_left fun heq => hne (Option.some.inj heq)
    · next hcond =>
      rw [if_neg hcond]
      refine (hfed i hi k slot' source hk hin).imp_right fun hexc => absurd ?_ hcond
      have hopen := ((h.kept i hi).active k slot' hk
        ((h.kept i hi).fed k slot' hk (by rw [hin]; exact Option.some_ne_none source))).1
      simp [h.current i hi hopen, hexc.1]

theorem detachInputs_spec (room : String) : ∀ (X : List (Option ℕ)) {m : VoiceMedia}, Base m →
    Base (m.detachInputs room X) ∧ (∀ j, Alike (m.conns j) ((m.detachInputs room X).conns j)) ∧
      (m.detachInputs room X).connections = m.connections ∧ (m.detachInputs room X).made = m.made ∧
      (m.detachInputs room X).inputs = m.inputs ∧ (m.detachInputs room X).started = m.started ∧
      ∀ F, FedBut F m room X → FedBut F (m.detachInputs room X) room [] := by
  intro X
  induction X with
  | nil =>
    intro m h
    exact ⟨h, fun j => ⟨rfl, rfl, rfl, rfl⟩, rfl, rfl, rfl, rfl, fun _ hfed => hfed⟩
  | cons s X ih =>
    intro m h
    obtain ⟨h₁, h₂, h₃, h₄⟩ := detachInput_frame m room s
    obtain ⟨hbase, halike, g₁, g₂, g₃, g₄, hfed⟩ := ih (h.detachInput room s)
    refine ⟨hbase, fun j => ?_, g₁.trans h₁, g₂.trans h₂, g₃.trans h₃, g₄.trans h₄, ?_⟩
    · have ha := halike j
      have hb := detachInput_alike m room s j
      exact ⟨ha.key.trans hb.key, ha.closed.trans hb.closed, ha.publish.trans hb.publish,
        ha.bindings.trans hb.bindings⟩
    · intro F hF
      exact hfed F (h.detachInput_fed hF)

/-- Without exceptions the room does not matter. -/
theorem FedBut.all (h : FedBut F m room []) (room' : String) (X : List (Option ℕ)) :
    FedBut F m room' X := by
  intro i hi k slot source hk hin
  exact .inl ((h i hi k slot source hk hin).resolve_right fun hexc => by cases hexc.2)

/-! ## One connection changes -/

theorem setConn_conns (m : VoiceMedia) (i : ℕ) (c : VoiceConnection) (j : ℕ) :
    (m.setConn i c).conns j = if j = i then c else m.conns j := by
  rw [setConn]
  exact Function.update_apply ..

/-- A connection changes and feeds no output that it did not feed. -/
theorem Sound.setConn (h : Sound m) (halike : Alike (m.conns i) c) (hunfed : Unfed (m.conns i) c)
    (hkept : i < m.made → c.Kept ∧ c.Duty) : Sound (m.setConn i c) := by
  have hall : ∀ j, Alike (m.conns j) ((m.setConn i c).conns j) := by
    intro j
    rw [setConn_conns]
    split
    · next hj => rwa [hj]
    · exact ⟨rfl, rfl, rfl, rfl⟩
  refine ⟨h.base.alike hall (fun j hj => ?_) rfl rfl rfl rfl, ?_⟩
  · rw [setConn_conns]
    split
    · next hji => exact hkept (hji ▸ hj)
    · exact ⟨h.base.kept j hj, h.base.duty j hj⟩
  · intro j hj k slot source hk hin
    refine .inl ?_
    rw [setConn_conns] at hk
    split at hk
    · next hji =>
      subst hji
      obtain ⟨old, hold, hoin, hpub⟩ := hunfed k slot source hk hin
      rw [← hpub]
      exact ((h.fed j hj k old source hold hoin).resolve_right fun hexc => by cases hexc.2).alike hall rfl rfl
    · exact ((h.fed j hj k slot source hk hin).resolve_right fun hexc => by cases hexc.2).alike hall rfl rfl

/-! ## Operations -/

theorem Sound.commit (h : Sound m) (hi : i < m.made) (hopen : (m.conns i).closed = false)
    (hplan : Planned plan) : Sound (m.commit i plan) := by
  have hbase : Base (m.setConn i ((m.conns i).configure plan)) := by
    have hb := h.base
    refine ⟨?_, ?_, ?_, ?_, hb.reading, ?_, hb.bounded⟩
    · intro key j hget
      refine ⟨(hb.registered key j hget).1, ?_⟩
      rw [setConn_conns]
      split
      · next hji =>
        subst hji
        exact (hb.registered key j hget).2
      · exact (hb.registered key j hget).2
    · intro j hj
      rw [setConn_conns]
      split
      · exact (hb.kept i hi).configure hopen hplan
      · exact hb.kept j hj
    · intro j hj
      rw [setConn_conns]
      split
      · exact (hb.duty i hi).configure plan
      · exact hb.duty j hj
    · intro j hj hj'
      rw [current_iff, setConn_conns]
      rw [setConn_conns] at hj'
      split
      · next hji =>
        subst hji
        exact current_iff.1 (hb.current j hi hopen)
      · next hji =>
        rw [if_neg hji] at hj'
        exact current_iff.1 (hb.current j hj hj')
    · intro j hj mid r hget
      rw [setConn_conns] at hget
      split at hget
      · next hji =>
        subst hji
        exact hb.bound j hi mid r hget
      · exact hb.bound j hj mid r hget
  obtain ⟨hbase', halike, -, hmade, hinputs, -, hfed⟩ := detachInputs_spec
    ((m.conns i).configure plan).key.room
    ((((m.conns i).configure plan).bindings.values.filter fun r => (m.inputs r).publication ∉ plan.publish).map
      fun r => (m.inputs r).source) hbase
  refine ⟨hbase', (hfed _ ?_).all "" []⟩
  intro j hj k slot' source hk hin
  have hroom : ((m.setConn i ((m.conns i).configure plan)).conns j).key = (m.conns j).key := by
    rw [setConn_conns]
    split
    · next hji => rw [hji]; rfl
    · rfl
  have hold : ∃ slot, (m.conns j).sendSlots[k]? = some slot ∧ slot.input = some source ∧
      slot.publication = slot'.publication := by
    rw [setConn_conns] at hk
    split at hk
    · next hji =>
      subst hji
      exact configure_unfed k slot' source hk hin
    · exact ⟨slot', hk, hin, rfl⟩
  obtain ⟨slot, hslot, hsin, hpub⟩ := hold
  obtain ⟨d, hd, hne, hdopen, hdroom, hdpub, mid, r, hget, hrs, hrp⟩ :=
    (h.fed j hj k slot source hslot hsin).resolve_right fun hexc => by cases hexc.2
  rw [hpub] at hdpub hrp
  -- The plan of the feeding connection may be the one that changes.
  by_cases hdi : d = i
  · subst hdi
    by_cases hstill : slot'.publication ∈ plan.publish
    · have hnew : (m.setConn d ((m.conns d).configure plan)).Feeds j source slot'.publication := by
        refine ⟨d, hd, hne, ?_, ?_, ?_, mid, r, ?_, hrs, hrp⟩
        · rw [setConn_conns, if_pos rfl]
          exact hdopen
        · rw [hroom, setConn_conns, if_pos rfl]
          exact hdroom
        · rw [setConn_conns, if_pos rfl]
          exact hstill
        · rw [setConn_conns, if_pos rfl]
          exact hget
      exact .inl (hnew.alike halike hmade hinputs)
    · refine .inr ⟨by rw [hroom]; exact hdroom.symm, ?_⟩
      refine List.mem_map.2 ⟨r, List.mem_filter.2 ⟨OMap.mem_values.2 ⟨mid, hget⟩, ?_⟩, hrs⟩
      rw [hrp]
      exact decide_eq_true hstill
  · have hnew : (m.setConn i ((m.conns i).configure plan)).Feeds j source slot'.publication := by
      refine ⟨d, hd, hne, ?_, ?_, ?_, mid, r, ?_, hrs, hrp⟩
      · rw [setConn_conns, if_neg hdi]
        exact hdopen
      · rw [hroom, setConn_conns, if_neg hdi]
        exact hdroom
      · rw [setConn_conns, if_neg hdi]
        exact hdpub
      · rw [setConn_conns, if_neg hdi]
        exact hget
    exact .inl (hnew.alike halike hmade hinputs)

theorem Sound.retire (h : Sound m) (hi : i < m.made) : Sound (m.retire i) := by
  obtain ⟨hbase, halike, hconnections, hmade, hinputs, hstarted, hfed⟩ := detachInputs_spec
    (m.conns i).key.room ((m.conns i).bindings.values.map fun r => (m.inputs r).source) h.base
  -- Once detached, no output is fed by this connection.
  have hothers := hfed (fun j source pub => ∃ d < m.made, d ≠ i ∧ d ≠ j ∧ (m.conns d).closed = false ∧
    (m.conns d).key.room = (m.conns j).key.room ∧ pub ∈ (m.conns d).plan.publish ∧
      ∃ mid r, (m.conns d).bindings.get mid = some r ∧ (m.inputs r).source = some source ∧
        (m.inputs r).publication = pub) (by
    intro j hj k slot source hk hin
    obtain ⟨d, hd, hne, hdopen, hdroom, hdpub, mid, r, hget, hrs, hrp⟩ :=
      (h.fed j hj k slot source hk hin).resolve_right fun hexc => by cases hexc.2
    by_cases hdi : d = i
    · subst hdi
      exact .inr ⟨hdroom.symm, List.mem_map.2 ⟨r, OMap.mem_values.2 ⟨mid, hget⟩, hrs⟩⟩
    · exact .inl ⟨d, hd, hdi, hne, hdopen, hdroom, hdpub, mid, r, hget, hrs, hrp⟩)
  rw [VoiceMedia.retire]
  generalize hm₁ : m.detachInputs (m.conns i).key.room
    ((m.conns i).bindings.values.map fun r => (m.inputs r).source) = m₁ at *
  have hkey : ∀ j, ((m₁.setConn i (m₁.conns i).retire).conns j).key = (m.conns j).key := by
    intro j
    rw [setConn_conns]
    split
    · next hji =>
      subst hji
      exact (halike j).key
    · exact (halike j).key
  refine ⟨⟨?_, ?_, ?_, ?_, hbase.reading, ?_, hbase.bounded⟩, ?_⟩
  · intro key j hget
    obtain ⟨hj, hk⟩ := hbase.registered key j hget
    refine ⟨hj, ?_⟩
    rw [hkey, ← (halike j).key, hk]
  · intro j hj
    rw [setConn_conns]
    split
    · exact (hbase.kept i (hmade.symm ▸ hi)).retire
    · exact hbase.kept j hj
  · intro j hj
    rw [setConn_conns]
    split
    · exact (hbase.duty i (hmade.symm ▸ hi)).retire
    · exact hbase.duty j hj
  · intro j hj hopen
    rw [current_iff, hkey, ← (halike j).key]
    rw [setConn_conns] at hopen
    split at hopen
    · cases hopen
    · exact current_iff.1 (hbase.current j hj hopen)
  · intro j hj mid r hget
    rw [setConn_conns] at hget
    split at hget
    · next hji =>
      subst hji
      exact hbase.bound j hj mid r hget
    · exact hbase.bound j hj mid r hget
  · intro j hj k slot' source hk hin
    have hold : ∃ slot, (m₁.conns j).sendSlots[k]? = some slot ∧ slot.input = some source ∧
        slot.publication = slot'.publication := by
      rw [setConn_conns] at hk
      split at hk
      · next hji =>
        subst hji
        exact retire_unfed k slot' source hk hin
      · exact ⟨slot', hk, hin, rfl⟩
    obtain ⟨slot, hslot, hsin, hpub⟩ := hold
    obtain ⟨d, hd, hdi, hne, hdopen, hdroom, hdpub, mid, r, hget, hrs, hrp⟩ :=
      (hothers j hj k slot source hslot hsin).resolve_right fun hexc => by cases hexc.2
    rw [hpub] at hdpub hrp
    have hconn : (m₁.setConn i (m₁.conns i).retire).conns d = m₁.conns d := by
      rw [setConn_conns, if_neg hdi]
    refine .inl ⟨d, hmade.symm ▸ hd, hne, ?_, ?_, ?_, mid, r, ?_, ?_, ?_⟩
    · rw [hconn, (halike d).closed, hdopen]
    · rw [hkey, hkey, hdroom]
    · rw [hconn, (halike d).publish]
      exact hdpub
    · rw [hconn, (halike d).bindings, hget]
    · rw [← hrs, ← hinputs]
      rfl
    · rw [← hrp, ← hinputs]
      rfl

theorem retire_frame (m : VoiceMedia) (h : Sound m) (i : ℕ) :
    (m.retire i).connections = m.connections ∧ (m.retire i).made = m.made ∧
      ((m.retire i).conns i).closed = true ∧
      ∀ j, (m.conns j).closed = true → ((m.retire i).conns j).closed = true := by
  obtain ⟨-, halike, hconnections, hmade, -, -, -⟩ := detachInputs_spec
    (m.conns i).key.room ((m.conns i).bindings.values.map fun r => (m.inputs r).source) h.base
  refine ⟨hconnections, hmade, ?_, fun j hj => ?_⟩
  · rw [VoiceMedia.retire, setConn_conns, if_pos rfl]
    rfl
  · rw [VoiceMedia.retire, setConn_conns]
    split
    · rfl
    · rw [(halike j).closed, hj]

theorem retireAll (l : List ℕ) : ∀ {m : VoiceMedia}, Sound m → (∀ i ∈ l, i < m.made) →
    Sound (l.foldl (fun m i => m.retire i) m) ∧
      (l.foldl (fun m i => m.retire i) m).connections = m.connections ∧
      (∀ i ∈ l, ((l.foldl (fun m i => m.retire i) m).conns i).closed = true) ∧
      ∀ i, (m.conns i).closed = true → ((l.foldl (fun m i => m.retire i) m).conns i).closed = true := by
  induction l with
  | nil =>
    intro m h _
    exact ⟨h, rfl, by simp, fun _ hi => hi⟩
  | cons i l ih =>
    intro m h hmem
    obtain ⟨hconnections, hmade, hclosed, hkeep⟩ := retire_frame m h i
    obtain ⟨hsound, hc, hall, hstay⟩ := ih (h.retire (hmem i List.mem_cons_self)) fun j hj => by
      rw [hmade]
      exact hmem j (List.mem_cons_of_mem _ hj)
    refine ⟨hsound, hc.trans hconnections, ?_, fun j hj => hstay j (hkeep j hj)⟩
    intro j hj
    rcases List.mem_cons.1 hj with rfl | hj
    · exact hstay j hclosed
    · exact hall j hj

theorem Sound.closeAll (h : Sound m) : Sound m.closeAll := by
  obtain ⟨hsound, hconnections, hall, -⟩ := retireAll m.connections.values h fun i hi => by
    obtain ⟨key, hget⟩ := OMap.mem_values.1 hi
    exact (h.base.registered key i hget).1
  have hb := hsound.base
  refine ⟨⟨?_, hb.kept, hb.duty, ?_, hb.reading, hb.bound, ?_⟩, hsound.fed⟩
  · intro key i hget
    cases hget
  · intro i hi hopen
    have hcurrent := current_iff.1 (hb.current i hi hopen)
    rw [hconnections] at hcurrent
    have := hall i (OMap.mem_values.2 ⟨_, hcurrent⟩)
    exact absurd (this.symm.trans hopen) Bool.noConfusion
  · intro room
    exact Nat.zero_le _

theorem roomCount_delete_le (m : VoiceMedia) (key : VoiceKey) (room : String) :
    ({ m with connections := m.connections.delete key } : VoiceMedia).roomCount room ≤ m.roomCount room := by
  rw [roomCount, roomCount, OMap.keys_delete]
  exact (List.Sublist.filter _ List.filter_sublist).length_le

theorem Sound.unregister (h : Sound m) (hclosed : (m.conns i).closed = true) (hi : m.current i = true) :
    Sound { m with connections := m.connections.delete (m.conns i).key } := by
  have hb := h.base
  refine ⟨⟨?_, hb.kept, hb.duty, ?_, hb.reading, hb.bound, ?_⟩, h.fed⟩
  · intro key j hget
    rw [OMap.get_delete] at hget
    split at hget
    · cases hget
    · exact hb.registered key j hget
  · intro j hj hopen
    have hcurrent := current_iff.1 (hb.current j hj hopen)
    rw [current_iff]
    show (m.connections.delete (m.conns i).key).get (m.conns j).key = some j
    rw [OMap.get_delete, if_neg ?_, hcurrent]
    intro heq
    rw [heq, current_iff.1 hi] at hcurrent
    obtain rfl := Option.some.inj hcurrent
    rw [hclosed] at hopen
    cases hopen
  · intro room
    exact (roomCount_delete_le m _ room).trans (hb.bounded room)

/-- A connection that is made has no output yet. -/
theorem Sound.create (h : Sound m) {key : VoiceKey} (hnone : m.connections.get key = none)
    (hcount : m.roomCount key.room < maxVoicePublications + 2) : Sound (m.create key) := by
  have hb := h.base
  have hconns : ∀ j, (m.create key).conns j = if j = m.made then { key } else m.conns j := by
    intro j
    exact setConn_conns m m.made { key } j
  have hold : ∀ j < m.made, (m.create key).conns j = m.conns j := by
    intro j hj
    rw [hconns, if_neg (by omega)]
  have hnew : Kept { key } := by
    refine ⟨.empty, by simp, by simp, ?_, ?_, ?_⟩
    · intro _ id i hget
      cases hget
    · intro i j p q hp
      cases hp
    · intro i j p q hp hq heq hne
      rw [List.getElem?_singleton] at hp
      obtain ⟨-, hp⟩ := Option.ite_none_right_eq_some.1 hp
      obtain rfl := Option.some.inj hp
      exact absurd rfl hne
  have hcases : ∀ j, j < m.made + 1 → j = m.made ∨ j < m.made := fun j hj => by omega
  refine ⟨⟨?_, ?_, ?_, ?_, ?_, ?_, ?_⟩, ?_⟩
  · intro key' j hget
    have hget' : (m.connections.set key m.made).get key' = some j := hget
    rw [OMap.get_set] at hget'
    split at hget'
    · next heq =>
      obtain rfl := Option.some.inj hget'
      exact ⟨Nat.lt_succ_self _, by rw [hconns, if_pos rfl]; exact heq.symm⟩
    · obtain ⟨hj, hk⟩ := hb.registered key' j hget'
      exact ⟨Nat.lt_succ_of_lt hj, by rw [hold j hj, hk]⟩
  · intro j hj
    rcases hcases j hj with rfl | hj
    · rw [hconns, if_pos rfl]
      exact hnew
    · rw [hold j hj]
      exact hb.kept j hj
  · intro j hj
    rcases hcases j hj with rfl | hj
    · rw [hconns, if_pos rfl]
      trivial
    · rw [hold j hj]
      exact hb.duty j hj
  · intro j hj hopen
    rw [current_iff]
    show (m.connections.set key m.made).get _ = some j
    rw [OMap.get_set]
    rcases hcases j hj with rfl | hj
    · rw [hconns, if_pos rfl, if_pos rfl]
    · rw [hold j hj] at hopen ⊢
      have hcurrent := current_iff.1 (hb.current j hj hopen)
      rw [if_neg ?_, hcurrent]
      intro heq
      rw [heq, hnone] at hcurrent
      cases hcurrent
  · intro r hr
    exact Nat.lt_succ_of_lt (hb.reading r hr)
  · intro j hj mid r hget
    rcases hcases j hj with rfl | hj
    · rw [hconns, if_pos rfl] at hget
      cases hget
    · rw [hold j hj] at hget
      exact hb.bound j hj mid r hget
  · intro room
    have hmem : key ∉ m.connections.keys := OMap.get_eq_none.1 hnone
    show ((m.connections.set key m.made).keys.filter _).length ≤ _
    rw [OMap.keys_set, if_neg hmem, List.filter_append, List.length_append]
    by_cases hroom : key.room = room
    · subst hroom
      rw [roomCount] at hcount
      simp
      omega
    · have hroomCount := hb.bounded room
      rw [roomCount] at hroomCount
      simpa [hroom] using hroomCount
  · intro j hj k slot source hk hin
    rcases hcases j hj with rfl | hj
    · rw [hconns, if_pos rfl] at hk
      cases hk
    · rw [hold j hj] at hk
      obtain ⟨d, hd, hne, hrest⟩ :=
        (h.fed j hj k slot source hk hin).resolve_right fun hexc => by cases hexc.2
      refine .inl ⟨d, Nat.lt_succ_of_lt hd, hne, ?_⟩
      rw [hold d hd, hold j hj]
      exact hrest

theorem Sound.configureVoice (h : Sound m) (plan : VoiceConnectionPlan) (made : Bool) :
    Sound (m.configureVoice plan made) := by
  rw [VoiceMedia.configureVoice]
  split
  · exact h
  next plan' hplan =>
  obtain ⟨hplanned, -⟩ := normalizeVoicePlan_planned hplan
  split
  · exact h
  split
  · next i hget =>
    split
    · exact h
    · next hopen => exact h.commit (h.base.registered _ i hget).1 (Bool.eq_false_iff.2 hopen) hplanned
  · next hnone =>
    split
    · exact h
    · next hroom =>
      have hcount : m.roomCount plan'.key.room < maxVoicePublications + 2 := by
        by_contra hge
        exact hroom (by simp [not_lt.1 hge])
      refine (h.create hnone hcount).commit (Nat.lt_succ_self _) ?_ hplanned
      show ((m.setConn m.made { key := plan'.key }).conns m.made).closed = false
      rw [setConn_conns, if_pos rfl]

/-! ## Inputs -/

/-- Bindings and inputs change, once the outputs of the room have left the source that is given up. -/
theorem Sound.rebind (h : Sound m) (room : String) (prev : Option ℕ) (b : ℕ → OMap String ℕ)
    (hconns : ∀ j, m'.conns j = { (m.detachInput room prev).conns j with bindings := b j })
    (hconnections : m'.connections = m.connections) (hmade : m'.made = m.made)
    (hreading : ∀ r < m'.started, (m'.inputs r).conn < m.made)
    (hbound : ∀ j < m.made, ∀ mid r, (b j).get mid = some r →
      r < m'.started ∧ (m'.inputs r).conn = j ∧ (m'.inputs r).mid = mid)
    (hkeep : ∀ d < m.made, ∀ mid r s, (m.conns d).bindings.get mid = some r → (m.inputs r).source = some s →
      (m.conns d).key.room = room ∧ some s = prev ∨ (b d).get mid = some r ∧
        (m'.inputs r).source = some s ∧ (m'.inputs r).publication = (m.inputs r).publication) :
    Sound m' := by
  have hbase := h.base.detachInput room prev
  have halike := detachInput_alike m room prev
  have hbut : FedBut m'.Feeds m room (prev :: []) := by
    intro j hj k slot source hk hin
    obtain ⟨d, hd, hne, hdopen, hdroom, hdpub, mid, r, hget, hrs, hrp⟩ :=
      (h.fed j hj k slot source hk hin).resolve_right fun hexc => by cases hexc.2
    rcases hkeep d hd mid r source hget hrs with ⟨hroom, hprev⟩ | ⟨hget', hrs', hrp'⟩
    · exact .inr ⟨hdroom.symm.trans hroom, List.mem_singleton.2 hprev⟩
    · refine .inl ⟨d, hmade.symm ▸ hd, hne, ?_, ?_, ?_, mid, r, ?_, hrs', hrp'.trans hrp⟩
      · rw [hconns, ← hdopen]
        exact (halike d).closed
      · rw [hconns, hconns]
        show ((m.detachInput room prev).conns d).key.room = ((m.detachInput room prev).conns j).key.room
        rw [(halike d).key, (halike j).key, hdroom]
      · rw [hconns]
        show _ ∈ ((m.detachInput room prev).conns d).plan.publish
        rw [(halike d).publish]
        exact hdpub
      · rw [hconns]
        exact hget'
  have hfed := h.base.detachInput_fed hbut
  obtain ⟨hc, hm, -, -⟩ := detachInput_frame m room prev
  have hkey : ∀ j, (m'.conns j).key = (m.conns j).key := by
    intro j
    rw [hconns]
    exact (halike j).key
  refine ⟨⟨?_, ?_, ?_, ?_, ?_, ?_, ?_⟩, ?_⟩
  · intro key j hget
    rw [hconnections] at hget
    rw [hmade, hkey]
    exact h.base.registered key j hget
  · intro j hj
    rw [hconns]
    exact (hbase.kept j (by rw [hm, ← hmade]; exact hj)).congr rfl rfl rfl rfl rfl
  · intro j hj
    rw [hconns]
    exact hbase.duty j (by rw [hm, ← hmade]; exact hj)
  · intro j hj hopen
    rw [hmade] at hj
    have hopen' : (m.conns j).closed = false := by
      rw [hconns] at hopen
      exact (halike j).closed.symm.trans hopen
    rw [current_iff, hconnections, hkey]
    exact current_iff.1 (h.base.current j hj hopen')
  · rw [hmade]
    exact hreading
  · intro j hj mid r hget
    rw [hconns] at hget
    exact hbound j (hmade ▸ hj) mid r hget
  · intro room'
    rw [roomCount, hconnections]
    exact h.base.bounded room'
  · intro j hj k slot source hk hin
    rw [hconns] at hk
    refine .inl ((hfed j ?_ k slot source hk hin).resolve_right fun hexc => by cases hexc.2)
    rw [hm, ← hmade]
    exact hj

theorem Sound.consume (h : Sound m) (hi : i < m.made) (mid : String) : Sound (m.consume i mid) := by
  rw [VoiceMedia.consume]
  dsimp only
  split
  · exact h
  generalize hprev : ((m.conns i).bindings.get mid).bind (fun r => (m.inputs r).source) = prev
  obtain ⟨hc, hm, hin, hs⟩ := detachInput_frame m (m.conns i).key.room prev
  have halike := detachInput_alike m (m.conns i).key.room prev
  generalize hm₁ : m.detachInput (m.conns i).key.room prev = m₁ at *
  have hinput : ∀ r, r ≠ m₁.started →
      Function.update m₁.inputs m₁.started ({ conn := i, mid } : VoiceInput) r = m.inputs r := by
    intro r hne
    rw [Function.update_of_ne hne, hin]
  refine h.rebind (m.conns i).key.room prev
    (fun j => if j = i then (m.conns i).bindings.set mid m₁.started else (m.conns j).bindings)
    ?_ hc hm ?_ ?_ ?_
  · intro j
    rw [hm₁]
    refine (setConn_conns m₁ i _ j).trans ?_
    split
    · next hji => rw [hji]
    · rw [← (halike j).bindings]
  · intro r hr
    show (Function.update m₁.inputs m₁.started ({ conn := i, mid } : VoiceInput) r).conn < m.made
    by_cases hnew : r = m₁.started
    · rw [hnew, Function.update_self]
      exact hi
    · rw [hinput r hnew]
      have hr' : r < m₁.started + 1 := hr
      exact h.base.reading r (by omega)
  · intro j hj mid' r hget
    show r < m₁.started + 1 ∧
      (Function.update m₁.inputs m₁.started ({ conn := i, mid } : VoiceInput) r).conn = j ∧
      (Function.update m₁.inputs m₁.started ({ conn := i, mid } : VoiceInput) r).mid = mid'
    have hbound : (m.conns j).bindings.get mid' = some r → r < m₁.started + 1 ∧
        (Function.update m₁.inputs m₁.started ({ conn := i, mid } : VoiceInput) r).conn = j ∧
        (Function.update m₁.inputs m₁.started ({ conn := i, mid } : VoiceInput) r).mid = mid' := by
      intro hget
      obtain ⟨hr, hrest⟩ := h.base.bound j hj mid' r hget
      rw [hinput r (by omega)]
      exact ⟨by omega, hrest⟩
    split at hget
    · next hji =>
      rw [OMap.get_set] at hget
      split at hget
      · next hmid =>
        obtain rfl := Option.some.inj hget
        rw [Function.update_self]
        exact ⟨by omega, hji.symm, hmid.symm⟩
      · exact hbound (hji ▸ hget)
    · exact hbound hget
  · intro d hd mid' r s hget hrs
    obtain ⟨hr, -⟩ := h.base.bound d hd mid' r hget
    show _ ∨ _ ∧ (Function.update m₁.inputs m₁.started ({ conn := i, mid } : VoiceInput) r).source = some s ∧
      (Function.update m₁.inputs m₁.started ({ conn := i, mid } : VoiceInput) r).publication = _
    rw [hinput r (by omega)]
    by_cases hdi : d = i
    · subst hdi
      by_cases hmid : mid' = mid
      · subst hmid
        rw [hget] at hprev
        exact .inl ⟨rfl, hrs.symm.trans hprev⟩
      · refine .inr ⟨?_, hrs, rfl⟩
        rw [if_pos rfl, OMap.get_set, if_neg hmid, hget]
    · refine .inr ⟨?_, hrs, rfl⟩
      rw [if_neg hdi, hget]

theorem Sound.setInput (h : Sound m) {input : VoiceInput} (hconn : input.conn = (m.inputs r).conn)
    (hmid : input.mid = (m.inputs r).mid) (hsource : input.source = (m.inputs r).source)
    (hpub : input.publication = (m.inputs r).publication) : Sound (m.setInput r input) := by
  have hall : ∀ r', (Function.update m.inputs r input r').conn = (m.inputs r').conn ∧
      (Function.update m.inputs r input r').mid = (m.inputs r').mid ∧
      (Function.update m.inputs r input r').source = (m.inputs r').source ∧
      (Function.update m.inputs r input r').publication = (m.inputs r').publication := by
    intro r'
    by_cases hr : r' = r
    · subst hr
      rw [Function.update_self]
      exact ⟨hconn, hmid, hsource, hpub⟩
    · rw [Function.update_of_ne hr]
      exact ⟨rfl, rfl, rfl, rfl⟩
  refine h.rebind "" none (fun j => (m.conns j).bindings) (fun j => rfl) rfl rfl ?_ ?_ ?_
  · intro r' hr'
    show (Function.update m.inputs r input r').conn < m.made
    rw [(hall r').1]
    exact h.base.reading r' hr'
  · intro j hj mid r' hget
    show r' < m.started ∧ (Function.update m.inputs r input r').conn = j ∧
      (Function.update m.inputs r input r').mid = mid
    rw [(hall r').1, (hall r').2.1]
    exact h.base.bound j hj mid r' hget
  · intro d hd mid r' s hget hrs
    refine .inr ⟨hget, ?_, (hall r').2.2.2⟩
    show (Function.update m.inputs r input r').source = some s
    rw [(hall r').2.2.1, hrs]

theorem setConn_bindings_detach (m : VoiceMedia) (i : ℕ) (b : OMap String ℕ) (room : String)
    (prev : Option ℕ) (j : ℕ) :
    ((m.setConn i { m.conns i with bindings := b }).detachInput room prev).conns j =
      { (m.detachInput room prev).conns j with
        bindings := if j = i then b else (m.conns j).bindings } := by
  have hcurrent : (m.setConn i { m.conns i with bindings := b }).current j = m.current j := by
    rw [current, current, setConn_conns]
    split
    · next hji => rw [hji]; rfl
    · rfl
  cases prev with
  | none =>
    refine (setConn_conns m i _ j).trans ?_
    split
    · next hji => rw [hji]; rfl
    · rfl
  | some source =>
    rw [detachInput_conns, detachInput_conns, hcurrent, setConn_conns]
    split
    · next hji =>
      subst hji
      split
      · rfl
      · rfl
    · split
      · rfl
      · rfl

/-- A reader unbinds its input. -/
theorem Sound.unbind (h : Sound m) (hr : r < m.started) :
    Sound ((if (m.conns (m.inputs r).conn).bindings.get (m.inputs r).mid = some r then
        m.setConn (m.inputs r).conn { m.conns (m.inputs r).conn with
          bindings := (m.conns (m.inputs r).conn).bindings.delete (m.inputs r).mid }
      else m).detachInput (m.conns (m.inputs r).conn).key.room (m.inputs r).source) := by
  have hi := h.base.reading r hr
  have halike := detachInput_alike m (m.conns (m.inputs r).conn).key.room (m.inputs r).source
  -- The source of an input that is not bound feeds nothing.
  have hkeep : ∀ d < m.made, ∀ mid r' s, (m.conns d).bindings.get mid = some r' →
      (m.inputs r').source = some s → r' = r →
      (m.conns d).key.room = (m.conns (m.inputs r).conn).key.room ∧ some s = (m.inputs r).source := by
    rintro d hd mid r' s hget hrs rfl
    obtain ⟨-, hconn, -⟩ := h.base.bound d hd mid r' hget
    exact ⟨by rw [hconn], hrs.symm⟩
  split
  · next hget =>
    obtain ⟨hc, hm, hin, hs⟩ := detachInput_frame
      (m.setConn (m.inputs r).conn { m.conns (m.inputs r).conn with
        bindings := (m.conns (m.inputs r).conn).bindings.delete (m.inputs r).mid })
      (m.conns (m.inputs r).conn).key.room (m.inputs r).source
    refine h.rebind _ _ (fun j => if j = (m.inputs r).conn then
      (m.conns (m.inputs r).conn).bindings.delete (m.inputs r).mid else (m.conns j).bindings)
      (setConn_bindings_detach m _ _ _ _) hc hm ?_ ?_ ?_
    · rw [hin, hs]
      exact h.base.reading
    · rw [hin, hs]
      intro j hj mid r' hget'
      split at hget'
      · next hji =>
        subst hji
        rw [OMap.get_delete] at hget'
        split at hget'
        · cases hget'
        · exact h.base.bound _ hj mid r' hget'
      · exact h.base.bound j hj mid r' hget'
    · rw [hin]
      intro d hd mid r' s hget' hrs
      by_cases hrr : r' = r
      · exact .inl (hkeep d hd mid r' s hget' hrs hrr)
      · refine .inr ⟨?_, hrs, rfl⟩
        split
        · next hdi =>
          subst hdi
          rw [OMap.get_delete, if_neg ?_, hget']
          rintro rfl
          exact hrr (Option.some.inj (hget'.symm.trans hget))
        · exact hget'
  · obtain ⟨hc, hm, hin, hs⟩ := detachInput_frame m (m.conns (m.inputs r).conn).key.room (m.inputs r).source
    refine h.rebind (m.conns (m.inputs r).conn).key.room (m.inputs r).source
      (fun j => (m.conns j).bindings) (fun j => ?_) hc hm ?_ ?_ ?_
    · rw [← (halike j).bindings]
    · rw [hin, hs]
      exact h.base.reading
    · rw [hin, hs]
      exact h.base.bound
    · rw [hin]
      intro d hd mid r' s hget' hrs
      exact .inr ⟨hget', hrs, rfl⟩

theorem Sound.leave (h : Sound m) (hr : r < m.started) : Sound (m.leave r) := by
  refine (h.unbind hr).setInput ?_ ?_ ?_ ?_
  all_goals
    rw [(detachInput_frame _ _ _).2.2.1]
    split <;> rfl

/-- The state once an input has a new source. -/
def renewed (m : VoiceMedia) (r : ℕ) (pub : VoicePublication) : VoiceMedia :=
  { (m.detachInput (m.conns (m.inputs r).conn).key.room (m.inputs r).source).setInput r
      { m.inputs r with publication := pub, source := some m.sources } with
    sources := m.sources + 1 }

theorem renewed_inputs (m : VoiceMedia) (r : ℕ) (pub : VoicePublication) : (m.renewed r pub).inputs =
    Function.update m.inputs r { m.inputs r with publication := pub, source := some m.sources } := by
  have hin := (detachInput_frame m (m.conns (m.inputs r).conn).key.room (m.inputs r).source).2.2.1
  exact congrArg (fun inputs : ℕ → VoiceInput => Function.update inputs r
    { m.inputs r with publication := pub, source := some m.sources }) hin

theorem renewed_alike (m : VoiceMedia) (r : ℕ) (pub : VoicePublication) (j : ℕ) :
    Alike (m.conns j) ((m.renewed r pub).conns j) := detachInput_alike m _ _ j

theorem Sound.renew (h : Sound m) (hr : r < m.started) (pub : VoicePublication) :
    Sound (m.renewed r pub) := by
  obtain ⟨hc, hm, hin, hs⟩ := detachInput_frame m (m.conns (m.inputs r).conn).key.room (m.inputs r).source
  have halike := detachInput_alike m (m.conns (m.inputs r).conn).key.room (m.inputs r).source
  have hinputs := m.renewed_inputs r pub
  have hstarted : (m.renewed r pub).started = m.started := hs
  have hsame : ∀ r', ((m.renewed r pub).inputs r').conn = (m.inputs r').conn ∧
      ((m.renewed r pub).inputs r').mid = (m.inputs r').mid := by
    intro r'
    rw [hinputs]
    by_cases hrr : r' = r
    · subst hrr
      rw [Function.update_self]
      exact ⟨rfl, rfl⟩
    · rw [Function.update_of_ne hrr]
      exact ⟨rfl, rfl⟩
  refine h.rebind (m.conns (m.inputs r).conn).key.room (m.inputs r).source
    (fun j => (m.conns j).bindings) (fun j => ?_) hc hm ?_ ?_ ?_
  · rw [← (halike j).bindings]
    rfl
  · intro r' hr'
    rw [(hsame r').1]
    exact h.base.reading r' (hstarted ▸ hr')
  · intro j hj mid r' hget
    rw [hstarted, (hsame r').1, (hsame r').2]
    exact h.base.bound j hj mid r' hget
  · intro d hd mid r' s hget hrs
    by_cases hrr : r' = r
    · subst hrr
      obtain ⟨-, hconn, -⟩ := h.base.bound d hd mid r' hget
      exact .inl ⟨by rw [hconn], hrs.symm⟩
    · rw [hinputs, Function.update_of_ne hrr]
      exact .inr ⟨hget, hrs, rfl⟩

/-! ## Packets -/

theorem fanOut_conns (m : VoiceMedia) (i : ℕ) (pub : VoicePublication) (source : ℕ)
    (replaced : ℕ → Bool) (j : ℕ) : (m.fanOut i pub source replaced).conns j =
      if m.current j && j ≠ i && !(m.conns j).closed && (m.conns j).key.room = (m.conns i).key.room then
        (m.conns j).attach pub source (replaced j)
      else m.conns j := rfl

/-- A packet reaches the outputs of the room that both plans name. -/
theorem Sound.fanOut (h : Sound m) {mid : String} (hi : i < m.made) (hopen : (m.conns i).closed = false)
    (hget : (m.conns i).bindings.get mid = some r) (hpub : pub ∈ (m.conns i).plan.publish)
    (hsource : (m.inputs r).source = some source) (hrpub : (m.inputs r).publication = pub)
    (replaced : ℕ → Bool) : Sound (m.fanOut i pub source replaced) := by
  have halike : ∀ j, Alike (m.conns j) ((m.fanOut i pub source replaced).conns j) := by
    intro j
    rw [fanOut_conns]
    split
    · obtain ⟨slots, hc⟩ := attach_frame (m.conns j) pub source (replaced j)
      rw [hc]
      exact ⟨rfl, rfl, rfl, rfl⟩
    · exact ⟨rfl, rfl, rfl, rfl⟩
  refine ⟨h.base.alike halike (fun j hj => ?_) rfl rfl rfl rfl, ?_⟩
  · rw [fanOut_conns]
    split
    · exact ⟨(h.base.kept j hj).attach pub source (replaced j),
        (h.base.duty j hj).attach pub source (replaced j)⟩
    · exact ⟨h.base.kept j hj, h.base.duty j hj⟩
  · intro j hj k slot' s hk hin
    refine .inl ?_
    have hold : ∀ slot, (m.conns j).sendSlots[k]? = some slot → slot.input = some s →
        (m.fanOut i pub source replaced).Feeds j s slot.publication := fun slot hslot hs =>
      ((h.fed j hj k slot s hslot hs).resolve_right fun hexc => by cases hexc.2).alike halike rfl rfl
    rw [fanOut_conns] at hk
    split at hk
    · next hcond =>
      simp only [Bool.and_eq_true, decide_eq_true_eq, Bool.not_eq_true'] at hcond
      obtain ⟨slot, hslot, rfl⟩ := (attach_slots (m.conns j) pub source (replaced j)).cut hk
      split at hin
      · next hout =>
        rw [if_pos hout, (slot_attach_spec slot pub source (replaced j)).1]
        rcases (slot_attach_spec slot pub source (replaced j)).2.2 with hsame | ⟨-, hsp, hnew⟩
        · exact hold slot hslot (hsame.symm.trans hin)
        · obtain rfl := Option.some.inj (hnew.symm.trans hin)
          rw [hsp]
          exact Feeds.alike ⟨i, hi, Ne.symm (of_decide_eq_true (by simpa using hcond.1.1.2)), hopen,
            hcond.2.symm, hpub, mid, r, hget, hsource, hrpub⟩ halike rfl rfl
      · next hout =>
        rw [if_neg hout]
        exact hold slot hslot hin
    · exact hold slot' hk hin

theorem Sound.packet (h : Sound m) (hr : r < m.started) (made : Bool) (replaced : ℕ → Bool) :
    Sound (m.packet r made replaced) := by
  have hi := h.base.reading r hr
  rw [VoiceMedia.packet]
  dsimp only
  split
  · exact h.setInput rfl rfl rfl rfl
  next hbound =>
  simp only [Bool.or_eq_true, decide_eq_true_eq, not_or, Bool.not_eq_true, not_not] at hbound
  obtain ⟨hopen, hget⟩ := hbound
  split
  · exact h
  next pub hremote =>
  split
  · exact h
  next hnamed =>
  simp only [Bool.or_eq_true, decide_eq_true_eq, not_or, not_not] at hnamed
  split
  · next source hsource =>
    obtain ⟨hrpub, hsource⟩ := Option.ite_none_right_eq_some.1 hsource
    exact h.fanOut hi hopen hget hnamed.2 hsource hrpub replaced
  split
  · exact h.setInput rfl rfl rfl rfl
  · have halike := m.renewed_alike r pub (m.inputs r).conn
    have hinput : (m.renewed r pub).inputs r =
        { m.inputs r with publication := pub, source := some m.sources } := by
      rw [renewed_inputs, Function.update_self]
    refine Sound.fanOut (m := m.renewed r pub) (r := r) (h.renew hr pub) ?_ ?_
      (halike.bindings ▸ hget) ?_ ?_ ?_ replaced
    · exact lt_of_lt_of_eq hi (detachInput_frame m _ _).2.1.symm
    · exact halike.closed.trans hopen
    · rw [halike.publish]
      exact hnamed.2
    · rw [hinput]
    · rw [hinput]

/-! ## Runs -/

/-- One step, whatever the library answers and whoever comes first. -/
theorem Sound.step {e : Event} (h : Sound m) (hs : m.step e = some m') : Sound m' := by
  cases e with
  | configureVoice plan made =>
    obtain rfl := Option.some.inj hs
    exact h.configureVoice plan made
  | closeVoice key =>
    obtain rfl := Option.some.inj hs
    cases hget : m.connections.get key with
    | none => exact h
    | some i => exact h.retire (h.base.registered key i hget).1
  | close i =>
    obtain ⟨hi, hs⟩ := Option.ite_none_right_eq_some.1 hs
    obtain rfl := Option.some.inj hs
    exact h.retire hi
  | closed i =>
    obtain ⟨⟨-, hclosed, -⟩, hs⟩ := Option.ite_none_right_eq_some.1 hs
    obtain rfl := Option.some.inj hs
    split
    · next hcurrent => exact h.unregister hclosed hcurrent
    · exact h
  | closeAll =>
    obtain rfl := Option.some.inj hs
    exact h.closeAll
  | negotiate i =>
    obtain ⟨⟨hi, -⟩, hs⟩ := Option.ite_none_right_eq_some.1 hs
    obtain rfl := Option.some.inj hs
    exact h.setConn ⟨rfl, rfl, rfl, rfl⟩ (.of_eq rfl) fun _ =>
      ⟨(h.base.kept i hi).congr rfl rfl rfl rfl rfl, trivial⟩
  | signal i signal =>
    obtain ⟨⟨hi, hidle⟩, hs⟩ := Option.ite_none_right_eq_some.1 hs
    obtain rfl := Option.some.inj hs
    obtain ⟨halike, hslots⟩ := (m.conns i).signal_alike (m.current i) signal
    exact h.setConn halike (.of_eq hslots) fun _ => (h.base.kept i hi).signal hidle (m.current i) signal
  | turn i o =>
    obtain ⟨hi, hs⟩ := Option.ite_none_right_eq_some.1 hs
    obtain ⟨c, hturn, rfl⟩ := Option.map_eq_some_iff.1 hs
    obtain ⟨halike, hunfed⟩ := (h.base.kept i hi).turn_alike (h.base.duty i hi) hturn
    exact h.setConn halike hunfed fun _ => (h.base.kept i hi).turn (h.base.duty i hi) hturn
  | consume i mid =>
    obtain ⟨hi, hs⟩ := Option.ite_none_right_eq_some.1 hs
    obtain rfl := Option.some.inj hs
    exact h.consume hi mid
  | packet r made replaced =>
    obtain ⟨⟨hr, -⟩, hs⟩ := Option.ite_none_right_eq_some.1 hs
    obtain rfl := Option.some.inj hs
    exact h.packet hr made replaced
  | leave r =>
    obtain ⟨⟨hr, -⟩, hs⟩ := Option.ite_none_right_eq_some.1 hs
    obtain rfl := Option.some.inj hs
    exact h.leave hr

theorem sound_init : Sound {} where
  base := by
    refine ⟨?_, ?_, ?_, ?_, ?_, ?_, fun room => Nat.zero_le _⟩
    · intro key i hget
      cases hget
    all_goals
      intro i hi
      cases hi
  fed := by
    intro i hi
    cases hi

theorem sound_run {es : List Event} (h : Steps.Reaches step {} es m) : Sound m :=
  h.invariant sound_init Sound.step

/-- Whatever the order of plans, negotiations, answers, packets and closes, and whatever the library
    answers: an output is on only for a publication of the plan that its open connection has now,
    no publication is in two slots of a direction, an output is fed only by another open connection
    of the room whose plan publishes the same publication now, and a room stays within the capacity. -/
theorem voice_authority {es : List Event} (h : Steps.Reaches step {} es m) :
    (∀ i < m.made, ∀ (k : ℕ) (slot : SendSlot), (m.conns i).sendSlots[k]? = some slot →
      (slot.active = true → (m.conns i).closed = false ∧
        slot.publication ∈ (m.conns i).plan.subscribe) ∧
      ∀ source, slot.input = some source → slot.active = true ∧
        ∃ d < m.made, d ≠ i ∧ (m.conns d).closed = false ∧
          (m.conns d).key.room = (m.conns i).key.room ∧
          slot.publication ∈ (m.conns d).plan.publish ∧
          ∃ mid r, (m.conns d).bindings.get mid = some r ∧ (m.inputs r).source = some source ∧
            (m.inputs r).publication = slot.publication) ∧
    (∀ i < m.made, Once ((m.conns i).sendSlots.map SendSlot.publication) ∧
      Once (m.conns i).receiveSlots) ∧
    ∀ room, m.roomCount room ≤ maxVoicePublications + 2 := by
  have hsound := sound_run h
  refine ⟨fun i hi k slot hk => ⟨fun ha => ?_, fun source hin => ⟨?_, ?_⟩⟩, fun i hi => ?_,
    hsound.base.bounded⟩
  · exact ⟨((hsound.base.kept i hi).active k slot hk ha).1, ((hsound.base.kept i hi).active k slot hk ha).2.1⟩
  · exact (hsound.base.kept i hi).fed k slot hk (by rw [hin]; exact Option.some_ne_none source)
  · exact (hsound.fed i hi k slot source hk hin).resolve_right fun hexc => by cases hexc.2
  · exact ⟨(hsound.base.kept i hi).once, (hsound.base.kept i hi).onceIn⟩

/-- A publication. -/
def spoken : VoicePublication := ⟨"p", "a"⟩

/-- One peer speaks and another one listens; both negotiations come to rest. -/
def twoPeers : List Event :=
  [.configureVoice ⟨⟨[spoken], []⟩, "room", "a", "s", "1"⟩ true,
    .configureVoice ⟨⟨[], [spoken]⟩, "room", "b", "s", "2"⟩ true,
    .negotiate 0, .turn 0 {}, .turn 0 {}, .turn 0 {}, .turn 0 { receiveMid := fun _ => "0" },
    .signal 0 { description := some ⟨1, .answer, "", [⟨"0", "p"⟩]⟩ }, .turn 0 {}, .turn 0 {},
    .negotiate 1, .turn 1 {}, .turn 1 {}, .turn 1 {}, .turn 1 {}, .turn 1 {}, .turn 1 {},
    .turn 1 { sendMid := fun _ => "0" }, .signal 1 { description := some ⟨1, .answer, "", []⟩ },
    .turn 1 {}, .turn 1 {}, .consume 0 "0"]

theorem voice_authority_spoken : ∃ m, Steps.Reaches step {} (twoPeers ++ [.packet 0 true fun _ => true]) m ∧
    ∃ slot, (m.conns 1).sendSlots[0]? = some slot ∧ slot.input = some 0 ∧
      slot.publication ∈ (m.conns 1).plan.subscribe ∧
      ∃ d < m.made, d ≠ 1 ∧ slot.publication ∈ (m.conns d).plan.publish := by
  have hrun : (Steps.run step {} (twoPeers ++ [.packet 0 true fun _ => true])).map (fun m =>
      decide (m.made = 2 ∧ ((m.conns 1).sendSlots[0]?).bind SendSlot.input = some 0)) = some true := by
    decide +kernel
  obtain ⟨m, hm, hd⟩ := Option.map_eq_some_iff.1 hrun
  have hreaches := Steps.reaches_of_run hm
  obtain ⟨hmade, hslot⟩ := of_decide_eq_true hd
  obtain ⟨slot, hget, hin⟩ := Option.bind_eq_some_iff.1 hslot
  obtain ⟨hact, hfed⟩ := (voice_authority hreaches).1 1 (by omega) 0 slot hget
  obtain ⟨ha, d, hd, hne, -, -, hpub, -⟩ := hfed 0 hin
  exact ⟨m, hreaches, slot, hget, hin, (hact ha).2, d, hd, hne, hpub⟩

end VoiceMedia

end Piik.Sfu
