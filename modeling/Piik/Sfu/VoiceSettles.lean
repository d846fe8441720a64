/-
  What the negotiation of a voice connection comes to: once no offer is pending
  and no work is left, the slots are those of the latest plan, however the
  changes were coalesced.
-/
import Piik.Sfu.VoiceForwarding

namespace Piik.Sfu

open Piik.Voice (VoicePublication)

namespace VoiceConnection

variable {c c' : VoiceConnection} {plan : Voice.VoiceConnectionPlan} {pub : VoicePublication} {o : Outcome}
  {g : ℕ → SendSlot → SendSlot} {i k source version : ℕ} {slot : SendSlot}
  {todo : List VoicePublication} {current : Bool}

/-! ## The slots of a plan -/

/-- A slot is on for the publication. -/
def On (c : VoiceConnection) (pub : VoicePublication) : Prop :=
  ∃ (i : ℕ) (slot : SendSlot), c.sendSlots[i]? = some slot ∧ slot.publication = pub ∧ slot.active = true

/-- The slots carry the plan. -/
structure Carries (c : VoiceConnection) : Prop where
  receive : ∀ pub, pub.id ≠ "" → (pub ∈ c.receiveSlots ↔ pub ∈ c.plan.publish)
  within : Within (c.sendSlots.map SendSlot.publication) c.plan.subscribe
  on : ∀ pub ∈ c.plan.subscribe, c.On pub

/-- How far the signaler has come with the plan of its snapshot, if that is still the plan. -/
def Reached (c : VoiceConnection) (plan : Voice.VoiceConnectionPlan) (version : ℕ)
    (todo : List VoicePublication) : Prop :=
  c.pending = none ∧ version ≤ c.version ∧
    (c.sequence = 0 ∨ c.negotiatedVersion < version ∨ c.renegotiate = true) ∧
    (version = c.version → c.closed = false → plan = c.plan ∧
      (∀ pub, pub.id ≠ "" → (pub ∈ c.receiveSlots ↔ pub ∈ c.plan.publish)) ∧
      ∀ pub ∈ c.plan.subscribe, pub ∈ todo ∨ c.On pub)

/-- The snapshot from which the signaler works, and what of it is still to be placed. -/
def snapshot : Signaler → Option (Voice.VoiceConnectionPlan × ℕ × List VoicePublication)
  | .dropping plan version _ | .clearing plan version _ => some (plan, version, plan.subscribe)
  | .adding plan version todo => some (plan, version, todo)
  | .authorizing plan version _ pub todo => some (plan, version, pub :: todo)
  | .describing plan version => some (plan, version, [])
  | _ => none

/-- Nobody works on an offer. -/
def Quiet (c : VoiceConnection) : Prop :=
  match c.signaler with
  | .idle | .answering _ => True
  | _ => False

/-- How far a connection has been negotiated. -/
structure Tracked (c : VoiceConnection) : Prop where
  negotiated : c.negotiatedVersion ≤ c.version
  pending : ∀ offer, c.pending = some offer → offer.version ≤ c.version ∧
    (offer.version = c.version → c.closed = false → Carries c)
  settled : c.pending = none → c.sequence ≠ 0 → c.negotiatedVersion = c.version →
    c.renegotiate = false → c.closed = false → Carries c
  /-- A change that is not negotiated is somebody's work, or a failure. -/
  due : Quiet c → c.closed = false → 0 < c.outstanding ∨ c.failed = true ∨ c.pending ≠ none ∨
    c.sequence ≠ 0 ∧ c.negotiatedVersion = c.version ∧ c.renegotiate = false
  reached : ∀ plan version todo, snapshot c.signaler = some (plan, version, todo) →
    c.Reached plan version todo

/-! ## The owner -/

theorem On.slots (h : On c pub) (hslots : Slots c c' g)
    (hg : ∀ k slot, c.sendSlots[k]? = some slot → slot.active = true →
      (g k slot).publication = slot.publication ∧ (g k slot).active = true) : On c' pub := by
  obtain ⟨i, slot, hslot, hpub, ha⟩ := h
  obtain ⟨hp, ha'⟩ := hg i slot hslot ha
  exact ⟨i, g i slot, hslots.at hslot, hp.trans hpub, ha'⟩

theorem On.of_slots (h : On c pub) (hslots : c'.sendSlots = c.sendSlots) : On c' pub := by
  obtain ⟨i, slot, hslot, hrest⟩ := h
  exact ⟨i, slot, by rw [hslots, hslot], hrest⟩

theorem Carries.congr (h : Carries c) (hplan : c'.plan = c.plan) (hreceive : c'.receiveSlots = c.receiveSlots)
    (hsend : c'.sendSlots = c.sendSlots) : Carries c' where
  receive := by
    rw [hreceive, hplan]
    exact h.receive
  within := by
    rw [hsend, hplan]
    exact h.within
  on := by
    rw [hplan]
    exact fun pub hpub => (h.on pub hpub).of_slots hsend

/-- The plan stays, and no slot changes its publication or goes off. -/
structure Steady (c c' : VoiceConnection) : Prop where
  plan : c'.plan = c.plan
  version : c'.version = c.version
  receive : c'.receiveSlots = c.receiveSlots
  publications : c'.sendSlots.map SendSlot.publication = c.sendSlots.map SendSlot.publication
  on : c'.closed = false → ∀ pub, On c pub → On c' pub
  closed : c'.closed = false → c.closed = false
  pending : c'.pending = c.pending
  sequence : c'.sequence = c.sequence
  negotiated : c'.negotiatedVersion = c.negotiatedVersion
  renegotiate : c'.renegotiate = c.renegotiate

theorem Carries.steady (h : Carries c) (hs : Steady c c') (hopen : c'.closed = false) : Carries c' where
  receive := by
    rw [hs.receive, hs.plan]
    exact h.receive
  within := by
    rw [hs.publications, hs.plan]
    exact h.within
  on := by
    rw [hs.plan]
    exact fun pub hpub => hs.on hopen pub (h.on pub hpub)

theorem Reached.steady (h : c.Reached plan version todo) (hs : Steady c c') :
    c'.Reached plan version todo := by
  obtain ⟨hpending, hle, hfresh, hreached⟩ := h
  refine ⟨hs.pending.trans hpending, hs.version ▸ hle, ?_, fun hv hopen => ?_⟩
  · rw [hs.sequence, hs.negotiated, hs.renegotiate]
    exact hfresh
  · obtain ⟨hplan, hreceive, hon⟩ := hreached (hv.trans hs.version) (hs.closed hopen)
    rw [hs.plan, hs.receive]
    exact ⟨hplan, hreceive, fun pub hpub => (hon pub hpub).imp_right (hs.on hopen pub)⟩

theorem Tracked.steady (h : Tracked c) (hs : Steady c c') (hsignaler : c'.signaler = c.signaler)
    (houtstanding : c.outstanding ≤ c'.outstanding) (hfailed : c'.failed = c.failed) : Tracked c' where
  negotiated := by
    rw [hs.negotiated, hs.version]
    exact h.negotiated
  pending := by
    rw [hs.pending, hs.version]
    intro offer hoffer
    obtain ⟨hle, hcarries⟩ := h.pending offer hoffer
    exact ⟨hle, fun hv hopen => (hcarries hv (hs.closed hopen)).steady hs hopen⟩
  settled := by
    rw [hs.pending, hs.sequence, hs.negotiated, hs.version, hs.renegotiate]
    exact fun h₁ h₂ h₃ h₄ hopen => (h.settled h₁ h₂ h₃ h₄ (hs.closed hopen)).steady hs hopen
  due := by
    rw [Quiet, hsignaler, hfailed, hs.pending, hs.sequence, hs.negotiated, hs.version, hs.renegotiate]
    exact fun hq hopen => (h.due hq (hs.closed hopen)).imp_left fun hpos => by omega
  reached := by
    rw [hsignaler]
    exact fun plan version todo hsnapshot => (h.reached plan version todo hsnapshot).steady hs

theorem Steady.refl (c : VoiceConnection) : Steady c c :=
  ⟨rfl, rfl, rfl, rfl, fun _ _ => id, id, rfl, rfl, rfl, rfl⟩

theorem detach_steady (c : VoiceConnection) (source : ℕ) : Steady c (c.detach source) := by
  have hspec : ∀ (k : ℕ) (slot : SendSlot),
      (if k ∈ c.outgoing.values then slot.detachFrom source else slot).publication = slot.publication ∧
        (if k ∈ c.outgoing.values then slot.detachFrom source else slot).active = slot.active := by
    intro k slot
    split
    · exact ⟨(detachFrom_spec slot source).1, (detachFrom_spec slot source).2.1⟩
    · exact ⟨rfl, rfl⟩
  refine ⟨rfl, rfl, rfl, detach_slots.publications fun k slot => (hspec k slot).1, fun _ pub hon => ?_, id,
    rfl, rfl, rfl, rfl⟩
  exact hon.slots detach_slots fun k slot _ ha => ⟨(hspec k slot).1, (hspec k slot).2.trans ha⟩

theorem attach_steady (c : VoiceConnection) (pub : VoicePublication) (source : ℕ) (replaced : Bool) :
    Steady c (c.attach pub source replaced) := by
  have hslots := attach_slots c pub source replaced
  have hspec : ∀ (k : ℕ) (slot : SendSlot),
      (if c.outgoing.get pub.id = some k ∧ pub ∈ c.plan.subscribe then slot.attach pub source replaced
        else slot).publication = slot.publication ∧
      (if c.outgoing.get pub.id = some k ∧ pub ∈ c.plan.subscribe then slot.attach pub source replaced
        else slot).active = slot.active := by
    intro k slot
    split
    · exact ⟨(slot_attach_spec slot pub source replaced).1, (slot_attach_spec slot pub source replaced).2.1⟩
    · exact ⟨rfl, rfl⟩
  have hpubs := hslots.publications fun k slot => (hspec k slot).1
  have hon : ∀ other, On c other → On (c.attach pub source replaced) other := fun other hon =>
    hon.slots hslots fun k slot _ ha => ⟨(hspec k slot).1, (hspec k slot).2.trans ha⟩
  obtain ⟨slots, hc⟩ := attach_frame c pub source replaced
  rw [hc] at hpubs hon ⊢
  exact ⟨rfl, rfl, rfl, hpubs, fun _ => hon, id, rfl, rfl, rfl, rfl⟩

/-- A connection that is closed owes nothing. -/
theorem retire_steady (c : VoiceConnection) : Steady c c.retire where
  plan := rfl
  version := rfl
  receive := rfl
  publications := retire_slots.publications fun k slot => by split <;> rfl
  on hopen := by cases hopen
  closed hopen := by cases hopen
  pending := rfl
  sequence := rfl
  negotiated := rfl
  renegotiate := rfl

/-- A plan with the same lists leaves the outputs on; another one has another number. -/
theorem Tracked.configure (h : Tracked c) (hkept : Kept c) (hopen : c.closed = false) :
    Tracked (c.configure plan) := by
  by_cases hsame : c.plan.publish = plan.publish ∧ c.plan.subscribe = plan.subscribe
  · have hplan : c.plan = plan := by
      obtain ⟨h₁, h₂⟩ := hsame
      cases hcp : c.plan
      cases plan
      rw [hcp] at h₁ h₂
      obtain rfl := h₁
      obtain rfl := h₂
      rfl
    have hversion : (c.configure plan).version = c.version := by
      show (if _ then c.version + 1 else c.version) = c.version
      simp [hsame.1, hsame.2]
    refine h.steady ⟨hplan.symm, hversion, rfl, ?_, fun _ pub hon => ?_, fun _ => hopen, rfl, rfl, rfl, rfl⟩
      rfl (Nat.le_succ _) rfl
    · exact configure_slots.publications fun k slot => by split <;> rfl
    · refine hon.slots configure_slots fun k slot hslot ha => ?_
      have hkeep : c.keeps plan k = true := by
        rw [keeps, hslot, ← hplan]
        exact decide_eq_true (hkept.active k slot hslot ha).2.1
      rw [if_neg (by simp [hkeep])]
      exact ⟨rfl, ha⟩
  · have hversion : (c.configure plan).version = c.version + 1 := by
      show (if _ then c.version + 1 else c.version) = c.version + 1
      rw [if_pos]
      rw [not_and_or] at hsame
      simpa using hsame
    refine ⟨?_, fun offer hoffer => ?_, fun _ _ hv => ?_, fun _ _ => .inl (Nat.succ_pos _),
      fun plan' version todo hsnapshot => ?_⟩
    · rw [hversion]
      exact Nat.le_succ_of_le h.negotiated
    · have hle := (h.pending offer hoffer).1
      rw [hversion]
      exact ⟨Nat.le_succ_of_le hle, fun hv => by omega⟩
    · have hle := h.negotiated
      rw [hversion] at hv
      have hv' : c.negotiatedVersion = c.version + 1 := hv
      omega
    · obtain ⟨h₁, h₂, h₃, -⟩ := h.reached plan' version todo hsnapshot
      refine ⟨h₁, ?_, h₃, fun hv => ?_⟩
      · rw [hversion]
        exact Nat.le_succ_of_le h₂
      · rw [hversion] at hv
        omega

/-! ## The signaler -/

/-- A failure is remembered. -/
theorem Tracked.fail (h : Tracked c) : Tracked c.fail where
  negotiated := h.negotiated
  pending offer hoffer := by
    obtain ⟨hle, hcarries⟩ := h.pending offer hoffer
    exact ⟨hle, fun hv hopen => (hcarries hv hopen).congr rfl rfl rfl⟩
  settled h₁ h₂ h₃ h₄ hopen := (h.settled h₁ h₂ h₃ h₄ hopen).congr rfl rfl rfl
  due _ _ := .inr (.inl rfl)
  reached plan version todo hsnapshot := by cases hsnapshot

theorem Tracked.offer (h : Tracked c) (hkept : Kept c) (force : Bool) (o : Outcome) :
    Tracked (c.offer current force o) := by
  rw [VoiceConnection.offer]
  split
  · exact h.fail
  dsimp only
  split
  · next hearly =>
    -- An offer is out, or the latest plan has been negotiated.
    have hrenegotiate : c.pending = none →
        c.sequence ≠ 0 ∧ c.version = c.negotiatedVersion ∧ (c.renegotiate || force) = false := by
      intro hnone
      simpa [hnone, and_assoc] using hearly
    refine ⟨h.negotiated, ?_, ?_, ?_, ?_⟩
    · intro offer hoffer
      obtain ⟨hle, hcarries⟩ := h.pending offer hoffer
      exact ⟨hle, fun hv hopen => (hcarries hv hopen).congr rfl rfl rfl⟩
    · intro h₁ h₂ h₃ h₄ hopen
      exact (h.settled h₁ h₂ h₃ (Bool.or_eq_false_iff.1 h₄).1 hopen).congr rfl rfl rfl
    · intro _ _
      by_cases hnone : c.pending = none
      · obtain ⟨hsequence, hversion, hno⟩ := hrenegotiate hnone
        exact .inr (.inr (.inr ⟨hsequence, hversion.symm, hno⟩))
      · exact .inr (.inr (.inl hnone))
    · intro plan version todo hsnapshot
      cases hsnapshot
  next hlate =>
  have hnone : c.pending = none := by
    by_contra hsome
    exact hlate (by simp [Option.isSome_iff_ne_none.2 hsome])
  have hfresh : c.sequence = 0 ∨ c.negotiatedVersion < c.version ∨ (c.renegotiate || force) = true := by
    have hle := h.negotiated
    by_cases hsequence : c.sequence = 0
    · exact .inl hsequence
    by_cases hversion : c.version = c.negotiatedVersion
    · by_cases hagain : (c.renegotiate || force) = true
      · exact .inr (.inr hagain)
      · exact absurd (by simp [hsequence, hversion, Bool.eq_false_iff.2 hagain]) hlate
    · exact .inr (.inl (by omega))
  have hstale : ∀ {P : Prop}, c.sequence ≠ 0 → c.negotiatedVersion = c.version →
      (c.renegotiate || force) = false → P := by
    intro P h₁ h₂ h₃
    rcases hfresh with hz | hlt | hagain
    · exact absurd hz h₁
    · omega
    · exact absurd (hagain.symm.trans h₃) Bool.noConfusion
  obtain ⟨-, hreceive⟩ := syncReceive_spec hkept.planned hkept.onceIn o.room
  split
  · next hok =>
    refine ⟨h.negotiated, ?_, fun _ h₂ h₃ h₄ => hstale h₂ h₃ h₄, fun hquiet => hquiet.elim, ?_⟩
    · intro offer hoffer
      rw [show c.pending = some offer from hoffer] at hnone
      cases hnone
    · intro plan version todo hsnapshot
      obtain ⟨rfl, rfl, rfl⟩ : plan = c.plan ∧ version = c.version ∧ todo = c.plan.subscribe := by
        simpa [snapshot, eq_comm] using hsnapshot
      exact ⟨hnone, le_refl _, hfresh, fun _ _ => ⟨rfl, hreceive hok, fun pub hpub => .inl hpub⟩⟩
  · refine ⟨h.negotiated, ?_, fun _ h₂ h₃ h₄ => hstale h₂ h₃ h₄, fun _ _ => .inr (.inl rfl), ?_⟩
    · intro offer hoffer
      rw [show c.pending = some offer from hoffer] at hnone
      cases hnone
    · intro plan version todo hsnapshot
      cases hsnapshot

/-- The signaler goes on with its snapshot: no slot that is on goes off. -/
theorem Tracked.goesOn (h : Tracked c) {plan : Voice.VoiceConnectionPlan} {version : ℕ}
    {todo : List VoicePublication} (hsnapshot : snapshot c.signaler = some (plan, version, todo))
    {todo' : List VoicePublication} (hsnapshot' : snapshot c'.signaler = some (plan, version, todo'))
    (hplan : c'.plan = c.plan) (hversion : c'.version = c.version) (hclosed : c'.closed = c.closed)
    (hreceive : c'.receiveSlots = c.receiveSlots) (hpending : c'.pending = c.pending)
    (hsequence : c'.sequence = c.sequence) (hnegotiated : c'.negotiatedVersion = c.negotiatedVersion)
    (hrenegotiate : c'.renegotiate = c.renegotiate)
    (hon : version = c.version → c.closed = false → plan = c.plan →
      ∀ pub ∈ c.plan.subscribe, pub ∈ todo ∨ On c pub → pub ∈ todo' ∨ On c' pub) : Tracked c' := by
  obtain ⟨hnone, hle, hfresh, hreached⟩ := h.reached plan version todo hsnapshot
  refine ⟨?_, ?_, ?_, ?_, ?_⟩
  · rw [hnegotiated, hversion]
    exact h.negotiated
  · rw [hpending, hnone]
    intro offer hoffer
    cases hoffer
  · rw [hsequence, hnegotiated, hversion, hrenegotiate]
    intro _ h₂ h₃ h₄
    rcases hfresh with hz | hlt | hagain
    · exact absurd hz h₂
    · omega
    · exact absurd (hagain.symm.trans h₄) Bool.noConfusion
  · intro hquiet
    cases hsig : c'.signaler with
    | idle =>
      rw [hsig] at hsnapshot'
      cases hsnapshot'
    | answering answer =>
      rw [hsig] at hsnapshot'
      cases hsnapshot'
    | _ =>
      rw [Quiet, hsig] at hquiet
      exact hquiet.elim
  · intro plan₁ version₁ todo₁ hsnapshot₁
    obtain ⟨rfl, rfl, rfl⟩ : plan = plan₁ ∧ version = version₁ ∧ todo' = todo₁ := by
      simpa using hsnapshot'.symm.trans hsnapshot₁
    refine ⟨hpending.trans hnone, hversion ▸ hle, ?_, fun hv hopen => ?_⟩
    · rw [hsequence, hnegotiated, hrenegotiate]
      exact hfresh
    · rw [hversion] at hv
      rw [hclosed] at hopen
      obtain ⟨hp, hr, ho⟩ := hreached hv hopen
      rw [hplan, hreceive]
      exact ⟨hp, hr, fun pub hpub => hon hv hopen hp pub hpub (ho pub hpub)⟩

theorem On.setPublication (h : On c pub) {other : VoicePublication}
    (hoff : ∀ slot, c.sendSlots[i]? = some slot → slot.active = false) :
    On (c.setPublication i other) pub := by
  refine h.slots (setPublication_slots c i other) fun k slot hslot ha => ?_
  rw [if_neg ?_]
  · exact ⟨rfl, ha⟩
  · rintro rfl
    rw [hoff slot hslot] at ha
    cases ha

theorem Tracked.drop (h : Tracked c) (hduty : Duty c)
    (hphase : c.signaler = .dropping plan version i) : Tracked (c.drop plan version i) := by
  have hsnapshot : snapshot c.signaler = some (plan, version, plan.subscribe) := by rw [hphase]; rfl
  rw [Duty, hphase] at hduty
  rw [VoiceConnection.drop]
  split
  · refine h.goesOn hsnapshot rfl rfl rfl rfl rfl rfl rfl rfl rfl fun _ _ _ pub _ => ?_
    exact Or.imp_right fun hon => hon.of_slots rfl
  next slot hslot =>
  split
  · next hdrop =>
    refine h.goesOn hsnapshot rfl rfl rfl rfl rfl rfl rfl rfl rfl fun _ _ _ pub _ => ?_
    refine Or.imp_right ?_
    rintro ⟨k, other, hother, hpub, ha⟩
    refine ⟨k, other, ?_, hpub, ha⟩
    rw [List.getElem?_set_ne ?_, hother]
    rintro rfl
    obtain rfl := Option.some.inj (hslot.symm.trans hother)
    exact hdrop.2 (hduty.2.1 i slot hslot ha)
  · refine h.goesOn hsnapshot rfl rfl rfl rfl rfl rfl rfl rfl rfl fun _ _ _ pub _ => ?_
    exact Or.imp_right fun hon => hon.of_slots rfl

theorem Tracked.clear (h : Tracked c) (hduty : Duty c) (hphase : c.signaler = .clearing plan version i) :
    Tracked { c.setPublication i noPublication with signaler := .dropping plan version (i + 1) } := by
  have hsnapshot : snapshot c.signaler = some (plan, version, plan.subscribe) := by rw [hphase]; rfl
  rw [Duty, hphase] at hduty
  refine h.goesOn hsnapshot rfl rfl rfl rfl rfl rfl rfl rfl rfl fun _ _ _ pub _ => ?_
  refine Or.imp_right fun hon => On.of_slots (hon.setPublication fun slot hslot => ?_) rfl
  rw [Bool.eq_false_iff]
  exact fun ha => (hduty.2.1 i slot hslot ha).2 rfl

theorem Tracked.add (h : Tracked c) (hkept : Kept c) (hphase : c.signaler = .adding plan version todo)
    (o : Outcome) : Tracked (c.add plan version o todo) := by
  have hsnapshot : snapshot c.signaler = some (plan, version, todo) := by rw [hphase]; rfl
  cases todo with
  | nil =>
    refine h.goesOn hsnapshot rfl rfl rfl rfl rfl rfl rfl rfl rfl fun _ _ _ pub _ => ?_
    exact Or.imp_right fun hon => hon.of_slots rfl
  | cons pub todo =>
    rw [VoiceConnection.add]
    split
    · refine h.goesOn hsnapshot rfl rfl rfl rfl rfl rfl rfl rfl rfl fun _ _ _ pub _ => ?_
      exact Or.imp_right fun hon => hon.of_slots rfl
    split
    · next i hi =>
      refine h.goesOn hsnapshot rfl rfl rfl rfl rfl rfl rfl rfl rfl fun _ _ _ pub _ => ?_
      exact Or.imp_right fun hon => On.of_slots (hon.setPublication (hkept.free_off hi)) rfl
    split
    · refine h.goesOn hsnapshot rfl rfl rfl rfl rfl rfl rfl rfl rfl fun _ _ _ other _ => ?_
      refine Or.imp_right ?_
      rintro ⟨k, slot, hslot, hrest⟩
      refine ⟨k, slot, ?_, hrest⟩
      rw [List.getElem?_append_left (List.getElem?_eq_some_iff.1 hslot).1, hslot]
    · exact h.fail

/-- Under the plan of the snapshot the output comes on. -/
theorem Tracked.authorize (h : Tracked c) (hduty : Duty c)
    (hphase : c.signaler = .authorizing plan version i pub todo) :
    Tracked { c.authorizeOutput i pub with signaler := .adding plan version todo } := by
  have hsnapshot : snapshot c.signaler = some (plan, version, pub :: todo) := by rw [hphase]; rfl
  rw [Duty, hphase] at hduty
  obtain ⟨-, -, htodo, slot, hslot, hpub⟩ := hduty
  refine h.goesOn hsnapshot rfl rfl rfl rfl rfl rfl rfl rfl rfl fun _ hopen hplan other hmem hor => ?_
  have hactive : (!c.closed && decide (pub ∈ c.plan.subscribe)) = true := by
    rw [hopen, ← hplan]
    simpa using htodo List.mem_cons_self
  have hslots := authorizeOutput_slots c i pub
  rcases hor with hor | hon
  · rcases List.mem_cons.1 hor with rfl | hor
    · refine .inr ⟨i, { slot with active := !c.closed && other ∈ c.plan.subscribe }, ?_, hpub, hactive⟩
      exact (hslots.at hslot).trans (by rw [if_pos rfl])
    · exact .inl hor
  · refine .inr (On.of_slots (hon.slots hslots fun k slot' _ ha => ?_) rfl)
    split
    · exact ⟨rfl, hactive⟩
    · exact ⟨rfl, ha⟩

/-- The offer that goes out has the slots of its plan. -/
theorem Tracked.describe (h : Tracked c) (hduty : Duty c)
    (hphase : c.signaler = .describing plan version) (offer : VoiceOffer) (hoffer : offer.version = version) :
    Tracked { c with sequence := c.sequence + 1, pending := some offer
                     renegotiate := false, failed := false, signaler := .idle } := by
  have hsnapshot : snapshot c.signaler = some (plan, version, []) := by rw [hphase]; rfl
  rw [Duty, hphase] at hduty
  obtain ⟨-, hle, -, hreached⟩ := h.reached plan version [] hsnapshot
  refine ⟨h.negotiated, ?_, ?_, ?_, ?_⟩
  · intro offer' hoffer'
    obtain rfl := Option.some.inj hoffer'
    rw [hoffer]
    refine ⟨hle, fun hv hopen => ?_⟩
    obtain ⟨hplan, hreceive, hon⟩ := hreached hv hopen
    refine ⟨hreceive, ?_, fun pub hpub => ?_⟩
    · rw [← hplan]
      exact hduty.2
    · exact ((hon pub hpub).resolve_left List.not_mem_nil).of_slots rfl
  · intro hnone
    cases hnone
  · intro _ _
    exact .inr (.inr (.inl (Option.some_ne_none offer)))
  · intro plan' version' todo' hsnapshot'
    cases hsnapshot'

theorem Tracked.answer (h : Tracked c) (hphase : Quiet c) (answer : VoiceDescription) (o : Outcome) :
    Tracked (c.answer answer o) := by
  have hrest : ∀ remote described, Tracked { c with remote, described, signaler := .idle } := by
    intro remote described
    refine ⟨h.negotiated, ?_, ?_, fun _ hopen => h.due hphase hopen, ?_⟩
    · intro offer hoffer
      obtain ⟨hle, hc⟩ := h.pending offer hoffer
      exact ⟨hle, fun hv hopen => (hc hv hopen).congr rfl rfl rfl⟩
    · exact fun h₁ h₂ h₃ h₄ hopen => (h.settled h₁ h₂ h₃ h₄ hopen).congr rfl rfl rfl
    · intro plan version todo hsnapshot
      cases hsnapshot
  rw [VoiceConnection.answer]
  split
  · exact hrest c.remote c.described
  next offer hoffer =>
  split
  · exact hrest c.remote c.described
  split
  · exact hrest c.remote c.described
  next remote _ =>
  split
  · exact hrest c.remote c.described
  dsimp only
  split
  · obtain ⟨hle, hc⟩ := h.pending offer hoffer
    refine ⟨hle, ?_, fun _ _ hv _ hopen => (hc hv hopen).congr rfl rfl rfl, fun hquiet => hquiet.elim, ?_⟩
    · intro offer' hoffer'
      cases hoffer'
    · intro plan version todo hsnapshot
      cases hsnapshot
  · exact hrest remote true

theorem Tracked.turn (h : Tracked c) (hkept : Kept c) (hduty : Duty c)
    (ht : c.turn current o = some c') : Tracked c' := by
  rw [VoiceConnection.turn] at ht
  cases hphase : c.signaler with
  | idle =>
    rw [hphase] at ht
    cases ht
  | answering answer =>
    rw [hphase] at ht
    obtain rfl := Option.some.inj ht
    exact h.answer (by rw [Quiet, hphase]; trivial) answer o
  | offering force =>
    rw [hphase] at ht
    obtain rfl := Option.some.inj ht
    exact h.offer hkept force o
  | dropping plan version i =>
    rw [hphase] at ht
    obtain rfl := Option.some.inj ht
    exact h.drop hduty hphase
  | clearing plan version i =>
    rw [hphase] at ht
    obtain rfl := Option.some.inj ht
    exact h.clear hduty hphase
  | adding plan version todo =>
    rw [hphase] at ht
    obtain rfl := Option.some.inj ht
    exact h.add hkept hphase o
  | authorizing plan version i pub todo =>
    rw [hphase] at ht
    obtain rfl := Option.some.inj ht
    exact h.authorize hduty hphase
  | describing plan version =>
    rw [hphase] at ht
    obtain rfl := Option.some.inj ht
    split
    · exact h.describe hduty hphase _ rfl
    · exact h.fail

theorem Tracked.signal (h : Tracked c) (hidle : c.signaler.isIdle = true) (current : Bool)
    (signal : VoiceSignal) : Tracked (c.signal current signal) := by
  have hquiet : Quiet c := by
    rw [Quiet]
    cases hphase : c.signaler with
    | idle => trivial
    | _ =>
      rw [hphase] at hidle
      cases hidle
  have hmoves : ∀ candidates signaler, snapshot signaler = none →
      Tracked { c with candidates, signaler } := by
    intro candidates signaler hnone
    refine ⟨h.negotiated, ?_, ?_, fun _ hopen => h.due hquiet hopen, ?_⟩
    · intro offer hoffer
      obtain ⟨hle, hc⟩ := h.pending offer hoffer
      exact ⟨hle, fun hv hopen => (hc hv hopen).congr rfl rfl rfl⟩
    · exact fun h₁ h₂ h₃ h₄ hopen => (h.settled h₁ h₂ h₃ h₄ hopen).congr rfl rfl rfl
    · intro plan version todo hsnapshot
      rw [show snapshot signaler = some (plan, version, todo) from hsnapshot] at hnone
      cases hnone
  have hnone : snapshot c.signaler = none := by
    cases hphase : c.signaler with
    | idle => rfl
    | _ =>
      rw [hphase] at hidle
      cases hidle
  rw [VoiceConnection.signal]
  split
  · exact h
  split
  · exact hmoves c.candidates _ rfl
  · split
    · exact h
    · exact hmoves _ c.signaler hnone
  · exact hmoves c.candidates _ rfl
  · exact h

theorem Tracked.negotiate (h : Tracked c) (n : ℕ) :
    Tracked { c with signaler := .offering false, outstanding := n } := by
  refine ⟨h.negotiated, ?_, ?_, fun hquiet => hquiet.elim, ?_⟩
  · intro offer hoffer
    obtain ⟨hle, hc⟩ := h.pending offer hoffer
    exact ⟨hle, fun hv hopen => (hc hv hopen).congr rfl rfl rfl⟩
  · exact fun h₁ h₂ h₃ h₄ hopen => (h.settled h₁ h₂ h₃ h₄ hopen).congr rfl rfl rfl
  · intro plan version todo hsnapshot
    cases hsnapshot

theorem tracked_first (key : VoiceKey) (plan : Voice.VoiceConnectionPlan) :
    Tracked (({ key } : VoiceConnection).configure plan) := by
  refine ⟨Nat.zero_le _, ?_, fun _ h => absurd rfl h, fun _ _ => .inl (Nat.succ_pos _), ?_⟩
  · intro offer hoffer
    cases hoffer
  · intro plan version todo hsnapshot
    cases hsnapshot

end VoiceConnection

/-! ## Runs -/

namespace VoiceMedia

open VoiceConnection

variable {m m' : VoiceMedia} {room : String} {i r source : ℕ} {pub : VoicePublication}
  {plan : Voice.VoiceConnectionPlan} {c : VoiceConnection} {X : List (Option ℕ)}

/-- The negotiation of every connection is on its way. -/
def Follows (m : VoiceMedia) : Prop := ∀ i < m.made, (m.conns i).Tracked

theorem Follows.detachInput (h : Follows m) (room : String) (source : Option ℕ) :
    Follows (m.detachInput room source) := by
  cases source with
  | none => exact h
  | some source =>
    intro j hj
    rw [detachInput_conns]
    split
    · exact (h j hj).steady (detach_steady _ source) rfl (le_refl _) rfl
    · exact h j hj

theorem Follows.detachInputs (room : String) : ∀ (X : List (Option ℕ)) {m : VoiceMedia},
    Follows m → Follows (m.detachInputs room X) := by
  intro X
  induction X with
  | nil => exact fun h => h
  | cons s X ih => exact fun h => ih (h.detachInput room s)

theorem Follows.setConn (h : Follows m) (hc : i < m.made → c.Tracked) : Follows (m.setConn i c) := by
  intro j hj
  rw [setConn_conns]
  split
  · next hji => exact hc (hji ▸ hj)
  · exact h j hj

theorem Follows.retire (h : Follows m) (i : ℕ) : Follows (m.retire i) := by
  have hd := h.detachInputs (m.conns i).key.room
    ((m.conns i).bindings.values.map fun r => (m.inputs r).source)
  exact hd.setConn fun hi => (hd i hi).steady (retire_steady _) rfl (le_refl _) rfl

theorem Follows.retireAll (l : List ℕ) : ∀ {m : VoiceMedia}, Follows m → Sound m → (∀ i ∈ l, i < m.made) →
    Follows (l.foldl (fun m i => m.retire i) m) := by
  induction l with
  | nil => exact fun h _ _ => h
  | cons i l ih =>
    intro m h hsound hmem
    refine ih (h.retire i) (hsound.retire (hmem i List.mem_cons_self)) fun j hj => ?_
    rw [(retire_frame m hsound i).2.1]
    exact hmem j (List.mem_cons_of_mem _ hj)

theorem Follows.configureVoice (h : Follows m) (hsound : Sound m) (plan : VoiceConnectionPlan)
    (made : Bool) : Follows (m.configureVoice plan made) := by
  rw [VoiceMedia.configureVoice]
  split
  · exact h
  next plan' _ =>
  split
  · exact h
  split
  · next i hget =>
    split
    · exact h
    · next hopen =>
      have hi := (hsound.base.registered _ i hget).1
      exact Follows.detachInputs _ _ (h.setConn fun _ =>
        (h i hi).configure (hsound.base.kept i hi) (Bool.eq_false_iff.2 hopen))
  · split
    · exact h
    · refine Follows.detachInputs _ _ ?_
      intro j hj
      have hcreated : (m.create plan'.key).conns m.made = { key := plan'.key } := by
        refine (setConn_conns m m.made { key := plan'.key } m.made).trans ?_
        rw [if_pos rfl]
      rw [setConn_conns, hcreated]
      split
      · exact tracked_first _ _
      · next hne =>
        have hj' : j < m.made + 1 := hj
        have hold : (m.create plan'.key).conns j = m.conns j := by
          refine (setConn_conns m m.made { key := plan'.key } j).trans ?_
          rw [if_neg hne]
        rw [hold]
        exact h j (by omega)

theorem Follows.alike (h : Follows m) (hmade : m'.made = m.made) (hconns : ∀ j, ∃ b,
    m'.conns j = { m.conns j with bindings := b }) : Follows m' := by
  intro j hj
  obtain ⟨b, hb⟩ := hconns j
  rw [hb]
  exact (h j (hmade ▸ hj)).steady
    ⟨rfl, rfl, rfl, rfl, fun _ pub hon => hon.of_slots rfl, id, rfl, rfl, rfl, rfl⟩ rfl (le_refl _) rfl

theorem Follows.consume (h : Follows m) (i : ℕ) (mid : String) : Follows (m.consume i mid) := by
  rw [VoiceMedia.consume]
  dsimp only
  split
  · exact h
  refine (h.detachInput (m.conns i).key.room
    (((m.conns i).bindings.get mid).bind fun r => (m.inputs r).source)).alike rfl fun j => ?_
  show ∃ b, (VoiceMedia.setConn _ _ _).conns j = _
  rw [setConn_conns]
  split
  · next hji =>
    subst hji
    exact ⟨_, rfl⟩
  · exact ⟨_, rfl⟩

theorem Follows.leave (h : Follows m) (r : ℕ) : Follows (m.leave r) := by
  rw [VoiceMedia.leave]
  refine Follows.alike (m := VoiceMedia.detachInput _ _ _) (Follows.detachInput ?_ _ _) rfl fun j => ⟨_, rfl⟩
  split
  · refine h.alike rfl fun j => ?_
    rw [setConn_conns]
    split
    · next hji =>
      subst hji
      exact ⟨_, rfl⟩
    · exact ⟨_, rfl⟩
  · exact h

theorem Follows.fanOut (h : Follows m) (i : ℕ) (pub : VoicePublication) (source : ℕ) (replaced : ℕ → Bool) :
    Follows (m.fanOut i pub source replaced) := by
  intro j hj
  rw [fanOut_conns]
  split
  · obtain ⟨slots, hc⟩ := attach_frame (m.conns j) pub source (replaced j)
    exact (h j hj).steady (attach_steady _ pub source (replaced j)) (by rw [hc]) (by rw [hc]) (by rw [hc])
  · exact h j hj

theorem Follows.packet (h : Follows m) (r : ℕ) (made : Bool) (replaced : ℕ → Bool) :
    Follows (m.packet r made replaced) := by
  rw [VoiceMedia.packet]
  dsimp only
  split
  · exact h
  split
  · exact h
  split
  · exact h
  split
  · exact h.fanOut _ _ _ replaced
  split
  · exact h
  · exact Follows.fanOut (m := m.renewed r _) (h.detachInput _ _) _ _ _ replaced

theorem Follows.step {e : Event} (h : Follows m) (hsound : Sound m) (hs : m.step e = some m') :
    Follows m' := by
  cases e with
  | configureVoice plan made =>
    obtain rfl := Option.some.inj hs
    exact h.configureVoice hsound plan made
  | closeVoice key =>
    obtain rfl := Option.some.inj hs
    cases hget : m.connections.get key with
    | none => exact h
    | some i => exact h.retire i
  | close i =>
    obtain ⟨hi, hs⟩ := Option.ite_none_right_eq_some.1 hs
    obtain rfl := Option.some.inj hs
    exact h.retire i
  | closed i =>
    obtain ⟨-, hs⟩ := Option.ite_none_right_eq_some.1 hs
    obtain rfl := Option.some.inj hs
    split
    · exact h
    · exact h
  | closeAll =>
    obtain rfl := Option.some.inj hs
    refine Follows.retireAll m.connections.values h hsound fun i hi => ?_
    obtain ⟨key, hget⟩ := OMap.mem_values.1 hi
    exact (hsound.base.registered key i hget).1
  | negotiate i =>
    obtain ⟨⟨hi, -⟩, hs⟩ := Option.ite_none_right_eq_some.1 hs
    obtain rfl := Option.some.inj hs
    exact h.setConn fun _ => (h i hi).negotiate _
  | signal i signal =>
    obtain ⟨⟨hi, hidle⟩, hs⟩ := Option.ite_none_right_eq_some.1 hs
    obtain rfl := Option.some.inj hs
    exact h.setConn fun _ => (h i hi).signal hidle _ signal
  | turn i o =>
    obtain ⟨hi, hs⟩ := Option.ite_none_right_eq_some.1 hs
    obtain ⟨c, hturn, rfl⟩ := Option.map_eq_some_iff.1 hs
    exact h.setConn fun _ =>
      (h i hi).turn (hsound.base.kept i hi) (hsound.base.duty i hi) hturn
  | consume i mid =>
    obtain ⟨-, hs⟩ := Option.ite_none_right_eq_some.1 hs
    obtain rfl := Option.some.inj hs
    exact h.consume i mid
  | packet r made replaced =>
    obtain ⟨-, hs⟩ := Option.ite_none_right_eq_some.1 hs
    obtain rfl := Option.some.inj hs
    exact h.packet r made replaced
  | leave r =>
    obtain ⟨-, hs⟩ := Option.ite_none_right_eq_some.1 hs
    obtain rfl := Option.some.inj hs
    exact h.leave r

theorem follows_run {es : List Event} (h : Steps.Reaches step {} es m) : Sound m ∧ Follows m := by
  refine h.invariant (P := fun m => Sound m ∧ Follows m) ⟨sound_init, ?_⟩ ?_
  · intro i hi
    cases hi
  · exact fun h hs => ⟨h.1.step hs, h.2.step h.1 hs⟩

/-- Nothing is left to do on an open connection. -/
structure Settled (c : VoiceConnection) : Prop where
  opened : c.closed = false
  idle : c.signaler.isIdle = true
  answered : c.pending = none
  worked : c.outstanding = 0
  succeeded : c.failed = false

theorem Settled.carries {c : VoiceConnection} (h : Settled c) (htracked : Tracked c) :
    c.negotiatedVersion = c.version ∧ Carries c := by
  have hquiet : Quiet c := by
    rw [Quiet]
    have hidle := h.idle
    cases hphase : c.signaler with
    | idle => trivial
    | _ =>
      rw [hphase] at hidle
      cases hidle
  rcases htracked.due hquiet h.opened with hwork | hfail | hpending | ⟨hsequence, hversion, hno⟩
  · rw [h.worked] at hwork
    cases hwork
  · exact absurd (hfail.symm.trans h.succeeded) Bool.noConfusion
  · exact absurd h.answered hpending
  · exact ⟨hversion, htracked.settled h.answered hsequence hversion hno h.opened⟩

/-- However changes of the plan, negotiations, answers and failures come in between: once no offer is
    pending, no work is left and the last offer has not failed, the latest plan is the one that is
    negotiated, the slots in use are its publications, each once, and every output of it is on. -/
theorem voice_settles {es : List Event} (h : Steps.Reaches step {} es m) (hi : i < m.made)
    (hsettled : Settled (m.conns i)) :
    (m.conns i).negotiatedVersion = (m.conns i).version ∧
      ((m.conns i).receiveSlots.filter fun pub => pub.id ≠ "").Perm (m.conns i).plan.publish ∧
      (((m.conns i).sendSlots.map SendSlot.publication).filter fun pub => pub.id ≠ "").Perm
        (m.conns i).plan.subscribe ∧
      ∀ pub ∈ (m.conns i).plan.subscribe, ∃ (k : ℕ) (slot : SendSlot),
        (m.conns i).outgoing.get pub.id = some k ∧ (m.conns i).sendSlots[k]? = some slot ∧
          slot.publication = pub ∧ slot.active = true := by
  obtain ⟨hsound, hfollows⟩ := follows_run h
  have hkept := hsound.base.kept i hi
  obtain ⟨hversion, hcarries⟩ := hsettled.carries (hfollows i hi)
  have hnodup : (m.conns i).plan.publish.Nodup ∧ (m.conns i).plan.subscribe.Nodup := by
    have hboth := List.Nodup.of_map _ hkept.planned.nodup
    exact ⟨(List.nodup_append.1 hboth).1, (List.nodup_append.1 hboth).2.1⟩
  refine ⟨hversion, ?_, ?_, ?_⟩
  · refine (List.perm_ext_iff_of_nodup hkept.onceIn.filter_nodup hnodup.1).2 fun pub => ?_
    rw [List.mem_filter]
    constructor
    · rintro ⟨hmem, hne⟩
      exact (hcarries.receive pub (of_decide_eq_true hne)).1 hmem
    · intro hmem
      have hne := hkept.planned.publish_named hmem
      exact ⟨(hcarries.receive pub hne).2 hmem, decide_eq_true hne⟩
  · refine (List.perm_ext_iff_of_nodup hkept.once.filter_nodup hnodup.2).2 fun pub => ?_
    rw [List.mem_filter]
    constructor
    · rintro ⟨hmem, hne⟩
      exact (hcarries.within pub hmem).resolve_left (of_decide_eq_true hne)
    · intro hmem
      obtain ⟨k, slot, hslot, hpub, -⟩ := hcarries.on pub hmem
      refine ⟨?_, decide_eq_true (hkept.planned.subscribe_named hmem)⟩
      exact List.mem_map.2 ⟨slot, List.mem_of_getElem? hslot, hpub⟩
  · intro pub hmem
    obtain ⟨k, slot, hslot, hpub, ha⟩ := hcarries.on pub hmem
    exact ⟨k, slot, hpub ▸ (hkept.active k slot hslot ha).2.2, hslot, hpub, ha⟩

theorem settled_of_decide {c : VoiceConnection}
    (h : (!c.closed && c.signaler.isIdle && c.pending.isNone && c.outstanding = 0 && !c.failed) = true) :
    Settled c := by
  simp only [Bool.and_eq_true, Bool.not_eq_true', decide_eq_true_eq, Option.isNone_iff_eq_none] at h
  exact ⟨h.1.1.1.1, h.1.1.1.2, h.1.1.2, h.1.2, h.2⟩

theorem voice_settles_twoPeers : ∃ m, Steps.Reaches step {} twoPeers m ∧
    (m.conns 1).plan.subscribe = [spoken] ∧
    (((m.conns 1).sendSlots.map SendSlot.publication).filter fun pub => pub.id ≠ "").Perm [spoken] := by
  have hrun : (Steps.run step {} twoPeers).map (fun m => decide (m.made = 2 ∧
      (!(m.conns 1).closed && (m.conns 1).signaler.isIdle && (m.conns 1).pending.isNone &&
        (m.conns 1).outstanding = 0 && !(m.conns 1).failed) = true ∧
      (m.conns 1).plan.subscribe = [spoken])) = some true := by decide +kernel
  obtain ⟨m, hm, hd⟩ := Option.map_eq_some_iff.1 hrun
  obtain ⟨hmade, hsettled, hplan⟩ := of_decide_eq_true hd
  have hreaches := Steps.reaches_of_run hm
  refine ⟨m, hreaches, hplan, ?_⟩
  rw [← hplan]
  exact (voice_settles hreaches (by omega) (settled_of_decide hsettled)).2.2.1

/-! ## Packets -/

theorem fanOut_reaches (h : Sound m) {j : ℕ} (hj : j < m.made) (hopen : (m.conns j).closed = false)
    (hne : j ≠ i) (hroom : (m.conns j).key.room = (m.conns i).key.room)
    (hmem : pub ∈ (m.conns j).plan.subscribe) (hon : On (m.conns j) pub) :
    ∃ (k : ℕ) (slot : SendSlot), ((m.fanOut i pub source fun _ => true).conns j).sendSlots[k]? = some slot ∧
      slot.publication = pub ∧ slot.active = true ∧ slot.input = some source := by
  obtain ⟨k, slot, hslot, hpub, ha⟩ := hon
  have hget := ((h.base.kept j hj).active k slot hslot ha).2.2
  rw [hpub] at hget
  have hcond : (m.current j && decide (j ≠ i) && !(m.conns j).closed &&
      decide ((m.conns j).key.room = (m.conns i).key.room)) = true := by
    simp [h.base.current j hj hopen, hne, hopen, hroom]
  refine ⟨k, slot.attach pub source true, ?_, ?_⟩
  · rw [fanOut_conns, if_pos hcond, (attach_slots (m.conns j) pub source true).at hslot,
      if_pos ⟨hget, hmem⟩]
  · rw [SendSlot.attach]
    split
    · exact ⟨hpub, ha, rfl⟩
    · next hsame =>
      refine ⟨hpub, ha, ?_⟩
      by_contra hother
      exact hsame (by simp [ha, hpub, hother])

/-- A packet that its connection may publish, and for which `NewSource`, `BindLayer` and `ReplaceSource`
    succeed, reaches every other open connection of the room whose plan names the publication and
    whose negotiation has come to rest. -/
theorem voice_reaches {es : List Event} (h : Steps.Reaches step {} es m)
    (hs : m.step (.packet r true fun _ => true) = some m')
    (hopen : (m.conns (m.inputs r).conn).closed = false)
    (hbound : (m.conns (m.inputs r).conn).bindings.get (m.inputs r).mid = some r)
    (hremote : (m.conns (m.inputs r).conn).remote.get (m.inputs r).mid = some pub)
    (hpub : pub ∈ (m.conns (m.inputs r).conn).plan.publish) :
    ∃ source, (m'.inputs r).source = some source ∧ (m'.inputs r).publication = pub ∧
      ∀ j < m.made, j ≠ (m.inputs r).conn → Settled (m.conns j) →
        (m.conns j).key.room = (m.conns (m.inputs r).conn).key.room →
        pub ∈ (m.conns j).plan.subscribe →
        ∃ (k : ℕ) (slot : SendSlot), (m'.conns j).sendSlots[k]? = some slot ∧
          slot.publication = pub ∧ slot.active = true ∧ slot.input = some source := by
  obtain ⟨hsound, hfollows⟩ := follows_run h
  obtain ⟨⟨hr, -⟩, hs⟩ := Option.ite_none_right_eq_some.1 hs
  obtain rfl := Option.some.inj hs
  have hname := (hsound.base.kept _ (hsound.base.reading r hr)).planned.publish_named hpub
  rw [VoiceMedia.packet]
  dsimp only
  rw [if_neg (by simp [hopen, hbound]), hremote]
  dsimp only
  rw [if_neg (by simp [hname, hpub])]
  have hon : ∀ j < m.made, Settled (m.conns j) → pub ∈ (m.conns j).plan.subscribe →
      On (m.conns j) pub := fun j hj hsettled hmem => (hsettled.carries (hfollows j hj)).2.on pub hmem
  split
  · next source hsource =>
    obtain ⟨hrpub, hsource⟩ := Option.ite_none_right_eq_some.1 hsource
    refine ⟨source, hsource, hrpub, fun j hj hne hsettled hroom hmem => ?_⟩
    exact fanOut_reaches hsound hj hsettled.opened hne hroom hmem (hon j hj hsettled hmem)
  · rw [if_neg Bool.noConfusion]
    have hrenewed := hsound.renew hr pub
    have hinput : (m.renewed r pub).inputs r =
        { m.inputs r with publication := pub, source := some m.sources } := by
      rw [renewed_inputs, Function.update_self]
    refine ⟨m.sources, ?_, ?_, fun j hj hne hsettled hroom hmem => ?_⟩
    · exact congrArg VoiceInput.source hinput
    · exact congrArg VoiceInput.publication hinput
    · have halike := m.renewed_alike r pub
      have hsteady : Steady (m.conns j) ((m.renewed r pub).conns j) := by
        show Steady _ ((m.detachInput _ (m.inputs r).source).conns j)
        cases (m.inputs r).source with
        | none => exact Steady.refl _
        | some old =>
          rw [detachInput_conns]
          split
          · exact detach_steady _ old
          · exact Steady.refl _
      have hopen' := (halike j).closed.trans hsettled.opened
      refine fanOut_reaches (m := m.renewed r pub) hrenewed ?_ hopen' hne ?_ ?_
        (hsteady.on hopen' pub (hon j hj hsettled hmem))
      · exact lt_of_lt_of_eq hj (detachInput_frame m _ _).2.1.symm
      · rw [(halike j).key, (halike _).key, hroom]
      · rw [hsteady.plan]
        exact hmem

theorem voice_reaches_twoPeers : ∃ m m', Steps.Reaches step {} twoPeers m ∧
    m.step (.packet 0 true fun _ => true) = some m' ∧
    ∃ source, (m'.inputs 0).source = some source ∧ ∃ (k : ℕ) (slot : SendSlot),
      (m'.conns 1).sendSlots[k]? = some slot ∧ slot.publication = spoken ∧ slot.active = true ∧
        slot.input = some source := by
  have hrun : (Steps.run step {} twoPeers).map (fun m => decide ((m.made = 2 ∧ m.started = 1 ∧
      (m.inputs 0).leaving = false) ∧ ((m.inputs 0).conn = 0 ∧ (m.inputs 0).mid = "0") ∧
      ((m.conns 0).closed = false ∧ (m.conns 0).bindings.get "0" = some 0 ∧
        (m.conns 0).remote.get "0" = some spoken ∧ spoken ∈ (m.conns 0).plan.publish) ∧
      (!(m.conns 1).closed && (m.conns 1).signaler.isIdle && (m.conns 1).pending.isNone &&
        (m.conns 1).outstanding = 0 && !(m.conns 1).failed) = true ∧
      (m.conns 1).key.room = (m.conns 0).key.room ∧ spoken ∈ (m.conns 1).plan.subscribe)) = some true := by
    decide +kernel
  obtain ⟨m, hm, hd⟩ := Option.map_eq_some_iff.1 hrun
  obtain ⟨⟨hmade, hstarted, hleaving⟩, ⟨hconn, hmid⟩, ⟨hopen, hbound, hremote, hpub⟩, hsettled, hroom,
    hmem⟩ := of_decide_eq_true hd
  have hreaches := Steps.reaches_of_run hm
  have hstep : m.step (.packet 0 true fun _ => true) = some (m.packet 0 true fun _ => true) :=
    if_pos ⟨by omega, by rw [hleaving]; rfl⟩
  obtain ⟨source, hsource, -, hall⟩ := voice_reaches hreaches hstep (by rw [hconn, hopen])
    (by rw [hconn, hmid, hbound]) (by rw [hconn, hmid, hremote]) (by rw [hconn]; exact hpub)
  refine ⟨m, _, hreaches, hstep, source, hsource, hall 1 (by omega) ?_ (settled_of_decide hsettled) ?_ hmem⟩
  · rw [hconn]
    omega
  · rw [hconn, hroom]

end VoiceMedia

end Piik.Sfu
