/-
  The slots of one voice connection: whatever the signaler has come to, an
  output is on only for a publication of the plan that the connection has now.
-/
import Piik.Sfu.Voice

namespace Piik.Sfu

open Piik.Voice (VoicePublication)

/-! ## Plans -/

/-- What the checks of `normalizeVoicePlan` leave of a plan. -/
structure Planned (plan : Voice.VoiceConnectionPlan) : Prop where
  nodup : ((plan.publish ++ plan.subscribe).map VoicePublication.id).Nodup
  named : ∀ pub ∈ plan.publish ++ plan.subscribe, pub.id ≠ ""

theorem freshPublications_sound {pubs : List VoicePublication} : ∀ {seen : List String},
    freshPublications pubs seen = true →
      (pubs.map VoicePublication.id).Nodup ∧ ∀ pub ∈ pubs, pub.id ≠ "" ∧ pub.id ∉ seen := by
  induction pubs with
  | nil => simp
  | cons pub pubs ih =>
    intro seen h
    simp only [freshPublications, validID, Bool.and_eq_true, decide_eq_true_eq] at h
    obtain ⟨⟨⟨⟨hname, -⟩, -⟩, hseen⟩, hrest⟩ := h
    obtain ⟨hnodup, hpubs⟩ := ih hrest
    refine ⟨?_, ?_⟩
    · rw [List.map_cons, List.nodup_cons]
      refine ⟨?_, hnodup⟩
      rw [List.mem_map]
      rintro ⟨other, hother, heq⟩
      exact (hpubs other hother).2 (by simp [heq])
    · intro other hother
      rcases List.mem_cons.1 hother with rfl | hother
      · exact ⟨hname, hseen⟩
      · exact ⟨(hpubs other hother).1, fun hmem => (hpubs other hother).2 (List.mem_cons_of_mem _ hmem)⟩

theorem normalizeVoicePlan_planned {plan plan' : VoiceConnectionPlan}
    (h : normalizeVoicePlan plan = .ok plan') :
    Planned plan'.toVoiceConnectionPlan ∧ plan'.key = plan.key := by
  rw [normalizeVoicePlan] at h
  split at h
  · cases h
  split at h
  · cases h
  split at h
  · cases h
  next hfresh =>
  cases h
  obtain ⟨hnodup, hnamed⟩ := freshPublications_sound (not_not.1 hfresh)
  refine ⟨⟨?_, ?_⟩, rfl⟩
  · refine (List.Perm.nodup_iff ?_).1 hnodup
    exact ((List.perm_insertionSort _ _).symm.append (List.perm_insertionSort _ _).symm).map _
  · intro pub hpub
    simp only [List.mem_append, List.mem_sortStable] at hpub
    exact (hnamed pub (List.mem_append.2 hpub)).1

namespace Planned

variable {plan : Voice.VoiceConnectionPlan}

theorem empty : Planned ⟨[], []⟩ := ⟨List.nodup_nil, by simp⟩

theorem subscribe_named (h : Planned plan) {pub : VoicePublication} (hpub : pub ∈ plan.subscribe) :
    pub.id ≠ "" := h.named pub (List.mem_append_right _ hpub)

theorem publish_named (h : Planned plan) {pub : VoicePublication} (hpub : pub ∈ plan.publish) :
    pub.id ≠ "" := h.named pub (List.mem_append_left _ hpub)

theorem eq_of_id (h : Planned plan) {pub pub' : VoicePublication} (hpub : pub ∈ plan.publish ++ plan.subscribe)
    (hpub' : pub' ∈ plan.publish ++ plan.subscribe) (heq : pub.id = pub'.id) : pub = pub' :=
  List.inj_on_of_nodup_map h.nodup hpub hpub' heq

end Planned

/-! ## Slots -/

/-- No publication is in two slots. -/
def Once (slots : List VoicePublication) : Prop :=
  ∀ (i j : ℕ) (p q : VoicePublication), slots[i]? = some p → slots[j]? = some q →
    p.id = q.id → p.id ≠ "" → i = j

/-- A slot that is in use is one of the list. -/
def Within (slots pubs : List VoicePublication) : Prop :=
  ∀ pub ∈ slots, pub.id = "" ∨ pub ∈ pubs

section Slots

variable {slots slots' pubs : List VoicePublication} {pub : VoicePublication} {i : ℕ}

theorem Once.set_free (h : Once slots) (hfree : pub.id = "") : Once (slots.set i pub) := by
  intro a b p q ha hb heq hne
  rw [List.getElem?_set] at ha hb
  split at ha
  · obtain ⟨-, hp⟩ := Option.ite_none_right_eq_some.1 ha
    obtain rfl := Option.some.inj hp
    exact absurd hfree hne
  · split at hb
    · obtain ⟨-, hq⟩ := Option.ite_none_right_eq_some.1 hb
      obtain rfl := Option.some.inj hq
      exact absurd (heq.trans hfree) hne
    · exact h a b p q ha hb heq hne

theorem Once.set_new (h : Once slots) (hnew : ∀ other ∈ slots, other.id ≠ pub.id) :
    Once (slots.set i pub) := by
  intro a b p q ha hb heq hne
  rw [List.getElem?_set] at ha hb
  split at ha <;> split at hb
  · next ha' hb' => exact ha'.symm.trans hb'
  · obtain ⟨-, hp⟩ := Option.ite_none_right_eq_some.1 ha
    obtain rfl := Option.some.inj hp
    exact absurd heq.symm (hnew q (List.mem_of_getElem? hb))
  · obtain ⟨-, hq⟩ := Option.ite_none_right_eq_some.1 hb
    obtain rfl := Option.some.inj hq
    exact absurd heq (hnew p (List.mem_of_getElem? ha))
  · exact h a b p q ha hb heq hne

theorem Once.snoc_new (h : Once slots) (hnew : ∀ other ∈ slots, other.id ≠ pub.id) :
    Once (slots ++ [pub]) := by
  have hlast : ∀ (k : ℕ) (p : VoicePublication), (slots ++ [pub])[k]? = some p →
      slots[k]? = some p ∨ k = slots.length ∧ p = pub := by
    intro k p hk
    rw [List.getElem?_append] at hk
    split at hk
    · exact .inl hk
    · rw [List.getElem?_singleton] at hk
      obtain ⟨hk', hp⟩ := Option.ite_none_right_eq_some.1 hk
      exact .inr ⟨by omega, (Option.some.inj hp).symm⟩
  intro a b p q ha hb heq hne
  rcases hlast a p ha with hp | ⟨ha', rfl⟩ <;> rcases hlast b q hb with hq | ⟨hb', rfl⟩
  · exact h a b p q hp hq heq hne
  · exact absurd heq (hnew p (List.mem_of_getElem? hp))
  · exact absurd heq.symm (hnew q (List.mem_of_getElem? hq))
  · exact ha'.trans hb'.symm

theorem Once.snoc_free (h : Once slots) (hfree : pub.id = "") : Once (slots ++ [pub]) := by
  intro a b p q ha hb heq hne
  rw [List.getElem?_append] at ha hb
  split at ha
  · split at hb
    · exact h a b p q ha hb heq hne
    · rw [List.getElem?_singleton] at hb
      obtain ⟨-, hq⟩ := Option.ite_none_right_eq_some.1 hb
      obtain rfl := Option.some.inj hq
      exact absurd (heq.trans hfree) hne
  · rw [List.getElem?_singleton] at ha
    obtain ⟨-, hp⟩ := Option.ite_none_right_eq_some.1 ha
    obtain rfl := Option.some.inj hp
    exact absurd hfree hne

/-- The slots in use, when each holds its own publication. -/
theorem Once.filter_nodup (h : Once slots) : (slots.filter fun pub => pub.id ≠ "").Nodup := by
  induction slots with
  | nil => exact List.nodup_nil
  | cons pub slots ih =>
    have htail : Once slots := by
      intro a b p q ha hb heq hne
      have := h (a + 1) (b + 1) p q (by simpa using ha) (by simpa using hb) heq hne
      omega
    rw [List.filter_cons]
    split
    · next hne =>
      rw [List.nodup_cons]
      refine ⟨?_, ih htail⟩
      intro hmem
      obtain ⟨k, hk, hget⟩ := List.getElem_of_mem (List.mem_filter.1 hmem).1
      have := h 0 (k + 1) pub pub rfl (by simp [hget, hk]) rfl (of_decide_eq_true hne)
      omega
    · exact ih htail

/-- A free slot is filled. -/
theorem Within.set (h : Within slots pubs) (hpub : pub.id = "" ∨ pub ∈ pubs) :
    Within (slots.set i pub) pubs := by
  intro other hother
  rcases List.mem_or_eq_of_mem_set hother with hother | rfl
  · exact h other hother
  · exact hpub

theorem Within.snoc (h : Within slots pubs) (hpub : pub.id = "" ∨ pub ∈ pubs) :
    Within (slots ++ [pub]) pubs := by
  intro other hother
  rcases List.mem_append.1 hother with hother | hother
  · exact h other hother
  · rw [List.mem_singleton.1 hother]
    exact hpub

end Slots

/-- What the receive slots are once the loops are over: at least the part of the plan
    that was reached, and nothing else. -/
theorem placeReceive_spec {publish : List VoicePublication}
    (hplan : (publish.map VoicePublication.id).Nodup) (hnamed : ∀ pub ∈ publish, pub.id ≠ "") :
    ∀ {todo slots : List VoicePublication} (room : ℕ), todo ⊆ publish → Once slots → Within slots publish →
      Once (placeReceive todo slots room).1 ∧ Within (placeReceive todo slots room).1 publish ∧
        ((placeReceive todo slots room).2 = true →
          ∀ pub, pub.id ≠ "" → pub ∈ slots ∨ pub ∈ todo → pub ∈ (placeReceive todo slots room).1) := by
  intro todo
  induction todo with
  | nil =>
    intro slots _ _ honce hwithin
    exact ⟨honce, hwithin, fun _ pub _ hpub => hpub.resolve_right (by simp)⟩
  | cons pub todo ih =>
    intro slots room hsub honce hwithin
    have hpub : pub ∈ publish := hsub List.mem_cons_self
    have hrest : todo ⊆ publish := fun other hother => hsub (List.mem_cons_of_mem _ hother)
    have hnew : pub ∉ slots → ∀ other ∈ slots, other.id ≠ pub.id := by
      intro hmem other hother heq
      rcases hwithin other hother with hfree | hin
      · exact hnamed pub hpub (heq ▸ hfree)
      · exact hmem (List.inj_on_of_nodup_map hplan hin hpub heq ▸ hother)
    rw [placeReceive]
    split
    · next hmem =>
      obtain ⟨h₁, h₂, h₃⟩ := ih room hrest honce hwithin
      refine ⟨h₁, h₂, fun hok other hne hother => h₃ hok other hne ?_⟩
      rcases hother with hother | hother
      · exact .inl hother
      · rcases List.mem_cons.1 hother with rfl | hother
        · exact .inl hmem
        · exact .inr hother
    next hmem =>
    split
    · next i hi =>
      obtain ⟨hlt, hfree, -⟩ := List.findIdx?_eq_some_iff_getElem.1 hi
      obtain ⟨h₁, h₂, h₃⟩ := ih room hrest (honce.set_new (i := i) (hnew hmem))
        (hwithin.set (i := i) (.inr hpub))
      refine ⟨h₁, h₂, fun hok other hne hother => h₃ hok other hne ?_⟩
      rcases hother with hother | hother
      · obtain ⟨k, hk, rfl⟩ := List.getElem_of_mem hother
        have hki : i ≠ k := by
          rintro rfl
          exact hne (of_decide_eq_true hfree)
        exact .inl (List.mem_of_getElem? (i := k) (by rw [List.getElem?_set_ne hki]; simp))
      · rcases List.mem_cons.1 hother with rfl | hother
        · exact .inl (List.mem_of_getElem? (i := i) (by simp [hlt]))
        · exact .inr hother
    · split
      · exact ⟨honce, hwithin, by simp⟩
      · obtain ⟨h₁, h₂, h₃⟩ := ih (room - 1) hrest (honce.snoc_new (hnew hmem))
          (hwithin.snoc (.inr hpub))
        refine ⟨h₁, h₂, fun hok other hne hother => h₃ hok other hne ?_⟩
        rcases hother with hother | hother
        · exact .inl (List.mem_append_left _ hother)
        · rcases List.mem_cons.1 hother with rfl | hother
          · exact .inl (List.mem_append_right _ List.mem_cons_self)
          · exact .inr hother

theorem syncReceive_spec {plan : Voice.VoiceConnectionPlan} {slots : List VoicePublication}
    (hplan : Planned plan) (honce : Once slots) (room : ℕ) :
    Once (syncReceive plan.publish slots room).1 ∧
      ((syncReceive plan.publish slots room).2 = true →
        ∀ pub, pub.id ≠ "" → (pub ∈ (syncReceive plan.publish slots room).1 ↔ pub ∈ plan.publish)) := by
  have hnodup : (plan.publish.map VoicePublication.id).Nodup :=
    (List.nodup_append.1 (List.map_append ▸ hplan.nodup)).1
  have hcleared : Once (slots.map fun pub => if pub ∈ plan.publish then pub else noPublication) := by
    intro a b p q ha hb heq hne
    rw [List.getElem?_map] at ha hb
    obtain ⟨p', hp', rfl⟩ := Option.map_eq_some_iff.1 ha
    obtain ⟨q', hq', rfl⟩ := Option.map_eq_some_iff.1 hb
    split at heq <;> split at heq
    · next h₁ h₂ =>
      rw [if_pos h₁] at hne
      exact honce a b p' q' hp' hq' heq hne
    · next h₁ h₂ =>
      rw [if_pos h₁] at hne
      exact absurd heq hne
    · next h₁ h₂ =>
      rw [if_neg h₁] at hne
      exact absurd rfl hne
    · next h₁ h₂ =>
      rw [if_neg h₁] at hne
      exact absurd rfl hne
  have hwithin : Within (slots.map fun pub => if pub ∈ plan.publish then pub else noPublication)
      plan.publish := by
    intro pub hpub
    obtain ⟨p, -, rfl⟩ := List.mem_map.1 hpub
    split
    · next h => exact .inr h
    · exact .inl rfl
  obtain ⟨h₁, h₂, h₃⟩ := placeReceive_spec hnodup (fun pub => hplan.publish_named) room
    (List.Subset.refl _) hcleared hwithin
  refine ⟨h₁, fun hok pub hne => ⟨fun hpub => (h₂ pub hpub).resolve_left hne, fun hpub => ?_⟩⟩
  exact h₃ hok pub hne (.inr hpub)

/-! ## One connection -/

namespace VoiceConnection

variable {c c' : VoiceConnection} {plan : Voice.VoiceConnectionPlan} {pub : VoicePublication} {o : Outcome}
  {g : ℕ → SendSlot → SendSlot} {i k source version : ℕ} {slot slot' : SendSlot}
  {todo : List VoicePublication}

/-- An active output is for a publication of the plan, and is listed under it. -/
structure Kept (c : VoiceConnection) : Prop where
  planned : Planned c.plan
  active : ∀ (i : ℕ) (slot : SendSlot), c.sendSlots[i]? = some slot → slot.active = true →
    c.closed = false ∧ slot.publication ∈ c.plan.subscribe ∧
      c.outgoing.get slot.publication.id = some i
  fed : ∀ (i : ℕ) (slot : SendSlot), c.sendSlots[i]? = some slot → slot.input ≠ none → slot.active = true
  listed : c.closed = false → ∀ (id : String) (i : ℕ), c.outgoing.get id = some i →
    ∃ slot, c.sendSlots[i]? = some slot ∧ slot.active = true ∧ slot.publication.id = id
  once : Once (c.sendSlots.map SendSlot.publication)
  onceIn : Once c.receiveSlots

/-- No slot carries a publication of the plan from which the pass has come to slot `i`. -/
def Duty (c : VoiceConnection) : Prop :=
  match c.signaler with
  | .dropping plan _ i => Planned plan ∧
      (∀ (k : ℕ) (slot : SendSlot), c.sendSlots[k]? = some slot → slot.active = true →
        slot.publication ∈ plan.subscribe) ∧
      ∀ (k : ℕ) (slot : SendSlot), k < i → c.sendSlots[k]? = some slot →
        slot.publication.id = "" ∨ slot.publication ∈ plan.subscribe
  | .clearing plan _ i => Planned plan ∧
      (∀ (k : ℕ) (slot : SendSlot), c.sendSlots[k]? = some slot → slot.active = true →
        slot.publication ∈ plan.subscribe ∧ k ≠ i) ∧
      ∀ (k : ℕ) (slot : SendSlot), k < i → c.sendSlots[k]? = some slot →
        slot.publication.id = "" ∨ slot.publication ∈ plan.subscribe
  | .adding plan _ todo => Planned plan ∧
      Within (c.sendSlots.map SendSlot.publication) plan.subscribe ∧ todo ⊆ plan.subscribe
  | .authorizing plan _ i pub todo => Planned plan ∧
      Within (c.sendSlots.map SendSlot.publication) plan.subscribe ∧ pub :: todo ⊆ plan.subscribe ∧
      ∃ slot, c.sendSlots[i]? = some slot ∧ slot.publication = pub
  | .describing plan _ => Planned plan ∧ Within (c.sendSlots.map SendSlot.publication) plan.subscribe
  | _ => True

/-- The slots change one by one. -/
def Slots (c c' : VoiceConnection) (g : ℕ → SendSlot → SendSlot) : Prop :=
  ∀ k, c'.sendSlots[k]? = c.sendSlots[k]?.map (g k)

theorem Slots.cut (h : Slots c c' g) (hk : c'.sendSlots[k]? = some slot') :
    ∃ slot, c.sendSlots[k]? = some slot ∧ g k slot = slot' :=
  Option.map_eq_some_iff.1 ((h k).symm.trans hk)

theorem Slots.at (h : Slots c c' g) (hk : c.sendSlots[k]? = some slot) :
    c'.sendSlots[k]? = some (g k slot) := by
  rw [h k, hk]
  rfl

theorem Slots.publications (h : Slots c c' g) (hg : ∀ k slot, (g k slot).publication = slot.publication) :
    c'.sendSlots.map SendSlot.publication = c.sendSlots.map SendSlot.publication := by
  refine List.ext_getElem? fun k => ?_
  rw [List.getElem?_map, List.getElem?_map, h k, Option.map_map]
  congr 1
  funext slot
  exact hg k slot

theorem slots_modify (f : SendSlot → SendSlot) (h : c'.sendSlots = c.sendSlots.modify i f) :
    Slots c c' fun k slot => if i = k then f slot else slot := by
  intro k
  rw [h, List.getElem?_modify]
  rfl

theorem slots_mapIdx (h : c'.sendSlots = c.sendSlots.mapIdx g) : Slots c c' g := by
  intro k
  rw [h, List.getElem?_mapIdx]

/-- What the owner does leaves the signaler's work in place: no slot changes its publication, and
    none comes on. -/
theorem Duty.owner (h : Duty c) (hsignaler : c'.signaler = c.signaler) (hslots : Slots c c' g)
    (hpub : ∀ k slot, (g k slot).publication = slot.publication)
    (hactive : ∀ k slot, (g k slot).active = true → slot.active = true) : Duty c' := by
  have hpubs := hslots.publications hpub
  rw [Duty] at h ⊢
  rw [hsignaler, hpubs]
  cases hphase : c.signaler with
  | dropping plan version i =>
    rw [hphase] at h
    obtain ⟨hplan, hin, hdone⟩ := h
    refine ⟨hplan, fun k slot' hk ha => ?_, fun k slot' hlt hk => ?_⟩
    · obtain ⟨slot, hslot, rfl⟩ := hslots.cut hk
      rw [hpub]
      exact hin k slot hslot (hactive k slot ha)
    · obtain ⟨slot, hslot, rfl⟩ := hslots.cut hk
      rw [hpub]
      exact hdone k slot hlt hslot
  | clearing plan version i =>
    rw [hphase] at h
    obtain ⟨hplan, hin, hdone⟩ := h
    refine ⟨hplan, fun k slot' hk ha => ?_, fun k slot' hlt hk => ?_⟩
    · obtain ⟨slot, hslot, rfl⟩ := hslots.cut hk
      rw [hpub]
      exact hin k slot hslot (hactive k slot ha)
    · obtain ⟨slot, hslot, rfl⟩ := hslots.cut hk
      rw [hpub]
      exact hdone k slot hlt hslot
  | authorizing plan version i pub todo =>
    rw [hphase] at h
    obtain ⟨hplan, hin, htodo, slot, hslot, hpub'⟩ := h
    exact ⟨hplan, hin, htodo, g i slot, hslots.at hslot, (hpub i slot).trans hpub'⟩
  | adding plan version todo =>
    rw [hphase] at h
    exact h
  | describing plan version =>
    rw [hphase] at h
    exact h
  | idle => trivial
  | answering answer => trivial
  | offering force => trivial

/-- Outputs lose their source, and that is all. -/
theorem Kept.unfed (h : Kept c) (hslots : Slots c c' g)
    (hpub : ∀ k slot, (g k slot).publication = slot.publication)
    (hactive : ∀ k slot, (g k slot).active = slot.active)
    (hinput : ∀ k slot, (g k slot).input ≠ none → slot.input ≠ none)
    (hplan : c'.plan = c.plan) (hclosed : c'.closed = c.closed) (houtgoing : c'.outgoing = c.outgoing)
    (hreceive : c'.receiveSlots = c.receiveSlots) : Kept c' where
  planned := hplan ▸ h.planned
  active := by
    intro k slot' hk ha
    obtain ⟨slot, hslot, rfl⟩ := hslots.cut hk
    rw [hclosed, hplan, houtgoing, hpub]
    exact h.active k slot hslot ((hactive k slot).symm.trans ha)
  fed := by
    intro k slot' hk hi
    obtain ⟨slot, hslot, rfl⟩ := hslots.cut hk
    rw [hactive]
    exact h.fed k slot hslot (hinput k slot hi)
  listed := by
    rw [hclosed, houtgoing]
    intro hopen id k hget
    obtain ⟨slot, hslot, ha, hid⟩ := h.listed hopen id k hget
    exact ⟨g k slot, hslots.at hslot, (hactive k slot).trans ha, by rw [hpub, hid]⟩
  once := by
    rw [hslots.publications hpub]
    exact h.once
  onceIn := hreceive ▸ h.onceIn

theorem detach_slots : Slots c (c.detach source) fun k slot =>
    if k ∈ c.outgoing.values then slot.detachFrom source else slot := slots_mapIdx rfl

theorem detachFrom_spec (slot : SendSlot) (source : ℕ) :
    (slot.detachFrom source).publication = slot.publication ∧
      (slot.detachFrom source).active = slot.active ∧
      (slot.detachFrom source).input ≠ some source ∧
      ∀ other, (slot.detachFrom source).input = some other → slot.input = some other := by
  rw [SendSlot.detachFrom]
  split
  · simp
  · next h => exact ⟨rfl, rfl, h, fun _ hi => hi⟩

theorem Kept.detach (h : Kept c) (source : ℕ) : Kept (c.detach source) := by
  refine h.unfed detach_slots (fun k slot => ?_) (fun k slot => ?_) (fun k slot => ?_) rfl rfl rfl rfl
  · split
    · exact (detachFrom_spec slot source).1
    · rfl
  · split
    · exact (detachFrom_spec slot source).2.1
    · rfl
  · split
    · intro hne hnone
      obtain ⟨other, hother⟩ := Option.ne_none_iff_exists'.1 hne
      rw [(detachFrom_spec slot source).2.2.2 other hother] at hnone
      cases hnone
    · exact id

theorem Duty.detach (h : Duty c) (source : ℕ) : Duty (c.detach source) := by
  refine h.owner rfl detach_slots (fun k slot => ?_) (fun k slot => ?_)
  · split
    · exact (detachFrom_spec slot source).1
    · rfl
  · split
    · rw [(detachFrom_spec slot source).2.1]
      exact id
    · exact id

/-- The active outputs are the listed ones. -/
theorem Kept.mem_outgoing (h : Kept c) (hk : c.sendSlots[k]? = some slot) (ha : slot.active = true) :
    k ∈ c.outgoing.values :=
  OMap.mem_values.2 ⟨_, (h.active k slot hk ha).2.2⟩

/-- Outputs that leave a source have left it. -/
theorem Kept.detach_input (h : Kept c) (hk : (c.detach source).sendSlots[k]? = some slot') :
    ∃ slot, c.sendSlots[k]? = some slot ∧ slot'.publication = slot.publication ∧
      ∀ other, slot'.input = some other → slot.input = some other ∧ other ≠ source := by
  obtain ⟨slot, hslot, rfl⟩ := detach_slots.cut hk
  refine ⟨slot, hslot, ?_, ?_⟩
  · split
    · exact (detachFrom_spec slot source).1
    · rfl
  · intro other hother
    split at hother
    · have hspec := detachFrom_spec slot source
      refine ⟨hspec.2.2.2 other hother, ?_⟩
      rintro rfl
      exact hspec.2.2.1 hother
    · next hout =>
      refine absurd (h.mem_outgoing hslot (h.fed k slot hslot ?_)) hout
      rw [hother]
      exact Option.some_ne_none other

theorem attach_slots (c : VoiceConnection) (pub : VoicePublication) (source : ℕ) (replaced : Bool) :
    Slots c (c.attach pub source replaced) fun k slot =>
      if c.outgoing.get pub.id = some k ∧ pub ∈ c.plan.subscribe then slot.attach pub source replaced
      else slot := by
  rw [attach]
  cases hget : c.outgoing.get pub.id with
  | none =>
    intro k
    simp
  | some i =>
    dsimp only
    by_cases hpub : pub ∈ c.plan.subscribe
    · rw [if_pos hpub]
      intro k
      refine (slots_modify _ rfl k).trans ?_
      simp [hpub]
    · rw [if_neg hpub]
      intro k
      simp [hpub]

theorem attach_frame (c : VoiceConnection) (pub : VoicePublication) (source : ℕ) (replaced : Bool) :
    ∃ slots, c.attach pub source replaced = { c with sendSlots := slots } := by
  rw [attach]
  split
  · exact ⟨_, rfl⟩
  · split
    · exact ⟨_, rfl⟩
    · exact ⟨_, rfl⟩

theorem slot_attach_spec (slot : SendSlot) (pub : VoicePublication) (source : ℕ) (replaced : Bool) :
    (slot.attach pub source replaced).publication = slot.publication ∧
      (slot.attach pub source replaced).active = slot.active ∧
      ((slot.attach pub source replaced).input = slot.input ∨
        slot.active = true ∧ slot.publication = pub ∧
          (slot.attach pub source replaced).input = some source) := by
  rw [SendSlot.attach]
  split
  · next h =>
    simp only [Bool.and_eq_true, decide_eq_true_eq] at h
    exact ⟨rfl, rfl, .inr ⟨h.1.1.1, h.1.1.2, rfl⟩⟩
  · exact ⟨rfl, rfl, .inl rfl⟩

theorem Kept.attach (h : Kept c) (pub : VoicePublication) (source : ℕ) (replaced : Bool) :
    Kept (c.attach pub source replaced) := by
  have hslots := attach_slots c pub source replaced
  have hpub : ∀ (k : ℕ) (slot : SendSlot), (if c.outgoing.get pub.id = some k ∧ pub ∈ c.plan.subscribe then
      slot.attach pub source replaced else slot).publication = slot.publication := by
    intro k slot
    split
    · exact (slot_attach_spec slot pub source replaced).1
    · rfl
  obtain ⟨slots, hc⟩ := attach_frame c pub source replaced
  refine ⟨?_, ?_, ?_, ?_, ?_, ?_⟩
  · rw [hc]
    exact h.planned
  · intro k slot' hk ha
    obtain ⟨slot, hslot, rfl⟩ := hslots.cut hk
    rw [hpub, hc]
    refine h.active k slot hslot ?_
    split at ha
    · rwa [(slot_attach_spec slot pub source replaced).2.1] at ha
    · exact ha
  · intro k slot' hk hi
    obtain ⟨slot, hslot, rfl⟩ := hslots.cut hk
    split at hi
    · next hout =>
      obtain ⟨-, ha, hin⟩ := slot_attach_spec slot pub source replaced
      rw [if_pos hout, ha]
      rcases hin with hin | ⟨hact, -, -⟩
      · exact h.fed k slot hslot (hin ▸ hi)
      · exact hact
    · next hout =>
      rw [if_neg hout]
      exact h.fed k slot hslot hi
  · rw [show (c.attach pub source replaced).closed = c.closed by rw [hc],
      show (c.attach pub source replaced).outgoing = c.outgoing by rw [hc]]
    intro hopen id k hget
    obtain ⟨slot, hslot, ha, hid⟩ := h.listed hopen id k hget
    refine ⟨_, hslots.at hslot, ?_, by rw [hpub, hid]⟩
    split
    · rw [(slot_attach_spec slot pub source replaced).2.1, ha]
    · exact ha
  · rw [hslots.publications hpub]
    exact h.once
  · rw [hc]
    exact h.onceIn

theorem Duty.attach (h : Duty c) (pub : VoicePublication) (source : ℕ) (replaced : Bool) :
    Duty (c.attach pub source replaced) := by
  obtain ⟨slots, hc⟩ := attach_frame c pub source replaced
  refine h.owner (by rw [hc]) (attach_slots c pub source replaced) (fun k slot => ?_) (fun k slot => ?_)
  · split
    · exact (slot_attach_spec slot pub source replaced).1
    · rfl
  · split
    · rw [(slot_attach_spec slot pub source replaced).2.1]
      exact id
    · exact id

theorem retire_slots : Slots c c.retire fun k slot =>
    if k ∈ c.outgoing.values then slot.disable else slot := slots_mapIdx rfl

theorem Kept.retire (h : Kept c) : Kept c.retire where
  planned := h.planned
  active := by
    intro k slot' hk ha
    obtain ⟨slot, hslot, rfl⟩ := retire_slots.cut hk
    split at ha
    · cases ha
    · next hout => exact absurd (h.mem_outgoing hslot ha) hout
  fed := by
    intro k slot' hk hi
    obtain ⟨slot, hslot, rfl⟩ := retire_slots.cut hk
    split at hi
    · exact absurd rfl hi
    · next hout =>
      rw [if_neg hout]
      exact h.fed k slot hslot hi
  listed := by
    intro hopen
    cases hopen
  once := by
    rw [retire_slots.publications fun k slot => by split <;> rfl]
    exact h.once
  onceIn := h.onceIn

theorem Duty.retire (h : Duty c) : Duty c.retire := by
  refine h.owner rfl (slots_mapIdx rfl) (fun k slot => by split <;> rfl) (fun k slot ha => ?_)
  split at ha
  · cases ha
  · exact ha

/-- The outputs that a plan leaves. -/
def keeps (c : VoiceConnection) (plan : Voice.VoiceConnectionPlan) (i : ℕ) : Bool :=
  (c.sendSlots[i]?).any fun slot => slot.publication ∈ plan.subscribe

theorem configure_slots : Slots c (c.configure plan) fun k slot =>
    if k ∈ c.outgoing.values && !c.keeps plan k then slot.disable else slot := slots_mapIdx rfl

/-- A plan takes effect on the outputs at once. -/
theorem Kept.configure (h : Kept c) (hopen : c.closed = false) (hplan : Planned plan) :
    Kept (c.configure plan) where
  planned := hplan
  active := by
    intro k slot' hk ha
    obtain ⟨slot, hslot, rfl⟩ := configure_slots.cut hk
    split at ha
    · cases ha
    next hkeep =>
    rw [if_neg hkeep]
    have hk : c.keeps plan k = true := by
      simpa [h.mem_outgoing hslot ha] using hkeep
    have hget := (h.active k slot hslot ha).2.2
    refine ⟨hopen, ?_, ?_⟩
    · rw [keeps, hslot] at hk
      exact of_decide_eq_true hk
    · show (c.outgoing.filter fun _ i => c.keeps plan i).get _ = _
      rw [OMap.get_filter, hget]
      simp [hk]
  fed := by
    intro k slot' hk hi
    obtain ⟨slot, hslot, rfl⟩ := configure_slots.cut hk
    split at hi
    · exact absurd rfl hi
    · next hout =>
      rw [if_neg hout]
      exact h.fed k slot hslot hi
  listed := by
    intro _ id k hget
    have hget' : ((c.outgoing.get id).filter fun i => c.keeps plan i) = some k :=
      (OMap.get_filter c.outgoing (fun _ i => c.keeps plan i) id).symm.trans hget
    rw [Option.filter_eq_some_iff] at hget'
    obtain ⟨slot, hslot, ha, hid⟩ := h.listed hopen id k hget'.1
    refine ⟨slot, ?_, ha, hid⟩
    rw [configure_slots k, hslot]
    simp [hget'.2]
  once := by
    rw [configure_slots.publications fun k slot => by split <;> rfl]
    exact h.once
  onceIn := h.onceIn

theorem Duty.configure (h : Duty c) (plan : Voice.VoiceConnectionPlan) : Duty (c.configure plan) := by
  refine h.owner rfl configure_slots (fun k slot => by split <;> rfl) (fun k slot ha => ?_)
  split at ha
  · cases ha
  · exact ha

/-! ## The signaler -/

theorem Kept.congr (h : Kept c) (hplan : c'.plan = c.plan) (hclosed : c'.closed = c.closed)
    (houtgoing : c'.outgoing = c.outgoing) (hslots : c'.sendSlots = c.sendSlots)
    (hreceive : c'.receiveSlots = c.receiveSlots) : Kept c' := by
  obtain ⟨h₁, h₂, h₃, h₄, h₅, h₆⟩ := h
  refine ⟨hplan ▸ h₁, ?_, hslots ▸ h₃, ?_, hslots ▸ h₅, hreceive ▸ h₆⟩
  · rw [hslots, hclosed, hplan, houtgoing]
    exact h₂
  · rw [hslots, hclosed, houtgoing]
    exact h₄

theorem Kept.fail (h : Kept c) : Kept c.fail := h.congr rfl rfl rfl rfl rfl

theorem Kept.offer (h : Kept c) (current force : Bool) (o : Outcome) :
    Kept (c.offer current force o) ∧ Duty (c.offer current force o) := by
  rw [VoiceConnection.offer]
  split
  · exact ⟨h.fail, trivial⟩
  dsimp only
  split
  · exact ⟨h.congr rfl rfl rfl rfl rfl, trivial⟩
  have honce := (syncReceive_spec h.planned h.onceIn o.room).1
  have hkept : Kept { c with
      renegotiate := c.renegotiate || force
      receiveSlots := (syncReceive c.plan.publish c.receiveSlots o.room).1 } :=
    ⟨h.planned, h.active, h.fed, h.listed, h.once, honce⟩
  split
  · refine ⟨hkept.congr rfl rfl rfl rfl rfl, h.planned, fun k slot hk ha => (h.active k slot hk ha).2.1, ?_⟩
    intro k slot hlt
    cases hlt
  · exact ⟨hkept.fail, trivial⟩

/-- A slot that is off has no source either. -/
theorem Kept.disable_eq (h : Kept c) (hk : c.sendSlots[k]? = some slot) (ha : slot.active = false) :
    slot.disable = slot := by
  have hin : slot.input = none := by
    by_contra hin
    rw [h.fed k slot hk hin] at ha
    cases ha
  obtain ⟨publication, active, input⟩ := slot
  obtain rfl : active = false := ha
  obtain rfl : input = none := hin
  rfl

theorem Kept.drop (h : Kept c) (hphase : c.signaler = .dropping plan version i) (hduty : Duty c) :
    Kept (c.drop plan version i) ∧ Duty (c.drop plan version i) := by
  rw [Duty, hphase] at hduty
  obtain ⟨hplan, hin, hdone⟩ := hduty
  rw [VoiceConnection.drop]
  split
  · next hnone =>
    refine ⟨h.congr rfl rfl rfl rfl rfl, hplan, ?_, List.Subset.refl _⟩
    intro pub hpub
    obtain ⟨slot, hslot, rfl⟩ := List.mem_map.1 hpub
    obtain ⟨k, hk, hget⟩ := List.getElem_of_mem hslot
    exact hdone k slot (lt_of_lt_of_le hk (List.getElem?_eq_none_iff.1 hnone)) (by simp [hk, hget])
  next slot hslot =>
  split
  · next hdrop =>
    have hoff : slot.active = false := by
      rw [Bool.eq_false_iff]
      exact fun ha => hdrop.2 (hin i slot hslot ha)
    have hset : c.sendSlots.set i slot.disable = c.sendSlots := by
      refine List.ext_getElem? fun k => ?_
      rw [List.getElem?_set, h.disable_eq hslot hoff]
      split
      · next hk =>
        subst hk
        have hlt : i < c.sendSlots.length := by
          by_contra hlt
          rw [List.getElem?_eq_none (not_lt.1 hlt)] at hslot
          cases hslot
        rw [if_pos hlt, hslot]
      · rfl
    rw [hset]
    refine ⟨h.congr rfl rfl rfl rfl rfl, hplan, fun k other hk ha => ⟨hin k other hk ha, ?_⟩, hdone⟩
    rintro rfl
    obtain rfl := Option.some.inj (hslot.symm.trans hk)
    rw [hoff] at ha
    cases ha
  · next hkeep =>
    refine ⟨h.congr rfl rfl rfl rfl rfl, hplan, hin, ?_⟩
    intro k other hlt hk
    rcases Nat.lt_succ_iff_lt_or_eq.1 hlt with hlt | rfl
    · exact hdone k other hlt hk
    · obtain rfl := Option.some.inj (hslot.symm.trans hk)
      by_contra hno
      rw [not_or] at hno
      exact hkeep hno

theorem setPublication_slots (c : VoiceConnection) (i : ℕ) (pub : VoicePublication) :
    Slots c (c.setPublication i pub) fun k slot =>
      if i = k then { slot with publication := pub } else slot := slots_modify _ rfl

theorem setPublication_publications (c : VoiceConnection) (i : ℕ) (pub : VoicePublication) :
    (c.setPublication i pub).sendSlots.map SendSlot.publication =
      (c.sendSlots.map SendSlot.publication).set i pub := by
  refine List.ext_getElem? fun k => ?_
  rw [List.getElem?_map, setPublication_slots c i pub k, List.getElem?_set, List.getElem?_map,
    Option.map_map, List.length_map]
  by_cases hik : i = k
  · subst hik
    rw [if_pos rfl]
    by_cases hlt : i < c.sendSlots.length
    · simp [hlt]
    · simp [hlt]
  · rw [if_neg hik]
    congr 1
    funext slot
    simp [hik]

/-- A slot that is off takes another publication. -/
theorem Kept.setPublication (h : Kept c)
    (hoff : ∀ slot, c.sendSlots[i]? = some slot → slot.active = false)
    (honce : Once ((c.sendSlots.map SendSlot.publication).set i pub)) : Kept (c.setPublication i pub) := by
  have hslots := setPublication_slots c i pub
  refine ⟨h.planned, ?_, ?_, ?_, ?_, h.onceIn⟩
  · intro k slot' hk ha
    obtain ⟨slot, hslot, rfl⟩ := hslots.cut hk
    split at ha
    · next hik =>
      subst hik
      exact absurd ((hoff slot hslot).symm.trans ha) Bool.false_ne_true
    · next hik =>
      rw [if_neg hik]
      exact h.active k slot hslot ha
  · intro k slot' hk hi
    obtain ⟨slot, hslot, rfl⟩ := hslots.cut hk
    split at hi
    · next hik =>
      rw [if_pos hik]
      exact h.fed k slot hslot hi
    · next hik =>
      rw [if_neg hik]
      exact h.fed k slot hslot hi
  · intro hopen id k hget
    obtain ⟨slot, hslot, ha, hid⟩ := h.listed hopen id k hget
    have hik : i ≠ k := by
      rintro rfl
      rw [hoff slot hslot] at ha
      cases ha
    refine ⟨slot, ?_, ha, hid⟩
    rw [hslots.at hslot, if_neg hik]
  · rw [setPublication_publications]
    exact honce

theorem Kept.clear (h : Kept c) (hphase : c.signaler = .clearing plan version i) (hduty : Duty c) :
    Kept { c.setPublication i noPublication with signaler := .dropping plan version (i + 1) } ∧
      Duty { c.setPublication i noPublication with signaler := .dropping plan version (i + 1) } := by
  rw [Duty, hphase] at hduty
  obtain ⟨hplan, hin, hdone⟩ := hduty
  have hoff : ∀ slot, c.sendSlots[i]? = some slot → slot.active = false := by
    intro slot hslot
    rw [Bool.eq_false_iff]
    exact fun ha => (hin i slot hslot ha).2 rfl
  have hslots := setPublication_slots c i noPublication
  refine ⟨(h.setPublication hoff (h.once.set_free rfl)).congr rfl rfl rfl rfl rfl, hplan, ?_, ?_⟩
  · intro k slot' hk ha
    obtain ⟨slot, hslot, rfl⟩ := hslots.cut hk
    split at ha
    · next hik =>
      subst hik
      rw [show slot.active = false from hoff slot hslot] at ha
      cases ha
    · next hik =>
      rw [if_neg hik]
      exact (hin k slot hslot ha).1
  · intro k slot' hlt hk
    obtain ⟨slot, hslot, rfl⟩ := hslots.cut hk
    by_cases hik : i = k
    · rw [if_pos hik]
      exact .inl rfl
    · rw [if_neg hik]
      exact hdone k slot (by omega) hslot

/-- A slot that is free is off. -/
theorem Kept.free_off (h : Kept c) (hi : c.sendSlots.findIdx? (·.publication.id = "") = some i) :
    ∀ slot, c.sendSlots[i]? = some slot → slot.active = false := by
  intro slot hslot
  obtain ⟨hlt, hfree, -⟩ := List.findIdx?_eq_some_iff_getElem.1 hi
  rw [List.getElem?_eq_getElem hlt] at hslot
  obtain rfl := Option.some.inj hslot
  rw [Bool.eq_false_iff]
  intro ha
  exact h.planned.subscribe_named (h.active i _ (List.getElem?_eq_getElem hlt) ha).2.1
    (of_decide_eq_true hfree)

theorem Kept.add (h : Kept c) (hphase : c.signaler = .adding plan version todo) (hduty : Duty c)
    (o : Outcome) : Kept (c.add plan version o todo) ∧ Duty (c.add plan version o todo) := by
  rw [Duty, hphase] at hduty
  obtain ⟨hplan, hin, htodo⟩ := hduty
  cases todo with
  | nil => exact ⟨h.congr rfl rfl rfl rfl rfl, hplan, hin⟩
  | cons pub todo =>
    have hpub : pub ∈ plan.subscribe := htodo List.mem_cons_self
    have hname := hplan.subscribe_named hpub
    rw [VoiceConnection.add]
    split
    · next i hi =>
      obtain ⟨hlt, heq, -⟩ := List.findIdx?_eq_some_iff_getElem.1 hi
      exact ⟨h.congr rfl rfl rfl rfl rfl, hplan, hin, htodo, c.sendSlots[i], by simp [hlt],
        of_decide_eq_true heq⟩
    next hnone =>
    have hnew : ∀ other ∈ c.sendSlots.map SendSlot.publication, other.id ≠ pub.id := by
      intro other hother heq
      rcases hin other hother with hfree | hmem
      · exact hname (heq ▸ hfree)
      · obtain rfl := hplan.eq_of_id (List.mem_append_right _ hmem) (List.mem_append_right _ hpub) heq
        obtain ⟨slot, hslot, hslot'⟩ := List.mem_map.1 hother
        have := List.findIdx?_eq_none_iff.1 hnone slot hslot
        simp [hslot'] at this
    split
    · next i hi =>
      obtain ⟨hlt, -, -⟩ := List.findIdx?_eq_some_iff_getElem.1 hi
      refine ⟨(h.setPublication (h.free_off hi) (h.once.set_new hnew)).congr rfl rfl rfl rfl rfl, hplan, ?_, htodo,
        { c.sendSlots[i] with publication := pub }, ?_, rfl⟩
      · show Within ((c.setPublication i pub).sendSlots.map SendSlot.publication) _
        rw [setPublication_publications]
        exact hin.set (.inr hpub)
      · show (c.setPublication i pub).sendSlots[i]? = _
        rw [setPublication_slots c i pub i, List.getElem?_eq_getElem hlt]
        simp
    · split
      · have hcut : ∀ (k : ℕ) (slot : SendSlot), (c.sendSlots ++ [({} : SendSlot)])[k]? = some slot →
            c.sendSlots[k]? = some slot ∨ slot = {} := by
          intro k slot hk
          rw [List.getElem?_append] at hk
          split at hk
          · exact .inl hk
          · rw [List.getElem?_singleton] at hk
            exact .inr (Option.some.inj (Option.ite_none_right_eq_some.1 hk).2).symm
        refine ⟨⟨h.planned, ?_, ?_, ?_, ?_, h.onceIn⟩, hplan, ?_, htodo⟩
        · intro k slot hk ha
          rcases hcut k slot hk with hk | rfl
          · exact h.active k slot hk ha
          · cases ha
        · intro k slot hk hi
          rcases hcut k slot hk with hk | rfl
          · exact h.fed k slot hk hi
          · exact absurd rfl hi
        · intro hopen id k hget
          obtain ⟨slot, hslot, hrest⟩ := h.listed hopen id k hget
          refine ⟨slot, ?_, hrest⟩
          show (c.sendSlots ++ [({} : SendSlot)])[k]? = some slot
          rw [List.getElem?_append_left (List.getElem?_eq_some_iff.1 hslot).1, hslot]
        · show Once ((c.sendSlots ++ [({} : SendSlot)]).map SendSlot.publication)
          rw [List.map_append]
          exact h.once.snoc_free rfl
        · show Within ((c.sendSlots ++ [({} : SendSlot)]).map SendSlot.publication) _
          rw [List.map_append]
          exact hin.snoc (.inl rfl)
      · exact ⟨h.fail, trivial⟩

theorem authorizeOutput_slots (c : VoiceConnection) (i : ℕ) (pub : VoicePublication) :
    Slots c (c.authorizeOutput i pub) fun k slot =>
      if i = k then { slot with active := !c.closed && pub ∈ c.plan.subscribe } else slot :=
  slots_modify _ rfl

theorem authorizeOutput_get (c : VoiceConnection) (i : ℕ) (pub : VoicePublication) (id : String) :
    (c.authorizeOutput i pub).outgoing.get id =
      if id = pub.id ∧ (!c.closed && pub ∈ c.plan.subscribe) = true then some i else c.outgoing.get id := by
  show (if (!c.closed && decide (pub ∈ c.plan.subscribe)) = true then _ else _ : OMap String ℕ).get id = _
  by_cases hactive : (!c.closed && decide (pub ∈ c.plan.subscribe)) = true
  · rw [if_pos hactive, OMap.get_set]
    simp [hactive]
  · rw [if_neg hactive, if_neg fun h => hactive h.2]

/-- An output comes on under the plan of this moment. -/
theorem Kept.authorizeOutput (h : Kept c) (hi : c.sendSlots[i]? = some slot)
    (hpub : slot.publication = pub) (hname : pub.id ≠ "") : Kept (c.authorizeOutput i pub) := by
  have hslots := authorizeOutput_slots c i pub
  have hget := authorizeOutput_get c i pub
  have hother : ∀ (k : ℕ) (other : SendSlot), c.sendSlots[k]? = some other →
      other.publication.id = pub.id → k = i := by
    intro k other hk heq
    refine h.once k i other.publication pub ?_ ?_ heq (heq ▸ hname)
    · rw [List.getElem?_map, hk]
      rfl
    · rw [List.getElem?_map, hi, ← hpub]
      rfl
  have hstays : slot.active = true → (!c.closed && decide (pub ∈ c.plan.subscribe)) = true := by
    intro ha
    obtain ⟨hopen, hmem, -⟩ := h.active i slot hi ha
    rw [hpub] at hmem
    simp [hopen, hmem]
  refine ⟨h.planned, ?_, ?_, ?_, ?_, h.onceIn⟩
  · intro k slot' hk ha
    obtain ⟨other, hother', rfl⟩ := hslots.cut hk
    split at ha
    · next hik =>
      subst hik
      obtain rfl := Option.some.inj (hi.symm.trans hother')
      rw [if_pos rfl]
      have hact := ha
      simp only [Bool.and_eq_true, Bool.not_eq_true', decide_eq_true_eq] at ha
      refine ⟨ha.1, by rw [hpub]; exact ha.2, ?_⟩
      rw [hget, if_pos ⟨by rw [hpub], hact⟩]
    · next hik =>
      rw [if_neg hik]
      obtain ⟨hopen, hmem, hlisted⟩ := h.active k other hother' ha
      refine ⟨hopen, hmem, ?_⟩
      rw [hget, if_neg ?_, hlisted]
      intro heq
      exact hik (hother k other hother' heq.1).symm
  · intro k slot' hk hin
    obtain ⟨other, hother', rfl⟩ := hslots.cut hk
    split at hin
    · next hik =>
      subst hik
      obtain rfl := Option.some.inj (hi.symm.trans hother')
      rw [if_pos rfl]
      exact hstays (h.fed i slot hother' hin)
    · next hik =>
      rw [if_neg hik]
      exact h.fed k other hother' hin
  · intro hopen id k hk
    rw [hget] at hk
    split at hk
    · next hid =>
      obtain rfl := Option.some.inj hk
      refine ⟨_, hslots.at hi, ?_, ?_⟩
      · rw [if_pos rfl]
        exact hid.2
      · rw [if_pos rfl]
        show slot.publication.id = id
        rw [hpub, hid.1]
    · next hid =>
      obtain ⟨other, hother', ha, hoid⟩ := h.listed hopen id k hk
      have hik : i ≠ k := by
        rintro rfl
        obtain rfl := Option.some.inj (hi.symm.trans hother')
        exact hid ⟨by rw [← hoid, hpub], hstays ha⟩
      refine ⟨other, ?_, ha, hoid⟩
      rw [hslots.at hother', if_neg hik]
  · rw [hslots.publications fun k slot => by split <;> rfl]
    exact h.once

theorem Kept.authorize (h : Kept c) (hphase : c.signaler = .authorizing plan version i pub todo)
    (hduty : Duty c) :
    Kept { c.authorizeOutput i pub with signaler := .adding plan version todo } ∧
      Duty { c.authorizeOutput i pub with signaler := .adding plan version todo } := by
  rw [Duty, hphase] at hduty
  obtain ⟨hplan, hin, htodo, slot, hslot, hpub⟩ := hduty
  refine ⟨(h.authorizeOutput hslot hpub (hplan.subscribe_named (htodo List.mem_cons_self))).congr
    rfl rfl rfl rfl rfl, hplan, ?_, fun other hother => htodo (List.mem_cons_of_mem _ hother)⟩
  show Within ((c.authorizeOutput i pub).sendSlots.map SendSlot.publication) _
  rw [(authorizeOutput_slots c i pub).publications fun k slot => by split <;> rfl]
  exact hin

theorem Kept.answer (h : Kept c) (answer : VoiceDescription) (o : Outcome) :
    Kept (c.answer answer o) ∧ Duty (c.answer answer o) := by
  have hrest : Kept c.rest ∧ Duty c.rest := ⟨h.congr rfl rfl rfl rfl rfl, trivial⟩
  rw [VoiceConnection.answer]
  split
  · exact hrest
  split
  · exact hrest
  split
  · exact hrest
  split
  · exact hrest
  dsimp only
  split
  · exact ⟨h.congr rfl rfl rfl rfl rfl, trivial⟩
  · exact ⟨h.congr rfl rfl rfl rfl rfl, trivial⟩

/-- One section of the signaler, whatever the library answers. -/
theorem Kept.turn (h : Kept c) (hduty : Duty c) {current : Bool} (ht : c.turn current o = some c') :
    Kept c' ∧ Duty c' := by
  rw [VoiceConnection.turn] at ht
  cases hphase : c.signaler with
  | idle =>
    rw [hphase] at ht
    cases ht
  | answering answer =>
    rw [hphase] at ht
    obtain rfl := Option.some.inj ht
    exact h.answer answer o
  | offering force =>
    rw [hphase] at ht
    obtain rfl := Option.some.inj ht
    exact h.offer current force o
  | dropping plan version i =>
    rw [hphase] at ht
    obtain rfl := Option.some.inj ht
    exact h.drop hphase hduty
  | clearing plan version i =>
    rw [hphase] at ht
    obtain rfl := Option.some.inj ht
    exact h.clear hphase hduty
  | adding plan version todo =>
    rw [hphase] at ht
    obtain rfl := Option.some.inj ht
    exact h.add hphase hduty o
  | authorizing plan version i pub todo =>
    rw [hphase] at ht
    obtain rfl := Option.some.inj ht
    exact h.authorize hphase hduty
  | describing plan version =>
    rw [hphase] at ht
    obtain rfl := Option.some.inj ht
    split
    · exact ⟨h.congr rfl rfl rfl rfl rfl, trivial⟩
    · exact ⟨h.fail, trivial⟩

theorem Kept.signal (h : Kept c) (hidle : c.signaler.isIdle = true) (current : Bool) (signal : VoiceSignal) :
    Kept (c.signal current signal) ∧ Duty (c.signal current signal) := by
  have hduty : Duty c := by
    rw [Duty]
    cases hphase : c.signaler with
    | idle => trivial
    | _ =>
      rw [hphase] at hidle
      cases hidle
  rw [VoiceConnection.signal]
  split
  · exact ⟨h, hduty⟩
  split
  · exact ⟨h.congr rfl rfl rfl rfl rfl, trivial⟩
  · split
    · exact ⟨h, hduty⟩
    · exact ⟨h.congr rfl rfl rfl rfl rfl, hduty⟩
  · exact ⟨h.congr rfl rfl rfl rfl rfl, trivial⟩
  · exact ⟨h, hduty⟩

/-- What other connections see of this one stays. -/
structure Alike (c c' : VoiceConnection) : Prop where
  key : c'.key = c.key
  closed : c'.closed = c.closed
  publish : c'.plan.publish = c.plan.publish
  bindings : c'.bindings = c.bindings

/-- An output that is fed now was fed before, for the same publication. -/
def Unfed (c c' : VoiceConnection) : Prop :=
  ∀ (k : ℕ) (slot' : SendSlot) (source : ℕ), c'.sendSlots[k]? = some slot' → slot'.input = some source →
    ∃ slot, c.sendSlots[k]? = some slot ∧ slot.input = some source ∧
      slot.publication = slot'.publication

theorem Unfed.of_eq (h : c'.sendSlots = c.sendSlots) : Unfed c c' := by
  intro k slot' source hk hi
  exact ⟨slot', h ▸ hk, hi, rfl⟩

theorem Slots.unfed (h : Slots c c' g) (hg : ∀ k slot, c.sendSlots[k]? = some slot →
    ∀ source, (g k slot).input = some source →
      slot.input = some source ∧ slot.publication = (g k slot).publication) : Unfed c c' := by
  intro k slot' source hk hi
  obtain ⟨slot, hslot, rfl⟩ := h.cut hk
  exact ⟨slot, hslot, hg k slot hslot source hi⟩

theorem configure_unfed : Unfed c (c.configure plan) := by
  refine configure_slots.unfed fun k slot _ source hi => ?_
  split at hi
  · cases hi
  · next hkeep =>
    rw [if_neg hkeep]
    exact ⟨hi, rfl⟩

theorem retire_unfed : Unfed c c.retire := by
  refine retire_slots.unfed fun k slot _ source hi => ?_
  split at hi
  · cases hi
  · next hout =>
    rw [if_neg hout]
    exact ⟨hi, rfl⟩

theorem Kept.setPublication_unfed (h : Kept c)
    (hoff : ∀ slot, c.sendSlots[i]? = some slot → slot.active = false) :
    Unfed c (c.setPublication i pub) := by
  refine (setPublication_slots c i pub).unfed fun k slot hslot source hi => ?_
  split at hi
  · next hik =>
    subst hik
    have ha := h.fed i slot hslot (by rw [show slot.input = some source from hi]; simp)
    exact absurd ((hoff slot hslot).symm.trans ha) Bool.false_ne_true
  · next hik =>
    rw [if_neg hik]
    exact ⟨hi, rfl⟩

theorem authorizeOutput_unfed : Unfed c (c.authorizeOutput i pub) := by
  refine (authorizeOutput_slots c i pub).unfed fun k slot _ source hi => ?_
  split at hi
  · next hik =>
    rw [if_pos hik]
    exact ⟨hi, rfl⟩
  · next hik =>
    rw [if_neg hik]
    exact ⟨hi, rfl⟩

theorem offer_alike (current force : Bool) : Alike c (c.offer current force o) ∧
    Unfed c (c.offer current force o) := by
  rw [VoiceConnection.offer]
  split
  · exact ⟨⟨rfl, rfl, rfl, rfl⟩, .of_eq rfl⟩
  dsimp only
  split
  · exact ⟨⟨rfl, rfl, rfl, rfl⟩, .of_eq rfl⟩
  split
  · exact ⟨⟨rfl, rfl, rfl, rfl⟩, .of_eq rfl⟩
  · exact ⟨⟨rfl, rfl, rfl, rfl⟩, .of_eq rfl⟩

theorem answer_alike (answer : VoiceDescription) : Alike c (c.answer answer o) ∧
    Unfed c (c.answer answer o) := by
  rw [VoiceConnection.answer]
  split
  · exact ⟨⟨rfl, rfl, rfl, rfl⟩, .of_eq rfl⟩
  split
  · exact ⟨⟨rfl, rfl, rfl, rfl⟩, .of_eq rfl⟩
  split
  · exact ⟨⟨rfl, rfl, rfl, rfl⟩, .of_eq rfl⟩
  split
  · exact ⟨⟨rfl, rfl, rfl, rfl⟩, .of_eq rfl⟩
  dsimp only
  split
  · exact ⟨⟨rfl, rfl, rfl, rfl⟩, .of_eq rfl⟩
  · exact ⟨⟨rfl, rfl, rfl, rfl⟩, .of_eq rfl⟩

theorem drop_alike : Alike c (c.drop plan version i) ∧ Unfed c (c.drop plan version i) := by
  rw [VoiceConnection.drop]
  split
  · exact ⟨⟨rfl, rfl, rfl, rfl⟩, .of_eq rfl⟩
  next slot hslot =>
  split
  · refine ⟨⟨rfl, rfl, rfl, rfl⟩, ?_⟩
    intro k slot' source hk hi
    rw [List.getElem?_set] at hk
    split at hk
    · obtain ⟨-, hk⟩ := Option.ite_none_right_eq_some.1 hk
      obtain rfl := Option.some.inj hk
      cases hi
    · exact ⟨slot', hk, hi, rfl⟩
  · exact ⟨⟨rfl, rfl, rfl, rfl⟩, .of_eq rfl⟩

theorem Kept.add_alike (h : Kept c) : Alike c (c.add plan version o todo) ∧
    Unfed c (c.add plan version o todo) := by
  cases todo with
  | nil => exact ⟨⟨rfl, rfl, rfl, rfl⟩, .of_eq rfl⟩
  | cons pub todo =>
    rw [VoiceConnection.add]
    split
    · exact ⟨⟨rfl, rfl, rfl, rfl⟩, .of_eq rfl⟩
    split
    · next i hi => exact ⟨⟨rfl, rfl, rfl, rfl⟩, h.setPublication_unfed (h.free_off hi)⟩
    split
    · refine ⟨⟨rfl, rfl, rfl, rfl⟩, ?_⟩
      intro k slot' source hk hi
      rw [List.getElem?_append] at hk
      split at hk
      · exact ⟨slot', hk, hi, rfl⟩
      · rw [List.getElem?_singleton] at hk
        obtain ⟨-, hk⟩ := Option.ite_none_right_eq_some.1 hk
        obtain rfl := Option.some.inj hk
        cases hi
    · exact ⟨⟨rfl, rfl, rfl, rfl⟩, .of_eq rfl⟩

/-- The signaler feeds no output. -/
theorem Kept.turn_alike (h : Kept c) (hduty : Duty c) {current : Bool}
    (ht : c.turn current o = some c') : Alike c c' ∧ Unfed c c' := by
  rw [VoiceConnection.turn] at ht
  cases hphase : c.signaler with
  | idle =>
    rw [hphase] at ht
    cases ht
  | answering answer =>
    rw [hphase] at ht
    obtain rfl := Option.some.inj ht
    exact answer_alike answer
  | offering force =>
    rw [hphase] at ht
    obtain rfl := Option.some.inj ht
    exact offer_alike current force
  | dropping plan version i =>
    rw [hphase] at ht
    obtain rfl := Option.some.inj ht
    exact drop_alike
  | clearing plan version i =>
    rw [hphase] at ht
    obtain rfl := Option.some.inj ht
    rw [Duty, hphase] at hduty
    refine ⟨⟨rfl, rfl, rfl, rfl⟩, h.setPublication_unfed fun slot hslot => ?_⟩
    rw [Bool.eq_false_iff]
    exact fun ha => (hduty.2.1 i slot hslot ha).2 rfl
  | adding plan version todo =>
    rw [hphase] at ht
    obtain rfl := Option.some.inj ht
    exact h.add_alike
  | authorizing plan version i pub todo =>
    rw [hphase] at ht
    obtain rfl := Option.some.inj ht
    exact ⟨⟨rfl, rfl, rfl, rfl⟩, authorizeOutput_unfed⟩
  | describing plan version =>
    rw [hphase] at ht
    obtain rfl := Option.some.inj ht
    split
    · exact ⟨⟨rfl, rfl, rfl, rfl⟩, .of_eq rfl⟩
    · exact ⟨⟨rfl, rfl, rfl, rfl⟩, .of_eq rfl⟩

theorem signal_alike (current : Bool) (signal : VoiceSignal) : Alike c (c.signal current signal) ∧
    (c.signal current signal).sendSlots = c.sendSlots := by
  rw [VoiceConnection.signal]
  split
  · exact ⟨⟨rfl, rfl, rfl, rfl⟩, rfl⟩
  split
  · exact ⟨⟨rfl, rfl, rfl, rfl⟩, rfl⟩
  · split
    · exact ⟨⟨rfl, rfl, rfl, rfl⟩, rfl⟩
    · exact ⟨⟨rfl, rfl, rfl, rfl⟩, rfl⟩
  · exact ⟨⟨rfl, rfl, rfl, rfl⟩, rfl⟩
  · exact ⟨⟨rfl, rfl, rfl, rfl⟩, rfl⟩

end VoiceConnection

end Piik.Sfu
