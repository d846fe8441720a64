/-
  `Source.planGroups` (`app/mediaedge/groups.go`): the encoder slots are shared by
  groups of consumers that ask for one bitrate.

  A group is never replaced, so it is named by its slot.  The sources that
  packets come from are numbered as they are made.
-/
import Mathlib

namespace Piik.Edge

/-! ## Groups and demands -/

/-- The consumers of one encoding share a group. -/
structure OutputGroup where
  slot : ℕ
  /-- `media.Source`. -/
  media : ℕ
  budget : ℕ
  active : Bool := false
  start : ℤ := 0
  clockPending : Bool := false
  deriving DecidableEq

/-- What a consumer asks for. -/
structure OutputDemand (ι : Type) where
  consumer : ι
  budget : ℕ
  active : Bool
  lower : Bool
  original : Bool
  deriving DecidableEq

/-- The demand shares in the groups. -/
def OutputDemand.shares {ι : Type} (d : OutputDemand ι) : Bool := d.active && d.lower

/-- What the encoder is told. -/
structure OutputPlan where
  active : List Bool
  bitrates : List ℕ
  deriving DecidableEq

/-- The error texts, and the panic of an index out of range. -/
inductive PlanError
  | new (text : String)
  | newGroup (slot : ℕ)
  | indexOutOfRange
  deriving DecidableEq

/-- What `planGroups` reads and writes. -/
structure Source (ι : Type) where
  formats : ℕ
  media : ℕ
  outputBitrates : List ℕ
  groups : List OutputGroup := []
  /-- `some none` is an entry that is `nil`. -/
  memberships : ι → Option (Option ℕ) := fun _ => none
  groupRecovery : ℕ := 0
  inputPTS : ℤ := 0
  relay : Bool := false
  /-- `consumer.CurrentSource()`. -/
  current : ι → ℕ
  /-- The sources made so far. -/
  made : ℕ

namespace Source

variable {ι : Type} [DecidableEq ι] (s : Source ι) (demands : List (OutputDemand ι))

/-- `source.memberships[consumer]`. -/
def member (c : ι) : Option ℕ := (s.memberships c).join

/-- The group of a slot. -/
def group? (slot : ℕ) : Option OutputGroup := s.groups.find? (·.slot = slot)

/-- The bitrate of a slot. -/
def bitrate (slot : ℕ) : ℕ := s.outputBitrates.getD slot 0


/-- The consumer is attached to the group, or a member of it. -/
def uses (c : ι) (group : OutputGroup) : Bool :=
  s.current c == group.media || s.member c == some group.slot

/-- Nobody who uses the group asks for another budget. -/
def compatible (group : OutputGroup) (demand : OutputDemand ι) : Bool :=
  demands.all fun other =>
    !(other.shares && other.budget != demand.budget && s.uses other.consumer group)

/-- The group that a media source belongs to. -/
def groupForMedia (media : ℕ) : Option OutputGroup := s.groups.find? (·.media = media)

/-- An active consumer uses the group. -/
def inUse (group : OutputGroup) : Bool :=
  group.active && demands.any fun demand => demand.active && s.uses demand.consumer group

/-! ## The passes -/

/-- The maps are made by the first call. -/
def prepare : Source ι :=
  if s.groups = [] then
    { s with groups := [{ slot := 0, media := s.media, budget := s.bitrate 0 }]
             memberships := fun _ => none }
  else s

/-- A consumer without a demand loses its membership. -/
def dropAbsent : Source ι :=
  { s with memberships := fun c =>
      if demands.any fun d => d.consumer = c then s.memberships c else none }

/-- A pending join of the demand's consumer that others no longer allow. -/
def stale (demand : OutputDemand ι) : Bool :=
  demand.shares && ((s.member demand.consumer).bind s.group?).any fun group =>
    s.current demand.consumer ≠ group.media && !s.compatible demands group demand

/-- A membership that does not suit its demand any more is withdrawn. -/
def revalidate (demand : OutputDemand ι) : Source ι :=
  if s.stale demands demand then
    { s with memberships := Function.update s.memberships demand.consumer none }
  else s

/-- The memberships are revalidated one after the other, so that each sees the earlier ones. -/
def revalidateAll : Source ι := demands.foldl (fun s demand => s.revalidate demands demand) s

/-- The first group in use of the demand's budget, or else the first of its budget. -/
def matching (demand : OutputDemand ι) : List ℕ → Option OutputGroup → Option OutputGroup
  | [], selected => selected
  | slot :: slots, selected =>
    match s.group? slot with
    | none => matching demand slots selected
    | some group =>
      if s.bitrate slot = 0 ∨ group.budget ≠ demand.budget then matching demand slots selected
      else if s.current demand.consumer ≠ group.media && !s.compatible demands group demand then
        matching demand slots selected
      else if s.inUse demands group then some group
      else matching demand slots (selected.or (some group))

/-- The groups that may change their budget in place, the demand's own ones first. -/
def ordered (demand : OutputDemand ι) (selected : Option OutputGroup) : List OutputGroup :=
  let owned := [(s.member demand.consumer).bind s.group?,
    s.groupForMedia (s.current demand.consumer)].reduceOption
  owned.filter (s.inUse demands) ++ selected.toList ++ owned ++
    ((List.range s.outputBitrates.length).map s.group?).reduceOption

/-- The group that a demand may join: one in use if there is one. -/
def select (demand : OutputDemand ι) : Option OutputGroup :=
  let selected := s.matching demands demand (List.range s.outputBitrates.length) none
  if selected.any (s.inUse demands) then selected
  else ((s.ordered demands demand selected).find? fun group =>
    s.bitrate group.slot ≠ 0 && s.compatible demands group demand).or selected

/-- The first slot for a new group. -/
def freeSlot : Option ℕ :=
  ((List.range s.outputBitrates.length).drop 2).find? fun slot =>
    (s.group? slot).isNone && 0 < s.bitrate slot

/-- The slot whose group the demand is given. -/
def chosen (demand : OutputDemand ι) : Option ℕ :=
  ((s.select demands demand).map (·.slot)).or s.freeSlot

/-- A group for a slot that has none. -/
def newGroup (slot : ℕ) : Source ι :=
  { s with made := s.made + 1
           groups := s.groups ++ [{ slot, media := s.made, budget := 0, start := s.inputPTS
                                    clockPending := s.relay }] }

/-- The demand is given the group. -/
def assign (demand : OutputDemand ι) (slot : ℕ) : Source ι :=
  { s with
    groups := s.groups.map fun group =>
      if group.slot = slot then
        { group with budget := demand.budget, start := if group.active then group.start else s.inputPTS }
      else group
    groupRecovery :=
      if s.member demand.consumer ≠ some slot ∧
          ((s.group? slot).map (·.media)) ≠ some (s.current demand.consumer) then
        s.groupRecovery ||| (1 <<< slot % 2 ^ 32)
      else s.groupRecovery
    memberships := Function.update s.memberships demand.consumer (some (some slot)) }

/-- The consumer gets nothing. -/
def clear (demand : OutputDemand ι) : Source ι :=
  { s with
    groupRecovery := if (s.member demand.consumer).isSome then s.groupRecovery ||| 2 else s.groupRecovery
    memberships := Function.update s.memberships demand.consumer (some none) }

/-- One round of the loop over the demands; `newGroup` may fail. -/
def serve (failing : ℕ → Bool) (demand : OutputDemand ι) : Except (PlanError × Source ι) (Source ι) :=
  if !demand.shares then .ok (s.clear demand) else
  match s.select demands demand with
  | some group => .ok (s.assign demand group.slot)
  | none => match s.freeSlot with
    | none => .ok s
    | some slot =>
      if failing slot then .error (.newGroup slot, s)
      else .ok ((s.newGroup slot).assign demand slot)

/-- The demands one after the other, until one fails. -/
def serveAll (failing : ℕ → Bool) (l : List (OutputDemand ι)) :
    Except (PlanError × Source ι) (Source ι) :=
  l.foldlM (fun s demand => s.serve demands failing demand) s

/-- Somebody wants the original. -/
def wantsOriginal : Bool := demands.any fun demand => demand.active && demand.original

/-- The group is to be encoded. -/
def wanted (group : OutputGroup) : Bool :=
  (group.slot == 0 && wantsOriginal demands && !demands.any OutputDemand.shares) ||
    demands.any fun demand => demand.active && (s.member demand.consumer == some group.slot ||
      s.current demand.consumer == group.media &&
        (demand.lower || !demand.original || group.slot != 0))

/-- The group will be encoded. -/
def nextActive (group : OutputGroup) : Bool := s.wanted demands group && 0 < s.bitrate group.slot

/-- The group as it will be. -/
def activate (group : OutputGroup) : OutputGroup :=
  { group with
    clockPending := group.clockPending || s.nextActive demands group && !group.active && s.relay
    active := s.nextActive demands group }

variable (codecBudget : ℕ → ℤ → ℤ)

/-- The loop over the groups fills in the plan. -/
def fill (plan : OutputPlan) (group : OutputGroup) : OutputPlan :=
  { active := plan.active.set group.slot group.active
    bitrates := if group.active then
        plan.bitrates.set group.slot
          (max 1000 (min (codecBudget group.media group.budget) (s.bitrate group.slot))).toNat
      else plan.bitrates }

/-- Nothing active but the original, where it is wanted. -/
def emptyPlan : OutputPlan :=
  { active := (List.replicate s.outputBitrates.length false).set 1 (wantsOriginal demands)
    bitrates := s.outputBitrates }

/-- The groups as they will be, and what the encoder is told of them. -/
def finish : Source ι × OutputPlan :=
  let groups := s.groups.map (s.activate demands)
  ({ s with groups }, groups.foldl (s.fill codecBudget) (s.emptyPlan demands))

/-- The state before the demands are served. -/
def begun : Source ι := (s.prepare.dropAbsent demands).revalidateAll demands

/-- The whole pass: revalidate, serve every demand, activate. -/
def planGroups (failing : ℕ → Bool) : Source ι × Except PlanError OutputPlan :=
  if s.formats ≠ 2 ∨ s.outputBitrates.length < 2 then
    (s, .error (.new "shared output groups need an original and derived slot"))
  -- the last loop indexes the slot of every group
  else if s.groups.any fun group => s.outputBitrates.length ≤ group.slot then
    (s, .error .indexOutOfRange)
  else match (s.begun demands).serveAll demands failing demands with
    | .error (err, s) => (s, .error err)
    | .ok s =>
      let (s, plan) := s.finish demands codecBudget
      (s, .ok plan)

/-! ## Groups by their slots -/

variable {s demands} {s' s₁ s₂ : Source ι} {failing : ℕ → Bool} {d : OutputDemand ι}
  {group : OutputGroup} {slot k : ℕ} {c : ι} {l : List (OutputDemand ι)}

/-- The budget of the group in a slot. -/
def budgetOf (s : Source ι) (slot : ℕ) : Option ℕ := (s.group? slot).map (·.budget)

/-- Every group has its own slot, the memberships are of groups, and what is yet to be made is
    nobody's source. -/
structure WellFormed (s : Source ι) : Prop where
  slots : (s.groups.map (·.slot)).Nodup
  member : ∀ c k, s.member c = some k → (s.group? k).isSome = true
  medias : ∀ group ∈ s.groups, group.media < s.made
  media : s.media < s.made
  current : ∀ c, s.current c < s.made

omit [DecidableEq ι] in
theorem group?_some (h : s.group? slot = some group) : group ∈ s.groups ∧ group.slot = slot :=
  ⟨List.mem_of_find?_eq_some h, by simpa using List.find?_some h⟩

omit [DecidableEq ι] in
theorem group?_of_mem (h : s.WellFormed) (hg : group ∈ s.groups) :
    s.group? group.slot = some group := by
  have hsome : (s.group? group.slot).isSome = true :=
    List.find?_isSome.2 ⟨group, hg, decide_eq_true rfl⟩
  obtain ⟨found, hfound⟩ := Option.isSome_iff_exists.1 hsome
  obtain ⟨hmem, hslot⟩ := group?_some hfound
  rw [hfound, List.inj_on_of_nodup_map h.slots hmem hg hslot]

omit [DecidableEq ι] in
theorem group?_map {f : OutputGroup → OutputGroup} (hf : ∀ group, (f group).slot = group.slot)
    (hs : s'.groups = s.groups.map f) : s'.group? k = (s.group? k).map f := by
  rw [group?, hs, List.find?_map]
  congr 2
  funext group
  simp [hf]

theorem group?_assign : (s.assign d slot).group? k = (s.group? k).map fun group =>
    if group.slot = slot then
      { group with budget := d.budget, start := if group.active then group.start else s.inputPTS }
    else group :=
  group?_map (fun group => by split <;> rfl) rfl

omit [DecidableEq ι] in
theorem group?_newGroup (hk : s.group? slot = none) : (s.newGroup slot).group? k =
    if k = slot then some { slot, media := s.made, budget := 0, start := s.inputPTS
                            clockPending := s.relay } else s.group? k := by
  rw [group?, newGroup, List.find?_append]
  by_cases h : k = slot
  · subst h
    have : s.groups.find? (fun group => decide (group.slot = k)) = none := hk
    simp [this]
  · have hne : ¬ slot = k := fun heq => h heq.symm
    simp [h, hne, group?]

theorem budgetOf_assign : (s.assign d slot).budgetOf k =
    if k = slot then (s.group? k).map fun _ => d.budget else s.budgetOf k := by
  rw [budgetOf, group?_assign, Option.map_map]
  cases hk : s.group? k with
  | none => simp [budgetOf, hk]
  | some group =>
    obtain ⟨-, hslot⟩ := group?_some hk
    by_cases h : k = slot
    · simp [hslot, h]
    · simp [budgetOf, hk, hslot, h]

@[simp] theorem member_assign_self : (s.assign d slot).member d.consumer = some slot := by
  simp [member, assign]

theorem memberships_assign_of_ne (h : c ≠ d.consumer) :
    (s.assign d slot).memberships c = s.memberships c :=
  Function.update_of_ne h _ _

/-! ## What is selected -/

omit [DecidableEq ι] in
theorem matching_spec {slots : List ℕ} {selected : Option OutputGroup}
    (h : s.matching demands d slots selected = some group)
    (hselected : ∀ group ∈ selected, group ∈ s.groups ∧ group.budget = d.budget) :
    group ∈ s.groups ∧ group.budget = d.budget := by
  induction slots generalizing selected with
  | nil => exact hselected group h
  | cons slot slots ih =>
    rw [matching] at h
    split at h
    · exact ih h hselected
    rename_i found hfound
    split at h
    · exact ih h hselected
    rename_i hbudget
    have hfits : found ∈ s.groups ∧ found.budget = d.budget :=
      ⟨(group?_some hfound).1, by simpa using fun hne => hbudget (.inr hne)⟩
    split at h
    · exact ih h hselected
    split at h
    · exact Option.some.inj h ▸ hfits
    · refine ih h fun g hg => ?_
      cases selected with
      | none =>
        obtain rfl := Option.some.inj hg
        exact hfits
      | some _ => exact hselected g hg

omit [DecidableEq ι] in
theorem mem_ordered {selected : Option OutputGroup} (hselected : ∀ group ∈ selected, group ∈ s.groups)
    (h : group ∈ s.ordered demands d selected) : group ∈ s.groups := by
  have howned : ∀ g ∈ [(s.member d.consumer).bind s.group?,
      s.groupForMedia (s.current d.consumer)].reduceOption, g ∈ s.groups := by
    intro g hg
    rcases (by simpa [List.reduceOption_mem_iff] using hg) with hg | hg
    · obtain ⟨k, -, hk⟩ := Option.bind_eq_some_iff.1 hg.symm
      exact (group?_some hk).1
    · exact List.mem_of_find?_eq_some hg.symm
  simp only [ordered, List.mem_append] at h
  rcases h with ((h | h) | h) | h
  · exact howned group (List.mem_filter.1 h).1
  · exact hselected group (by simpa using h)
  · exact howned group h
  · rw [List.reduceOption_mem_iff, List.mem_map] at h
    obtain ⟨k, -, hk⟩ := h
    exact (group?_some hk).1

omit [DecidableEq ι] in
/-- A selected group has the demand's budget, or nobody is in the way of changing it. -/
theorem select_spec (h : s.select demands d = some group) :
    group ∈ s.groups ∧ (group.budget = d.budget ∨ s.compatible demands group d = true) := by
  simp only [select] at h
  have hmatching : ∀ g, s.matching demands d (List.range s.outputBitrates.length) none = some g →
      g ∈ s.groups ∧ g.budget = d.budget := by
    intro g hg
    exact matching_spec hg nofun
  split at h
  · obtain ⟨hmem, hbudget⟩ := hmatching group h
    exact ⟨hmem, .inl hbudget⟩
  · rcases Option.or_eq_some_iff.1 h with hfound | ⟨-, hselected⟩
    · have hcompatible := List.find?_some hfound
      simp only [Bool.and_eq_true, decide_eq_true_eq] at hcompatible
      exact ⟨mem_ordered (fun g hg => (hmatching g hg).1) (List.mem_of_find?_eq_some hfound),
        .inr hcompatible.2⟩
    · obtain ⟨hmem, hbudget⟩ := hmatching group hselected
      exact ⟨hmem, .inl hbudget⟩

omit [DecidableEq ι] in
theorem freeSlot_spec (h : s.freeSlot = some slot) : s.group? slot = none := by
  have := List.find?_some h
  simp only [Bool.and_eq_true, Option.isNone_iff_eq_none] at this
  exact this.1

/-- A round gives the demand the chosen group, or leaves everything as it is. -/
theorem serve_spec (hs : s.serve demands failing d = .ok s') (hd : d.shares = true) :
    (s.chosen demands d = none ∧ s' = s) ∨
    (∃ group, s.chosen demands d = some group.slot ∧ group ∈ s.groups ∧
      (group.budget = d.budget ∨ s.compatible demands group d = true) ∧
      s' = s.assign d group.slot) ∨
    ∃ slot, s.chosen demands d = some slot ∧ s.group? slot = none ∧
      s' = (s.newGroup slot).assign d slot := by
  simp only [serve, hd, Bool.not_true, Bool.false_eq_true, if_false] at hs
  split at hs
  · rename_i group hselect
    obtain ⟨hmem, hbudget⟩ := select_spec hselect
    refine .inr (.inl ⟨group, by simp [chosen, hselect], hmem, hbudget, (Except.ok.inj hs).symm⟩)
  · rename_i hselect
    split at hs
    · rename_i hfree
      exact .inl ⟨by simp [chosen, hselect, hfree], (Except.ok.inj hs).symm⟩
    · rename_i slot hfree
      split at hs
      · cases hs
      · exact .inr (.inr ⟨slot, by simp [chosen, hselect, hfree], freeSlot_spec hfree,
          (Except.ok.inj hs).symm⟩)

/-! ## One round -/

omit [DecidableEq ι] in
theorem budgetOf_some : s.budgetOf slot = some k ↔ ∃ group, s.group? slot = some group ∧
    group.budget = k := by
  simp [budgetOf]

omit [DecidableEq ι] in
theorem uses_of_compatible (h : s.compatible demands group d = true) :
    ∀ o ∈ demands, o.shares = true → o.budget ≠ d.budget → s.uses o.consumer group = false := by
  intro o ho hshares hbudget
  have := List.all_eq_true.1 h o ho
  simpa [hshares, hbudget] using this

/-- A budget changes only where nobody who uses the group asks for another one. -/
theorem budget_changed (hwf : s.WellFormed) (hs : s.serve demands failing d = .ok s')
    (hgroup : s'.group? slot = some group) (hchanged : s.budgetOf slot ≠ some group.budget) :
    ∀ o ∈ demands, o.shares = true → o.budget ≠ d.budget → s.uses o.consumer group = false := by
  cases hd : d.shares with
  | false =>
    simp only [serve, hd, Bool.not_false, if_true] at hs
    obtain rfl := Except.ok.inj hs
    exact absurd (budgetOf_some.2 ⟨group, hgroup, rfl⟩) hchanged
  | true =>
    rcases serve_spec hs hd with ⟨-, rfl⟩ | ⟨given, -, hmem, hbudget, rfl⟩ | ⟨slot', -, hfree, rfl⟩
    · exact absurd (budgetOf_some.2 ⟨group, hgroup, rfl⟩) hchanged
    · rw [group?_assign, Option.map_eq_some_iff] at hgroup
      obtain ⟨old, hold, rfl⟩ := hgroup
      by_cases hslot : old.slot = given.slot
      · have hsame := List.inj_on_of_nodup_map hwf.slots (group?_some hold).1 hmem hslot
        subst hsame
        rw [if_pos rfl]
        rcases hbudget with hbudget | hcompatible
        · refine absurd (budgetOf_some.2 ⟨old, hold, ?_⟩) hchanged
          simpa using hbudget
        · exact uses_of_compatible hcompatible
      · rw [if_neg hslot] at hchanged
        exact absurd (budgetOf_some.2 ⟨old, hold, rfl⟩) hchanged
    · intro o _ _ _
      rw [group?_assign, Option.map_eq_some_iff] at hgroup
      obtain ⟨old, hold, rfl⟩ := hgroup
      rw [group?_newGroup hfree] at hold
      split at hold
      · -- the new group is nobody's yet
        rename_i hslot
        subst hslot
        obtain rfl := Option.some.inj hold
        have hcurrent := (hwf.current o.consumer).ne
        have hmember : s.member o.consumer ≠ some slot := by
          intro hmember
          have := hwf.member _ _ hmember
          rw [hfree] at this
          cases this
        simp [uses, hcurrent, hmember]
      · rename_i hslot
        have hne : ¬ old.slot = slot' := (group?_some hold).2 ▸ hslot
        rw [if_neg hne] at hchanged
        exact absurd (budgetOf_some.2 ⟨old, hold, rfl⟩) hchanged

theorem serve_current (hs : s.serve demands failing d = .ok s') :
    s'.current = s.current ∧ s'.outputBitrates = s.outputBitrates := by
  cases hd : d.shares with
  | false =>
    simp only [serve, hd, Bool.not_false, if_true] at hs
    obtain rfl := Except.ok.inj hs
    exact ⟨rfl, rfl⟩
  | true =>
    rcases serve_spec hs hd with ⟨-, rfl⟩ | ⟨_, -, -, -, rfl⟩ | ⟨_, -, -, rfl⟩ <;> exact ⟨rfl, rfl⟩

theorem serve_memberships (hs : s.serve demands failing d = .ok s') (hc : c ≠ d.consumer) :
    s'.memberships c = s.memberships c := by
  cases hd : d.shares with
  | false =>
    simp only [serve, hd, Bool.not_false, if_true] at hs
    obtain rfl := Except.ok.inj hs
    exact Function.update_of_ne hc _ _
  | true =>
    rcases serve_spec hs hd with ⟨-, rfl⟩ | ⟨_, -, -, -, rfl⟩ | ⟨_, -, -, rfl⟩
    · rfl
    · exact memberships_assign_of_ne hc
    · exact memberships_assign_of_ne hc

omit [DecidableEq ι] in
theorem member_of_memberships (h : s'.memberships c = s.memberships c) : s'.member c = s.member c := by
  rw [member, h, member]

theorem WellFormed.assign (h : s.WellFormed) (hslot : (s.group? slot).isSome = true) :
    (s.assign d slot).WellFormed where
  slots := by
    have hmap : (s.assign d slot).groups.map (·.slot) = s.groups.map (·.slot) := by
      simp only [Source.assign, List.map_map]
      congr 1
      funext group
      simp only [Function.comp]
      split <;> rfl
    exact hmap ▸ h.slots
  member c k hc := by
    rw [group?_assign, Option.isSome_map]
    by_cases heq : c = d.consumer
    · subst heq
      rw [member_assign_self] at hc
      exact Option.some.inj hc ▸ hslot
    · rw [member_of_memberships (memberships_assign_of_ne heq)] at hc
      exact h.member c k hc
  medias group hg := by
    obtain ⟨old, hold, rfl⟩ := List.mem_map.1 hg
    have := h.medias old hold
    split <;> exact this
  media := h.media
  current := h.current

omit [DecidableEq ι] in
theorem WellFormed.newGroup (h : s.WellFormed) (hslot : s.group? slot = none) :
    (s.newGroup slot).WellFormed where
  slots := by
    have hout : ∀ group ∈ s.groups, group.slot ≠ slot := by
      intro group hg heq
      have := group?_of_mem h hg
      rw [heq, hslot] at this
      cases this
    simp only [Source.newGroup, List.map_append, List.map_cons, List.map_nil]
    refine List.nodup_append.2 ⟨h.slots, List.nodup_singleton slot, ?_⟩
    intro k hk k' hk'
    obtain ⟨group, hg, rfl⟩ := List.mem_map.1 hk
    rw [List.mem_singleton.1 hk']
    exact hout group hg
  member c k hc := by
    rw [group?_newGroup hslot]
    split
    · rfl
    · exact h.member c k hc
  medias group hg := by
    rcases List.mem_append.1 hg with hg | hg
    · exact Nat.lt_succ_of_lt (h.medias group hg)
    · rw [List.mem_singleton.1 hg]
      exact Nat.lt_succ_self _
  media := Nat.lt_succ_of_lt h.media
  current c := Nat.lt_succ_of_lt (h.current c)

omit [DecidableEq ι] in
/-- Taking memberships away keeps what is well formed. -/
theorem WellFormed.memberships (h : s.WellFormed) {memberships : ι → Option (Option ℕ)}
    (hsub : ∀ c k, (memberships c).join = some k → s.member c = some k) {groupRecovery : ℕ} :
    WellFormed { s with memberships, groupRecovery } :=
  { h with member := fun c k hc => h.member c k (hsub c k hc) }

theorem WellFormed.clear (h : s.WellFormed) : (s.clear d).WellFormed := by
  refine h.memberships fun c k hc => ?_
  by_cases heq : c = d.consumer
  · subst heq
    simp at hc
  · rw [Function.update_of_ne heq] at hc
    exact hc

theorem WellFormed.serve (h : s.WellFormed) (hs : s.serve demands failing d = .ok s') :
    s'.WellFormed := by
  cases hd : d.shares with
  | false =>
    simp only [Source.serve, hd, Bool.not_false, if_true] at hs
    obtain rfl := Except.ok.inj hs
    exact h.clear
  | true =>
    rcases serve_spec hs hd with ⟨-, rfl⟩ | ⟨group, -, hmem, -, rfl⟩ | ⟨slot, -, hfree, rfl⟩
    · exact h
    · exact h.assign (by rw [group?_of_mem h hmem]; rfl)
    · exact (h.newGroup hfree).assign (by rw [group?_newGroup hfree, if_pos rfl]; rfl)

/-! ## All rounds -/

theorem serveAll_cons : s.serveAll demands failing (d :: l) = .ok s' ↔
    ∃ s₁, s.serve demands failing d = .ok s₁ ∧ s₁.serveAll demands failing l = .ok s' := by
  rw [serveAll, List.foldlM_cons]
  cases hs : s.serve demands failing d with
  | error err => simp [bind, Except.bind]
  | ok s₁ => simp [bind, Except.bind, serveAll]

theorem serveAll_nil : s.serveAll demands failing [] = .ok s' ↔ s = s' := by
  rw [serveAll, List.foldlM_nil]
  exact ⟨Except.ok.inj, congrArg _⟩

theorem serveAll_append {l' : List (OutputDemand ι)} :
    s.serveAll demands failing (l ++ l') = .ok s' ↔
      ∃ s₁, s.serveAll demands failing l = .ok s₁ ∧ s₁.serveAll demands failing l' = .ok s' := by
  induction l generalizing s with
  | nil => simp [serveAll_nil]
  | cons d l ih =>
    rw [List.cons_append, serveAll_cons]
    constructor
    · rintro ⟨s₁, hs, hrest⟩
      obtain ⟨s₂, hl, hl'⟩ := ih.1 hrest
      exact ⟨s₂, serveAll_cons.2 ⟨s₁, hs, hl⟩, hl'⟩
    · rintro ⟨s₂, hl, hl'⟩
      obtain ⟨s₁, hs, hl⟩ := serveAll_cons.1 hl
      exact ⟨s₁, hs, ih.2 ⟨s₂, hl, hl'⟩⟩

/-- What every round keeps, all rounds keep. -/
theorem serveAll_invariant {P : Source ι → Prop} (hs : s.serveAll demands failing l = .ok s')
    (hinit : P s)
    (hstep : ∀ d ∈ l, ∀ s s', P s → s.serve demands failing d = .ok s' → P s') : P s' := by
  induction l generalizing s with
  | nil => exact serveAll_nil.1 hs ▸ hinit
  | cons d l ih =>
    obtain ⟨s₁, hd, hl⟩ := serveAll_cons.1 hs
    exact ih hl (hstep d List.mem_cons_self s s₁ hinit hd)
      fun d' hd' => hstep d' (List.mem_cons_of_mem _ hd')

theorem serveAll_memberships (hs : s.serveAll demands failing l = .ok s')
    (hc : c ∉ l.map (·.consumer)) : s'.memberships c = s.memberships c := by
  refine serveAll_invariant (P := fun s' => s'.memberships c = s.memberships c) hs rfl ?_
  intro d hd s₁ s₂ ih hs₁
  rw [serve_memberships hs₁, ih]
  rintro rfl
  exact hc (List.mem_map.2 ⟨d, hd, rfl⟩)

/-- The demand's consumer is a member of the group in the slot, and the group has its budget. -/
structure Given (s : Source ι) (d : OutputDemand ι) (slot : ℕ) : Prop where
  wellFormed : s.WellFormed
  member : s.member d.consumer = some slot
  budget : s.budgetOf slot = some d.budget

/-- A later round does not take away what a demand was given. -/
theorem Given.serve {d' : OutputDemand ι} (h : s.Given d slot) (hmem : d ∈ demands)
    (hd : d.shares = true) (hne : d.consumer ≠ d'.consumer)
    (hs : s.serve demands failing d' = .ok s') : s'.Given d slot := by
  have hmember : s'.member d.consumer = some slot := by
    rw [member_of_memberships (serve_memberships hs hne), h.member]
  have hwf := h.wellFormed.serve hs
  refine ⟨hwf, hmember, ?_⟩
  obtain ⟨group, hgroup⟩ := Option.isSome_iff_exists.1 (hwf.member _ _ hmember)
  by_contra hbudget
  have hkept : ¬ group.budget = d.budget := fun heq => hbudget (budgetOf_some.2 ⟨group, hgroup, heq⟩)
  have hchanged : s.budgetOf slot ≠ some group.budget := by
    rw [h.budget]
    exact fun heq => hkept (Option.some.inj heq).symm
  -- the new budget is the other demand's, which the first one stands against
  have hnew : group.budget = d'.budget := by
    cases hd' : d'.shares with
    | false =>
      simp only [Source.serve, hd', Bool.not_false, if_true] at hs
      obtain rfl := Except.ok.inj hs
      exact absurd (budgetOf_some.2 ⟨group, hgroup, rfl⟩) hchanged
    | true =>
      rcases serve_spec hs hd' with ⟨-, rfl⟩ | ⟨given, -, -, -, rfl⟩ | ⟨slot', -, hfree, rfl⟩
      · exact absurd (budgetOf_some.2 ⟨group, hgroup, rfl⟩) hchanged
      · have hvalue := budgetOf_some.2 ⟨group, hgroup, rfl⟩
        rw [budgetOf_assign] at hvalue
        split at hvalue
        · simp only [Option.map_eq_some_iff] at hvalue
          obtain ⟨_, -, heq⟩ := hvalue
          exact heq.symm
        · exact absurd hvalue hchanged
      · have hsome := h.wellFormed.member _ _ h.member
        have hvalue := budgetOf_some.2 ⟨group, hgroup, rfl⟩
        rw [budgetOf_assign] at hvalue
        split at hvalue
        · simp only [Option.map_eq_some_iff] at hvalue
          obtain ⟨_, -, heq⟩ := hvalue
          exact heq.symm
        · rename_i hslot
          rw [budgetOf, group?_newGroup hfree, if_neg hslot] at hvalue
          exact absurd hvalue hchanged
  have huses := budget_changed h.wellFormed hs hgroup hchanged d hmem hd
    (fun heq => hkept (hnew.trans heq.symm))
  obtain ⟨-, hslot⟩ := group?_some hgroup
  simp [uses, h.member, hslot] at huses

theorem Given.serveAll (h : s.Given d slot) (hmem : d ∈ demands) (hd : d.shares = true)
    (hne : d.consumer ∉ l.map (·.consumer)) (hs : s.serveAll demands failing l = .ok s') :
    s'.Given d slot := by
  refine serveAll_invariant (P := fun s => s.Given d slot) hs h ?_
  intro d' hd' s₁ s₂ hgiven hs₁
  refine hgiven.serve hmem hd ?_ hs₁
  intro heq
  exact hne (List.mem_map.2 ⟨d', hd', heq.symm⟩)

/-- The round of a demand gives it what is chosen. -/
theorem given_of_serve (hwf : s.WellFormed) (hs : s.serve demands failing d = .ok s')
    (hd : d.shares = true) (hchosen : s.chosen demands d = some slot) : s'.Given d slot := by
  refine ⟨hwf.serve hs, ?_, ?_⟩ <;>
    rcases serve_spec hs hd with ⟨hnone, -⟩ | ⟨group, hsome, hmem, -, rfl⟩ | ⟨k, hsome, hfree, rfl⟩
  · rw [hchosen] at hnone
    cases hnone
  · rw [hchosen] at hsome
    obtain rfl := Option.some.inj hsome
    exact member_assign_self
  · rw [hchosen] at hsome
    obtain rfl := Option.some.inj hsome
    exact member_assign_self
  · rw [hchosen] at hnone
    cases hnone
  · rw [hchosen] at hsome
    obtain rfl := Option.some.inj hsome
    rw [budgetOf_assign, if_pos rfl, group?_of_mem hwf hmem]
    rfl
  · rw [hchosen] at hsome
    obtain rfl := Option.some.inj hsome
    rw [budgetOf_assign, if_pos rfl, group?_newGroup hfree, if_pos rfl]
    rfl

/-! ## Before and after the rounds -/

omit [DecidableEq ι] in
theorem WellFormed.prepare (h : s.WellFormed) : s.prepare.WellFormed := by
  unfold Source.prepare
  split
  · exact ⟨by simp, nofun, by simpa using h.media, h.media, h.current⟩
  · exact h

omit [DecidableEq ι] in
theorem member_prepare (h : s.WellFormed) (c : ι) : s.prepare.member c = s.member c := by
  unfold Source.prepare
  split
  · rename_i hnil
    cases hc : s.member c with
    | none => rfl
    | some k =>
      have := h.member c k hc
      simp [group?, hnil] at this
  · rfl

/-- The demand's consumer waits for a join that others do not allow: another demand that shares in the
    groups asks for another budget, and its consumer is attached to the group or stands in it. -/
def Opposed (s : Source ι) (demands : List (OutputDemand ι)) (stands : ι → ℕ → Prop)
    (d : OutputDemand ι) : Prop :=
  d.shares = true ∧ ∃ group ∈ s.prepare.groups, s.member d.consumer = some group.slot ∧
    s.current d.consumer ≠ group.media ∧ ∃ o ∈ demands, o.shares = true ∧ o.budget ≠ d.budget ∧
      (s.current o.consumer = group.media ∨ stands o.consumer group.slot)

/-- The consumer is still a member of the group in the slot after the pass over the pending joins
    has seen these demands, the last one first in the list. -/
def Stands (s : Source ι) (demands : List (OutputDemand ι)) : List (OutputDemand ι) → ι → ℕ → Prop
  | [], c, slot => s.member c = some slot
  | d :: seen, c, slot => s.Stands demands seen c slot ∧
      ¬(d.consumer = c ∧ s.Opposed demands (s.Stands demands seen) d)

/-- The pass withdraws the join that the demand's consumer waits for, after the demands in front
    of it. -/
def Withdrawn (s : Source ι) (demands before : List (OutputDemand ι)) (d : OutputDemand ι) : Prop :=
  s.Opposed demands (s.Stands demands before.reverse) d

omit [DecidableEq ι] in
theorem member_of_stands {seen : List (OutputDemand ι)} (h : s.Stands demands seen c slot) :
    s.member c = some slot := by
  induction seen with
  | nil => exact h
  | cons d seen ih => exact ih h.1

omit [DecidableEq ι] in
/-- Only the consumer's own demand takes its membership. -/
theorem stands_append {seen rest : List (OutputDemand ι)} (hc : c ∉ seen.map (·.consumer)) :
    s.Stands demands (seen ++ rest) c slot ↔ s.Stands demands rest c slot := by
  induction seen with
  | nil => exact Iff.rfl
  | cons d seen ih =>
    rw [List.map_cons, List.mem_cons, not_or] at hc
    rw [List.cons_append, Stands, ih hc.2]
    exact and_iff_left fun h => hc.1 h.1.symm

omit [DecidableEq ι] in
/-- A consumer with one demand stands where it was, unless the pass withdraws its join. -/
theorem stands_iff {before after : List (OutputDemand ι)} (hdemands : demands = before ++ d :: after)
    (hdistinct : (demands.map (·.consumer)).Nodup) :
    s.Stands demands demands.reverse d.consumer slot ↔
      s.member d.consumer = some slot ∧ ¬s.Withdrawn demands before d := by
  have hout := hdistinct
  rw [hdemands, List.map_append, List.map_cons, List.nodup_append] at hout
  have hafter : d.consumer ∉ after.reverse.map (·.consumer) := by
    rw [List.map_reverse, List.mem_reverse]
    exact (List.nodup_cons.1 hout.2.1).1
  have hbefore : d.consumer ∉ before.reverse.map (·.consumer) := by
    rw [List.map_reverse, List.mem_reverse]
    exact fun hmem => hout.2.2 _ hmem _ (by simp) rfl
  have hreverse : demands.reverse = after.reverse ++ d :: before.reverse := by simp [hdemands]
  have hown : s.Stands demands before.reverse d.consumer slot ↔ s.member d.consumer = some slot := by
    have hstands : s.Stands demands (before.reverse ++ []) d.consumer slot ↔ s.Stands demands [] d.consumer slot :=
      stands_append hbefore
    rwa [List.append_nil] at hstands
  rw [hreverse, stands_append hafter, Stands, hown]
  simp [Withdrawn]

/-- What the passes before the rounds do to the memberships, once they have seen these demands. -/
structure Dropped (s₀ : Source ι) (demands seen : List (OutputDemand ι)) (s : Source ι) : Prop where
  groups : s.groups = s₀.prepare.groups
  current : s.current = s₀.current
  bitrates : s.outputBitrates = s₀.outputBitrates
  wellFormed : s.WellFormed
  absent : ∀ c, c ∉ demands.map (·.consumer) → s.memberships c = none
  member : ∀ c, c ∈ demands.map (·.consumer) → ∀ slot,
    s.member c = some slot ↔ s₀.Stands demands seen c slot

theorem dropped_dropAbsent (h : s.WellFormed) :
    s.Dropped demands [] (s.prepare.dropAbsent demands) where
  groups := rfl
  current := by
    unfold prepare
    split <;> rfl
  bitrates := by
    unfold prepare
    split <;> rfl
  wellFormed := by
    refine h.prepare.memberships fun c k hc => ?_
    split at hc
    · exact hc
    · cases hc
  absent c hc := by
    refine if_neg fun hany => hc ?_
    obtain ⟨d, hd, hcons⟩ := List.any_eq_true.1 hany
    exact List.mem_map.2 ⟨d, hd, by simpa using hcons⟩
  member c hc slot := by
    obtain ⟨d, hd, rfl⟩ := List.mem_map.1 hc
    have hany : (demands.any fun d' => decide (d'.consumer = d.consumer)) = true :=
      List.any_eq_true.2 ⟨d, hd, by simp⟩
    have hmember : (s.prepare.dropAbsent demands).member d.consumer = s.member d.consumer :=
      (congrArg Option.join (if_pos hany)).trans (member_prepare h _)
    rw [hmember, Stands]

omit [DecidableEq ι] in
theorem compatible_eq_false : s.compatible demands group d = false ↔ ∃ o ∈ demands,
    o.shares = true ∧ o.budget ≠ d.budget ∧
      (s.current o.consumer = group.media ∨ s.member o.consumer = some group.slot) := by
  simp [compatible, uses, List.all_eq_false, or_iff_not_imp_left]

omit [DecidableEq ι] in
/-- The pass takes the membership of a consumer exactly where its join is opposed. -/
theorem Dropped.stale_iff {s₀ : Source ι} {seen : List (OutputDemand ι)}
    (h : s₀.Dropped demands seen s) (hc : s.member d.consumer = some slot)
    (hd : d ∈ demands) :
    s.stale demands d = true ↔ s₀.Opposed demands (s₀.Stands demands seen) d := by
  have hmember : s₀.member d.consumer = some slot :=
    member_of_stands ((h.member _ (List.mem_map_of_mem hd) slot).1 hc)
  have hothers : ∀ group : OutputGroup, s.compatible demands group d = false ↔ ∃ o ∈ demands,
      o.shares = true ∧ o.budget ≠ d.budget ∧
        (s₀.current o.consumer = group.media ∨ s₀.Stands demands seen o.consumer group.slot) := by
    intro group
    rw [compatible_eq_false]
    refine exists_congr fun o => and_congr_right fun ho => ?_
    rw [h.current, h.member _ (List.mem_map_of_mem ho)]
  simp only [stale, hc, Option.bind_some, Bool.and_eq_true, Option.any_eq_true, decide_eq_true_eq,
    Bool.not_eq_true', hothers, h.current]
  refine and_congr_right fun _ => ?_
  constructor
  · rintro ⟨group, hgroup, hcurrent, hopposed⟩
    obtain ⟨hmem, rfl⟩ := group?_some hgroup
    exact ⟨group, h.groups ▸ hmem, hmember, hcurrent, hopposed⟩
  · rintro ⟨group, hmem, hslot, hcurrent, hopposed⟩
    obtain rfl := Option.some.inj (hmember.symm.trans hslot)
    exact ⟨group, group?_of_mem h.wellFormed (h.groups ▸ hmem), hcurrent, hopposed⟩

theorem Dropped.revalidate {s₀ : Source ι} {seen : List (OutputDemand ι)}
    (h : s₀.Dropped demands seen s) (hd : d ∈ demands) :
    s₀.Dropped demands (d :: seen) (s.revalidate demands d) := by
  have hstep : ∀ c ∈ demands.map (·.consumer), ∀ slot, (s.revalidate demands d).member c = some slot ↔
      s.member c = some slot ∧ ¬(d.consumer = c ∧ s.stale demands d = true) := by
    intro c hc slot
    unfold Source.revalidate
    split
    · next hstale =>
      by_cases heq : c = d.consumer
      · simp [heq, Source.member, hstale]
      · have hsame : Source.member
            { s with memberships := Function.update s.memberships d.consumer none } c = s.member c :=
          member_of_memberships (Function.update_of_ne heq _ _)
        simp [hsame, Ne.symm heq]
    · next hstale => simp [hstale]
  have hmember : ∀ c ∈ demands.map (·.consumer), ∀ slot,
      (s.revalidate demands d).member c = some slot ↔ s₀.Stands demands (d :: seen) c slot := by
    intro c hc slot
    rw [hstep c hc slot, Stands, ← h.member c hc slot]
    refine and_congr_right fun hm => not_congr (and_congr_right ?_)
    rintro rfl
    exact h.stale_iff hm hd
  unfold Source.revalidate at hmember ⊢
  split at hmember
  · rw [if_pos ‹_›]
    refine ⟨h.groups, h.current, h.bitrates, h.wellFormed.memberships fun c k hc => ?_, fun c hc => ?_,
      hmember⟩
    · by_cases heq : c = d.consumer
      · subst heq
        simp at hc
      · rwa [Function.update_of_ne heq] at hc
    · by_cases heq : c = d.consumer
      · subst heq
        exact Function.update_self _ _ _
      · exact (Function.update_of_ne heq _ _).trans (h.absent c hc)
  · rw [if_neg ‹_›]
    exact ⟨h.groups, h.current, h.bitrates, h.wellFormed, h.absent, hmember⟩

theorem dropped_begun (h : s.WellFormed) : s.Dropped demands demands.reverse (s.begun demands) := by
  have hall : ∀ (l seen : List (OutputDemand ι)) s', (∀ d ∈ l, d ∈ demands) →
      s.Dropped demands seen s' → s.Dropped demands (l.reverse ++ seen)
        (l.foldl (fun s d => s.revalidate demands d) s') := by
    intro l
    induction l with
    | nil => exact fun _ _ _ hs' => hs'
    | cons d l ih =>
      intro seen s' hl hs'
      rw [List.reverse_cons, List.append_assoc]
      exact ih (d :: seen) _ (fun d' hd' => hl d' (List.mem_cons_of_mem _ hd'))
        (hs'.revalidate (hl d (by simp)))
  have := hall demands [] _ (fun d hd => hd) (dropped_dropAbsent h)
  rwa [List.append_nil] at this

/-- The slots of the groups have bitrates. -/
def InRange (s : Source ι) : Prop := ∀ group ∈ s.groups, group.slot < s.outputBitrates.length

theorem InRange.assign (h : s.InRange) : (s.assign d slot).InRange := by
  intro group hg
  obtain ⟨old, hold, rfl⟩ := List.mem_map.1 hg
  have := h old hold
  split <;> exact this

theorem InRange.serve (h : s.InRange) (hs : s.serve demands failing d = .ok s') : s'.InRange := by
  simp only [Source.serve] at hs
  split at hs
  · exact Except.ok.inj hs ▸ h
  split at hs
  · exact Except.ok.inj hs ▸ h.assign
  split at hs
  · exact Except.ok.inj hs ▸ h
  rename_i slot hfree
  split at hs
  · cases hs
  · refine Except.ok.inj hs ▸ InRange.assign fun group hg => ?_
    rcases List.mem_append.1 hg with hg | hg
    · exact h group hg
    · rw [List.mem_singleton.1 hg]
      have := List.mem_of_mem_drop (List.mem_of_find?_eq_some hfree)
      exact List.mem_range.1 this

omit [DecidableEq ι] in
/-- The plan has the activity of every group at its slot. -/
theorem active_fill {codecBudget : ℕ → ℤ → ℤ} {groups : List OutputGroup} {plan : OutputPlan}
    (hnodup : (groups.map (·.slot)).Nodup) (hg : group ∈ groups)
    (hrange : group.slot < plan.active.length) :
    (groups.foldl (s.fill codecBudget) plan).active[group.slot]? = some group.active := by
  have hkeeps : ∀ (l : List OutputGroup) plan slot, slot ∉ l.map (·.slot) →
      (l.foldl (s.fill codecBudget) plan).active[slot]? = plan.active[slot]? := by
    intro l
    induction l with
    | nil => exact fun _ _ _ => rfl
    | cons g l ih =>
      intro plan slot hout
      rw [List.map_cons, List.mem_cons, not_or] at hout
      rw [List.foldl_cons, ih _ _ hout.2, fill, List.getElem?_set_ne (Ne.symm hout.1)]
  induction groups generalizing plan with
  | nil => cases hg
  | cons g groups ih =>
    rw [List.map_cons, List.nodup_cons] at hnodup
    rcases List.mem_cons.1 hg with rfl | hg
    · have := hkeeps groups (s.fill codecBudget plan group) group.slot hnodup.1
      rw [List.foldl_cons, this, fill, List.getElem?_set_self hrange]
    · exact ih hnodup.2 hg (by simpa [fill] using hrange)

/-! ## Calls -/

/-- The states that calls of `planGroups` lead to, whatever happens between them to the bitrates,
    the budgets, the clocks and the attachments. -/
inductive Reachable : Source ι → Prop
  | new {formats media made : ℕ} {outputBitrates : List ℕ} {inputPTS : ℤ} {relay : Bool}
      {current : ι → ℕ} (hmedia : media < made) (hcurrent : ∀ c, current c < made) :
      Reachable { formats, media, outputBitrates, inputPTS, relay, current, made }
  | between {s : Source ι} (h : Reachable s) {formats made groupRecovery : ℕ}
      {outputBitrates : List ℕ} {inputPTS : ℤ} {relay : Bool} {current : ι → ℕ}
      {budgets : ℕ → ℕ} {starts : ℕ → ℤ} {clocks : ℕ → Bool} (hmade : s.made ≤ made)
      (hcurrent : ∀ c, current c < made) :
      Reachable { s with formats, made, groupRecovery, outputBitrates, inputPTS, relay, current
                         groups := s.groups.map fun group =>
                           { group with budget := budgets group.slot, start := starts group.slot
                                        clockPending := clocks group.slot } }
  | plan {s : Source ι} (h : Reachable s) (demands : List (OutputDemand ι))
      (codecBudget : ℕ → ℤ → ℤ) (failing : ℕ → Bool) :
      Reachable (s.planGroups demands codecBudget failing).1

omit [DecidableEq ι] in
theorem WellFormed.regroup (h : s.WellFormed) {f : OutputGroup → OutputGroup}
    (hf : ∀ group, (f group).slot = group.slot ∧ (f group).media = group.media) :
    WellFormed { s with groups := s.groups.map f } where
  slots := by
    rw [List.map_map]
    exact (congrArg List.Nodup (List.map_congr_left fun group _ => (hf group).1)).mpr h.slots
  member c k hc := by
    rw [group?_map (fun group => (hf group).1) rfl, Option.isSome_map]
    exact h.member c k hc
  medias group hg := by
    obtain ⟨old, hold, rfl⟩ := List.mem_map.1 hg
    exact (hf old).2 ▸ h.medias old hold
  media := h.media
  current := h.current

/-- The state that a failed round leaves is well formed too. -/
theorem wellFormed_serveAll_error {err : PlanError} (h : s.WellFormed)
    (hs : s.serveAll demands failing l = .error (err, s')) : s'.WellFormed := by
  induction l generalizing s with
  | nil => cases hs
  | cons d l ih =>
    rw [serveAll, List.foldlM_cons] at hs
    cases hd : s.serve demands failing d with
    | error e =>
      rw [hd] at hs
      obtain rfl := Except.error.inj hs
      simp only [Source.serve] at hd
      split at hd
      · cases hd
      split at hd
      · cases hd
      split at hd
      · cases hd
      split at hd
      · obtain ⟨-, rfl⟩ := Prod.mk.inj (Except.error.inj hd)
        exact h
      · cases hd
    | ok s₁ =>
      rw [hd] at hs
      exact ih (h.serve hd) hs

/-- A call that succeeds: the passes before the rounds, the rounds, and the loop over the groups. -/
theorem planGroups_ok {codecBudget : ℕ → ℤ → ℤ} {plan : OutputPlan}
    (h : s.planGroups demands codecBudget failing = (s', .ok plan)) :
    2 ≤ s.outputBitrates.length ∧ s.InRange ∧ ∃ last,
      (s.begun demands).serveAll demands failing demands = .ok last ∧
      (s', plan) = last.finish demands codecBudget := by
  simp only [planGroups] at h
  split at h
  · cases (Prod.mk.inj h).2
  rename_i hformats
  split at h
  · cases (Prod.mk.inj h).2
  rename_i hrange
  split at h
  · cases (Prod.mk.inj h).2
  · rename_i last hlast
    obtain ⟨rfl, hplan⟩ := Prod.mk.inj h
    obtain rfl := Except.ok.inj hplan
    refine ⟨by omega, fun group hg => ?_, last, hlast, rfl⟩
    by_contra hlt
    exact hrange (List.any_eq_true.2 ⟨group, hg, by simpa using hlt⟩)

theorem Reachable.wellFormed (h : s.Reachable) : s.WellFormed := by
  induction h with
  | new hmedia hcurrent => exact ⟨by simp, nofun, nofun, hmedia, hcurrent⟩
  | @between s _ _ _ _ _ _ _ _ budgets starts clocks hmade hcurrent ih =>
    have := ih.regroup (f := fun group =>
      { group with budget := budgets group.slot, start := starts group.slot
                   clockPending := clocks group.slot }) fun group => ⟨rfl, rfl⟩
    exact { this with medias := fun group hg => (this.medias group hg).trans_le hmade
                      media := this.media.trans_le hmade, current := hcurrent }
  | plan _ demands codecBudget failing ih =>
    simp only [planGroups]
    split
    · exact ih
    split
    · exact ih
    have hbegun : WellFormed (Source.begun _ demands) := (dropped_begun ih).wellFormed
    split
    · rename_i err left hleft
      exact wellFormed_serveAll_error hbegun hleft
    · rename_i last hlast
      have hwf : last.WellFormed := serveAll_invariant (P := WellFormed) hlast hbegun
        fun d _ s s' hs hserve => hs.serve hserve
      exact hwf.regroup fun group => ⟨rfl, rfl⟩

/-- What a call that succeeds does: a budget changes only where no other demand that uses the group
    stands against it; a demand keeps the group and the budget it is given; a demand that is given
    none keeps its membership, unless it waited for a join that others no longer allow when the pass
    over the pending joins comes to it; and the groups of active demands are encoded. -/
structure Planned (s : Source ι) (demands : List (OutputDemand ι)) (failing : ℕ → Bool)
    (s' : Source ι) (plan : OutputPlan) : Prop where
  changed : ∀ before d after s₁ s₂, demands = before ++ d :: after →
    (s.begun demands).serveAll demands failing before = .ok s₁ →
    s₁.serve demands failing d = .ok s₂ → ∀ slot group, s₂.group? slot = some group →
    s₁.budgetOf slot ≠ some group.budget → ∀ o ∈ demands, o.shares = true → o.budget ≠ d.budget →
      s₁.current o.consumer ≠ group.media ∧ s₁.member o.consumer ≠ some slot
  unchanged : (s.begun demands).budgetOf = s.prepare.budgetOf ∧ ∀ last,
    (s.begun demands).serveAll demands failing demands = .ok last → s'.budgetOf = last.budgetOf
  given : ∀ before d after s₁ slot, demands = before ++ d :: after →
    (s.begun demands).serveAll demands failing before = .ok s₁ → d.shares = true →
    s₁.chosen demands d = some slot →
      s'.member d.consumer = some slot ∧ s'.budgetOf slot = some d.budget
  equal : ∀ before₁ d₁ after₁ s₁ before₂ d₂ after₂ s₂ slot, demands = before₁ ++ d₁ :: after₁ →
    demands = before₂ ++ d₂ :: after₂ →
    (s.begun demands).serveAll demands failing before₁ = .ok s₁ →
    (s.begun demands).serveAll demands failing before₂ = .ok s₂ →
    d₁.shares = true → d₂.shares = true → s₁.chosen demands d₁ = some slot →
    s₂.chosen demands d₂ = some slot → d₁.budget = d₂.budget
  kept : ∀ before d after s₁, demands = before ++ d :: after →
    (s.begun demands).serveAll demands failing before = .ok s₁ → d.shares = true →
    s₁.chosen demands d = none →
      (s.Withdrawn demands before d → s'.member d.consumer = none) ∧
        (¬s.Withdrawn demands before d → s'.member d.consumer = s.member d.consumer)
  attachments : s'.current = s.current
  absent : ∀ c, c ∉ demands.map (·.consumer) → s'.memberships c = none
  cleared : ∀ d ∈ demands, d.shares = false → s'.memberships d.consumer = some none
  encoded : ∀ d ∈ demands, d.active = true → ∀ slot, s'.member d.consumer = some slot →
    0 < s'.bitrate slot → plan.active[slot]? = some true

/-- The rounds before and after that of a demand. -/
theorem rounds {before after : List (OutputDemand ι)} {last : Source ι}
    (hlast : s.serveAll demands failing (before ++ d :: after) = .ok last)
    (hbefore : s.serveAll demands failing before = .ok s₁) :
    ∃ s₂, s₁.serve demands failing d = .ok s₂ ∧ s₂.serveAll demands failing after = .ok last := by
  obtain ⟨mid, hmid, hrest⟩ := serveAll_append.1 hlast
  obtain rfl := Except.ok.inj (hbefore.symm.trans hmid)
  exact serveAll_cons.1 hrest

theorem wellFormed_serveAll (h : s.WellFormed) (hs : s.serveAll demands failing l = .ok s') :
    s'.WellFormed :=
  serveAll_invariant (P := WellFormed) hs h fun _ _ _ _ hwf hserve => hwf.serve hserve

/-- A demand that the rounds reach keeps what it is given. -/
theorem given_last {before after : List (OutputDemand ι)} {last : Source ι} (hwf : s.WellFormed)
    (hdemands : demands = before ++ d :: after) (hdistinct : (demands.map (·.consumer)).Nodup)
    (hlast : s.serveAll demands failing demands = .ok last)
    (hbefore : s.serveAll demands failing before = .ok s₁) (hd : d.shares = true)
    (hchosen : s₁.chosen demands d = some slot) : last.Given d slot := by
  have hout : d.consumer ∉ after.map (·.consumer) := by
    rw [hdemands, List.map_append, List.map_cons] at hdistinct
    exact (List.nodup_cons.1 (List.nodup_append.1 hdistinct).2.1).1
  have hrounds : s.serveAll demands failing (before ++ d :: after) = .ok last := hdemands ▸ hlast
  obtain ⟨s₂, hserve, hafter⟩ := rounds hrounds hbefore
  have hgiven := given_of_serve (wellFormed_serveAll hwf hbefore) hserve hd hchosen
  exact hgiven.serveAll (hdemands ▸ by simp) hd hout hafter

/-- The other rounds leave the memberships of a demand's consumer alone. -/
theorem memberships_around {before after : List (OutputDemand ι)} {last : Source ι}
    (hdemands : demands = before ++ d :: after) (hdistinct : (demands.map (·.consumer)).Nodup)
    (hlast : s.serveAll demands failing demands = .ok last)
    (hbefore : s.serveAll demands failing before = .ok s₁)
    (hserve : s₁.serve demands failing d = .ok s₂) :
    s₁.memberships d.consumer = s.memberships d.consumer ∧
      last.memberships d.consumer = s₂.memberships d.consumer := by
  rw [hdemands, List.map_append, List.map_cons, List.nodup_append] at hdistinct
  have hrounds : s.serveAll demands failing (before ++ d :: after) = .ok last := hdemands ▸ hlast
  obtain ⟨mid, hmid, hafter⟩ := rounds hrounds hbefore
  obtain rfl := Except.ok.inj (hserve.symm.trans hmid)
  refine ⟨serveAll_memberships hbefore fun hmem => ?_,
    serveAll_memberships hafter (List.nodup_cons.1 hdistinct.2.1).1⟩
  exact hdistinct.2.2 _ hmem _ (by simp) rfl

/-- A demand that is given nothing is left with what the passes before the rounds left it. -/
theorem member_kept {before after : List (OutputDemand ι)} {last : Source ι}
    (hdemands : demands = before ++ d :: after) (hdistinct : (demands.map (·.consumer)).Nodup)
    (hlast : s.serveAll demands failing demands = .ok last)
    (hbefore : s.serveAll demands failing before = .ok s₁) (hd : d.shares = true)
    (hchosen : s₁.chosen demands d = none) : last.member d.consumer = s.member d.consumer := by
  have hrounds : s.serveAll demands failing (before ++ d :: after) = .ok last := hdemands ▸ hlast
  obtain ⟨s₂, hserve, -⟩ := rounds hrounds hbefore
  obtain ⟨hbefore', hafter'⟩ := memberships_around hdemands hdistinct hlast hbefore hserve
  rcases serve_spec hserve hd with ⟨-, rfl⟩ | ⟨_, hsome, -⟩ | ⟨_, hsome, -⟩
  · exact member_of_memberships (hafter'.trans hbefore')
  · rw [hchosen] at hsome
    cases hsome
  · rw [hchosen] at hsome
    cases hsome

/-- The rounds keep the attachments and the bitrates, and every group in range. -/
theorem serveAll_frame {last : Source ι} (hinit : s.InRange)
    (hlast : s.serveAll demands failing demands = .ok last) :
    last.current = s.current ∧ last.outputBitrates = s.outputBitrates ∧ last.InRange := by
  refine serveAll_invariant (P := fun s' => s'.current = s.current ∧
    s'.outputBitrates = s.outputBitrates ∧ s'.InRange) hlast ⟨rfl, rfl, hinit⟩ ?_
  rintro d - s₁ s₂ ⟨hc, hb, hr⟩ hserve
  obtain ⟨hc', hb'⟩ := serve_current hserve
  exact ⟨hc'.trans hc, hb'.trans hb, hr.serve hserve⟩

theorem inRange_begun (hs : s.WellFormed) (htwo : 2 ≤ s.outputBitrates.length) (hrange : s.InRange) :
    (s.begun demands).InRange := by
  have hbegun : s.Dropped demands demands.reverse (s.begun demands) := dropped_begun hs
  intro group hg
  rw [hbegun.groups] at hg
  rw [hbegun.bitrates]
  unfold Source.prepare at hg
  split at hg
  · rw [List.mem_singleton.1 hg]
    exact Nat.lt_of_lt_of_le Nat.zero_lt_two htwo
  · exact hrange group hg

omit [DecidableEq ι] in
/-- The group of an active demand is encoded, if its slot has a bitrate. -/
theorem active_finish {codecBudget : ℕ → ℤ → ℤ} (hs : s.WellFormed) (hrange : s.InRange)
    (hd : d ∈ demands) (hactive : d.active = true) (hmember : s.member d.consumer = some slot)
    (hbitrate : 0 < s.bitrate slot) :
    (s.finish demands codecBudget).2.active[slot]? = some true := by
  obtain ⟨group, hgroup⟩ := Option.isSome_iff_exists.1 (hs.member _ _ hmember)
  obtain ⟨hmem, rfl⟩ := group?_some hgroup
  have hnext : s.nextActive demands group = true := by
    rw [nextActive, Bool.and_eq_true]
    refine ⟨?_, decide_eq_true hbitrate⟩
    rw [wanted, Bool.or_eq_true]
    refine .inr (List.any_eq_true.2 ⟨d, hd, ?_⟩)
    simp [hactive, hmember]
  have hmap : s.activate demands group ∈ s.groups.map (s.activate demands) :=
    List.mem_map_of_mem hmem
  have hslots : ((s.groups.map (s.activate demands)).map (·.slot)).Nodup := by
    rw [List.map_map]
    exact hs.slots
  have hslot : (s.activate demands group).slot < (s.emptyPlan demands).active.length := by
    show group.slot < _
    simpa [emptyPlan] using hrange group hmem
  exact (active_fill hslots hmap hslot).trans (congrArg some hnext)

theorem planned {codecBudget : ℕ → ℤ → ℤ} {plan : OutputPlan} (hs : s.Reachable)
    (hdistinct : (demands.map (·.consumer)).Nodup)
    (h : s.planGroups demands codecBudget failing = (s', .ok plan)) :
    s.Planned demands failing s' plan := by
  obtain ⟨htwo, hrange, last, hlast, hfinish⟩ := planGroups_ok h
  obtain ⟨rfl, rfl⟩ := Prod.mk.inj hfinish
  have hwf := hs.wellFormed
  have hbegun : s.Dropped demands demands.reverse (s.begun demands) := dropped_begun hwf
  have hwflast := wellFormed_serveAll hbegun.wellFormed hlast
  have hbudget : ∀ k, (last.finish demands codecBudget).1.budgetOf k = last.budgetOf k := by
    intro k
    rw [budgetOf, group?_map (f := last.activate demands) (fun group => rfl) rfl, Option.map_map]
    rfl
  obtain ⟨hcurrent, -, hrangelast⟩ := serveAll_frame (inRange_begun hwf htwo hrange) hlast
  have hgiven := fun before d after s₁ slot (hdemands : demands = before ++ d :: after)
    (hbefore : (s.begun demands).serveAll demands failing before = .ok s₁)
    (hd : d.shares = true) (hchosen : s₁.chosen demands d = some slot) =>
      given_last hbegun.wellFormed hdemands hdistinct hlast hbefore hd hchosen
  refine ⟨?_, ⟨?_, ?_⟩, ?_, ?_, ?_, ?_, ?_, ?_, ?_⟩
  · intro before d after s₁ s₂ hdemands hbefore hserve slot group hgroup hchanged o ho hshares hne
    have huses := budget_changed (wellFormed_serveAll hbegun.wellFormed hbefore) hserve hgroup
      hchanged o ho hshares hne
    obtain ⟨-, rfl⟩ := group?_some hgroup
    simpa [uses] using huses
  · funext k
    rw [budgetOf, group?, hbegun.groups]
    rfl
  · intro last' hlast'
    obtain rfl := Except.ok.inj (hlast.symm.trans hlast')
    exact funext hbudget
  · intro before d after s₁ slot hdemands hbefore hd hchosen
    have := hgiven before d after s₁ slot hdemands hbefore hd hchosen
    exact ⟨this.member, (hbudget slot).trans this.budget⟩
  · intro before₁ d₁ after₁ s₁ before₂ d₂ after₂ s₂ slot h₁ h₂ hb₁ hb₂ hd₁ hd₂ hc₁ hc₂
    have hg₁ := (hgiven before₁ d₁ after₁ s₁ slot h₁ hb₁ hd₁ hc₁).budget
    have hg₂ := (hgiven before₂ d₂ after₂ s₂ slot h₂ hb₂ hd₂ hc₂).budget
    exact Option.some.inj (hg₁.symm.trans hg₂)
  · intro before d after s₁ hdemands hbefore hd hchosen
    have hmember : last.member d.consumer = (s.begun demands).member d.consumer :=
      member_kept hdemands hdistinct hlast hbefore hd hchosen
    have hstands : ∀ slot, last.member d.consumer = some slot ↔
        s.member d.consumer = some slot ∧ ¬s.Withdrawn demands before d := by
      intro slot
      rw [hmember, hbegun.member _ (List.mem_map.2 ⟨d, hdemands ▸ by simp, rfl⟩),
        stands_iff hdemands hdistinct]
    show (s.Withdrawn demands before d → last.member d.consumer = none) ∧
      (¬s.Withdrawn demands before d → last.member d.consumer = s.member d.consumer)
    refine ⟨fun hw => ?_, fun hw => ?_⟩
    · exact Option.eq_none_iff_forall_ne_some.2 fun slot hslot => ((hstands slot).1 hslot).2 hw
    · exact Option.ext fun slot => (hstands slot).trans (and_iff_left hw)
  · exact hcurrent.trans hbegun.current
  · intro c hc
    exact (serveAll_memberships hlast hc).trans (hbegun.absent c hc)
  · intro d hd hshares
    obtain ⟨before, after, hdemands⟩ := List.append_of_mem hd
    have hrounds : (s.begun demands).serveAll demands failing (before ++ d :: after) = .ok last :=
      hdemands ▸ hlast
    obtain ⟨s₁, hbefore, -⟩ := serveAll_append.1 hrounds
    obtain ⟨s₂, hserve, -⟩ := rounds hrounds hbefore
    refine (memberships_around hdemands hdistinct hlast hbefore hserve).2.trans ?_
    simp only [serve, hshares, Bool.not_false, if_true] at hserve
    obtain rfl := Except.ok.inj hserve
    exact Function.update_self _ _ _
  · intro d hd hactive slot hmember hbitrate
    exact active_finish hwflast hrangelast hd hactive hmember hbitrate

/-- Two consumers, of which only the first is attached to the original. -/
theorem planned_two :
    let s : Source ℕ := { formats := 2, media := 0, outputBitrates := [1000, 5000, 1000]
                          current := fun c => if c = 0 then 0 else 5, made := 6 }
    let demands : List (OutputDemand ℕ) := [⟨0, 1000, true, true, false⟩, ⟨1, 2000, true, true, false⟩]
    ∃ s' plan, s.planGroups demands (fun _ budget => budget) (fun _ => false) = (s', .ok plan) ∧
      s.Planned demands (fun _ => false) s' plan := by
  refine ⟨_, _, rfl, planned (.new (by decide) fun c => ?_)
    (by decide) rfl⟩
  show (if c = 0 then 0 else 5) < 6
  split <;> decide

/-- A join that is pending is withdrawn where nothing else is found, and a consumer that asks twice
    does not hold the first group against others. -/
theorem planGroups_withdrawn_and_doubled :
    let s : Source ℕ := { formats := 2, media := 0, outputBitrates := [1000, 5000]
                          current := fun c => if c = 0 then 0 else 5, made := 6 }
    let plan := fun (s : Source ℕ) demands =>
      s.planGroups demands (fun _ budget => budget) (fun _ => false)
    let joined := (plan s [⟨0, 1000, true, true, false⟩, ⟨1, 1000, true, true, false⟩]).1
    let apart : List (OutputDemand ℕ) := [⟨0, 2000, true, true, false⟩, ⟨1, 1000, true, true, false⟩]
    let three := { s with outputBitrates := [1000, 5000, 1000] }
    let doubled : List (OutputDemand ℕ) := [⟨1, 1000, true, true, false⟩,
      ⟨1, 2000, true, true, false⟩, ⟨2, 3000, true, true, false⟩]
    (joined.member 1 = some 0 ∧ (plan joined apart).2.toOption.isSome = true ∧
      (plan joined apart).1.member 1 = none) ∧
    ((plan three doubled).2.toOption.isSome = true ∧
      (three.begun doubled).chosen doubled ⟨1, 1000, true, true, false⟩ = some 0 ∧
      (plan three doubled).1.budgetOf 0 = some 3000) := by
  decide

end Source

end Piik.Edge
