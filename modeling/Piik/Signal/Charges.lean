/-
  What the drains keep: every draining charge has a registered task, and every
  registered task has a close in flight or one that failed.
-/
import Piik.Signal.Drains

namespace Piik.Signal.Drains

open Sfu Function

/-- The key says which drain it is for. -/
def kindOf (key : SubscriptionFence) : DrainKind :=
  if key.viewerPeerID ≠ "" then .subscription
  else if key.connectionID = "" then .publication
  else if key.shareGeneration = "" then .voice
  else .videoPublication

@[simp] theorem kindOf_publicationFence (F : ResourceFence) :
    kindOf (publicationFence F) = .publication := by
  simp [kindOf, publicationFence]

theorem kindOf_videoFence {F : ResourceFence} {connectionID : String} (hshare : F.shareGeneration ≠ "")
    (hc : connectionID ≠ "") : kindOf (videoFence F connectionID) = .videoPublication := by
  simp [kindOf, videoFence, hshare, hc]

theorem kindOf_voiceFence {roomID edgeID : String} (he : edgeID ≠ "") :
    kindOf (voiceFence roomID edgeID) = .voice := by
  simp [kindOf, voiceFence, he]

theorem kindOf_subscription {key : SubscriptionFence} (h : key.viewerPeerID ≠ "") :
    kindOf key = .subscription := by
  simp [kindOf, h]

theorem eq_publicationFence {key : SubscriptionFence} (h : kindOf key = .publication) :
    key = publicationFence key.toResourceFence := by
  obtain ⟨F, viewer, connection⟩ := key
  unfold kindOf at h
  dsimp only at h
  split at h
  · cases h
  · next hv =>
    split at h
    · next hc =>
      rw [ne_eq, not_not] at hv
      simp [publicationFence, hv, hc]
    · split at h <;> cases h

@[simp] theorem publicationFence_inj {F F' : ResourceFence} :
    publicationFence F = publicationFence F' ↔ F = F' := by
  constructor
  · intro h
    exact congrArg SubscriptionFence.toResourceFence h
  · rintro rfl
    rfl

namespace State

variable (s : State)

/-- A drain that has begun and is not settled. -/
def Pending (o : ℕ) : Prop := o < s.operationCount ∧ (s.operations o).settled = none

instance (o : ℕ) : Decidable (s.Pending o) := inferInstanceAs (Decidable (_ ∧ _))

/-- Every registered video close of the publication was joined by the drain, and
    has not succeeded. -/
def Awaited (op : DrainOperation) : Prop :=
  ∀ key t, s.sfuDrainTasks.get key = some t → kindOf key = .videoPublication →
    key.toResourceFence = op.key.toResourceFence →
    ∃ d ∈ op.videoDrains, d < s.operationCount ∧ (s.operations d).task = t ∧
      (s.operations d).settled ≠ some true

end State

/-! ## The invariant -/

/-- Between two critical sections nothing is `due`; inside one, the keys that are
    still to be scheduled. -/
structure Sound (due : List SubscriptionFence) (s : State) : Prop where
  ledger : s.admission.Ledger
  valid : ∀ F, (s.admission.publicationState F).isSome → F.Valid
  registered : ∀ key t, s.sfuDrainTasks.get key = some t → t < s.taskCount ∧ (s.tasks t).fence = key
  kind : ∀ t < s.taskCount, (s.tasks t).kind = kindOf (s.tasks t).fence
  running : ∀ t o, (s.tasks t).operation = some o → s.Pending o ∧ (s.operations o).task = t
  owner : ∀ o < s.operationCount, (s.operations o).task < s.taskCount ∧
    (s.tasks (s.operations o).task).fence = (s.operations o).key ∧
    ((s.operations o).settled = none → (s.tasks (s.operations o).task).operation = some o)
  kept : ∀ o, s.Pending o → kindOf (s.operations o).key = .publication ∨
    kindOf (s.operations o).key = .videoPublication →
    s.sfuDrainTasks.get (s.operations o).key = some (s.operations o).task
  tried : ∀ key t, s.sfuDrainTasks.get key = some t → key ∈ due ∨
    (∃ o, (s.tasks t).operation = some o) ∨
    ∃ o < s.operationCount, (s.operations o).task = t ∧ (s.operations o).settled = some false
  draining : ∀ F t, s.sfuDrainTasks.get (publicationFence F) = some t →
    s.admission.publicationState F = some .draining
  subscriptionDraining : ∀ f t, kindOf f = .subscription → s.sfuDrainTasks.get f = some t →
    s.admission.subscriptionState f = some .draining ∧
      s.sfuDrainTasks.get (publicationFence f.toResourceFence) = none
  drains : ∀ F, s.admission.publicationState F = some .draining →
    (∃ t, s.sfuDrainTasks.get (publicationFence F) = some t) ∨ publicationFence F ∈ due
  subscriptionDrains : ∀ f, s.admission.subscriptionState f = some .draining →
    kindOf f = .subscription ∧ (∃ t, s.sfuDrainTasks.get f = some t) ∨
      s.admission.publicationState f.toResourceFence = some .draining ∨
      kindOf f = .subscription ∧ f ∈ due
  handle : ∀ F connectionID, s.publications.get F = some connectionID →
    connectionID ≠ "" ∧ F.shareGeneration ≠ "" ∧
      ∀ key t, s.sfuDrainTasks.get key = some t → kindOf key = .videoPublication →
        key.toResourceFence ≠ F

variable {s s' s'' : State} {due : List SubscriptionFence} {key : SubscriptionFence} {F : ResourceFence}
  {t o : ℕ}

theorem Sound.pending_task (h : Sound due s) (ho : s.Pending o) :
    (s.tasks (s.operations o).task).operation = some o := (h.owner o ho.1).2.2 ho.2

/-- A task has one drain in flight. -/
theorem Sound.one_pending (h : Sound due s) {o' : ℕ} (ho : s.Pending o) (ho' : s.Pending o')
    (ht : (s.operations o).task = (s.operations o').task) : o = o' := by
  have := h.pending_task ho
  rw [ht, h.pending_task ho'] at this
  exact (Option.some.inj this).symm

/-- The kind of a registered task is that of its key. -/
theorem Sound.kind_registered (h : Sound due s) (hk : s.sfuDrainTasks.get key = some t) :
    (s.tasks t).kind = kindOf key := by
  obtain ⟨ht, hf⟩ := h.registered key t hk
  rw [h.kind t ht, hf]

theorem Sound.kind_operation (h : Sound due s) (ho : o < s.operationCount) :
    (s.tasks (s.operations o).task).kind = kindOf (s.operations o).key := by
  obtain ⟨ht, hf, -⟩ := h.owner o ho
  rw [h.kind _ ht, hf]

theorem Sound.mono (h : Sound due s) {due' : List SubscriptionFence} (hsub : due ⊆ due') :
    Sound due' s :=
  { h with
    tried := fun k t hk => (h.tried k t hk).imp_left fun hmem => hsub hmem
    drains := fun F hF => (h.drains F hF).imp_right fun hmem => hsub hmem
    subscriptionDrains := fun f hf => (h.subscriptionDrains f hf).imp_right fun hd =>
      hd.imp_right fun hmem => ⟨hmem.1, hsub hmem.2⟩ }

/-- What was due has been scheduled. -/
theorem Sound.discharge (h : Sound (key :: due) s)
    (htried : ∀ t, s.sfuDrainTasks.get key = some t → (∃ o, (s.tasks t).operation = some o) ∨
      ∃ o < s.operationCount, (s.operations o).task = t ∧ (s.operations o).settled = some false)
    (hdrains : ∀ F, key = publicationFence F → ∃ t, s.sfuDrainTasks.get key = some t)
    (hsub : kindOf key = .subscription → (∃ t, s.sfuDrainTasks.get key = some t) ∨
      s.admission.publicationState key.toResourceFence = some .draining) :
    Sound due s where
  ledger := h.ledger
  valid := h.valid
  registered := h.registered
  kind := h.kind
  running := h.running
  owner := h.owner
  kept := h.kept
  tried k t hk := by
    rcases h.tried k t hk with hmem | ht
    · rcases List.mem_cons.1 hmem with rfl | hmem
      · exact Or.inr (htried t hk)
      · exact Or.inl hmem
    · exact Or.inr ht
  draining := h.draining
  subscriptionDraining := h.subscriptionDraining
  drains F hF := by
    rcases h.drains F hF with ht | hmem
    · exact Or.inl ht
    · rcases List.mem_cons.1 hmem with hk | hmem
      · obtain ⟨t, ht⟩ := hdrains F hk.symm
        exact Or.inl ⟨t, hk ▸ ht⟩
      · exact Or.inr hmem
  subscriptionDrains f hf := by
    rcases h.subscriptionDrains f hf with ht | hP | ⟨hkind, hmem⟩
    · exact Or.inl ht
    · exact Or.inr (Or.inl hP)
    · rcases List.mem_cons.1 hmem with rfl | hmem
      · exact (hsub hkind).imp (fun ht => ⟨hkind, ht⟩) Or.inl
      · exact Or.inr (Or.inr ⟨hkind, hmem⟩)
  handle := h.handle

/-! ## Starting closes -/

/-- Closes of registered tasks were started; nothing else happened. -/
structure Starts (s s' : State) : Prop where
  admission : s'.admission = s.admission
  registry : s'.sfuDrainTasks = s.sfuDrainTasks
  publications : s'.publications = s.publications
  taskCount : s'.taskCount = s.taskCount
  count : s.operationCount ≤ s'.operationCount
  task : ∀ t, (s'.tasks t).kind = (s.tasks t).kind ∧ (s'.tasks t).fence = (s.tasks t).fence
  old : ∀ o < s.operationCount, s'.operations o = s.operations o
  keeps : ∀ t o, (s.tasks t).operation = some o → (s'.tasks t).operation = some o
  fresh : ∀ t o, (s'.tasks t).operation = some o → (s.tasks t).operation = some o ∨
    s.operationCount ≤ o ∧ o < s'.operationCount ∧ (s'.operations o).task = t
  new : ∀ o, s.operationCount ≤ o → o < s'.operationCount → (s'.operations o).settled = none ∧
    s.sfuDrainTasks.get (s'.operations o).key = some (s'.operations o).task ∧
    (s'.tasks (s'.operations o).task).operation = some o

theorem Starts.refl (s : State) : Starts s s where
  admission := rfl
  registry := rfl
  publications := rfl
  taskCount := rfl
  count := le_rfl
  task _ := ⟨rfl, rfl⟩
  old _ _ := rfl
  keeps _ _ h := h
  fresh _ _ h := Or.inl h
  new o h h' := absurd h' (by omega)

theorem Starts.trans (h : Starts s s') (h' : Starts s' s'') : Starts s s'' where
  admission := h'.admission.trans h.admission
  registry := h'.registry.trans h.registry
  publications := h'.publications.trans h.publications
  taskCount := h'.taskCount.trans h.taskCount
  count := h.count.trans h'.count
  task t := ⟨(h'.task t).1.trans (h.task t).1, (h'.task t).2.trans (h.task t).2⟩
  old o ho := (h'.old o (ho.trans_le h.count)).trans (h.old o ho)
  keeps t o ht := h'.keeps t o (h.keeps t o ht)
  fresh t o ht := by
    rcases h'.fresh t o ht with ht | ⟨hle, hlt, ht⟩
    · rcases h.fresh t o ht with ht | ⟨hle, hlt, ht⟩
      · exact Or.inl ht
      · rw [← h'.old o hlt] at ht
        exact Or.inr ⟨hle, hlt.trans_le h'.count, ht⟩
    · exact Or.inr ⟨h.count.trans hle, hlt, ht⟩
  new o hle hlt := by
    by_cases ho : o < s'.operationCount
    · obtain ⟨hsettled, hkey, hop⟩ := h.new o hle ho
      rw [h'.old o ho]
      exact ⟨hsettled, hkey, h'.keeps _ _ hop⟩
    · obtain ⟨hsettled, hkey, hop⟩ := h'.new o (by omega) hlt
      rw [h.registry] at hkey
      exact ⟨hsettled, hkey, hop⟩

theorem Starts.pending (h : Starts s s') (ho : s.Pending o) : s'.Pending o :=
  ⟨ho.1.trans_le h.count, by rw [h.old o ho.1]; exact ho.2⟩

theorem startDrain_starts (hk : s.sfuDrainTasks.get key = some t) : Starts s (s.startDrain key t).2 := by
  unfold State.startDrain
  cases hop : (s.tasks t).operation with
  | some o => exact Starts.refl s
  | none =>
    refine ⟨rfl, rfl, rfl, rfl, Nat.le_succ _, fun t' => ?_, fun o ho => ?_, fun t' o ht => ?_,
      fun t' o ht => ?_, fun o hle hlt => ?_⟩
    · by_cases ht : t' = t
      · subst ht
        simp
      · simp [ht]
    · simp [Nat.ne_of_lt ho]
    · have hne : t' ≠ t := by
        rintro rfl
        simp [hop] at ht
      simpa [hne] using ht
    · by_cases hne : t' = t
      · subst hne
        obtain rfl : s.operationCount = o := by simpa using ht
        exact Or.inr ⟨le_rfl, Nat.lt_succ_self _, by simp⟩
      · exact Or.inl (by simpa [hne] using ht)
    · obtain rfl : o = s.operationCount := by
        dsimp only at hlt
        omega
      simp [hk]

/-- After it the task has exactly this drain in flight. -/
theorem startDrain_operation :
    ((s.startDrain key t).2.tasks t).operation = some (s.startDrain key t).1 := by
  unfold State.startDrain
  cases hop : (s.tasks t).operation with
  | some o => exact hop
  | none => simp

/-- What it starts is for this task. -/
theorem startDrain_task (hle : s.operationCount ≤ o) (hlt : o < (s.startDrain key t).2.operationCount) :
    ((s.startDrain key t).2.operations o).task = t := by
  unfold State.startDrain at hlt ⊢
  cases hop : (s.tasks t).operation with
  | some o' =>
    rw [hop] at hlt
    dsimp only at hlt
    omega
  | none =>
    rw [hop] at hlt
    dsimp only at hlt
    obtain rfl : o = s.operationCount := by omega
    simp

theorem joinVideos_starts {l : List (SubscriptionFence × ℕ)}
    (hl : ∀ e ∈ l, s.sfuDrainTasks.get e.1 = some e.2) : Starts s (State.joinVideos F l s).2 := by
  induction l generalizing s with
  | nil => exact Starts.refl s
  | cons e l ih =>
    obtain ⟨key, t⟩ := e
    unfold State.joinVideos
    split
    · have hstart := startDrain_starts (hl (key, t) List.mem_cons_self)
      refine hstart.trans (ih fun e he => ?_)
      rw [hstart.registry]
      exact hl e (List.mem_cons_of_mem _ he)
    · exact ih fun e he => hl e (List.mem_cons_of_mem _ he)

/-- Every video sibling of the list has a drain in flight that is joined. -/
theorem joinVideos_joins {l : List (SubscriptionFence × ℕ)}
    (hl : ∀ e ∈ l, s.sfuDrainTasks.get e.1 = some e.2) {e : SubscriptionFence × ℕ} (he : e ∈ l)
    (hkind : (s.tasks e.2).kind = .videoPublication) (hF : (s.tasks e.2).fence.toResourceFence = F) :
    ∃ d ∈ (State.joinVideos F l s).1, ((State.joinVideos F l s).2.tasks e.2).operation = some d := by
  induction l generalizing s with
  | nil => cases he
  | cons e' l ih =>
    obtain ⟨key, t⟩ := e'
    have hl' : ∀ e ∈ l, s.sfuDrainTasks.get e.1 = some e.2 := fun e he => hl e (List.mem_cons_of_mem _ he)
    have hstart := startDrain_starts (hl (key, t) List.mem_cons_self)
    have hl'' : ∀ e ∈ l, (s.startDrain key t).2.sfuDrainTasks.get e.1 = some e.2 := by
      rw [hstart.registry]
      exact hl'
    unfold State.joinVideos
    rcases List.mem_cons.1 he with rfl | he
    · rw [if_pos ⟨hkind, hF⟩]
      exact ⟨_, List.mem_cons_self, (joinVideos_starts hl'').keeps _ _ startDrain_operation⟩
    · split
      · obtain ⟨d, hd, hop⟩ := ih hl'' he (by rw [(hstart.task _).1, hkind]) (by rw [(hstart.task _).2, hF])
        exact ⟨d, List.mem_cons_of_mem _ hd, hop⟩
      · exact ih hl' he hkind hF

/-- What it starts are video closes. -/
theorem joinVideos_kind {l : List (SubscriptionFence × ℕ)}
    (hl : ∀ e ∈ l, s.sfuDrainTasks.get e.1 = some e.2) (hle : s.operationCount ≤ o)
    (hlt : o < (State.joinVideos F l s).2.operationCount) :
    (s.tasks ((State.joinVideos F l s).2.operations o).task).kind = .videoPublication := by
  induction l generalizing s with
  | nil =>
    simp only [State.joinVideos] at hlt
    omega
  | cons e l ih =>
    obtain ⟨key, t⟩ := e
    have hl' : ∀ e ∈ l, s.sfuDrainTasks.get e.1 = some e.2 := fun e he => hl e (List.mem_cons_of_mem _ he)
    unfold State.joinVideos at hlt ⊢
    split at hlt
    · next hv =>
      rw [if_pos hv]
      have hstart := startDrain_starts (hl (key, t) List.mem_cons_self)
      have hl'' : ∀ e ∈ l, (s.startDrain key t).2.sfuDrainTasks.get e.1 = some e.2 := by
        rw [hstart.registry]
        exact hl'
      by_cases ho : o < (s.startDrain key t).2.operationCount
      · dsimp only
        rw [(joinVideos_starts hl'').old o ho, startDrain_task hle ho]
        exact hv.1
      · have := ih hl'' (by omega) hlt
        rw [(hstart.task _).1] at this
        exact this
    · next hv =>
      rw [if_neg hv]
      exact ih hl' hle hlt

theorem Starts.with_videoDrains (h : Starts s s') (ho : s.operationCount ≤ o) {videoDrains : List ℕ} :
    Starts s { s' with
      operations := update s'.operations o { s'.operations o with videoDrains } } := by
  have hsame : ∀ o', (update s'.operations o { s'.operations o with videoDrains } o').task =
      (s'.operations o').task ∧
      (update s'.operations o { s'.operations o with videoDrains } o').key = (s'.operations o').key ∧
      (update s'.operations o { s'.operations o with videoDrains } o').settled =
        (s'.operations o').settled := by
    intro o'
    by_cases ho' : o' = o
    · subst ho'
      simp
    · simp [ho']
  refine ⟨h.admission, h.registry, h.publications, h.taskCount, h.count, h.task, fun o' ho' => ?_,
    h.keeps, fun t o' ht => ?_, fun o' hle hlt => ?_⟩
  · rw [← h.old o' ho']
    exact update_of_ne (by omega) _ _
  · rw [(hsame o').1]
    exact h.fresh t o' ht
  · rw [(hsame o').1, (hsame o').2.1, (hsame o').2.2]
    exact h.new o' hle hlt

theorem Sound.of_starts (h : Sound due s) (hs : Starts s s') : Sound due s' where
  ledger := by
    rw [hs.admission]
    exact h.ledger
  valid F hF := by
    rw [hs.admission] at hF
    exact h.valid F hF
  registered key t hk := by
    rw [hs.registry] at hk
    rw [hs.taskCount, (hs.task t).2]
    exact h.registered key t hk
  kind t ht := by
    rw [hs.taskCount] at ht
    rw [(hs.task t).1, (hs.task t).2]
    exact h.kind t ht
  running t o ht := by
    rcases hs.fresh t o ht with ht | ⟨hle, hlt, ht⟩
    · obtain ⟨ho, htask⟩ := h.running t o ht
      refine ⟨hs.pending ho, ?_⟩
      rw [hs.old o ho.1]
      exact htask
    · exact ⟨⟨hlt, (hs.new o hle hlt).1⟩, ht⟩
  owner o ho := by
    rw [hs.taskCount, (hs.task _).2]
    by_cases hold : o < s.operationCount
    · rw [hs.old o hold]
      obtain ⟨ht, hf, hop⟩ := h.owner o hold
      exact ⟨ht, hf, fun hsettled => hs.keeps _ _ (hop hsettled)⟩
    · obtain ⟨-, hkey, hop⟩ := hs.new o (by omega) ho
      obtain ⟨ht, hf⟩ := h.registered _ _ hkey
      exact ⟨ht, hf, fun _ => hop⟩
  kept o ho hkind := by
    rw [hs.registry]
    by_cases hold : o < s.operationCount
    · rw [hs.old o hold] at hkind ⊢
      refine h.kept o ⟨hold, ?_⟩ hkind
      rw [← hs.old o hold]
      exact ho.2
    · exact (hs.new o (by omega) ho.1).2.1
  tried key t hk := by
    rw [hs.registry] at hk
    rcases h.tried key t hk with hmem | ⟨o, ho⟩ | ⟨o, ho, ht, hf⟩
    · exact Or.inl hmem
    · exact Or.inr (Or.inl ⟨o, hs.keeps t o ho⟩)
    · refine Or.inr (Or.inr ⟨o, ho.trans_le hs.count, ?_⟩)
      rw [hs.old o ho]
      exact ⟨ht, hf⟩
  draining F t hk := by
    rw [hs.registry] at hk
    rw [hs.admission]
    exact h.draining F t hk
  subscriptionDraining f t hkind hk := by
    rw [hs.registry] at hk ⊢
    rw [hs.admission]
    exact h.subscriptionDraining f t hkind hk
  drains F hF := by
    rw [hs.admission] at hF
    rw [hs.registry]
    exact h.drains F hF
  subscriptionDrains f hf := by
    rw [hs.admission] at hf ⊢
    rw [hs.registry]
    exact h.subscriptionDrains f hf
  handle F connectionID hp := by
    rw [hs.publications] at hp
    rw [hs.registry]
    exact h.handle F connectionID hp

/-! ## What an event leaves as it is -/

/-- What no event does but the settling of a close: drains and charges stay. -/
structure Extends (s s' : State) : Prop where
  count : s.operationCount ≤ s'.operationCount
  old : ∀ o < s.operationCount, s'.operations o = s.operations o
  charged : ∀ F, (s.admission.publicationState F).isSome → (s'.admission.publicationState F).isSome
  subscriptionCharged : ∀ f, (s.admission.subscriptionState f).isSome →
    (s'.admission.subscriptionState f).isSome
  keeps : ∀ key t, s.sfuDrainTasks.get key = some t → s'.sfuDrainTasks.get key = some t ∨
    kindOf key = .voice ∧ (∃ t', s'.sfuDrainTasks.get key = some t') ∨
    kindOf key = .subscription ∧ ∃ t', s'.sfuDrainTasks.get (publicationFence key.toResourceFence) = some t'

/-- And no video close is registered that a drain in flight does not join. -/
structure Quiet (s s' : State) : Prop extends Extends s s' where
  videos : ∀ key t, kindOf key = .videoPublication → s'.sfuDrainTasks.get key = some t →
    s.sfuDrainTasks.get key = some t
  awaited : ∀ o, s.operationCount ≤ o → s'.Pending o → kindOf (s'.operations o).key = .publication →
    s'.Awaited (s'.operations o)

theorem Extends.refl (s : State) : Extends s s where
  count := le_rfl
  old _ _ := rfl
  charged _ h := h
  subscriptionCharged _ h := h
  keeps _ _ h := Or.inl h

theorem Extends.trans (h : Extends s s') (h' : Extends s' s'') : Extends s s'' where
  count := h.count.trans h'.count
  old o ho := (h'.old o (ho.trans_le h.count)).trans (h.old o ho)
  charged F hF := h'.charged F (h.charged F hF)
  subscriptionCharged f hf := h'.subscriptionCharged f (h.subscriptionCharged f hf)
  keeps key t hk := by
    have hpublication : ∀ t', s'.sfuDrainTasks.get (publicationFence key.toResourceFence) = some t' →
        s''.sfuDrainTasks.get (publicationFence key.toResourceFence) = some t' := by
      intro t' ht'
      rcases h'.keeps _ t' ht' with ht' | ⟨hkind, -⟩ | ⟨hkind, -⟩
      · exact ht'
      · simp at hkind
      · simp at hkind
    rcases h.keeps key t hk with hk | ⟨hkind, t', hk⟩ | ⟨hkind, t', hk⟩
    · exact h'.keeps key t hk
    · rcases h'.keeps key t' hk with hk | hk | ⟨hsub, -⟩
      · exact Or.inr (Or.inl ⟨hkind, t', hk⟩)
      · exact Or.inr (Or.inl hk)
      · rw [hkind] at hsub
        cases hsub
    · exact Or.inr (Or.inr ⟨hkind, t', hpublication t' hk⟩)

/-- What a drain awaits is awaited where no video close is new. -/
theorem Extends.awaited_old (h : Extends s s') {op : DrainOperation}
    (hvideos : ∀ key t, kindOf key = .videoPublication → key.toResourceFence = op.key.toResourceFence →
      s'.sfuDrainTasks.get key = some t → s.sfuDrainTasks.get key = some t)
    (hop : s.Awaited op) : s'.Awaited op := by
  intro key t hk hkind hF
  obtain ⟨d, hd, hlt, hdt, hds⟩ := hop key t (hvideos key t hkind hF hk) hkind hF
  refine ⟨d, hd, hlt.trans_le h.count, ?_⟩
  rw [h.old d hlt]
  exact ⟨hdt, hds⟩

theorem Quiet.refl (s : State) : Quiet s s where
  toExtends := .refl s
  videos _ _ _ h := h
  awaited o ho hp := absurd hp.1 (by omega)

theorem Quiet.trans (h : Quiet s s') (h' : Quiet s' s'') : Quiet s s'' where
  toExtends := h.toExtends.trans h'.toExtends
  videos key t hkind hk := h.videos key t hkind (h'.videos key t hkind hk)
  awaited o hle hp hkind := by
    by_cases ho : o < s'.operationCount
    · rw [h'.old o ho] at hkind ⊢
      refine h'.awaited_old (fun key t hv _ => h'.videos key t hv) (h.awaited o hle ⟨ho, ?_⟩ hkind)
      rw [← h'.old o ho]
      exact hp.2
    · exact h'.awaited o (by omega) hp hkind

theorem Starts.extends (h : Starts s s') : Extends s s' where
  count := h.count
  old := h.old
  charged F hF := by
    rw [h.admission]
    exact hF
  subscriptionCharged f hf := by
    rw [h.admission]
    exact hf
  keeps key t hk := by
    rw [h.registry]
    exact Or.inl hk

/-! ## Running a task -/

theorem runSfuDrain_running (h : (s.tasks t).operation = some o) : s.runSfuDrain key t = s := by
  unfold State.runSfuDrain
  rw [h]

theorem runSfuDrain_publication (h : (s.tasks t).operation = none)
    (hkind : ((s.startDrain key t).2.tasks t).kind = .publication) :
    s.runSfuDrain key t =
      let o := (s.startDrain key t).1
      let r := State.joinVideos ((s.startDrain key t).2.tasks t).fence.toResourceFence
        (s.startDrain key t).2.sfuDrainTasks.entries (s.startDrain key t).2
      { r.2 with operations := update r.2.operations o { r.2.operations o with videoDrains := r.1 } } := by
  unfold State.runSfuDrain
  rw [h]
  exact if_pos hkind

theorem runSfuDrain_other (h : (s.tasks t).operation = none)
    (hkind : ((s.startDrain key t).2.tasks t).kind ≠ .publication) :
    s.runSfuDrain key t = (s.startDrain key t).2 := by
  unfold State.runSfuDrain
  rw [h]
  exact if_neg hkind

theorem startDrain_new (h : (s.tasks t).operation = none) :
    (s.startDrain key t).1 = s.operationCount ∧
      (s.startDrain key t).2.operationCount = s.operationCount + 1 ∧
      ((s.startDrain key t).2.operations s.operationCount).key = key := by
  unfold State.startDrain
  rw [h]
  simp

theorem entries_registered (e : SubscriptionFence × ℕ) (he : e ∈ s.sfuDrainTasks.entries) :
    s.sfuDrainTasks.get e.1 = some e.2 := OMap.get_eq_some.2 he

theorem runSfuDrain_starts (hk : s.sfuDrainTasks.get key = some t) : Starts s (s.runSfuDrain key t) := by
  cases hop : (s.tasks t).operation with
  | some o =>
    rw [runSfuDrain_running hop]
    exact Starts.refl s
  | none =>
    have hstart := startDrain_starts hk
    by_cases hkind : ((s.startDrain key t).2.tasks t).kind = .publication
    · rw [runSfuDrain_publication hop hkind]
      exact (hstart.trans (joinVideos_starts entries_registered)).with_videoDrains
        (startDrain_new hop).1.ge
    · rw [runSfuDrain_other hop hkind]
      exact hstart

/-- A task that was run has a drain in flight. -/
theorem runSfuDrain_operation (hk : s.sfuDrainTasks.get key = some t) :
    ∃ o, ((s.runSfuDrain key t).tasks t).operation = some o := by
  cases hop : (s.tasks t).operation with
  | some o => exact ⟨o, (runSfuDrain_starts hk).keeps t o hop⟩
  | none =>
    refine ⟨(s.startDrain key t).1, ?_⟩
    by_cases hkind : ((s.startDrain key t).2.tasks t).kind = .publication
    · rw [runSfuDrain_publication hop hkind]
      exact (joinVideos_starts entries_registered).keeps _ _ startDrain_operation
    · rw [runSfuDrain_other hop hkind]
      exact startDrain_operation

/-- What a publication's drain awaits is joined when it starts. -/
theorem runSfuDrain_awaited (h : Sound due s) (hk : s.sfuDrainTasks.get key = some t)
    (hle : s.operationCount ≤ o) (hp : (s.runSfuDrain key t).Pending o)
    (hpub : kindOf ((s.runSfuDrain key t).operations o).key = .publication) :
    (s.runSfuDrain key t).Awaited ((s.runSfuDrain key t).operations o) := by
  have hstarts := runSfuDrain_starts hk
  have hsound := h.of_starts hstarts
  cases hop : (s.tasks t).operation with
  | some o' =>
    rw [runSfuDrain_running hop] at hp
    exact absurd hp.1 (by omega)
  | none =>
    obtain ⟨hfirst, hcount, hkey⟩ := @startDrain_new s key t hop
    have hstart := startDrain_starts hk
    by_cases hkind : ((s.startDrain key t).2.tasks t).kind = .publication
    · intro key' t' hk' hkind' hF'
      rw [runSfuDrain_publication hop hkind] at hp hpub hsound hF' ⊢
      dsimp only at hp hpub hsound hF' ⊢
      by_cases ho : o = s.operationCount
      · -- the publication's own drain: the sibling is among those it joined
        rw [hfirst, ho, update_self] at hF' ⊢
        rw [hstarts.registry] at hk'
        rw [(joinVideos_starts entries_registered).old _ (by omega), hkey] at hF'
        have hfence : ((s.startDrain key t).2.tasks t).fence.toResourceFence = key.toResourceFence := by
          rw [(hstart.task t).2, (h.registered key t hk).2]
        obtain ⟨d, hd, hdop⟩ := joinVideos_joins
          (F := ((s.startDrain key t).2.tasks t).fence.toResourceFence) entries_registered
          (OMap.get_eq_some.1 (hstart.registry ▸ hk'))
          (by rw [(hstart.task _).1, h.kind_registered hk', hkind'])
          (by rw [(hstart.task _).2, (h.registered key' t' hk').2, hfence, hF'])
        obtain ⟨hdp, hdt⟩ := hsound.running t' d hdop
        rw [hfirst] at hdp hdt
        exact ⟨d, hd, hdp.1, hdt, fun hs => by cases hs.symm.trans hdp.2⟩
      · -- the drains it starts for its siblings are no publication's
        exfalso
        have hsame := hsound.kind_operation hp.1
        rw [hpub, hfirst] at hsame
        dsimp only at hsame
        rw [update_of_ne ho] at hsame
        have hvideo := joinVideos_kind
          (F := ((s.startDrain key t).2.tasks t).fence.toResourceFence) entries_registered
          (o := o) (by omega) hp.1
        rw [← ((joinVideos_starts entries_registered).task _).1] at hvideo
        rw [hsame] at hvideo
        cases hvideo
    · exfalso
      rw [runSfuDrain_other hop hkind] at hp hpub
      obtain rfl : o = s.operationCount := by
        have := hp.1
        omega
      rw [hkey, ← h.kind_registered hk, ← (hstart.task t).1] at hpub
      exact hkind hpub

theorem runSfuDrain_quiet (h : Sound due s) (hk : s.sfuDrainTasks.get key = some t) :
    Quiet s (s.runSfuDrain key t) where
  toExtends := (runSfuDrain_starts hk).extends
  videos key' t' _ hk' := by
    rw [(runSfuDrain_starts hk).registry] at hk'
    exact hk'
  awaited _ hle hp hpub := runSfuDrain_awaited h hk hle hp hpub

/-! ## Scheduling -/

/-- A new task under a free key; a voice connection's may take the place of another. -/
theorem Sound.register (h : Sound due s) (hfree : kindOf key ≠ .voice → s.sfuDrainTasks.get key = none)
    (hpub : ∀ F, key = publicationFence F → s.admission.publicationState F = some .draining ∧
      ∀ f t, kindOf f = .subscription → s.sfuDrainTasks.get f = some t → f.toResourceFence ≠ F)
    (hsub : kindOf key = .subscription → s.admission.subscriptionState key = some .draining ∧
      s.sfuDrainTasks.get (publicationFence key.toResourceFence) = none)
    (hvideo : kindOf key = .videoPublication → s.publications.get key.toResourceFence = none) :
    Sound (key :: due) (s.register (kindOf key) key) := by
  have hget : ∀ k, (s.register (kindOf key) key).sfuDrainTasks.get k =
      if k = key then some s.taskCount else s.sfuDrainTasks.get k := fun k => by
    simp [State.register]
  have htask : ∀ t < s.taskCount, (s.register (kindOf key) key).tasks t = s.tasks t := fun t ht => by
    simp [State.register, Nat.ne_of_lt ht]
  have hnew : (s.register (kindOf key) key).tasks s.taskCount = { kind := kindOf key, fence := key } := by
    simp [State.register]
  have hold : ∀ t o, ((s.register (kindOf key) key).tasks t).operation = some o →
      (s.tasks t).operation = some o := by
    intro t o ht
    by_cases hne : t = s.taskCount
    · rw [hne, hnew] at ht
      cases ht
    · simpa [State.register, hne] using ht
  refine ⟨h.ledger, h.valid, fun k t hk => ?_, fun t ht => ?_, fun t o ht => h.running t o (hold t o ht),
    fun o ho => ?_, fun o ho hkind => ?_, fun k t hk => ?_, fun F t hk => ?_, fun f t hkind hk => ?_,
    fun F hF => ?_, fun f hf => ?_, fun F connectionID hp => ?_⟩
  · rw [hget] at hk
    split at hk
    · next heq =>
      obtain rfl := Option.some.inj hk
      exact ⟨Nat.lt_succ_self _, by rw [hnew, heq]⟩
    · obtain ⟨ht, hf⟩ := h.registered k t hk
      exact ⟨ht.trans (Nat.lt_succ_self _), by rw [htask t ht, hf]⟩
  · by_cases hlt : t < s.taskCount
    · rw [htask t hlt]
      exact h.kind t hlt
    · obtain rfl : t = s.taskCount := by
        have : t < s.taskCount + 1 := ht
        omega
      rw [hnew]
  · obtain ⟨ht, hf, hop⟩ := h.owner o ho
    refine ⟨ht.trans (Nat.lt_succ_self _), ?_, fun hsettled => ?_⟩
    · exact (congrArg DrainTask.fence (htask _ ht)).trans hf
    · exact (congrArg DrainTask.operation (htask _ ht)).trans (hop hsettled)
  · have hk := h.kept o ho hkind
    rw [hget, if_neg ?_]
    · exact hk
    · intro heq
      have hvoice : kindOf key ≠ .voice := by
        rintro hv
        rw [← heq] at hv
        rcases hkind with hkind | hkind
        · cases hkind.symm.trans hv
        · cases hkind.symm.trans hv
      rw [← heq] at hvoice hfree
      cases hk.symm.trans (hfree hvoice)
  · rw [hget] at hk
    split at hk
    · next heq => exact Or.inl (by simp [heq])
    · have ht := (h.registered k t hk).1
      rcases h.tried k t hk with hmem | ⟨o, ho⟩ | hfailed
      · exact Or.inl (List.mem_cons_of_mem _ hmem)
      · exact Or.inr (Or.inl ⟨o, (congrArg DrainTask.operation (htask t ht)).trans ho⟩)
      · exact Or.inr (Or.inr hfailed)
  · rw [hget] at hk
    split at hk
    · next heq => exact (hpub F heq.symm).1
    · exact h.draining F t hk
  · rw [hget] at hk
    rw [hget]
    split at hk
    · next heq =>
      subst heq
      obtain ⟨hd, hnone⟩ := hsub hkind
      refine ⟨hd, ?_⟩
      rw [if_neg]
      · exact hnone
      · intro heq
        rw [← heq] at hkind
        simp at hkind
    · obtain ⟨hd, hnone⟩ := h.subscriptionDraining f t hkind hk
      refine ⟨hd, ?_⟩
      rw [if_neg]
      · exact hnone
      · intro heq
        exact (hpub _ heq.symm).2 f t hkind hk rfl
  · rcases h.drains F hF with ⟨t, ht⟩ | hmem
    · left
      rw [hget]
      split
      · exact ⟨_, rfl⟩
      · exact ⟨t, ht⟩
    · exact Or.inr (List.mem_cons_of_mem _ hmem)
  · rcases h.subscriptionDrains f hf with ⟨hkind, t, ht⟩ | hP | ⟨hkind, hmem⟩
    · left
      rw [hget]
      split
      · exact ⟨hkind, _, rfl⟩
      · exact ⟨hkind, t, ht⟩
    · exact Or.inr (Or.inl hP)
    · exact Or.inr (Or.inr ⟨hkind, List.mem_cons_of_mem _ hmem⟩)
  · obtain ⟨hc, hshare, hnone⟩ := h.handle F connectionID hp
    refine ⟨hc, hshare, fun k t hk hkind => ?_⟩
    rw [hget] at hk
    split at hk
    · next heq =>
      subst heq
      rintro rfl
      cases hp.symm.trans (hvideo hkind)
    · exact hnone k t hk hkind

theorem register_quiet (hfree : kindOf key ≠ .voice → s.sfuDrainTasks.get key = none)
    (hkind : kindOf key ≠ .videoPublication) : Quiet s (s.register (kindOf key) key) where
  count := le_rfl
  old _ _ := rfl
  charged _ hF := hF
  subscriptionCharged _ hf := hf
  keeps k t hk := by
    by_cases heq : k = key
    · subst heq
      by_cases hv : kindOf k = .voice
      · exact Or.inr (Or.inl ⟨hv, s.taskCount, by simp [State.register]⟩)
      · cases hk.symm.trans (hfree hv)
    · exact Or.inl (by simp [State.register, heq, hk])
  videos k t hv hk := by
    have hne : k ≠ key := by
      rintro rfl
      exact hkind hv
    simpa [State.register, hne] using hk
  awaited o ho hp := absurd hp.1 (Nat.not_lt.2 ho)

/-- Scheduling what is registered, or can be. -/
theorem scheduleSfuDrain_sound (h : Sound (key :: due) s) (hkind : kindOf key ≠ .videoPublication)
    (hpub : ∀ F, key = publicationFence F → s.admission.publicationState F = some .draining ∧
      ∀ f t, kindOf f = .subscription → s.sfuDrainTasks.get f = some t → f.toResourceFence ≠ F)
    (hsub : kindOf key = .subscription → s.admission.subscriptionState key = some .draining ∧
      s.sfuDrainTasks.get (publicationFence key.toResourceFence) = none) :
    Sound due (s.scheduleSfuDrain (kindOf key) key) ∧ Quiet s (s.scheduleSfuDrain (kindOf key) key) ∧
      (s.scheduleSfuDrain (kindOf key) key).admission = s.admission ∧
      ∃ t, (s.scheduleSfuDrain (kindOf key) key).sfuDrainTasks.get key = some t := by
  -- once its task is run, the key is no longer due
  have hrun : ∀ {s₁ : State} {t : ℕ}, Sound (key :: due) s₁ → s₁.sfuDrainTasks.get key = some t →
      Sound due (s₁.runSfuDrain key t) ∧ (s₁.runSfuDrain key t).sfuDrainTasks.get key = some t := by
    intro s₁ t h₁ ht
    have hstarts := runSfuDrain_starts ht
    have ht' : (s₁.runSfuDrain key t).sfuDrainTasks.get key = some t := by rw [hstarts.registry, ht]
    refine ⟨(h₁.of_starts hstarts).discharge (fun t' hk => ?_) (fun _ _ => ⟨t, ht'⟩)
      fun _ => Or.inl ⟨t, ht'⟩, ht'⟩
    obtain rfl := Option.some.inj (ht'.symm.trans hk)
    exact Or.inl (runSfuDrain_operation ht)
  unfold State.scheduleSfuDrain
  cases hk : s.sfuDrainTasks.get key with
  | some t =>
    obtain ⟨hsound, ht⟩ := hrun h hk
    exact ⟨hsound, runSfuDrain_quiet h hk, (runSfuDrain_starts hk).admission, t, ht⟩
  | none =>
    have hfree : kindOf key ≠ .voice → s.sfuDrainTasks.get key = none := fun _ => hk
    have hreg := h.register hfree hpub hsub fun hv => absurd hv hkind
    have hnew : (s.register (kindOf key) key).sfuDrainTasks.get key = some s.taskCount := by
      simp [State.register]
    have hquiet := (register_quiet hfree hkind).trans (runSfuDrain_quiet hreg hnew)
    obtain ⟨hsound, ht⟩ := hrun (hreg.mono (by simp)) hnew
    exact ⟨hsound, hquiet, (runSfuDrain_starts hnew).admission, _, ht⟩

theorem get_cancelSubscriptions (h : Sound due s) (k : SubscriptionFence) :
    (s.cancelSubscriptions F).sfuDrainTasks.get k =
      if kindOf k = .subscription ∧ k.toResourceFence = F then none else s.sfuDrainTasks.get k := by
  unfold State.cancelSubscriptions
  rw [OMap.get_filter]
  cases hk : s.sfuDrainTasks.get k with
  | none => simp
  | some t =>
    have hkind := h.kind_registered hk
    have hf := (h.registered k t hk).2
    by_cases hc : kindOf k = .subscription ∧ k.toResourceFence = F
    · simp [hkind, hf, hc]
    · rw [if_neg hc]
      simpa [hkind, hf] using not_and_or.1 hc

/-- The tasks that go are those of subscriptions that go with the publication. -/
theorem Sound.cancelSubscriptions (h : Sound due s)
    (hd : s.admission.publicationState F = some .draining) : Sound due (s.cancelSubscriptions F) := by
  have hget := fun k => get_cancelSubscriptions (F := F) h k
  have hold : ∀ {k t}, (s.cancelSubscriptions F).sfuDrainTasks.get k = some t →
      s.sfuDrainTasks.get k = some t := by
    intro k t hk
    rw [hget] at hk
    split at hk
    · cases hk
    · exact hk
  have hother : ∀ {k}, kindOf k ≠ .subscription →
      (s.cancelSubscriptions F).sfuDrainTasks.get k = s.sfuDrainTasks.get k := by
    intro k hk
    rw [hget, if_neg fun hc => hk hc.1]
  refine ⟨h.ledger, h.valid, fun k t hk => h.registered k t (hold hk), h.kind, h.running, h.owner,
    fun o ho hkind => ?_, fun k t hk => h.tried k t (hold hk), fun F' t hk => h.draining F' t (hold hk),
    fun f t hkind hk => ?_, fun F' hF' => ?_, fun f hf => ?_, fun F' connectionID hp => ?_⟩
  · rw [hother]
    · exact h.kept o ho hkind
    · intro hs
      rcases hkind with hkind | hkind
      · cases hkind.symm.trans hs
      · cases hkind.symm.trans hs
  · rw [hother (by simp)]
    exact h.subscriptionDraining f t hkind (hold hk)
  · rw [hother (by simp)]
    exact h.drains F' hF'
  · rcases h.subscriptionDrains f hf with ⟨hkind, t, ht⟩ | hrest
    · by_cases hF : f.toResourceFence = F
      · exact Or.inr (Or.inl (hF ▸ hd))
      · exact Or.inl ⟨hkind, t, by rw [hget, if_neg fun hc => hF hc.2, ht]⟩
    · exact Or.inr hrest
  · obtain ⟨hc, hshare, hnone⟩ := h.handle F' connectionID hp
    exact ⟨hc, hshare, fun k t hk => hnone k t (hold hk)⟩

/-- A draining publication is scheduled; its subscriptions' tasks go. -/
theorem scheduleSfuPublicationDrain_sound (h : Sound (publicationFence F :: due) s)
    (hd : s.admission.publicationState F = some .draining) :
    Sound due (s.scheduleSfuPublicationDrain F) ∧ Quiet s (s.scheduleSfuPublicationDrain F) ∧
      (s.scheduleSfuPublicationDrain F).admission = s.admission := by
  have hcancel := h.cancelSubscriptions hd
  have hget := fun k => get_cancelSubscriptions (F := F) h k
  have hpub : ∀ F', publicationFence F = publicationFence F' →
      (s.cancelSubscriptions F).admission.publicationState F' = some .draining ∧
      ∀ f t, kindOf f = .subscription → (s.cancelSubscriptions F).sfuDrainTasks.get f = some t →
        f.toResourceFence ≠ F' := by
    intro F' hF'
    obtain rfl := publicationFence_inj.1 hF'
    refine ⟨hd, fun f t hkind hk hF => ?_⟩
    rw [hget, if_pos ⟨hkind, hF⟩] at hk
    cases hk
  obtain ⟨hsound, hquiet, hadm, hP⟩ := scheduleSfuDrain_sound hcancel (by simp) hpub (by simp)
  rw [kindOf_publicationFence] at hsound hquiet hadm hP
  refine ⟨hsound, ⟨⟨hquiet.count, hquiet.old, hquiet.charged, hquiet.subscriptionCharged,
    fun k t hk => ?_⟩, fun k t hkind hk => ?_, hquiet.awaited⟩, hadm⟩
  · by_cases hc : kindOf k = .subscription ∧ k.toResourceFence = F
    · refine Or.inr (Or.inr ⟨hc.1, ?_⟩)
      rw [hc.2]
      exact hP
    · exact hquiet.keeps k t (by rw [hget, if_neg hc, hk])
  · have := hquiet.videos k t hkind hk
    rw [hget] at this
    split at this
    · cases this
    · exact this

theorem scheduleSfuSubscriptionDrain_sound (h : Sound (key :: due) s) (hkind : kindOf key = .subscription)
    (hd : s.admission.subscriptionState key = some .draining) :
    Sound due (s.scheduleSfuSubscriptionDrain key) ∧ Quiet s (s.scheduleSfuSubscriptionDrain key) := by
  unfold State.scheduleSfuSubscriptionDrain
  cases hP : s.sfuDrainTasks.get (publicationFence key.toResourceFence) with
  | some t =>
    have hdP := h.draining _ t hP
    rw [if_pos (by simp [OMap.has, hP])]
    refine ⟨h.discharge (fun t' hk => ?_) (fun F hF => ?_) (fun _ => Or.inr hdP), Quiet.refl s⟩
    · cases (h.subscriptionDraining key t' hkind hk).2.symm.trans hP
    · rw [hF] at hkind
      simp at hkind
  | none =>
    rw [if_neg (by simp [OMap.has, hP])]
    obtain ⟨hsound, hquiet, -⟩ := scheduleSfuDrain_sound h (by simp [hkind])
      (fun F hF => by simp [hF] at hkind) fun _ => ⟨hd, hP⟩
    rw [hkind] at hsound hquiet
    exact ⟨hsound, hquiet⟩

theorem scheduleAll_sound {fences : List ResourceFence} (h : Sound (fences.map publicationFence) s)
    (hd : ∀ F ∈ fences, s.admission.publicationState F = some .draining) :
    Sound [] (s.scheduleAll fences) ∧ Quiet s (s.scheduleAll fences) := by
  induction fences generalizing s with
  | nil => exact ⟨h, Quiet.refl s⟩
  | cons F fences ih =>
    obtain ⟨hsound, hquiet, hadm⟩ := scheduleSfuPublicationDrain_sound h (hd F List.mem_cons_self)
    obtain ⟨hsound', hquiet'⟩ := ih hsound fun F' hF' => by
      rw [hadm]
      exact hd F' (List.mem_cons_of_mem _ hF')
    exact ⟨hsound', hquiet.trans hquiet'⟩

/-! ## The events -/

/-- An operation of the admission that completes nothing: what begins to drain is due. -/
theorem Sound.callAdmission {op : Admission.Op} {answer : Admission.Answer} {a' : Admission} (h : Sound [] s)
    (hs : s.admission.step op = .ok (answer, a')) (hop : ∀ F, op ≠ .completeDrain F)
    (hopSub : ∀ f, op ≠ .completeSubscriptionDrain f)
    (hdue : ∀ F, op = .beginDrain F ∧ answer.accepted ∨ F ∈ answer.draining → publicationFence F ∈ due)
    (hdueSub : ∀ f, op = .beginSubscriptionDrain f → answer.accepted → f ∈ due) :
    Sound due { s with admission := a' } ∧ Quiet s { s with admission := a' } := by
  have htracks := Admission.step_tracks h.ledger hs
  constructor
  · refine ⟨Admission.step_ledger h.ledger hs, Admission.step_valid h.ledger hs h.valid, h.registered,
      h.kind, h.running, h.owner, h.kept, fun k t hk => ?_, fun F t hk => ?_, fun f t hkind hk => ?_,
      fun F hF => ?_, fun f hf => ?_, h.handle⟩
    · exact (h.tried k t hk).imp_left fun hmem => absurd hmem List.not_mem_nil
    · exact htracks.publicationStays F (h.draining F t hk) (hop F)
    · obtain ⟨hd, hnone⟩ := h.subscriptionDraining f t hkind hk
      exact ⟨htracks.subscriptionStays f hd (hopSub f) (hop _), hnone⟩
    · rcases htracks.publicationDrains F hF with hd | hnew
      · exact (h.drains F hd).imp_right fun hmem => absurd hmem List.not_mem_nil
      · exact Or.inr (hdue F hnew)
    · rcases htracks.subscriptionDrains f hf with hd | hP | ⟨rfl, hacc⟩
      · rcases h.subscriptionDrains f hd with ht | hP | ⟨-, hmem⟩
        · exact Or.inl ht
        · exact Or.inr (Or.inl (htracks.publicationStays _ hP (hop _)))
        · cases hmem
      · exact Or.inr (Or.inl hP)
      · exact Or.inr (Or.inr ⟨kindOf_subscription (Admission.valid_of_step hs).2, hdueSub f rfl hacc⟩)
  · exact ⟨⟨le_rfl, fun _ _ => rfl, fun F hF => htracks.publicationCharged F hF (hop F),
      fun f hf => htracks.subscriptionCharged f hf (hopSub f) (hop _), fun _ _ hk => Or.inl hk⟩,
      fun _ _ _ hk => hk, fun o ho hp => absurd hp.1 (Nat.not_lt.2 ho)⟩

theorem admit_ok {op : Admission.Op} {answer : Admission.Answer} (hs : s.callAdmission op = some (answer, s')) :
    ∃ a', s.admission.step op = .ok (answer, a') ∧ s' = { s with admission := a' } := by
  unfold State.callAdmission at hs
  cases hop : s.admission.step op with
  | error e =>
    rw [hop] at hs
    cases hs
  | ok r =>
    rw [hop] at hs
    cases hs
    exact ⟨_, rfl, rfl⟩

/-- An operation that begins no drain. -/
theorem admit_sound {op : Admission.Op} {answer : Admission.Answer} (h : Sound [] s)
    (hs : s.callAdmission op = some (answer, s')) (hop : ∀ F, op ≠ .completeDrain F)
    (hopSub : ∀ f, op ≠ .completeSubscriptionDrain f) (hbegin : ∀ F, op ≠ .beginDrain F)
    (hbeginSub : ∀ f, op ≠ .beginSubscriptionDrain f) (hnone : answer.draining = []) :
    Sound [] s' ∧ Quiet s s' := by
  obtain ⟨a', hstep, rfl⟩ := admit_ok hs
  refine h.callAdmission hstep hop hopSub (fun F hF => ?_) fun f hf => absurd hf (hbeginSub f)
  rcases hF with ⟨hF, -⟩ | hF
  · exact absurd hF (hbegin F)
  · simp [hnone] at hF

/-- An operation whose answer is scheduled. -/
theorem drainAnswered_sound {op : Admission.Op} (h : Sound [] s) (hs : s.drainAnswered op = some s')
    (hop : ∀ F, op ≠ .completeDrain F) (hopSub : ∀ f, op ≠ .completeSubscriptionDrain f)
    (hbegin : ∀ F, op ≠ .beginDrain F) (hbeginSub : ∀ f, op ≠ .beginSubscriptionDrain f) :
    Sound [] s' ∧ Quiet s s' := by
  obtain ⟨⟨answer, s₁⟩, hadmit, hs⟩ := Option.bind_eq_some_iff.1 hs
  obtain ⟨a', hstep, rfl⟩ := admit_ok hadmit
  obtain rfl := Option.some.inj hs
  obtain ⟨hsound, hquiet⟩ : Sound (answer.draining.map publicationFence) { s with admission := a' } ∧
      Quiet s { s with admission := a' } := h.callAdmission hstep hop hopSub (fun F hF => by
      rcases hF with ⟨hF, -⟩ | hF
      · exact absurd hF (hbegin F)
      · exact List.mem_map_of_mem hF)
    fun f hf => absurd hf (hbeginSub f)
  have hdrained := (Admission.step_tracks h.ledger hstep).drained
  obtain ⟨hsound', hquiet'⟩ := scheduleAll_sound hsound fun F hF => hdrained F (Or.inr hF)
  exact ⟨hsound', hquiet.trans hquiet'⟩

/-- A publication that begins to drain is scheduled. -/
theorem beginDrain_sound {answer : Admission.Answer} (h : Sound [] s)
    (hs : s.callAdmission (.beginDrain F) = some (answer, s')) :
    (answer.accepted → Sound [] (s'.scheduleSfuPublicationDrain F) ∧
      Quiet s (s'.scheduleSfuPublicationDrain F)) ∧
      (answer.accepted = false → Sound [] s' ∧ Quiet s s') := by
  obtain ⟨a', hstep, rfl⟩ := admit_ok hs
  have hnone := (Admission.ofAccepted_ok hstep).2
  constructor
  · intro hacc
    obtain ⟨hsound, hquiet⟩ : Sound [publicationFence F] { s with admission := a' } ∧
        Quiet s { s with admission := a' } := h.callAdmission hstep (by simp) (by simp)
      (fun F' hF' => by
        rcases hF' with ⟨hF', -⟩ | hF'
        · cases hF'
          exact List.mem_singleton_self _
        · simp [hnone] at hF')
      (by simp)
    obtain ⟨hsound', hquiet', -⟩ := scheduleSfuPublicationDrain_sound hsound
      ((Admission.step_tracks h.ledger hstep).drained F (Or.inl ⟨rfl, hacc⟩))
    exact ⟨hsound', hquiet.trans hquiet'⟩
  · intro hacc
    refine h.callAdmission hstep (by simp) (by simp) (fun F' hF' => ?_) (by simp)
    rcases hF' with ⟨-, hF'⟩ | hF'
    · simp [hacc] at hF'
    · simp [hnone] at hF'

theorem releasePublication_sound (h : Sound [] s) (hs : s.releasePublication F = some s') :
    Sound [] s' ∧ Quiet s s' := by
  obtain ⟨⟨answer, s₁⟩, hadmit, hs⟩ := Option.bind_eq_some_iff.1 hs
  obtain rfl := Option.some.inj hs
  obtain ⟨hyes, hno⟩ := beginDrain_sound h hadmit
  split
  · next hacc => exact hyes hacc
  · next hacc => exact hno (by simpa using hacc)

theorem releaseSubscription_sound (h : Sound [] s) (hs : s.releaseSubscription key = some s') :
    Sound [] s' ∧ Quiet s s' := by
  obtain ⟨⟨answer, s₁⟩, hadmit, hs⟩ := Option.bind_eq_some_iff.1 hs
  obtain ⟨a', hstep, rfl⟩ := admit_ok hadmit
  obtain rfl := Option.some.inj hs
  have hnone := (Admission.ofAccepted_ok hstep).2
  split
  · next hacc =>
    obtain ⟨hsound, hquiet⟩ : Sound [key] { s with admission := a' } ∧
        Quiet s { s with admission := a' } := h.callAdmission hstep (by simp) (by simp)
      (fun F' hF' => by simp [hnone] at hF')
      fun f hf _ => by
        cases hf
        exact List.mem_singleton_self _
    obtain ⟨hsound', hquiet'⟩ := scheduleSfuSubscriptionDrain_sound hsound
      (kindOf_subscription (Admission.valid_of_step hstep).2)
      ((Admission.step_tracks h.ledger hstep).subscriptionDrained key rfl hacc)
    exact ⟨hsound', hquiet.trans hquiet'⟩
  · next hacc =>
    exact h.callAdmission hstep (by simp) (by simp) (fun F' hF' => by simp [hnone] at hF')
      fun f _ hacc' => absurd hacc' hacc

theorem prepareNewPublication_sound (h : Sound [] s) (hs : s.prepareNewPublication key = some s') :
    Sound [] s' ∧ Quiet s s' := by
  obtain ⟨⟨reserved, s₁⟩, hadmit₁, hs⟩ := Option.bind_eq_some_iff.1 hs
  obtain ⟨a₁, hstep₁, rfl⟩ := admit_ok hadmit₁
  obtain ⟨hok₁, hnone₁⟩ := Admission.ofAccepted_ok hstep₁
  obtain ⟨hsound₁, hquiet₁⟩ := admit_sound h hadmit₁ (by simp) (by simp) (by simp) (by simp) hnone₁
  dsimp only at hs
  split at hs
  · obtain rfl := Option.some.inj hs
    exact ⟨hsound₁, hquiet₁⟩
  · next hacc₁ =>
    obtain ⟨⟨subscribed, s₂⟩, hadmit₂, hs⟩ := Option.bind_eq_some_iff.1 hs
    obtain ⟨a₂, hstep₂, rfl⟩ := admit_ok hadmit₂
    obtain ⟨hsound₂, hquiet₂⟩ := admit_sound hsound₁ hadmit₂ (by simp) (by simp) (by simp) (by simp)
      (Admission.ofAccepted_ok hstep₂).2
    dsimp only at hs
    split at hs
    · obtain rfl := Option.some.inj hs
      exact ⟨hsound₂, hquiet₁.trans hquiet₂⟩
    · obtain ⟨⟨drained, s₃⟩, hadmit₃, hs⟩ := Option.bind_eq_some_iff.1 hs
      obtain ⟨a₃, hstep₃, rfl⟩ := admit_ok hadmit₃
      obtain rfl := Option.some.inj hs
      -- what was just reserved is there to be drained
      have hacc : reserved.accepted = true := by simpa using hacc₁
      rw [hacc] at hok₁
      have hcharged := hquiet₂.charged key.toResourceFence (Admission.reservePublication_charged hok₁)
      have hacc₃ := Admission.beginDrain_accepted (Admission.ofAccepted_ok hstep₃).1 hcharged
      obtain ⟨hsound₃, hquiet₃⟩ := (beginDrain_sound hsound₂ hadmit₃).1 hacc₃
      exact ⟨hsound₃, (hquiet₁.trans hquiet₂).trans hquiet₃⟩

/-- A task is run once more. -/
theorem retry_sound (h : Sound [] s) (hk : s.sfuDrainTasks.get key = some t) :
    Sound [] (s.runSfuDrain key t) ∧ Quiet s (s.runSfuDrain key t) :=
  ⟨h.of_starts (runSfuDrain_starts hk), runSfuDrain_quiet h hk⟩

/-- A new task of a free key, run at once. -/
theorem register_run (h : Sound [] s) (key : SubscriptionFence)
    (hfree : kindOf key ≠ .voice → s.sfuDrainTasks.get key = none)
    (hpub : kindOf key ≠ .publication) (hsub : kindOf key ≠ .subscription)
    (hvideo : kindOf key = .videoPublication → s.publications.get key.toResourceFence = none) :
    Sound [] ((s.register (kindOf key) key).runSfuDrain key s.taskCount) ∧
      Quiet (s.register (kindOf key) key) ((s.register (kindOf key) key).runSfuDrain key s.taskCount) := by
  have hreg := h.register hfree (fun F hF => absurd (by simp [hF]) hpub) (fun hs => absurd hs hsub) hvideo
  have hnew : (s.register (kindOf key) key).sfuDrainTasks.get key = some s.taskCount := by
    simp [State.register]
  have hstarts := runSfuDrain_starts hnew
  refine ⟨(hreg.of_starts hstarts).discharge (fun t ht => ?_) (fun F hF => absurd (by simp [hF]) hpub)
    fun hs => absurd hs hsub, runSfuDrain_quiet hreg hnew⟩
  rw [hstarts.registry, hnew] at ht
  obtain rfl := Option.some.inj ht
  exact Or.inl (runSfuDrain_operation hnew)

theorem closeVoiceEdge_sound (h : Sound [] s) {roomID edgeID : String} (he : edgeID ≠ "") :
    Sound [] (s.closeVoiceEdge roomID edgeID) ∧ Quiet s (s.closeVoiceEdge roomID edgeID) := by
  have hkind : kindOf (voiceFence roomID edgeID) = .voice := kindOf_voiceFence he
  obtain ⟨hsound, hquiet⟩ := register_run h (voiceFence roomID edgeID)
    (fun hne => absurd hkind hne) (by simp [hkind]) (by simp [hkind]) (by simp [hkind])
  have hreg : Quiet s (s.register (kindOf (voiceFence roomID edgeID)) (voiceFence roomID edgeID)) :=
    register_quiet (fun hne => absurd hkind hne) (by simp [hkind])
  rw [hkind] at hsound hquiet hreg
  exact ⟨hsound, hreg.trans hquiet⟩

/-- A handle makes room for its close. -/
theorem Sound.detach (h : Sound due s) (F : ResourceFence) :
    Sound due { s with publications := s.publications.delete F } :=
  { h with
    handle := fun F' connectionID hp => by
      rw [OMap.get_delete] at hp
      split at hp
      · cases hp
      · exact h.handle F' connectionID hp }

theorem retire_sound (h : Sound [] s) {connectionID : String}
    (hp : s.publications.get F = some connectionID) :
    Sound [] (s.retireSfuVideoPublication F connectionID) ∧
      ∃ s₁, Quiet s₁ (s.retireSfuVideoPublication F connectionID) ∧ Extends s s₁ ∧
        s₁.operationCount = s.operationCount ∧ ∀ key t, kindOf key = .videoPublication →
          s₁.sfuDrainTasks.get key = some t → s.sfuDrainTasks.get key = some t ∨ key.toResourceFence = F := by
  obtain ⟨hc, hshare, hnone⟩ := h.handle F connectionID hp
  have hkind := kindOf_videoFence hshare hc
  have hfree : s.sfuDrainTasks.get (videoFence F connectionID) = none := by
    cases hk : s.sfuDrainTasks.get (videoFence F connectionID) with
    | none => rfl
    | some t => exact absurd rfl (hnone _ t hk hkind)
  obtain ⟨hsound, hquiet⟩ := register_run (h.detach F) (videoFence F connectionID)
    (fun _ => hfree) (by simp [hkind]) (by simp [hkind]) fun _ => by
      rw [OMap.get_delete]
      exact if_pos rfl
  unfold State.retireSfuVideoPublication
  rw [if_pos hp]
  rw [hkind] at hsound hquiet
  refine ⟨hsound, _, hquiet, ⟨le_rfl, fun _ _ => rfl, fun _ hF => hF, fun _ hf => hf,
    fun key t hk => Or.inl ?_⟩, rfl, fun key t _ hk => ?_⟩
  · have hne : key ≠ videoFence F connectionID := by
      rintro rfl
      cases hk.symm.trans hfree
    simp [State.register, hne, hk]
  · by_cases hne : key = videoFence F connectionID
    · exact Or.inr (by rw [hne]; rfl)
    · exact Or.inl (by simpa [State.register, hne] using hk)

theorem preparePublication_sound (h : Sound [] s) {connectionID : String}
    (hs : s.preparePublication F connectionID = some s') : Sound [] s' ∧ Quiet s s' := by
  unfold State.preparePublication at hs
  split at hs
  · cases hs
  · next hv =>
    obtain rfl := Option.some.inj hs
    simp only [not_or] at hv
    obtain ⟨-, hshare, -, hc, hretiring, -, -⟩ := hv
    refine ⟨{ h with handle := fun F' c' hp => ?_ }, ⟨le_rfl, fun _ _ => rfl, fun _ hF => hF,
      fun _ hf => hf, fun _ _ hk => Or.inl hk⟩, fun _ _ _ hk => hk,
      fun o ho hp => absurd hp.1 (Nat.not_lt.2 ho)⟩
    rw [OMap.get_set] at hp
    split at hp
    · next hF =>
      obtain rfl := Option.some.inj hp
      subst hF
      refine ⟨hc, hshare, fun key t hk hkind hF => hretiring ?_⟩
      refine List.any_eq_true.2 ⟨(key, t), OMap.get_eq_some.1 hk, ?_⟩
      simp [h.kind_registered hk, hkind, (h.registered key t hk).2, hF]
    · exact h.handle F' c' hp

/-! ## Closes and their settling -/

theorem close_eq {ok : Bool} (hs : s.close o ok = some s') : o < s.operationCount ∧
    (s.operations o).closed = none ∧ s'.admission = s.admission ∧ s'.sfuDrainTasks = s.sfuDrainTasks ∧
    s'.tasks = s.tasks ∧ s'.taskCount = s.taskCount ∧ s'.operationCount = s.operationCount ∧
    s'.operations = update s.operations o { s.operations o with closed := some ok } ∧
    ∀ F connectionID, s'.publications.get F = some connectionID →
      s.publications.get F = some connectionID := by
  unfold State.close at hs
  dsimp only at hs
  split at hs
  · next hc =>
    cases hs
    refine ⟨hc.1, hc.2, rfl, rfl, rfl, rfl, rfl, rfl, fun F connectionID hp => ?_⟩
    dsimp only at hp
    split at hp
    · rw [OMap.get_delete] at hp
      split at hp
      · cases hp
      · exact hp
    · exact hp
  · cases hs

/-- What a close that returns leaves of every operation. -/
theorem close_operation {ok : Bool} (hs : s.close o ok = some s') (o' : ℕ) :
    (s'.operations o').task = (s.operations o').task ∧ (s'.operations o').key = (s.operations o').key ∧
      (s'.operations o').videoDrains = (s.operations o').videoDrains ∧
      (s'.operations o').settled = (s.operations o').settled := by
  obtain ⟨-, -, -, -, -, -, -, hops, -⟩ := close_eq hs
  rw [hops]
  by_cases ho : o' = o
  · subst ho
    simp
  · simp [ho]

theorem Sound.close {ok : Bool} (h : Sound [] s) (hs : s.close o ok = some s') : Sound [] s' := by
  have hop := close_operation hs
  obtain ⟨-, -, hadm, hreg, htasks, htaskCount, hcount, -, hpubs⟩ := close_eq hs
  have hpending : ∀ o', s'.Pending o' ↔ s.Pending o' := fun o' => by
    rw [State.Pending, State.Pending, hcount, (hop o').2.2.2]
  refine ⟨hadm ▸ h.ledger, hadm ▸ h.valid, ?_, ?_, fun t o' ht => ?_, fun o' ho => ?_,
    fun o' ho hkind => ?_, fun k t hk => ?_, ?_, ?_, ?_, ?_, fun F connectionID hp => ?_⟩
  · rw [hreg, htasks, htaskCount]
    exact h.registered
  · rw [htasks, htaskCount]
    exact h.kind
  · rw [htasks] at ht
    rw [hpending, (hop o').1]
    exact h.running t o' ht
  · rw [hcount] at ho
    rw [(hop o').1, (hop o').2.1, (hop o').2.2.2, htasks, htaskCount]
    exact h.owner o' ho
  · rw [(hop o').2.1] at hkind
    rw [(hop o').1, (hop o').2.1, hreg]
    exact h.kept o' ((hpending o').1 ho) hkind
  · rw [hreg] at hk
    rw [htasks, hcount]
    rcases h.tried k t hk with hmem | hrun | ⟨o', ho, ht, hf⟩
    · exact Or.inl hmem
    · exact Or.inr (Or.inl hrun)
    · exact Or.inr (Or.inr ⟨o', ho, (hop o').1.trans ht, (hop o').2.2.2.trans hf⟩)
  · rw [hadm, hreg]
    exact h.draining
  · rw [hadm, hreg]
    exact h.subscriptionDraining
  · rw [hadm, hreg]
    exact h.drains
  · rw [hadm, hreg]
    exact h.subscriptionDrains
  · rw [hreg]
    exact h.handle F connectionID (hpubs F connectionID hp)

section Finish

variable {done : Bool}

@[simp] theorem finish_self :
    (s.finish o done).operations o = { s.operations o with settled := some done } := by
  simp [State.finish]

theorem finish_other {o' : ℕ} (h : o' ≠ o) : (s.finish o done).operations o' = s.operations o' := by
  simp [State.finish, h]

theorem finish_operation (o' : ℕ) : ((s.finish o done).operations o').task = (s.operations o').task ∧
    ((s.finish o done).operations o').key = (s.operations o').key ∧
    ((s.finish o done).operations o').videoDrains = (s.operations o').videoDrains := by
  by_cases h : o' = o
  · subst h
    simp
  · simp [finish_other h]

theorem finish_task (t : ℕ) : ((s.finish o done).tasks t).kind = (s.tasks t).kind ∧
    ((s.finish o done).tasks t).fence = (s.tasks t).fence := by
  unfold State.finish
  dsimp only
  split <;> exact ⟨rfl, rfl⟩

theorem finish_running {t o' : ℕ} : ((s.finish o done).tasks t).operation = some o' ↔
    (s.tasks t).operation = some o' ∧ o' ≠ o := by
  unfold State.finish
  dsimp only
  split
  · next hto => simp [hto, eq_comm]
  · next hto =>
    refine ⟨fun ht => ⟨ht, ?_⟩, fun ht => ht.1⟩
    rintro rfl
    exact hto ht

theorem finish_pending {o' : ℕ} : (s.finish o done).Pending o' ↔ s.Pending o' ∧ o' ≠ o := by
  by_cases h : o' = o
  · subst h
    simp [State.Pending]
  · rw [State.Pending, finish_other h]
    simp [State.Pending, State.finish, h]

/-- A drain is done.  A task that is still registered has failed, or is due. -/
theorem Sound.finish (h : Sound [] s) (ho : s.Pending o)
    (hdue : done = true → s.sfuDrainTasks.get (s.operations o).key = some (s.operations o).task →
      (s.operations o).key ∈ due) : Sound due (s.finish o done) := by
  refine ⟨h.ledger, h.valid, fun k t hk => ?_, fun t ht => ?_, fun t o' ht => ?_, fun o' ho' => ?_,
    fun o' ho' hkind => ?_, fun k t hk => ?_, h.draining, h.subscriptionDraining, fun F hF => ?_,
    fun f hf => ?_, h.handle⟩
  · rw [(finish_task t).2]
    exact h.registered k t hk
  · rw [(finish_task t).1, (finish_task t).2]
    exact h.kind t ht
  · obtain ⟨ht, hne⟩ := finish_running.1 ht
    obtain ⟨hp, htk⟩ := h.running t o' ht
    exact ⟨finish_pending.2 ⟨hp, hne⟩, (finish_operation o').1.trans htk⟩
  · obtain ⟨ht, hf, hop⟩ := h.owner o' ho'
    rw [(finish_operation o').1, (finish_operation o').2.1, (finish_task _).2]
    refine ⟨ht, hf, fun hsettled => ?_⟩
    have hp := finish_pending.1 ⟨ho', hsettled⟩
    exact finish_running.2 ⟨hop hp.1.2, hp.2⟩
  · rw [(finish_operation o').1, (finish_operation o').2.1]
    rw [(finish_operation o').2.1] at hkind
    exact h.kept o' (finish_pending.1 ho').1 hkind
  · rcases h.tried k t hk with hmem | ⟨o', hto⟩ | ⟨o', hlt, ht, hf⟩
    · cases hmem
    · by_cases hne : o' = o
      · subst hne
        have htk := (h.running t o' hto).2
        cases done with
        | false => exact Or.inr (Or.inr ⟨o', ho.1, (finish_operation o').1.trans htk, by simp⟩)
        | true =>
          have hkey : (s.operations o').key = k := by
            obtain ⟨-, hf, -⟩ := h.owner o' ho.1
            rw [← hf, htk]
            exact (h.registered k t hk).2
          rw [hkey, htk] at hdue
          exact Or.inl (hdue rfl hk)
      · exact Or.inr (Or.inl ⟨o', finish_running.2 ⟨hto, hne⟩⟩)
    · have hne : o' ≠ o := by
        rintro rfl
        cases hf.symm.trans ho.2
      refine Or.inr (Or.inr ⟨o', hlt, ?_⟩)
      rw [finish_other hne]
      exact ⟨ht, hf⟩
  · exact (h.drains F hF).imp_right fun hmem => absurd hmem List.not_mem_nil
  · exact (h.subscriptionDrains f hf).imp_right fun hd => hd.imp_right fun hmem =>
      absurd hmem.2 List.not_mem_nil

end Finish

/-! ## What a successful close frees -/

/-- The admission before and after the task of the key succeeded. -/
structure Frees (a : Admission) (key : SubscriptionFence) (a' : Admission) : Prop where
  ledger : a'.Ledger
  valid : (∀ F, (a.publicationState F).isSome → F.Valid) → ∀ F, (a'.publicationState F).isSome → F.Valid
  stays : ∀ F, publicationFence F ≠ key → a.publicationState F = some .draining →
    a'.publicationState F = some .draining
  subscriptionStays : ∀ f, f ≠ key → publicationFence f.toResourceFence ≠ key →
    a.subscriptionState f = some .draining → a'.subscriptionState f = some .draining
  drains : ∀ F, a'.publicationState F = some .draining → a.publicationState F = some .draining
  subscriptionDrains : ∀ f, a'.subscriptionState f = some .draining →
    a.subscriptionState f = some .draining ∨ a'.publicationState f.toResourceFence = some .draining
  frees : ∀ F, key = publicationFence F → a'.publicationState F = none ∧
    ∀ f : SubscriptionFence, f.toResourceFence = F → a'.subscriptionState f = none
  freesSubscription : kindOf key = .subscription → a'.subscriptionState key = none
  charged : ∀ F, publicationFence F ≠ key → (a.publicationState F).isSome →
    (a'.publicationState F).isSome
  subscriptionCharged : ∀ f, f ≠ key → publicationFence f.toResourceFence ≠ key →
    (a.subscriptionState f).isSome → (a'.subscriptionState f).isSome

theorem frees_same {a : Admission} (h : a.Ledger) (hpub : kindOf key ≠ .publication)
    (hsub : kindOf key ≠ .subscription) : Frees a key a where
  ledger := h
  valid hv := hv
  stays _ _ hF := hF
  subscriptionStays _ _ _ hf := hf
  drains _ hF := hF
  subscriptionDrains _ hf := Or.inl hf
  frees F hF := absurd (by simp [hF]) hpub
  freesSubscription hs := absurd hs hsub
  charged _ _ hF := hF
  subscriptionCharged _ _ _ hf := hf

theorem frees_publication {a a' : Admission} {answer : Admission.Answer} (h : a.Ledger)
    (hs : a.step (.completeDrain F) = .ok (answer, a')) (hd : a.publicationState F = some .draining) :
    answer.accepted ∧ Frees a (publicationFence F) a' := by
  have htracks := Admission.step_tracks h hs
  have hnone := (Admission.ofAccepted_ok hs).2
  obtain ⟨hacc, hfree, hfreeSub⟩ := htracks.completed F rfl hd
  have hne : ∀ {F'}, publicationFence F' ≠ publicationFence F →
      Admission.Op.completeDrain F ≠ .completeDrain F' := by
    rintro F' hF' heq
    cases heq
    exact hF' rfl
  refine ⟨hacc, Admission.step_ledger h hs, Admission.step_valid h hs,
    fun F' hF' hd' => htracks.publicationStays F' hd' (hne hF'),
    fun f _ hF' hd' => htracks.subscriptionStays f hd' (by simp) (hne hF'), fun F' hd' => ?_,
    fun f hf => ?_, fun F' hF' => ?_, fun hs => by simp at hs,
    fun F' hF' hc => htracks.publicationCharged F' hc (hne hF'),
    fun f _ hF' hc => htracks.subscriptionCharged f hc (by simp) (hne hF')⟩
  · rcases htracks.publicationDrains F' hd' with hd' | ⟨hop, -⟩ | hmem
    · exact hd'
    · cases hop
    · simp [hnone] at hmem
  · rcases htracks.subscriptionDrains f hf with hf | hP | ⟨hop, -⟩
    · exact Or.inl hf
    · exact Or.inr hP
    · cases hop
  · obtain rfl := publicationFence_inj.1 hF'
    exact ⟨hfree, hfreeSub⟩

theorem frees_subscription {a a' : Admission} {answer : Admission.Answer} (h : a.Ledger)
    (hkind : kindOf key = .subscription) (hs : a.step (.completeSubscriptionDrain key) = .ok (answer, a'))
    (hd : a.subscriptionState key = some .draining) : Frees a key a' := by
  have htracks := Admission.step_tracks h hs
  have hnone := (Admission.ofAccepted_ok hs).2
  have hne : ∀ {f}, f ≠ key →
      Admission.Op.completeSubscriptionDrain key ≠ .completeSubscriptionDrain f := by
    rintro f hf heq
    cases heq
    exact hf rfl
  refine ⟨Admission.step_ledger h hs, Admission.step_valid h hs,
    fun F' _ hd' => htracks.publicationStays F' hd' (by simp),
    fun f hf _ hd' => htracks.subscriptionStays f hd' (hne hf) (by simp), fun F' hd' => ?_,
    fun f hf => ?_, fun F' hF' => ?_, fun _ => htracks.subscriptionCompleted key rfl hd,
    fun F' _ hc => htracks.publicationCharged F' hc (by simp),
    fun f hf _ hc => htracks.subscriptionCharged f hc (hne hf) (by simp)⟩
  · rcases htracks.publicationDrains F' hd' with hd' | ⟨hop, -⟩ | hmem
    · exact hd'
    · cases hop
    · simp [hnone] at hmem
  · rcases htracks.subscriptionDrains f hf with hf | hP | ⟨hop, -⟩
    · exact Or.inl hf
    · exact Or.inr hP
    · cases hop
  · rw [hF'] at hkind
    simp at hkind

/-- The successful task is unregistered, and what it drained is free. -/
theorem Sound.complete {a' : Admission} (h : Sound [key] s) (ht : ∃ t, s.sfuDrainTasks.get key = some t)
    (hidle : ∀ o, s.Pending o → kindOf key = .publication ∨ kindOf key = .videoPublication →
      (s.operations o).key ≠ key) (hfrees : Frees s.admission key a') :
    Sound [] { s with admission := a', sfuDrainTasks := s.sfuDrainTasks.delete key } := by
  have hget : ∀ k, (s.sfuDrainTasks.delete key).get k = if k = key then none else s.sfuDrainTasks.get k :=
    fun k => OMap.get_delete _ _ _
  have hold : ∀ {k t}, (s.sfuDrainTasks.delete key).get k = some t →
      k ≠ key ∧ s.sfuDrainTasks.get k = some t := by
    intro k t hk
    rw [hget] at hk
    split at hk
    · cases hk
    · next hne => exact ⟨hne, hk⟩
  refine ⟨hfrees.ledger, hfrees.valid h.valid, fun k t hk => h.registered k t (hold hk).2, h.kind,
    h.running, h.owner,
    fun o ho hkind => ?_, fun k t hk => ?_, fun F t hk => ?_, fun f t hkind hk => ?_, fun F hF => ?_,
    fun f hf => ?_, fun F connectionID hp => ?_⟩
  · rw [hget, if_neg]
    · exact h.kept o ho hkind
    · rintro heq
      exact hidle o ho (heq ▸ hkind) heq
  · obtain ⟨hne, hk⟩ := hold hk
    exact (h.tried k t hk).imp_left fun hmem => absurd (List.mem_singleton.1 hmem) hne
  · obtain ⟨hne, hk⟩ := hold hk
    exact hfrees.stays F hne (h.draining F t hk)
  · obtain ⟨hne, hk⟩ := hold hk
    obtain ⟨hd, hnone⟩ := h.subscriptionDraining f t hkind hk
    refine ⟨hfrees.subscriptionStays f hne ?_ hd, ?_⟩
    · rintro heq
      obtain ⟨t', ht'⟩ := ht
      rw [← heq, hnone] at ht'
      cases ht'
    · rw [hget]
      split
      · rfl
      · exact hnone
  · have hne : publicationFence F ≠ key := by
      intro heq
      rw [(hfrees.frees F heq.symm).1] at hF
      cases hF
    rcases h.drains F (hfrees.drains F hF) with ⟨t, ht⟩ | hmem
    · exact Or.inl ⟨t, by rw [hget, if_neg hne, ht]⟩
    · exact absurd (List.mem_singleton.1 hmem) hne
  · have hneP : publicationFence f.toResourceFence ≠ key := by
      intro heq
      rw [(hfrees.frees _ heq.symm).2 f rfl] at hf
      cases hf
    have hnef : kindOf f = .subscription → f ≠ key := by
      rintro hkind rfl
      rw [hfrees.freesSubscription hkind] at hf
      cases hf
    rcases hfrees.subscriptionDrains f hf with hd | hP
    · rcases h.subscriptionDrains f hd with ⟨hkind, t, ht⟩ | hP | ⟨hkind, hmem⟩
      · exact Or.inl ⟨hkind, t, by rw [hget, if_neg (hnef hkind), ht]⟩
      · exact Or.inr (Or.inl (hfrees.stays _ hneP hP))
      · exact absurd (List.mem_singleton.1 hmem) (hnef hkind)
    · exact Or.inr (Or.inl hP)
  · obtain ⟨hc, hshare, hnone⟩ := h.handle F connectionID hp
    exact ⟨hc, hshare, fun k t hk => hnone k t (hold hk).2⟩

end Piik.Signal.Drains
