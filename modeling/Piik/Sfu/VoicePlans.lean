/-
  Where the voice flows of a room meet the SFU (`signal/voice_plan.go`, `sfu/voice.go`):
  what the flows give a junction is a plan that the SFU takes, and takes as it is.
-/
import Piik.Sfu.VoiceSlots
import Piik.Voice.Flows

namespace Piik.Sfu

open Voice (VoicePublication VoiceEdge Forest FlowsOver Sends projectVoiceFlows configureVoiceJunction
  publicationPaths served listed bothSpeak)

variable {connections : List VoiceEdge} {voiceAllowed : String → Bool} {pubs : List VoicePublication}
  {members : List String} {order : VoicePublication → List String} {edge : VoiceEdge}

/-! ## What the flows list -/

/-- A publication is listed at the end at which it flows over the edge, and once. -/
theorem count_projected (hforest : Forest connections) (hempty : ∀ edge ∈ connections, ∀ k, edge.sends k = [])
    (hids : (pubs.map VoicePublication.id).Nodup) (hmembers : members.Nodup)
    (horder : ∀ pub ∈ pubs, (order pub).Perm members)
    (hedge : edge ∈ (projectVoiceFlows voiceAllowed connections order pubs (connections, .empty)).1)
    {pub : VoicePublication} (hpub : pub ∈ pubs) (k : String) :
    (edge.sends k).count pub.id ≤ 1 ∧
      (pub.id ∈ edge.sends k ↔ FlowsOver connections members voiceAllowed pub edge.id k) := by
  have hstart : Sends (fun _ _ => []) connections connections :=
    List.forall₂_same.2 fun edge hmem => ⟨rfl, hempty edge hmem⟩
  obtain ⟨hsends, -⟩ := hforest.projectVoiceFlows_listed voiceAllowed order .empty
    (fun pub hpub => (horder pub hpub).nodup_iff.2 hmembers) hstart
  obtain ⟨e, -, hfixed, hsend⟩ := hsends.exists_of_mem hedge
  have hcount := Voice.count_flatMap hids hpub fun pub => ∃ step ∈ served voiceAllowed pub
    (publicationPaths connections pub.peerID) (order pub), step.edge = e.id ∧ step.source = k
  rw [show edge.id = e.id from congrArg Prod.fst hfixed, hforest.flowsOver_iff (horder pub hpub), hsend k,
    List.nil_append, ← List.count_pos_iff]
  by_cases hflows : ∃ step ∈ served voiceAllowed pub (publicationPaths connections pub.peerID) (order pub),
      step.edge = e.id ∧ step.source = k
  · have hone : (pubs.flatMap fun pub => listed pub.id (served voiceAllowed pub
        (publicationPaths connections pub.peerID) (order pub)) e k).count pub.id = 1 :=
      hcount.trans (if_pos hflows)
    rw [hone]
    exact ⟨le_refl 1, iff_of_true Nat.one_pos hflows⟩
  · have hzero : (pubs.flatMap fun pub => listed pub.id (served voiceAllowed pub
        (publicationPaths connections pub.peerID) (order pub)) e k).count pub.id = 0 :=
      hcount.trans (if_neg hflows)
    rw [hzero]
    exact ⟨Nat.zero_le 1, iff_of_false (lt_irrefl 0) hflows⟩

/-! ## What the SFU takes -/

theorem freshPublications_of_nodup : ∀ {pubs : List VoicePublication} (seen : List String),
    (pubs.map VoicePublication.id).Nodup →
    (∀ pub ∈ pubs, validID pub.id = true ∧ validID pub.peerID = true ∧ pub.id ∉ seen) →
    freshPublications pubs seen = true := by
  intro pubs
  induction pubs with
  | nil =>
    intro _ _ _
    rfl
  | cons pub pubs ih =>
    intro seen hnodup h
    rw [List.map_cons, List.nodup_cons] at hnodup
    obtain ⟨hid, hpeer, hseen⟩ := h pub (List.mem_cons_self ..)
    have hrest : freshPublications pubs (pub.id :: seen) = true := by
      refine ih _ hnodup.2 fun other hother => ?_
      obtain ⟨hid', hpeer', hseen'⟩ := h other (List.mem_cons_of_mem _ hother)
      refine ⟨hid', hpeer', ?_⟩
      intro hmem
      rcases List.mem_cons.1 hmem with heq | hmem
      · exact hnodup.1 (heq ▸ List.mem_map_of_mem hother)
      · exact hseen' hmem
    simp [freshPublications, hid, hpeer, hseen, hrest]

theorem sortStable_of_pairwise (h : pubs.Pairwise fun a b => a.id < b.id) :
    (pubs.sortStable fun a b => a.id < b.id) = pubs := by
  rw [List.sortStable]
  refine List.Pairwise.insertionSort_eq (h.imp ?_)
  intro a b hab
  have hnot : ¬b.id < a.id := String.lt_asymm hab
  simp [hnot]

/-- A plan in the order of its publications, within the bounds, is taken as it is. -/
theorem normalizeVoicePlan_self {plan : VoiceConnectionPlan}
    (hkey : [plan.key.room, plan.key.peer, plan.key.session, plan.key.connection].all validID = true)
    (hpublish : plan.publish.Pairwise fun a b => a.id < b.id)
    (hsubscribe : plan.subscribe.Pairwise fun a b => a.id < b.id)
    (hlen : plan.publish.length ≤ maxVoicePublications ∧ plan.subscribe.length ≤ maxVoicePublications)
    (hvalid : ∀ pub ∈ plan.publish ++ plan.subscribe, validID pub.id = true ∧ validID pub.peerID = true)
    (hnodup : ((plan.publish ++ plan.subscribe).map VoicePublication.id).Nodup) :
    normalizeVoicePlan plan = .ok plan := by
  have hfresh : freshPublications (plan.publish ++ plan.subscribe) [] = true := by
    refine freshPublications_of_nodup [] hnodup fun pub hpub => ?_
    obtain ⟨hid, hpeer⟩ := hvalid pub hpub
    exact ⟨hid, hpeer, List.not_mem_nil⟩
  rw [normalizeVoicePlan, if_neg (not_not.2 hkey), if_neg (by omega), if_neg (not_not.2 hfresh),
    sortStable_of_pairwise hpublish, sortStable_of_pairwise hsubscribe]

/-- **The flows of a room are plans that the SFU takes.**  Over every forest of edges and every order
    the members come in, the SFU takes what the flows give the junction of an edge as it is, if the
    publications are sorted, valid and not too many for it; the junction publishes what flows over the
    edge from its peer, and subscribes to what flows to it. -/
theorem junction_accepted (hforest : Forest connections)
    (hempty : ∀ edge ∈ connections, ∀ k, edge.sends k = [])
    (hsorted : pubs.Pairwise fun a b => a.id < b.id) (hlen : pubs.length ≤ maxVoicePublications)
    (hvalid : ∀ pub ∈ pubs, validID pub.id = true ∧ validID pub.peerID = true) (hmembers : members.Nodup)
    (horder : ∀ pub ∈ pubs, (order pub).Perm members)
    (hedge : edge ∈ (projectVoiceFlows voiceAllowed connections order pubs (connections, .empty)).1)
    {room session : String} (hkey : [room, edge.child, session, edge.id].all validID = true) :
    let plan : VoiceConnectionPlan :=
      { toVoiceConnectionPlan := configureVoiceJunction edge pubs, key := ⟨room, edge.child, session, edge.id⟩ }
    normalizeVoicePlan plan = .ok plan ∧ ∀ pub,
      (pub ∈ plan.publish ↔
        pub ∈ pubs ∧ FlowsOver connections members voiceAllowed pub edge.id edge.child) ∧
      (pub ∈ plan.subscribe ↔ pub ∈ pubs ∧ FlowsOver connections members voiceAllowed pub edge.id "") := by
  intro plan
  have hids : (pubs.map VoicePublication.id).Nodup := by
    refine List.pairwise_map.2 (hsorted.imp ?_)
    intro a b hab heq
    rw [heq] at hab
    exact String.lt_irrefl _ hab
  have hlisted := fun {pub} (hpub : pub ∈ pubs) k =>
    count_projected hforest hempty hids hmembers horder hedge hpub k
  have hplan : configureVoiceJunction edge pubs =
      ⟨pubs.filter fun pub => pub.id ∈ edge.sends edge.child, pubs.filter fun pub => pub.id ∈ edge.sends ""⟩ :=
    Voice.configureVoiceJunction_exact fun pub hpub k => (hlisted hpub k).1
  have hpublish : plan.publish = pubs.filter fun pub => pub.id ∈ edge.sends edge.child :=
    congrArg Voice.VoiceConnectionPlan.publish hplan
  have hsubscribe : plan.subscribe = pubs.filter fun pub => pub.id ∈ edge.sends "" :=
    congrArg Voice.VoiceConnectionPlan.subscribe hplan
  have hchild : edge.child ≠ "" := by
    intro hnone
    simp [hnone, validID] at hkey
  constructor
  · refine normalizeVoicePlan_self hkey ?_ ?_ ?_ ?_ ?_
    · rw [hpublish]
      exact hsorted.filter _
    · rw [hsubscribe]
      exact hsorted.filter _
    · rw [hpublish, hsubscribe]
      exact ⟨(List.length_filter_le ..).trans hlen, (List.length_filter_le ..).trans hlen⟩
    · intro pub hpub
      rw [hpublish, hsubscribe, List.mem_append, List.mem_filter, List.mem_filter] at hpub
      rcases hpub with ⟨hpub, -⟩ | ⟨hpub, -⟩
      · exact hvalid pub hpub
      · exact hvalid pub hpub
    · rw [hpublish, hsubscribe, List.map_append, List.nodup_append']
      refine ⟨hids.sublist (List.filter_sublist.map _), hids.sublist (List.filter_sublist.map _), ?_⟩
      -- a publication that flowed both ways would leave the edge at both ends
      intro id hp hs
      obtain ⟨pub, hpub, rfl⟩ := List.mem_map.1 hp
      obtain ⟨pub', hpub', heq⟩ := List.mem_map.1 hs
      rw [List.mem_filter, decide_eq_true_eq] at hpub hpub'
      obtain rfl := List.inj_on_of_nodup_map hids hpub'.1 hpub.1 heq
      exact hchild (hforest.flowsOver_oneway ((hlisted hpub.1 _).2.1 hpub.2) ((hlisted hpub'.1 _).2.1 hpub'.2))
  · intro pub
    rw [hpublish, hsubscribe, List.mem_filter, List.mem_filter, decide_eq_true_eq, decide_eq_true_eq]
    exact ⟨and_congr_right fun hpub => (hlisted hpub _).2, and_congr_right fun hpub => (hlisted hpub _).2⟩

/-! ## Two junctions -/

/-- A Host and one viewer, each joined to the SFU. -/
def twoJunctions : List VoiceEdge :=
  [{ id := "a", parent := "", child := "host", pending := false, send := .empty },
    { id := "b", parent := "", child := "viewer", pending := false, send := .empty }]

theorem forest_twoJunctions : Forest twoJunctions where
  ids := by simp [twoJunctions]
  loopless := by simp [twoJunctions]
  simple := by simp [twoJunctions]
  acyclic := by
    refine Voice.isAcyclic_cons (Voice.isAcyclic_cons ?_ rfl (by decide) (by simp)) rfl (by decide) (by simp)
    rw [Voice.voiceGraph_nil]
    exact SimpleGraph.isAcyclic_bot

theorem junction_accepted_twoJunctions :
    ∃ edge ∈ (projectVoiceFlows (fun _ => true) twoJunctions (fun _ => ["host", "viewer"]) bothSpeak
        (twoJunctions, .empty)).1,
      let plan : VoiceConnectionPlan :=
        { toVoiceConnectionPlan := configureVoiceJunction edge bothSpeak
          key := ⟨"room", edge.child, "session", edge.id⟩ }
      edge.child = "host" ∧ normalizeVoicePlan plan = .ok plan ∧ ⟨"p", "host"⟩ ∈ plan.publish ∧
        FlowsOver twoJunctions ["host", "viewer"] (fun _ => true) ⟨"p", "host"⟩ edge.id edge.child := by
  obtain ⟨edge, hedge, hchild, hkey, hpublish⟩ :
      ∃ edge ∈ (projectVoiceFlows (fun _ => true) twoJunctions (fun _ => ["host", "viewer"]) bothSpeak
        (twoJunctions, .empty)).1, edge.child = "host" ∧
        ["room", edge.child, "session", edge.id].all validID = true ∧
        ⟨"p", "host"⟩ ∈ (configureVoiceJunction edge bothSpeak).publish := by
    decide
  have hempty : ∀ edge ∈ twoJunctions, ∀ k, edge.sends k = [] := by
    intro edge hmem k
    rcases List.mem_pair.1 hmem with rfl | rfl
    · rfl
    · rfl
  have hmembers : ["host", "viewer"].Nodup := by decide
  have hsorted : bothSpeak.Pairwise fun a b => a.id < b.id := by decide
  have hvalid : ∀ pub ∈ bothSpeak, validID pub.id = true ∧ validID pub.peerID = true := by decide
  obtain ⟨hplan, hflows⟩ := junction_accepted forest_twoJunctions hempty hsorted (by decide) hvalid hmembers
    (fun _ _ => .refl _) hedge hkey
  exact ⟨edge, hedge, hchild, hplan, hpublish, ((hflows ⟨"p", "host"⟩).1.1 hpublish).2⟩

end Piik.Sfu
