/-
  In a forest of voice edges every publication flows along the paths from its
  publisher to the other members: once over each edge of such a path, never
  back, and so once to every member it can reach.
-/
import Piik.Voice.Plan

namespace Piik.Voice

open Hop

variable {connections : List VoiceEdge} {voiceAllowed : String → Bool}

/-! ## The forest -/

/-- The peers joined by the edges that are not pending. -/
def voiceGraph (connections : List VoiceEdge) : SimpleGraph String :=
  .fromRel fun a b => ∃ edge ∈ connections, edge.pending = false ∧ edge.parent = a ∧ edge.child = b

/-- The edges that are not pending form a forest without parallel edges. -/
structure Forest (connections : List VoiceEdge) : Prop where
  ids : (connections.map VoiceEdge.id).Nodup
  loopless : ∀ edge ∈ connections, edge.pending = false → edge.parent ≠ edge.child
  simple : ∀ edge ∈ connections, ∀ edge' ∈ connections, edge.pending = false →
    edge'.pending = false → s(edge.parent, edge.child) = s(edge'.parent, edge'.child) → edge = edge'
  acyclic : (voiceGraph connections).IsAcyclic

/-- A hop over one of the edges. -/
def Along (connections : List VoiceEdge) (step : VoiceHop) : Prop :=
  step ∈ adjacent connections step.source

theorem mem_adjacent {peerID : String} {step : VoiceHop} : step ∈ adjacent connections peerID ↔
    ∃ edge ∈ connections, edge.pending = false ∧ step.source = peerID ∧ step.edge = edge.id ∧
      ((step.source = edge.parent ∧ step.target = edge.child) ∨
        (step.source = edge.child ∧ step.target = edge.parent)) := by
  rw [adjacent, List.mem_flatMap]
  refine exists_congr fun edge => and_congr_right fun _ => ?_
  cases step with
  | mk source target id =>
    unfold edgeHops
    split
    · next hp => simp [hp]
    · next hp =>
      rw [Bool.not_eq_true] at hp
      simp only [List.mem_append]
      constructor
      · rintro (h | h)
        · split at h
          · next heq =>
            cases List.mem_singleton.1 h
            exact ⟨hp, heq, rfl, .inl ⟨rfl, rfl⟩⟩
          · cases h
        · split at h
          · next heq =>
            cases List.mem_singleton.1 h
            exact ⟨hp, heq, rfl, .inr ⟨rfl, rfl⟩⟩
          · cases h
      · rintro ⟨-, rfl, rfl, ⟨rfl, rfl⟩ | ⟨rfl, rfl⟩⟩
        · exact .inl (by rw [if_pos rfl]; exact List.mem_singleton.2 rfl)
        · exact .inr (by rw [if_pos rfl]; exact List.mem_singleton.2 rfl)

theorem along_iff {step : VoiceHop} : Along connections step ↔
    ∃ edge ∈ connections, edge.pending = false ∧ step.edge = edge.id ∧
      ((step.source = edge.parent ∧ step.target = edge.child) ∨
        (step.source = edge.child ∧ step.target = edge.parent)) := by
  simp [Along, mem_adjacent]

theorem adjacent_along {peerID : String} {step : VoiceHop} (h : step ∈ adjacent connections peerID) :
    Along connections step ∧ step.source = peerID ∧ step.target ∈ voicePeers connections := by
  obtain ⟨edge, hmem, hp, rfl, hid, hends⟩ := mem_adjacent.1 h
  refine ⟨h, rfl, List.mem_flatMap.2 ⟨edge, hmem, ?_⟩⟩
  rcases hends with ⟨-, htarget⟩ | ⟨-, htarget⟩
  · simp [htarget]
  · simp [htarget]

theorem Forest.eq_of_id (h : Forest connections) {edge edge' : VoiceEdge} (hm : edge ∈ connections)
    (hm' : edge' ∈ connections) (hid : edge.id = edge'.id) : edge = edge' :=
  List.inj_on_of_nodup_map h.ids hm hm' hid

theorem Forest.adj (h : Forest connections) {step : VoiceHop} (hs : Along connections step) :
    (voiceGraph connections).Adj step.source step.target := by
  obtain ⟨edge, hmem, hp, -, ⟨hsource, htarget⟩ | ⟨hsource, htarget⟩⟩ := along_iff.1 hs
  · rw [hsource, htarget, voiceGraph, SimpleGraph.fromRel_adj]
    exact ⟨h.loopless edge hmem hp, .inl ⟨edge, hmem, hp, rfl, rfl⟩⟩
  · rw [hsource, htarget, voiceGraph, SimpleGraph.fromRel_adj]
    exact ⟨(h.loopless edge hmem hp).symm, .inr ⟨edge, hmem, hp, rfl, rfl⟩⟩

theorem Forest.unique (h : Forest connections) : Unique (Along connections) := by
  refine unique_of_isAcyclic h.acyclic (fun _ hs => h.adj hs) fun step step' hs hs' hsource htarget => ?_
  obtain ⟨edge, hmem, hp, hid, hends⟩ := along_iff.1 hs
  obtain ⟨edge', hmem', hp', hid', hends'⟩ := along_iff.1 hs'
  have hsame : s(edge.parent, edge.child) = s(edge'.parent, edge'.child) := by
    rcases hends with ⟨h₁, h₂⟩ | ⟨h₁, h₂⟩
    · rcases hends' with ⟨h₁', h₂'⟩ | ⟨h₁', h₂'⟩
      · rw [← h₁, ← h₂, hsource, htarget, h₁', h₂']
      · rw [← h₁, ← h₂, hsource, htarget, h₁', h₂', Sym2.eq_swap]
    · rcases hends' with ⟨h₁', h₂'⟩ | ⟨h₁', h₂'⟩
      · rw [← h₁, ← h₂, hsource, htarget, h₁', h₂', Sym2.eq_swap]
      · rw [← h₁, ← h₂, hsource, htarget, h₁', h₂']
  have hedge := h.simple edge hmem edge' hmem' hp hp' hsame
  cases step with
  | mk source target id =>
    cases step' with
    | mk source' target' id' =>
      obtain rfl : source = source' := hsource
      obtain rfl : target = target' := htarget
      rw [show id = edge.id from hid, show id' = edge'.id from hid', hedge]

/-- The search finds the path to each peer, the only one there is. -/
theorem Forest.publicationPaths_get (h : Forest connections) {peerID member : String}
    {path : List VoiceHop} : (publicationPaths connections peerID).get member = some path ↔
      Path (Along connections) peerID member path :=
  search_unique (fun _ _ hs => adjacent_along hs) (fun _ hs => hs) le_rfl h.unique

/-- What the hops keep holds of every peer that is reached. -/
theorem reachable_keeps {P : String → Prop}
    (hP : ∀ step, Along connections step → P step.source → P step.target) {peerID member : String}
    (w : (voiceGraph connections).Walk peerID member) (h : P peerID) : P member := by
  induction w with
  | nil => exact h
  | cons hadj _ ih =>
    rw [voiceGraph, SimpleGraph.fromRel_adj] at hadj
    obtain ⟨-, ⟨edge, hmem, hp, rfl, rfl⟩ | ⟨edge, hmem, hp, rfl, rfl⟩⟩ := hadj
    · exact ih (hP ⟨edge.parent, edge.child, edge.id⟩
        (along_iff.2 ⟨edge, hmem, hp, rfl, .inl ⟨rfl, rfl⟩⟩) h)
    · exact ih (hP ⟨edge.child, edge.parent, edge.id⟩
        (along_iff.2 ⟨edge, hmem, hp, rfl, .inr ⟨rfl, rfl⟩⟩) h)

theorem Forest.reachable_iff (h : Forest connections) {peerID member : String} :
    (voiceGraph connections).Reachable peerID member ↔
      ∃ path, Path (Along connections) peerID member path := by
  constructor
  · rintro ⟨w⟩
    have hstart : (publicationPaths connections peerID).has peerID :=
      (searching_pathsFrom (fun _ _ hs => adjacent_along hs) le_rfl).start
    have hfound : (publicationPaths connections peerID).has member := by
      refine reachable_keeps (P := fun v => (publicationPaths connections peerID).has v)
        (fun step hs hv => ?_) w hstart
      exact search_closed (fun _ _ hs => adjacent_along hs) (fun _ hs => hs) le_rfl hv hs
    obtain ⟨path, hpath⟩ := Option.isSome_iff_exists.1 hfound
    exact ⟨path, h.publicationPaths_get.1 hpath⟩
  · rintro ⟨path, hpath⟩
    obtain ⟨w, -⟩ := hpath.walk fun _ hs => h.adj hs
    exact ⟨w⟩

/-! ## What is listed -/

/-- The edges as they were, with lists `f` of what is sent. -/
def Sends (f : VoiceEdge → String → List String) (connections edges : List VoiceEdge) : Prop :=
  List.Forall₂ (fun e e' => e'.fixed = e.fixed ∧ ∀ k, e'.sends k = f e k) connections edges

variable {f : VoiceEdge → String → List String} {edges : List VoiceEdge} {used : List String}

theorem Sends.congr {g : VoiceEdge → String → List String} (h : Sends f connections edges)
    (hfg : ∀ e k, f e k = g e k) : Sends g connections edges :=
  List.Forall₂.imp (fun e _ ⟨hfixed, hsends⟩ => ⟨hfixed, fun k => (hsends k).trans (hfg e k)⟩) h

theorem Sends.exists_of_mem (h : Sends f connections edges) {edge : VoiceEdge} (hmem : edge ∈ edges) :
    ∃ e ∈ connections, edge.fixed = e.fixed ∧ ∀ k, edge.sends k = f e k := by
  unfold Sends at h
  induction h with
  | nil => cases hmem
  | cons hhead _ ih =>
    rcases List.mem_cons.1 hmem with rfl | hmem
    · exact ⟨_, List.mem_cons_self .., hhead⟩
    · obtain ⟨e, he, hends⟩ := ih hmem
      exact ⟨e, List.mem_cons_of_mem _ he, hends⟩

theorem Sends.fixed (h : Sends f connections edges) :
    edges.map VoiceEdge.fixed = connections.map VoiceEdge.fixed := by
  unfold Sends at h
  induction h with
  | nil => rfl
  | cons hhead _ ih => rw [List.map_cons, List.map_cons, hhead.1, ih]

/-- The publication, if one of the hops leaves the end over the edge. -/
def listed (pubID : String) (steps : List VoiceHop) (edge : VoiceEdge) (k : String) : List String :=
  if ∃ step ∈ steps, step.edge = edge.id ∧ step.source = k then [pubID] else []

/-- No two of the hops take one edge from different ends. -/
def Oneway (steps : List VoiceHop) : Prop :=
  ∀ step ∈ steps, ∀ step' ∈ steps, step.edge = step'.edge → step.source = step'.source

/-- The publication is listed on the edges of the hops, and those edges are used. -/
structure Listed (connections : List VoiceEdge) (f : VoiceEdge → String → List String)
    (pubID : String) (steps : List VoiceHop) (edges : List VoiceEdge) (used : List String) : Prop where
  sends : Sends (fun e k => f e k ++ listed pubID steps e k) connections edges
  used : ∀ id, id ∈ used ↔ ∃ step ∈ steps, step.edge = id

theorem listed_nil (h : Sends f connections edges) (pubID : String) :
    Listed connections f pubID [] edges [] where
  sends := h.congr fun e k => by simp [listed]
  used := by simp

theorem appendSend_sends {step : VoiceHop} {pubID : String} (h : Sends f connections edges) :
    Sends (fun e k => f e k ++ if e.id = step.edge ∧ k = step.source then [pubID] else [])
      connections (appendSend step pubID edges) := by
  refine List.forall₂_map_right_iff.2 (h.imp fun e e' ⟨hfixed, hsends⟩ => ?_)
  have hid : e'.id = e.id := congrArg Prod.fst hfixed
  by_cases heq : e.id = step.edge
  · rw [if_pos (hid.trans heq)]
    refine ⟨hfixed, fun k => ?_⟩
    simp only [VoiceEdge.sends, OMap.get_set]
    by_cases hk : k = step.source
    · subst hk
      rw [if_pos rfl, if_pos ⟨heq, rfl⟩, Option.getD_some]
      exact congrArg (· ++ [pubID]) (hsends _)
    · rw [if_neg hk, if_neg fun hboth => hk hboth.2, List.append_nil]
      exact hsends k
  · rw [if_neg fun h => heq (hid.symm.trans h)]
    refine ⟨hfixed, fun k => ?_⟩
    dsimp only
    rw [if_neg fun hboth => heq hboth.1, List.append_nil]
    exact hsends k

theorem listed_append {pubID : String} {steps : List VoiceHop} {step : VoiceHop} (edge : VoiceEdge)
    (k : String) : listed pubID (steps ++ [step]) edge k =
      if edge.id = step.edge ∧ k = step.source then [pubID] else listed pubID steps edge k := by
  unfold listed
  by_cases hstep : edge.id = step.edge ∧ k = step.source
  · rw [if_pos hstep, if_pos]
    exact ⟨step, List.mem_append_right _ (List.mem_singleton.2 rfl), hstep.1.symm, hstep.2.symm⟩
  · rw [if_neg hstep]
    refine if_congr ⟨?_, ?_⟩ rfl rfl
    · rintro ⟨step', hmem, hedge, hsource⟩
      rcases List.mem_append.1 hmem with hmem | hmem
      · exact ⟨step', hmem, hedge, hsource⟩
      · rw [List.mem_singleton.1 hmem] at hedge hsource
        exact absurd ⟨hedge.symm, hsource.symm⟩ hstep
    · rintro ⟨step', hmem, hends⟩
      exact ⟨step', List.mem_append_left _ hmem, hends⟩

theorem used_append {steps : List VoiceHop} {step : VoiceHop} {id : String} :
    (∃ step' ∈ steps ++ [step], step'.edge = id) ↔
      (∃ step' ∈ steps, step'.edge = id) ∨ id = step.edge := by
  simp only [List.mem_append, List.mem_singleton]
  constructor
  · rintro ⟨step', hmem | rfl, hedge⟩
    · exact .inl ⟨step', hmem, hedge⟩
    · exact .inr hedge.symm
  · rintro (⟨step', hmem, hedge⟩ | rfl)
    · exact ⟨step', .inl hmem, hedge⟩
    · exact ⟨step, .inr rfl, rfl⟩

theorem sendAlong_listed {pubID : String} : ∀ {path steps : List VoiceHop} {edges : List VoiceEdge}
    {used : List String}, Oneway (steps ++ path) → Listed connections f pubID steps edges used →
    Listed connections f pubID (steps ++ path) (sendAlong pubID path (edges, used)).1
      (sendAlong pubID path (edges, used)).2
  | [], steps, edges, used, _, h => by
    rw [List.append_nil]
    exact h
  | step :: path, steps, edges, used, hway, h => by
    have hassoc : steps ++ step :: path = (steps ++ [step]) ++ path := by simp
    have hway' : Oneway (steps ++ [step]) := fun s hs s' hs' => by
      rw [hassoc] at hway
      exact hway s (List.mem_append_left _ hs) s' (List.mem_append_left _ hs')
    rw [hassoc] at hway ⊢
    unfold sendAlong
    split
    · next hused =>
      obtain ⟨step', hmem, hedge⟩ := (h.used _).1 hused
      have hsource := hway' step' (List.mem_append_left _ hmem) step
        (List.mem_append_right _ (List.mem_singleton.2 rfl)) hedge
      refine sendAlong_listed hway ⟨?_, fun id => ?_⟩
      · refine h.sends.congr fun e k => ?_
        rw [listed_append]
        split
        · next hends =>
          rw [listed, if_pos ⟨step', hmem, hedge.trans hends.1.symm, hsource.trans hends.2.symm⟩]
        · rfl
      · rw [h.used, used_append]
        exact (or_iff_left_of_imp fun heq => heq ▸ ⟨step', hmem, hedge⟩).symm
    · next hused =>
      refine sendAlong_listed hway ⟨?_, fun id => ?_⟩
      · refine (appendSend_sends h.sends).congr fun e k => ?_
        rw [List.append_assoc, listed_append]
        split
        · next hends =>
          rw [listed, if_neg, List.nil_append]
          rintro ⟨step', hmem, hedge, -⟩
          exact hused ((h.used _).2 ⟨step', hmem, hedge.trans hends.1⟩)
        · rw [List.append_nil]
      · rw [List.mem_cons, h.used, used_append]
        exact or_comm

/-! ## One publication -/

variable {pub : VoicePublication} {paths : OMap String (List VoiceHop)} {members : List String}

/-- A member the publication goes to. -/
def receives (voiceAllowed : String → Bool) (pub : VoicePublication) (member : String) : Bool :=
  !(member = pub.peerID || !voiceAllowed member)

/-- The hops of the paths to the members the publication goes to. -/
def served (voiceAllowed : String → Bool) (pub : VoicePublication)
    (paths : OMap String (List VoiceHop)) (members : List String) : List VoiceHop :=
  members.flatMap fun member =>
    if receives voiceAllowed pub member then (paths.get member).getD [] else []

theorem mem_served {step : VoiceHop} : step ∈ served voiceAllowed pub paths members ↔
    ∃ member ∈ members, receives voiceAllowed pub member = true ∧
      ∃ path, paths.get member = some path ∧ step ∈ path := by
  rw [served, List.mem_flatMap]
  refine exists_congr fun member => and_congr_right fun _ => ?_
  split
  · next h =>
    rw [and_iff_right h]
    cases paths.get member with
    | none => simp
    | some path => simp
  · next h => exact iff_of_false List.not_mem_nil fun hr => h hr.1

/-- The publication, if the member should receive it and there is no path. -/
def lacks (voiceAllowed : String → Bool) (pub : VoicePublication)
    (paths : OMap String (List VoiceHop)) (members : List String) (member : String) : List String :=
  if member ∈ members ∧ receives voiceAllowed pub member = true ∧ paths.get member = none then
    [pub.id] else []

theorem sendToMembers_listed : ∀ {members : List String} {steps : List VoiceHop}
    {edges : List VoiceEdge} {used : List String} (unavailable : Unavailable), members.Nodup →
    Oneway (steps ++ served voiceAllowed pub paths members) →
    Listed connections f pub.id steps edges used →
    Sends (fun e k => f e k ++ listed pub.id (steps ++ served voiceAllowed pub paths members) e k)
      connections (sendToMembers voiceAllowed pub paths members (edges, used, unavailable)).1 ∧
    ∀ member,
      missing (sendToMembers voiceAllowed pub paths members (edges, used, unavailable)).2 member =
        missing unavailable member ++ lacks voiceAllowed pub paths members member
  | [], _, _, _, unavailable, _, _, h => by
    refine ⟨?_, fun member => ?_⟩
    · rw [served, List.flatMap_nil, List.append_nil]
      exact h.sends
    · rw [lacks, if_neg fun hmem => List.not_mem_nil hmem.1, List.append_nil]
      rfl
  | peerID :: members, steps, edges, used, unavailable, hnodup, hway, h => by
    obtain ⟨hnotin, hnodup⟩ := List.nodup_cons.1 hnodup
    have hskip : receives voiceAllowed pub peerID = false ∨ paths.get peerID ≠ none →
        ∀ member, lacks voiceAllowed pub paths (peerID :: members) member =
          lacks voiceAllowed pub paths members member := by
      intro hserved member
      refine if_congr (and_congr_left fun hlacks => ?_) rfl rfl
      rw [List.mem_cons, or_iff_right]
      rintro rfl
      rcases hserved with hno | hsome
      · rw [hno] at hlacks
        cases hlacks.1
      · exact hsome hlacks.2
    unfold sendToMembers
    by_cases hreceives : peerID = pub.peerID || !voiceAllowed peerID
    · rw [if_pos hreceives]
      have hno : receives voiceAllowed pub peerID = false := by rw [receives, hreceives]; rfl
      have hserved : served voiceAllowed pub paths (peerID :: members) =
          served voiceAllowed pub paths members := by
        rw [served, List.flatMap_cons, if_neg (by rw [hno]; exact Bool.false_ne_true)]
        rfl
      rw [hserved] at hway ⊢
      obtain ⟨hsends, hmissing⟩ := sendToMembers_listed unavailable hnodup hway h
      exact ⟨hsends, fun member => (hmissing member).trans (by rw [hskip (.inl hno)])⟩
    · rw [if_neg hreceives]
      have hyes : receives voiceAllowed pub peerID = true := by
        rw [receives, Bool.eq_false_iff.2 hreceives]; rfl
      cases hget : paths.get peerID with
      | none =>
        have hserved : served voiceAllowed pub paths (peerID :: members) =
            served voiceAllowed pub paths members := by
          rw [served, List.flatMap_cons, if_pos hyes, hget]
          rfl
        rw [hserved] at hway ⊢
        obtain ⟨hsends, hmissing⟩ := sendToMembers_listed
          (unavailable.set peerID (missing unavailable peerID ++ [pub.id]))
          hnodup hway h
        refine ⟨hsends, fun member => (hmissing member).trans ?_⟩
        rw [missing, OMap.get_set]
        by_cases hmember : member = peerID
        · subst hmember
          rw [if_pos rfl, lacks, if_neg fun hm => hnotin hm.1, lacks,
            if_pos ⟨List.mem_cons_self .., hyes, hget⟩]
          simp
        · rw [if_neg hmember]
          refine congrArg (_ ++ ·) (if_congr (and_congr_left fun _ => ?_) rfl rfl)
          rw [List.mem_cons, or_iff_right hmember]
      | some path =>
        have hserved : served voiceAllowed pub paths (peerID :: members) =
            path ++ served voiceAllowed pub paths members := by
          rw [served, List.flatMap_cons, if_pos hyes, hget]
          rfl
        rw [hserved, ← List.append_assoc] at hway ⊢
        have hpath : Oneway (steps ++ path) := fun s hs s' hs' =>
          hway s (List.mem_append_left _ hs) s' (List.mem_append_left _ hs')
        have hlisted := sendAlong_listed hpath h
        rcases hstate : sendAlong pub.id path (edges, used) with ⟨edges', used'⟩
        rw [hstate] at hlisted
        dsimp only
        rw [hstate]
        obtain ⟨hsends, hmissing⟩ := sendToMembers_listed unavailable hnodup hway
          hlisted
        refine ⟨hsends, fun member => (hmissing member).trans ?_⟩
        rw [hskip (.inr (by rw [hget]; exact Option.some_ne_none _))]

/-- Paths from one publisher take no edge from both ends. -/
theorem Forest.oneway (h : Forest connections) {pub : VoicePublication} {members : List String} :
    Oneway (served voiceAllowed pub (publicationPaths connections pub.peerID) members) := by
  intro step hstep step' hstep' hedge
  obtain ⟨member, -, -, path, hget, hmem⟩ := mem_served.1 hstep
  obtain ⟨member', -, -, path', hget', hmem'⟩ := mem_served.1 hstep'
  have hpath := h.publicationPaths_get.1 hget
  have hpath' := h.publicationPaths_get.1 hget'
  obtain ⟨e, he, -, hid, hends⟩ := along_iff.1 (hpath.along hmem)
  obtain ⟨e', he', -, hid', hends'⟩ := along_iff.1 (hpath'.along hmem')
  obtain rfl := h.eq_of_id he he' (hid.symm.trans (hedge.trans hid'))
  by_contra hne
  rcases hends with ⟨h₁, h₂⟩ | ⟨h₁, h₂⟩
  · rcases hends' with ⟨h₁', h₂'⟩ | ⟨h₁', h₂'⟩
    · exact hne (h₁.trans h₁'.symm)
    · exact h.unique.oneway hpath hmem hpath' hmem' (h₁.trans h₂'.symm) (h₂.trans h₁'.symm)
  · rcases hends' with ⟨h₁', h₂'⟩ | ⟨h₁', h₂'⟩
    · exact h.unique.oneway hpath hmem hpath' hmem' (h₁.trans h₂'.symm) (h₂.trans h₁'.symm)
    · exact hne (h₁.trans h₁'.symm)

/-! ## All publications -/

theorem Forest.projectVoiceFlows_listed (h : Forest connections) (voiceAllowed : String → Bool)
    (order : VoicePublication → List String) : ∀ {pubs : List VoicePublication}
      {f : VoiceEdge → String → List String} {edges : List VoiceEdge} (unavailable : Unavailable),
    (∀ pub ∈ pubs, (order pub).Nodup) → Sends f connections edges →
    Sends (fun e k => f e k ++ pubs.flatMap fun pub => listed pub.id
        (served voiceAllowed pub (publicationPaths connections pub.peerID) (order pub)) e k)
      connections (projectVoiceFlows voiceAllowed connections order pubs (edges, unavailable)).1 ∧
    ∀ member,
      missing (projectVoiceFlows voiceAllowed connections order pubs (edges, unavailable)).2 member =
        missing unavailable member ++ pubs.flatMap fun pub =>
          lacks voiceAllowed pub (publicationPaths connections pub.peerID) (order pub) member
  | [], f, edges, unavailable, _, hs => by
    refine ⟨?_, fun member => ?_⟩
    · exact hs.congr fun e k => (List.append_nil _).symm
    · exact (List.append_nil _).symm
  | pub :: pubs, f, edges, unavailable, horder, hs => by
    have hway : Oneway ([] ++ served voiceAllowed pub (publicationPaths connections pub.peerID)
        (order pub)) := h.oneway
    obtain ⟨hsends, hmissing⟩ := sendToMembers_listed unavailable
      (horder pub (List.mem_cons_self ..)) hway (listed_nil hs pub.id)
    unfold projectVoiceFlows
    rcases hstate : sendToMembers voiceAllowed pub (publicationPaths connections pub.peerID)
      (order pub) (edges, [], unavailable) with ⟨edges', unavailable'⟩
    rw [hstate] at hsends hmissing
    obtain ⟨hsends', hmissing'⟩ := projectVoiceFlows_listed h voiceAllowed order unavailable'
      (fun pub' hmem => horder pub' (List.mem_cons_of_mem _ hmem)) hsends
    refine ⟨hsends'.congr fun e k => ?_, fun member => (hmissing' member).trans ?_⟩
    · rw [List.flatMap_cons, List.append_assoc]
      rfl
    · rw [hmissing member, List.flatMap_cons, List.append_assoc]

theorem count_flatMap {pubs : List VoicePublication} (hids : (pubs.map VoicePublication.id).Nodup)
    {pub : VoicePublication} (hmem : pub ∈ pubs) (p : VoicePublication → Prop) [DecidablePred p] :
    (pubs.flatMap fun pub => if p pub then [pub.id] else []).count pub.id = if p pub then 1 else 0 := by
  induction pubs with
  | nil => cases hmem
  | cons first rest ih =>
    obtain ⟨hnotin, hids⟩ := List.nodup_cons.1 hids
    rw [List.flatMap_cons, List.count_append]
    rcases List.mem_cons.1 hmem with rfl | hmem
    · have hzero : (rest.flatMap fun pub => if p pub then [pub.id] else []).count pub.id = 0 := by
        refine List.count_eq_zero.2 fun hin => hnotin ?_
        obtain ⟨other, hother, hin⟩ := List.mem_flatMap.1 hin
        split at hin
        · rw [List.mem_singleton.1 hin]
          exact List.mem_map_of_mem hother
        · cases hin
      rw [hzero]
      split
      · simp
      · rfl
    · have hne : first.id ≠ pub.id := fun heq => hnotin (heq ▸ List.mem_map_of_mem hmem)
      rw [ih hids hmem]
      split
      · rw [List.count_singleton, if_neg (by simpa using hne), Nat.zero_add]
      · simp

/-- The edge, left at that end, lies on a path from the publisher to another allowed member. -/
def FlowsOver (connections : List VoiceEdge) (members : List String) (voiceAllowed : String → Bool)
    (pub : VoicePublication) (id k : String) : Prop :=
  ∃ member ∈ members, receives voiceAllowed pub member = true ∧
    ∃ path, Path (Along connections) pub.peerID member path ∧
      ∃ step ∈ path, step.edge = id ∧ step.source = k

/-- What a member receives, over all its edges. -/
def received (edges : List VoiceEdge) (member : String) : List String :=
  edges.flatMap fun edge => (if edge.child = member then edge.sends edge.parent else []) ++
    (if edge.parent = member then edge.sends edge.child else [])

theorem Forest.flowsOver_iff (h : Forest connections) {members order : List String}
    (horder : order.Perm members) {pub : VoicePublication} {id k : String} :
    FlowsOver connections members voiceAllowed pub id k ↔
      ∃ step ∈ served voiceAllowed pub (publicationPaths connections pub.peerID) order,
        step.edge = id ∧ step.source = k := by
  constructor
  · rintro ⟨member, hmember, hreceives, path, hpath, step, hstep, hends⟩
    exact ⟨step, mem_served.2 ⟨member, horder.mem_iff.2 hmember, hreceives, path,
      h.publicationPaths_get.2 hpath, hstep⟩, hends⟩
  · rintro ⟨step, hstep, hends⟩
    obtain ⟨member, hmember, hreceives, path, hget, hmem⟩ := mem_served.1 hstep
    exact ⟨member, horder.mem_iff.1 hmember, hreceives, path, h.publicationPaths_get.1 hget, step,
      hmem, hends⟩

/-- A publication leaves an edge at one end only. -/
theorem Forest.flowsOver_oneway (h : Forest connections) {members : List String}
    {pub : VoicePublication} {id k k' : String}
    (hk : FlowsOver connections members voiceAllowed pub id k)
    (hk' : FlowsOver connections members voiceAllowed pub id k') : k = k' := by
  obtain ⟨step, hstep, hedge, rfl⟩ := (h.flowsOver_iff (.refl _)).1 hk
  obtain ⟨step', hstep', hedge', rfl⟩ := (h.flowsOver_iff (.refl _)).1 hk'
  exact h.oneway step hstep step' hstep' (hedge.trans hedge'.symm)

/-- A hop that leaves an edge at one end enters the other. -/
theorem Forest.enters (h : Forest connections) {step : VoiceHop} (hs : Along connections step)
    {edge : VoiceEdge} (hmem : edge ∈ connections) (hid : step.edge = edge.id) {member : String}
    (hends : (step.source = edge.parent ∧ edge.child = member) ∨
      (step.source = edge.child ∧ edge.parent = member)) : step.target = member := by
  obtain ⟨edge', hmem', hp, hid', hends'⟩ := along_iff.1 hs
  obtain rfl := h.eq_of_id hmem' hmem (hid'.symm.trans hid)
  have hloop := h.loopless edge' hmem' hp
  rcases hends with ⟨hk, hm⟩ | ⟨hk, hm⟩
  · rcases hends' with ⟨-, ht⟩ | ⟨hs, -⟩
    · exact ht.trans hm
    · exact absurd (hk.symm.trans hs) hloop
  · rcases hends' with ⟨hs, -⟩ | ⟨-, ht⟩
    · exact absurd (hs.symm.trans hk) hloop
    · exact ht.trans hm

/-- The edge and the end over which the publication comes to a member it reaches. -/
theorem Forest.flowsOver_into (h : Forest connections) {members : List String}
    {pub : VoicePublication} {member : String} {path : List VoiceHop} {last : VoiceHop}
    (hpath : Path (Along connections) pub.peerID member (path ++ [last])) {edge : VoiceEdge}
    (hmem : edge ∈ connections) {k : String}
    (hends : (k = edge.parent ∧ edge.child = member) ∨ (k = edge.child ∧ edge.parent = member))
    (hflows : FlowsOver connections members voiceAllowed pub edge.id k) :
    edge.id = last.edge ∧ k = last.source := by
  obtain ⟨member', -, -, path', hpath', step, hstep, hid, rfl⟩ := hflows
  have htarget := h.enters (hpath'.along hstep) hmem hid hends
  obtain ⟨path₁, heq⟩ := h.unique.last hpath' hstep (htarget ▸ hpath)
  obtain ⟨-, hlast⟩ := List.append_inj' heq rfl
  obtain rfl := List.singleton_inj.1 hlast
  exact ⟨hid.symm, rfl⟩

theorem received_count {member pubID : String} (h : Sends f connections edges) :
    (received edges member).count pubID = (connections.map fun edge =>
      (if edge.child = member then (f edge edge.parent).count pubID else 0) +
        (if edge.parent = member then (f edge edge.child).count pubID else 0)).sum := by
  unfold Sends at h
  induction h with
  | nil => rfl
  | @cons e e' rest rest' hhead _ ih =>
    obtain ⟨hfixed, hsends⟩ := hhead
    obtain ⟨-, hfixed⟩ := Prod.mk.inj hfixed
    obtain ⟨hparent, hfixed⟩ := Prod.mk.inj hfixed
    obtain ⟨hchild, -⟩ := Prod.mk.inj hfixed
    rw [received, List.flatMap_cons, List.count_append, List.count_append, List.map_cons,
      List.sum_cons, ← ih, hparent, hchild, hsends, hsends, apply_ite (List.count pubID),
      apply_ite (List.count pubID), List.count_nil]
    rfl

theorem sum_id_eq (hids : (connections.map VoiceEdge.id).Nodup) {edge : VoiceEdge}
    (hmem : edge ∈ connections) :
    (connections.map fun e => if e.id = edge.id then 1 else 0).sum = 1 := by
  have hcount : ∀ l : List VoiceEdge, (l.map fun e => if e.id = edge.id then 1 else 0).sum =
      (l.map VoiceEdge.id).count edge.id := by
    intro l
    induction l with
    | nil => rfl
    | cons e l ih =>
      rw [List.map_cons, List.sum_cons, ih, List.map_cons, List.count_cons, Nat.add_comm]
      simp
  rw [hcount]
  exact List.count_eq_one_of_mem hids (List.mem_map_of_mem hmem)

/-- A member the publication reaches receives it over one edge. -/
theorem Forest.received_one (h : Forest connections) (hs : Sends f connections edges)
    {members : List String} {pub : VoicePublication} {member : String}
    (hf : ∀ e k, (FlowsOver connections members voiceAllowed pub e.id k → (f e k).count pub.id = 1) ∧
      (¬ FlowsOver connections members voiceAllowed pub e.id k → (f e k).count pub.id = 0))
    (hmember : member ∈ members) (hreceives : receives voiceAllowed pub member = true)
    {path : List VoiceHop} (hpath : Path (Along connections) pub.peerID member path) :
    (received edges member).count pub.id = 1 := by
  rcases List.eq_nil_or_concat' path with rfl | ⟨path, last, rfl⟩
  · rw [path_nil.1 hpath, receives] at hreceives
    simp at hreceives
  have hlast : FlowsOver connections members voiceAllowed pub last.edge last.source :=
    ⟨member, hmember, hreceives, _, hpath, last, List.mem_append_right _ (List.mem_singleton.2 rfl),
      rfl, rfl⟩
  obtain ⟨htarget, -, hlastAlong, -⟩ := path_snoc.1 hpath
  obtain ⟨edge, hedge, hp, hid, hends⟩ := along_iff.1 hlastAlong
  rw [received_count hs, ← sum_id_eq h.ids hedge]
  refine congrArg List.sum (List.map_congr_left fun e he => ?_)
  by_cases heq : e.id = edge.id
  · obtain rfl := h.eq_of_id he hedge heq
    have hloop := h.loopless e he hp
    rw [if_pos rfl]
    rcases hends with ⟨hsource, hto⟩ | ⟨hsource, hto⟩
    · rw [if_pos (hto.symm.trans htarget.symm), if_neg fun hm => hloop (hm.trans (htarget.trans hto)),
        (hf e e.parent).1 (hid ▸ hsource ▸ hlast)]
    · rw [if_neg fun hm => hloop (hto.symm.trans (htarget.symm.trans hm.symm)),
        if_pos (hto.symm.trans htarget.symm), (hf e e.child).1 (hid ▸ hsource ▸ hlast)]
  · rw [if_neg heq]
    have hzero : ∀ k, (k = e.parent ∧ e.child = member) ∨ (k = e.child ∧ e.parent = member) →
        (f e k).count pub.id = 0 := by
      intro k hk
      refine (hf e k).2 fun hflows => heq ?_
      exact (h.flowsOver_into hpath he hk hflows).1.trans hid
    rw [Nat.add_eq_zero_iff]
    constructor
    · split
      · next hm => exact hzero _ (.inl ⟨rfl, hm⟩)
      · rfl
    · split
      · next hm => exact hzero _ (.inr ⟨rfl, hm⟩)
      · rfl

/-- A member the publication does not reach receives nothing of it. -/
theorem Forest.received_zero (h : Forest connections) (hs : Sends f connections edges)
    {members : List String} {pub : VoicePublication} {member : String}
    (hf : ∀ e k, ¬ FlowsOver connections members voiceAllowed pub e.id k → (f e k).count pub.id = 0)
    (hpath : ∀ path, ¬ Path (Along connections) pub.peerID member path) :
    (received edges member).count pub.id = 0 := by
  rw [received_count hs]
  refine List.sum_eq_zero fun n hn => ?_
  obtain ⟨e, he, rfl⟩ := List.mem_map.1 hn
  have hzero : ∀ k, (k = e.parent ∧ e.child = member) ∨ (k = e.child ∧ e.parent = member) →
      (f e k).count pub.id = 0 := by
    intro k hk
    refine hf e k fun hflows => ?_
    obtain ⟨member', -, -, path', hpath', step, hstep, hid, rfl⟩ := hflows
    have htarget := h.enters (hpath'.along hstep) he hid hk
    obtain ⟨l₁, l₂, rfl⟩ := List.append_of_mem hstep
    exact hpath _ (htarget ▸ hpath'.upto)
  rw [Nat.add_eq_zero_iff]
  constructor
  · split
    · next hm => exact hzero _ (.inl ⟨rfl, hm⟩)
    · rfl
  · split
    · next hm => exact hzero _ (.inr ⟨rfl, hm⟩)
    · rfl

/-- Over every forest of edges, every list of publications and every order the members
    come in, a publication is listed once, at one end, on each edge of the paths from its
    publisher to the other allowed members, and on no other; so each of these members
    receives it once if it is connected to the publisher, and misses it once if not. -/
theorem projectVoiceFlows_exact (hforest : Forest connections)
    (hempty : ∀ edge ∈ connections, ∀ k, edge.sends k = []) {pubs : List VoicePublication}
    (hids : (pubs.map VoicePublication.id).Nodup) {members : List String} (hmembers : members.Nodup)
    {order : VoicePublication → List String} (horder : ∀ pub ∈ pubs, (order pub).Perm members) :
    let (edges, unavailable) :=
      projectVoiceFlows voiceAllowed connections order pubs (connections, .empty)
    edges.map VoiceEdge.fixed = connections.map VoiceEdge.fixed ∧
    ∀ pub ∈ pubs,
      (∀ edge ∈ edges, (∀ k,
        (FlowsOver connections members voiceAllowed pub edge.id k → (edge.sends k).count pub.id = 1) ∧
        (¬ FlowsOver connections members voiceAllowed pub edge.id k →
          (edge.sends k).count pub.id = 0)) ∧
        ∀ k k', FlowsOver connections members voiceAllowed pub edge.id k →
          FlowsOver connections members voiceAllowed pub edge.id k' → k = k') ∧
      ∀ member ∈ members, voiceAllowed member = true → member ≠ pub.peerID →
        ((voiceGraph connections).Reachable pub.peerID member →
          (received edges member).count pub.id = 1 ∧
            (missing unavailable member).count pub.id = 0) ∧
        (¬ (voiceGraph connections).Reachable pub.peerID member →
          (received edges member).count pub.id = 0 ∧
            (missing unavailable member).count pub.id = 1) := by
  have hstart : Sends (fun _ _ => []) connections connections :=
    List.forall₂_same.2 fun edge hmem => ⟨rfl, hempty edge hmem⟩
  obtain ⟨hsends, hmissing⟩ := hforest.projectVoiceFlows_listed voiceAllowed order .empty
    (fun pub hpub => (horder pub hpub).nodup_iff.2 hmembers) hstart
  generalize projectVoiceFlows voiceAllowed connections order pubs (connections, .empty) = flows at *
  obtain ⟨edges, unavailable⟩ := flows
  dsimp only at hsends hmissing ⊢
  refine ⟨hsends.fixed, fun pub hpub => ?_⟩
  have hf : ∀ (e : VoiceEdge) k,
      (FlowsOver connections members voiceAllowed pub e.id k → List.count pub.id ([] ++ pubs.flatMap
        fun pub => listed pub.id (served voiceAllowed pub (publicationPaths connections pub.peerID)
          (order pub)) e k) = 1) ∧
      (¬ FlowsOver connections members voiceAllowed pub e.id k → List.count pub.id ([] ++
        pubs.flatMap fun pub => listed pub.id (served voiceAllowed pub
          (publicationPaths connections pub.peerID) (order pub)) e k) = 0) := by
    intro e k
    have hcount := count_flatMap hids hpub fun pub => ∃ step ∈ served voiceAllowed pub
      (publicationPaths connections pub.peerID) (order pub), step.edge = e.id ∧ step.source = k
    rw [List.nil_append, hforest.flowsOver_iff (horder pub hpub)]
    exact ⟨fun h => hcount.trans (if_pos h), fun h => hcount.trans (if_neg h)⟩
  have hlacks : ∀ member ∈ members, receives voiceAllowed pub member = true →
      ((∃ path, Path (Along connections) pub.peerID member path) →
        (missing unavailable member).count pub.id = 0) ∧
      ((¬ ∃ path, Path (Along connections) pub.peerID member path) →
        (missing unavailable member).count pub.id = 1) := by
    intro member hmember hreceives
    have hcount := count_flatMap hids hpub fun pub => member ∈ order pub ∧
      receives voiceAllowed pub member = true ∧
      (publicationPaths connections pub.peerID).get member = none
    rw [hmissing member]
    constructor
    · rintro ⟨path, hpath⟩
      refine hcount.trans (if_neg fun hnone => ?_)
      rw [hforest.publicationPaths_get.2 hpath] at hnone
      cases hnone.2.2
    · intro hno
      refine hcount.trans (if_pos ⟨(horder pub hpub).mem_iff.2 hmember, hreceives, ?_⟩)
      exact Option.eq_none_iff_forall_ne_some.2 fun path hget =>
        hno ⟨path, hforest.publicationPaths_get.1 hget⟩
  constructor
  · intro edge hedge
    refine ⟨fun k => ?_, fun k k' hk hk' => hforest.flowsOver_oneway hk hk'⟩
    obtain ⟨e, -, hfixed, hsend⟩ := hsends.exists_of_mem hedge
    rw [show edge.id = e.id from congrArg Prod.fst hfixed, hsend k]
    exact hf e k
  · intro member hmember hallowed hne
    have hreceives : receives voiceAllowed pub member = true := by
      simp [receives, hallowed, hne]
    rw [hforest.reachable_iff]
    constructor
    · rintro ⟨path, hpath⟩
      exact ⟨hforest.received_one hsends hf hmember hreceives hpath,
        (hlacks member hmember hreceives).1 ⟨path, hpath⟩⟩
    · intro hno
      exact ⟨hforest.received_zero hsends (fun e k => (hf e k).2) fun path hpath => hno ⟨path, hpath⟩,
        (hlacks member hmember hreceives).2 hno⟩

/-! ## The junction -/

theorem flatMap_sent {pubs : List VoicePublication} {sent : List String}
    (h : ∀ pub ∈ pubs, sent.count pub.id ≤ 1) :
    (pubs.flatMap fun pub => (sent.filter (· = pub.id)).map fun _ => pub) =
      pubs.filter fun pub => pub.id ∈ sent := by
  induction pubs with
  | nil => rfl
  | cons pub pubs ih =>
    rw [List.flatMap_cons, ih fun pub' hmem => h pub' (List.mem_cons_of_mem _ hmem), List.filter_cons,
      List.filter_eq, List.map_replicate]
    by_cases hmem : pub.id ∈ sent
    · have hone : sent.count pub.id = 1 :=
        le_antisymm (h pub (List.mem_cons_self ..)) (List.count_pos_iff.2 hmem)
      simp [hmem, hone]
    · simp [hmem, List.count_eq_zero.2 hmem]

/-- A junction publishes what its peer sends on and subscribes to what comes back. -/
theorem configureVoiceJunction_exact {pubs : List VoicePublication} {edge : VoiceEdge}
    (h : ∀ pub ∈ pubs, ∀ k, (edge.sends k).count pub.id ≤ 1) :
    configureVoiceJunction edge pubs =
      ⟨pubs.filter fun pub => pub.id ∈ edge.sends edge.child,
        pubs.filter fun pub => pub.id ∈ edge.sends ""⟩ := by
  rw [configureVoiceJunction, flatMap_sent fun pub hmem => h pub hmem _,
    flatMap_sent fun pub hmem => h pub hmem _]

/-! ## A relay -/

theorem voiceGraph_nil : voiceGraph [] = ⊥ := by
  ext a b
  simp [voiceGraph]

theorem voiceGraph_cons {e : VoiceEdge} (l : List VoiceEdge) (hp : e.pending = false) :
    voiceGraph (e :: l) = voiceGraph l ⊔ SimpleGraph.edge e.parent e.child := by
  ext a b
  simp only [voiceGraph, SimpleGraph.fromRel_adj, SimpleGraph.edge_adj, SimpleGraph.sup_adj,
    List.exists_mem_cons_iff, hp, true_and]
  grind

/-- An edge to a peer that has none closes no cycle. -/
theorem isAcyclic_cons {e : VoiceEdge} {l : List VoiceEdge} (h : (voiceGraph l).IsAcyclic)
    (hp : e.pending = false) (hne : e.parent ≠ e.child)
    (hfresh : ∀ edge ∈ l, edge.parent ≠ e.child ∧ edge.child ≠ e.child) : (voiceGraph (e :: l)).IsAcyclic := by
  rw [voiceGraph_cons l hp]
  refine h.sup_edge_of_not_reachable fun hreachable => ?_
  obtain ⟨walk⟩ := hreachable.symm
  obtain ⟨-, ⟨edge, hedge, -, hparent, -⟩ | ⟨edge, hedge, -, -, hchild⟩⟩ :=
    walk.adj_snd (SimpleGraph.Walk.not_nil_of_ne hne.symm)
  · exact (hfresh edge hedge).1 hparent
  · exact (hfresh edge hedge).2 hchild

/-- A Host and a viewer at the SFU, and another viewer that is served by the first. -/
def relayed : List VoiceEdge :=
  [{ id := "a", parent := "viewer", child := "leaf", pending := false, send := .empty },
    { id := "b", parent := "", child := "viewer", pending := false, send := .empty },
    { id := "c", parent := "", child := "host", pending := false, send := .empty }]

/-- The room, with a member that no edge leads to. -/
def roomMembers : List String := ["host", "viewer", "leaf", "alone"]

/-- The Host and the first viewer speak. -/
def bothSpeak : List VoicePublication := [⟨"p", "host"⟩, ⟨"q", "viewer"⟩]

theorem forest_relayed : Forest relayed where
  ids := by simp [relayed]
  loopless := by simp [relayed]
  simple := by simp [relayed]
  acyclic := by
    refine isAcyclic_cons (isAcyclic_cons (isAcyclic_cons ?_ rfl (by decide) (by simp)) rfl (by decide) (by simp))
      rfl (by decide) (by simp)
    rw [voiceGraph_nil]
    exact SimpleGraph.isAcyclic_bot

/-- The Host's voice leaves the first viewer for the second, which receives it once; the member that
    no edge leads to misses it. -/
theorem projectVoiceFlows_relayed :
    let (edges, unavailable) := projectVoiceFlows (fun _ => true) relayed (fun _ => roomMembers) bothSpeak
      (relayed, .empty)
    (∃ edge ∈ edges, FlowsOver relayed roomMembers (fun _ => true) ⟨"p", "host"⟩ edge.id "viewer" ∧
      ¬ FlowsOver relayed roomMembers (fun _ => true) ⟨"p", "host"⟩ edge.id "leaf") ∧
    ((received edges "leaf").count "p" = 1 ∧ (missing unavailable "leaf").count "p" = 0) ∧
    (received edges "alone").count "p" = 0 ∧ (missing unavailable "alone").count "p" = 1 := by
  have hempty : ∀ edge ∈ relayed, ∀ k, edge.sends k = [] := by
    intro edge hmem k
    simp only [relayed, List.mem_cons, List.not_mem_nil, or_false] at hmem
    rcases hmem with rfl | rfl | rfl
    · rfl
    · rfl
    · rfl
  have hids : (bothSpeak.map VoicePublication.id).Nodup := by decide
  have hmembers : roomMembers.Nodup := by decide
  have hexact := @projectVoiceFlows_exact relayed (fun _ => true) forest_relayed hempty bothSpeak hids _
    hmembers (fun _ => roomMembers) fun _ _ => .refl _
  have hlisted : ∃ edge ∈ (projectVoiceFlows (fun _ => true) relayed (fun _ => roomMembers) bothSpeak
      (relayed, .empty)).1, (edge.sends "viewer").count "p" = 1 ∧ (edge.sends "leaf").count "p" = 0 ∧
        edge.id = "a" := by
    decide
  generalize projectVoiceFlows (fun _ => true) relayed (fun _ => roomMembers) bothSpeak (relayed, .empty) =
    flows at hexact hlisted ⊢
  obtain ⟨edges, unavailable⟩ := flows
  obtain ⟨-, hall⟩ := hexact
  obtain ⟨hflows, hreceive⟩ := hall ⟨"p", "host"⟩ (by decide)
  obtain ⟨edge, hedge, hviewer, hleaf, -⟩ := hlisted
  have hreach : (voiceGraph relayed).Reachable "host" "leaf" := by
    have hhost : (voiceGraph relayed).Adj "host" "" := by simp [voiceGraph, relayed]
    have hviewer : (voiceGraph relayed).Adj "" "viewer" := by simp [voiceGraph, relayed]
    have hleaf : (voiceGraph relayed).Adj "viewer" "leaf" := by simp [voiceGraph, relayed]
    exact hhost.reachable.trans (hviewer.reachable.trans hleaf.reachable)
  have halone : ¬ (voiceGraph relayed).Reachable "host" "alone" := by
    rintro ⟨walk⟩
    have hadj := walk.reverse.adj_snd (SimpleGraph.Walk.not_nil_of_ne (by decide))
    simp [voiceGraph, relayed] at hadj
  refine ⟨⟨edge, hedge, ?_, fun hover => ?_⟩, (hreceive "leaf" (by decide) rfl (by decide)).1 hreach,
    (hreceive "alone" (by decide) rfl (by decide)).2 halone⟩
  · by_contra hnot
    have hzero := ((hflows edge hedge).1 "viewer").2 hnot
    exact one_ne_zero (hviewer.symm.trans hzero)
  · have hone := ((hflows edge hedge).1 "leaf").1 hover
    exact zero_ne_one (hleaf.symm.trans hone)

example : ((projectVoiceFlows (fun _ => true) relayed (fun _ => roomMembers) bothSpeak (relayed, .empty)).1.map
    fun edge => (edge.sends edge.child, edge.sends edge.parent)) =
      [([], ["p", "q"]), (["q"], ["p"]), (["p"], ["q"])] := by decide

end Piik.Voice
