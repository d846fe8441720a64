/-
  Breadth-first search that records a path to each vertex it finds.

  A `Hop` is an edge taken in one direction; `adjacent v` are the hops that
  leave `v`.  `Path A u v l` says that the hops `l` lead from `u` to `v` through
  hops in `A` without meeting a vertex again.

  * `search_sound`: what is recorded is a path;
  * `search_complete`: with one unit of fuel per vertex, every vertex a path
    leads to has one recorded;
  * `Unique`: between two vertices there is at most one path, as in a forest;
    then paths of one start never take an edge both ways, and of the hops into
    a vertex only the last of its own path lies on any path.
-/
import Mathlib
import Piik.Lib.OMap

variable {ν ε : Type}

/-- An edge with its two ends. -/
structure Hop (ν ε : Type) where
  source : ν
  target : ν
  edge : ε
  deriving DecidableEq, Repr

namespace Hop

/-- A simple path, built from its start. -/
inductive Path (A : Hop ν ε → Prop) (u : ν) : ν → List (Hop ν ε) → Prop
  | nil : Path A u u []
  | snoc {l : List (Hop ν ε)} {h : Hop ν ε} : Path A u h.source l → A h →
      h.target ∉ u :: l.map target → Path A u h.target (l ++ [h])

variable {A : Hop ν ε → Prop} {u v : ν} {l l₁ l₂ : List (Hop ν ε)} {h h' : Hop ν ε}

theorem path_nil : Path A u v [] ↔ v = u := by
  constructor
  · intro hp
    generalize hl : ([] : List (Hop ν ε)) = l at hp
    cases hp with
    | nil => rfl
    | snoc => simp at hl
  · rintro rfl
    exact .nil

theorem path_snoc : Path A u v (l ++ [h]) ↔
    v = h.target ∧ Path A u h.source l ∧ A h ∧ h.target ∉ u :: l.map target := by
  constructor
  · intro hp
    generalize hl : l ++ [h] = l' at hp
    cases hp with
    | nil => simp at hl
    | snoc hp ha hnew =>
      obtain ⟨rfl, hh⟩ := List.append_inj' hl rfl
      cases hh
      exact ⟨rfl, hp, ha, hnew⟩
  · rintro ⟨rfl, hp, ha, hnew⟩
    exact .snoc hp ha hnew

/-- The part of a path up to one of its hops is a path. -/
theorem Path.upto (hp : Path A u v (l₁ ++ h :: l₂)) : Path A u h.target (l₁ ++ [h]) := by
  induction l₂ using List.reverseRecOn generalizing v with
  | nil =>
    obtain ⟨rfl, -⟩ := path_snoc.1 hp
    exact hp
  | append_singleton l₂ h' ih =>
    rw [← List.cons_append, ← List.append_assoc, path_snoc] at hp
    exact ih hp.2.1

theorem Path.along (hp : Path A u v l) (hm : h ∈ l) : A h := by
  obtain ⟨l₁, l₂, rfl⟩ := List.append_of_mem hm
  exact (path_snoc.1 hp.upto).2.2.1

/-- Between two vertices there is at most one path. -/
def Unique (A : Hop ν ε → Prop) : Prop :=
  ∀ ⦃u v l l'⦄, Path A u v l → Path A u v l' → l = l'

variable {v' : ν} {l' : List (Hop ν ε)}

/-- The hop by which a path enters a vertex is the last of the path to that vertex. -/
theorem Unique.last (hu : Unique A) (hp : Path A u v l) (hm : h ∈ l) (hp' : Path A u h.target l') :
    ∃ l₁, l' = l₁ ++ [h] := by
  obtain ⟨l₁, l₂, rfl⟩ := List.append_of_mem hm
  exact ⟨l₁, hu hp' hp.upto⟩

/-- Paths of one start never take an edge both ways. -/
theorem Unique.oneway (hu : Unique A) (hp : Path A u v l) (hm : h ∈ l) (hp' : Path A u v' l')
    (hm' : h' ∈ l') (hsource : h.source = h'.target) : h.target ≠ h'.source := by
  intro htarget
  obtain ⟨l₁, l₂, rfl⟩ := List.append_of_mem hm
  obtain ⟨l₁', l₂', rfl⟩ := List.append_of_mem hm'
  have h₁ := hp.upto
  have h₁' := hp'.upto
  have hone : l₁ = l₁' ++ [h'] := hu (path_snoc.1 h₁).2.1 (hsource ▸ h₁')
  have htwo : l₁' = l₁ ++ [h] := hu (path_snoc.1 h₁').2.1 (htarget ▸ h₁)
  have := congrArg List.length (hone.trans (congrArg (· ++ [h']) htwo))
  simp at this

theorem Path.end_eq (hp : Path A u v l) (hp' : Path A u v' l) : v = v' := by
  rcases List.eq_nil_or_concat' l with rfl | ⟨l, h, rfl⟩
  · exact (path_nil.1 hp).trans (path_nil.1 hp').symm
  · exact (path_snoc.1 hp).1.trans (path_snoc.1 hp').1.symm

/-- Without parallel edges a path is known by its vertices. -/
theorem Path.eq_of_targets
    (hedge : ∀ h h', A h → A h' → h.source = h'.source → h.target = h'.target → h = h')
    (hp : Path A u v l) (hp' : Path A u v' l') (heq : l.map target = l'.map target) : l = l' := by
  induction hp generalizing v' l' with
  | nil => exact (List.map_eq_nil_iff.1 heq.symm).symm
  | snoc hp ha _ ih =>
    rcases List.eq_nil_or_concat' l' with rfl | ⟨l', h', rfl⟩
    · simp at heq
    · rw [List.map_append, List.map_append] at heq
      obtain ⟨hinit, hlast⟩ := List.append_inj' heq rfl
      obtain ⟨-, hp', ha', -⟩ := path_snoc.1 hp'
      obtain rfl := ih hp' hinit
      rw [hedge _ _ ha ha' (hp.end_eq hp') (List.singleton_inj.1 hlast)]

theorem Path.walk {G : SimpleGraph ν} (hadj : ∀ h, A h → G.Adj h.source h.target)
    (hp : Path A u v l) : ∃ w : G.Walk u v, w.support = u :: l.map target ∧ w.IsPath := by
  induction hp with
  | nil => exact ⟨.nil, rfl, .nil⟩
  | snoc _ ha hnew ih =>
    obtain ⟨w, hsupport, hpath⟩ := ih
    refine ⟨w.concat (hadj _ ha), ?_, ?_⟩
    · rw [SimpleGraph.Walk.support_concat, hsupport, List.map_append]
      simp
    · exact hpath.concat (hsupport ▸ hnew) _

/-- In a forest without parallel edges paths are unique. -/
theorem unique_of_isAcyclic {G : SimpleGraph ν} (hG : G.IsAcyclic)
    (hadj : ∀ h, A h → G.Adj h.source h.target)
    (hedge : ∀ h h', A h → A h' → h.source = h'.source → h.target = h'.target → h = h') :
    Unique A := by
  intro u v l l' hp hp'
  obtain ⟨w, hsupport, hpath⟩ := hp.walk hadj
  obtain ⟨w', hsupport', hpath'⟩ := hp'.walk hadj
  have hsame := congrArg Subtype.val ((hG.subsingleton_path u v).elim ⟨w, hpath⟩ ⟨w', hpath'⟩)
  have htargets : u :: l.map target = u :: l'.map target := by
    rw [← hsupport, ← hsupport']
    exact congrArg SimpleGraph.Walk.support hsame
  exact hp.eq_of_targets hedge hp' (List.cons_inj_right _ |>.1 htargets)

/-! ## The search -/

variable [DecidableEq ν]

/-- The hops of one vertex: a new target gets the path to the vertex, longer by the hop,
    and joins the queue. -/
def explore (path : List (Hop ν ε)) : List (Hop ν ε) → OMap ν (List (Hop ν ε)) × List ν →
    OMap ν (List (Hop ν ε)) × List ν
  | [], found => found
  | step :: rest, (paths, queue) =>
    if paths.has step.target then explore path rest (paths, queue)
    else explore path rest (paths.set step.target (path ++ [step]), queue ++ [step.target])

/-- Breadth first: the queue of vertices whose paths are known, with fuel for each of them. -/
def search (adjacent : ν → List (Hop ν ε)) : ℕ → OMap ν (List (Hop ν ε)) × List ν →
    OMap ν (List (Hop ν ε))
  | 0, (paths, _) => paths
  | _ + 1, (paths, []) => paths
  | fuel + 1, (paths, source :: queue) =>
    search adjacent fuel (explore ((paths.get source).getD []) (adjacent source) (paths, queue))

variable {adjacent : ν → List (Hop ν ε)} {paths : OMap ν (List (Hop ν ε))} {queue : List ν}

/-- What is recorded are paths, and their vertices are recorded too. -/
structure Sound (A : Hop ν ε → Prop) (u : ν) (paths : OMap ν (List (Hop ν ε))) : Prop where
  start : paths.has u
  path : ∀ v l, paths.get v = some l → Path A u v l
  inner : ∀ v l, paths.get v = some l → ∀ h ∈ l, paths.has h.target

theorem Sound.set (hs : Sound A u paths) (hget : paths.get h.source = some l) (ha : A h)
    (hnew : ¬ paths.has h.target) : Sound A u (paths.set h.target (l ++ [h])) := by
  have hkeep : ∀ v, paths.has v → (paths.set h.target (l ++ [h])).has v := by
    intro v hv
    rw [OMap.has, OMap.get_set]
    split
    · rfl
    · exact hv
  have hself : (paths.set h.target (l ++ [h])).has h.target := by
    rw [OMap.has, OMap.get_set, if_pos rfl]
    rfl
  refine ⟨hkeep _ hs.start, fun v l' hget' => ?_, fun v l' hget' h' hmem => ?_⟩
  · rw [OMap.get_set] at hget'
    split at hget'
    · next heq =>
      cases hget'
      subst heq
      refine .snoc (hs.path _ _ hget) ha fun hmem => hnew ?_
      rcases List.mem_cons.1 hmem with heq | hmem
      · exact heq ▸ hs.start
      · obtain ⟨h', hmem, heq⟩ := List.mem_map.1 hmem
        exact heq ▸ hs.inner _ _ hget h' hmem
    · exact hs.path v l' hget'
  · rw [OMap.get_set] at hget'
    split at hget'
    · cases hget'
      rcases List.mem_append.1 hmem with hmem | hmem
      · exact hkeep _ (hs.inner _ _ hget h' hmem)
      · rw [List.mem_singleton.1 hmem]
        exact hself
    · exact hkeep _ (hs.inner v l' hget' h' hmem)

/-- The vertices of the list that are not recorded. -/
def unseen (vertices : List ν) (paths : OMap ν (List (Hop ν ε))) : ℕ :=
  vertices.countP fun v => !paths.has v

theorem unseen_set {vertices : List ν} (hmem : v ∈ vertices) (hnew : ¬ paths.has v) :
    unseen vertices (paths.set v l) + 1 ≤ unseen vertices paths := by
  have hle : ∀ rest : List ν, unseen rest (paths.set v l) ≤ unseen rest paths := by
    intro rest
    refine List.countP_mono_left fun w _ hw => ?_
    rw [OMap.has, OMap.get_set] at hw
    split at hw
    · cases hw
    · exact hw
  obtain ⟨before, after, rfl⟩ := List.append_of_mem hmem
  have hself : (paths.set v l).has v = true := by
    rw [OMap.has, OMap.get_set, if_pos rfl]
    rfl
  have hbefore := hle before
  have hafter := hle after
  unfold unseen at hbefore hafter ⊢
  rw [List.countP_append, List.countP_append, List.countP_cons_of_neg (by simp [hself]),
    List.countP_cons_of_pos (by simpa using hnew)]
  omega

/-- What the hops of one vertex do to what is recorded. -/
structure Explored (A : Hop ν ε → Prop) (u : ν) (vertices : List ν) (steps : List (Hop ν ε))
    (found found' : OMap ν (List (Hop ν ε)) × List ν) : Prop where
  sound : Sound A u found'.1
  keeps : ∀ v, found.1.has v → found'.1.has v
  reached : ∀ step ∈ steps, found'.1.has step.target
  queued : ∀ v, found'.1.has v → found.1.has v ∨ v ∈ found'.2
  queue : ∀ v ∈ found.2, v ∈ found'.2
  recorded : (∀ v ∈ found.2, found.1.has v) → ∀ v ∈ found'.2, found'.1.has v
  measure : found'.2.length + unseen vertices found'.1 ≤ found.2.length + unseen vertices found.1

theorem explored {vertices : List ν} {source : ν} : ∀ {steps : List (Hop ν ε)}
    {paths : OMap ν (List (Hop ν ε))} (queue : List ν), Sound A u paths →
    paths.get source = some l → (∀ step ∈ steps, A step ∧ step.source = source ∧
      step.target ∈ vertices) →
    Explored A u vertices steps (paths, queue) (explore l steps (paths, queue))
  | [], paths, queue, hs, _, _ =>
    ⟨hs, fun _ h => h, nofun, fun _ h => .inl h, fun _ h => h, fun h => h, le_rfl⟩
  | step :: rest, paths, queue, hs, hget, hsteps => by
    obtain ⟨ha, rfl, hvertex⟩ := hsteps step (List.mem_cons_self ..)
    have hrest := fun step' hmem => hsteps step' (List.mem_cons_of_mem _ hmem)
    unfold explore
    split
    · next hseen =>
      have ih := explored queue hs hget hrest
      refine ⟨ih.sound, ih.keeps, ?_, ih.queued, ih.queue, ih.recorded, ih.measure⟩
      intro step' hmem
      rcases List.mem_cons.1 hmem with rfl | hmem
      · exact ih.keeps _ hseen
      · exact ih.reached step' hmem
    · next hnew =>
      have hself : (paths.set step.target (l ++ [step])).has step.target := by
        rw [OMap.has, OMap.get_set, if_pos rfl]
        rfl
      have hkeep : ∀ v, paths.has v → (paths.set step.target (l ++ [step])).has v := by
        intro v hv
        rw [OMap.has, OMap.get_set]
        split
        · rfl
        · exact hv
      have hsource : (paths.set step.target (l ++ [step])).get step.source = some l := by
        rw [OMap.get_set, if_neg, hget]
        intro heq
        rw [← heq, OMap.has, hget] at hnew
        exact hnew rfl
      have ih := explored (queue ++ [step.target]) (hs.set hget ha hnew) hsource hrest
      refine ⟨ih.sound, fun v hv => ih.keeps v (hkeep v hv), ?_, ?_, ?_, ?_, ?_⟩
      · intro step' hmem
        rcases List.mem_cons.1 hmem with rfl | hmem
        · exact ih.keeps _ hself
        · exact ih.reached step' hmem
      · intro v hv
        rcases ih.queued v hv with hv | hv
        · rw [OMap.has, OMap.get_set] at hv
          split at hv
          · next heq => exact .inr (ih.queue v (heq ▸ List.mem_append_right _ (List.mem_singleton.2 rfl)))
          · exact .inl hv
        · exact .inr hv
      · exact fun v hv => ih.queue v (List.mem_append_left _ hv)
      · refine fun hqueue => ih.recorded fun v hv => ?_
        rcases List.mem_append.1 hv with hv | hv
        · exact hkeep v (hqueue v hv)
        · rw [List.mem_singleton.1 hv]
          exact hself
      · have := ih.measure
        have := unseen_set (l := l ++ [step]) hvertex hnew
        simp only [List.length_append, List.length_singleton] at *
        omega

/-- A state of the search: what has left the queue has its neighbours recorded. -/
structure Searching (A : Hop ν ε → Prop) (adjacent : ν → List (Hop ν ε)) (u : ν)
    (paths : OMap ν (List (Hop ν ε))) (queue : List ν) : Prop extends Sound A u paths where
  recorded : ∀ v ∈ queue, paths.has v
  closed : ∀ v, paths.has v → v ∉ queue → ∀ step ∈ adjacent v, paths.has step.target

theorem searched {vertices : List ν}
    (hadjacent : ∀ v, ∀ step ∈ adjacent v, A step ∧ step.source = v ∧ step.target ∈ vertices) :
    ∀ {fuel : ℕ} {paths : OMap ν (List (Hop ν ε))} {queue : List ν},
    Searching A adjacent u paths queue → queue.length + unseen vertices paths ≤ fuel →
    Searching A adjacent u (search adjacent fuel (paths, queue)) []
  | 0, paths, queue, h, hfuel => by
    obtain rfl : queue = [] := List.length_eq_zero_iff.1 (by omega)
    exact h
  | fuel + 1, paths, [], h, _ => h
  | fuel + 1, paths, source :: queue, h, hfuel => by
    obtain ⟨l, hget⟩ := Option.isSome_iff_exists.1 (h.recorded source (List.mem_cons_self ..))
    have hexplored := explored queue h.toSound hget (hadjacent source)
    rw [search, hget, Option.getD_some]
    rcases hfound : explore l (adjacent source) (paths, queue) with ⟨paths', queue'⟩
    rw [hfound] at hexplored
    refine searched hadjacent ⟨hexplored.sound, ?_, ?_⟩ ?_
    · exact hexplored.recorded fun v hv => h.recorded v (List.mem_cons_of_mem _ hv)
    · intro v hv hqueue step hstep
      by_cases hsource : v = source
      · subst hsource
        exact hexplored.reached step hstep
      · have hold := (hexplored.queued v hv).resolve_right hqueue
        refine hexplored.keeps _ (h.closed v hold ?_ step hstep)
        intro hmem
        rcases List.mem_cons.1 hmem with heq | hmem
        · exact hsource heq
        · exact hqueue (hexplored.queue v hmem)
    · have := hexplored.measure
      simp only [List.length_cons] at *
      omega

/-- The record that has the start alone. -/
def startingAt (u : ν) : OMap ν (List (Hop ν ε)) := (OMap.empty).set u []

theorem searching_start : Searching A adjacent u (startingAt u) [u] := by
  have hget : ∀ v l, (startingAt u : OMap ν (List (Hop ν ε))).get v = some l → v = u ∧ l = [] := by
    intro v l h
    rw [startingAt, OMap.get_set] at h
    split at h
    · next heq =>
      cases h
      exact ⟨heq, rfl⟩
    · cases h
  have hstart : (startingAt u : OMap ν (List (Hop ν ε))).has u := by
    rw [startingAt, OMap.has, OMap.get_set, if_pos rfl]
    rfl
  refine ⟨⟨hstart, ?_, ?_⟩, ?_, ?_⟩
  · intro v l h
    obtain ⟨rfl, rfl⟩ := hget v l h
    exact .nil
  · intro v l h
    obtain ⟨-, rfl⟩ := hget v l h
    simp
  · intro v hv
    rw [List.mem_singleton.1 hv]
    exact hstart
  · intro v hv hnotin
    obtain ⟨l, hl⟩ := Option.isSome_iff_exists.1 hv
    exact absurd (List.mem_singleton.2 (hget v l hl).1) hnotin

/-- The path to every vertex a search from `u` finds. -/
def pathsFrom (adjacent : ν → List (Hop ν ε)) (fuel : ℕ) (u : ν) : OMap ν (List (Hop ν ε)) :=
  search adjacent fuel (startingAt u, [u])

section Complete

variable {vertices : List ν} {fuel : ℕ}
variable (hadjacent : ∀ v, ∀ step ∈ adjacent v, A step ∧ step.source = v ∧ step.target ∈ vertices)
variable (hall : ∀ step, A step → step ∈ adjacent step.source)
variable (hfuel : vertices.length + 1 ≤ fuel)

include hadjacent hfuel

theorem searching_pathsFrom : Searching A adjacent u (pathsFrom adjacent fuel u) [] := by
  refine searched hadjacent searching_start ?_
  have : unseen vertices (startingAt u : OMap ν (List (Hop ν ε))) ≤ vertices.length :=
    List.countP_le_length
  simp only [List.length_singleton]
  omega

theorem search_sound (h : (pathsFrom adjacent fuel u).get v = some l) : Path A u v l :=
  (searching_pathsFrom hadjacent hfuel).path v l h

include hall

theorem search_closed (hv : (pathsFrom adjacent fuel u).has h.source) (ha : A h) :
    (pathsFrom adjacent fuel u).has h.target :=
  (searching_pathsFrom hadjacent hfuel).closed _ hv List.not_mem_nil h (hall h ha)

theorem search_complete (hp : Path A u v l) : (pathsFrom adjacent fuel u).has v := by
  induction hp with
  | nil => exact (searching_pathsFrom hadjacent hfuel).start
  | snoc _ ha _ ih => exact search_closed hadjacent hall hfuel ih ha

/-- Where paths are unique, the search records them all. -/
theorem search_unique (hu : Unique A) :
    (pathsFrom adjacent fuel u).get v = some l ↔ Path A u v l := by
  refine ⟨search_sound hadjacent hfuel, fun hp => ?_⟩
  obtain ⟨l', hl'⟩ := Option.isSome_iff_exists.1 (search_complete hadjacent hall hfuel hp)
  rw [hl', hu (search_sound hadjacent hfuel hl') hp]

end Complete

end Hop
