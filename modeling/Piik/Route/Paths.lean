/-
  The walks up and down the graph, as the loops of the source.

  A loop returns when `Walk.Ends` holds of its body.  Three of the walks up keep
  a visited set, the search below a node pushes every node once, and both return
  on any graph.  `SourceVideoReady` keeps none: it relies on `sourceUsable`
  having walked the same path before.

  In a reachable state the parents of a peer form one path, up to the Host or to
  an SFU edge, and `sourceUsable` says whether all of it is in service.
-/
import Piik.Route.Safety

namespace Piik.Route

open Walk

/-! ## The routing snapshot -/

/-- The fields of a snapshot that the path walk reads. -/
structure RouteSnapshot where
  roomMedia : Bool
  videoGeneration : ID
  upstreamByViewer : OMap ID CommittedEdge
  hostPublication : Option HostPublication

namespace RouteSnapshot

variable (hostPeerID : ID) (s : RouteSnapshot)

/-- The edge carries no current picture. -/
def pictureMissing (e : CommittedEdge) : Bool :=
  s.roomMedia && (e.videoConnectionID = "" || e.videoGeneration ≠ s.videoGeneration ||
    s.videoGeneration = "")

/-- One hop of `pathIsPhysical`; the walk ends at the Host, which is therefore
    never seen twice. -/
def physicalStep (peerID : ID) : Bool ⊕ ID :=
  if peerID = hostPeerID then .inl true
  else match s.upstreamByViewer.get peerID with
    | none => .inl false
    | some e =>
      if !e.physicalActive || !e.usable then .inl false
      else if s.pictureMissing e then .inl false
      else if e.kind == .sfu then .inl (match s.hostPublication with
        | some p => p.physicalActive && p.generation == e.publicationGeneration
        | none => false)
      else if e.parentPeerID = hostPeerID then .inl true
      else .inr e.parentPeerID

/-- The child's upstream path is in service and carries the current picture.  The
    room has no runtime, or none with a Host yet: `room` is its Host's ID. -/
def pathIsPhysical (room : Option ID) (childPeerID : ID) : Bool :=
  match room with
  | none => false
  | some hostPeerID =>
    if hostPeerID = "" then false
    else Walk.walk (s.physicalStep hostPeerID) false (s.upstreamByViewer.len + 1) [] childPeerID

end RouteSnapshot

namespace Core

variable (c : Core)

/-- `Snapshot`. -/
def snapshot : RouteSnapshot :=
  { roomMedia := c.roomMedia, videoGeneration := c.videoGeneration
    upstreamByViewer := c.upstreamByViewer, hostPublication := c.hostPublication }

/-! ## The loops -/

/-- The body of `depth`: what is visited, the depth so far, and the peer. -/
def depthLoop (s : List ID × Int × ID) : Int ⊕ (List ID × Int × ID) :=
  if s.2.2 ∈ s.1 then .inl maxSafeInteger
  else match c.edge s.2.2 with
    | none => .inl (s.2.1 + 1)
    | some e =>
      if e.kind == .sfu then .inl (s.2.1 + 1)
      else if e.parentPeerID = c.hostPeerID then .inl (s.2.1 + 1)
      else .inr (s.2.2 :: s.1, s.2.1 + 1, e.parentPeerID)

/-- The body of `SourceVideoReady`; no answer is the panic of a missing edge. -/
def videoLoop (peerID : ID) : Option Bool ⊕ ID :=
  if peerID = c.hostPeerID then .inl (some true)
  else match c.edge peerID with
    | none => .inl none
    | some e =>
      if !e.videoReady || (c.roomMedia && e.videoGeneration ≠ c.videoGeneration) then .inl (some false)
      else if e.kind == .sfu then .inl (some true)
      else .inr e.parentPeerID

/-- Every loop that walks from the peer returns, with the answer of the model. -/
structure LoopsReturn (p : ID) : Prop where
  depth : p ≠ c.hostPeerID → Ends c.depthLoop ([], 1, p) (c.depth p)
  source : p ≠ c.hostPeerID → Ends (visiting c.sourceStep false) ([], p) (c.sourceUsable p)
  video : c.sourceUsable p → (c.roomMedia && c.videoGeneration == "") = false →
    Ends c.videoLoop p (some (c.sourceVideoReady p))
  descendants : Ends (collecting c.childrenOf) ([], [p]) (c.descendantsOf p)
  physical : ∀ host, host ≠ "" → Ends (visiting (c.snapshot.physicalStep host) false) ([], p)
    (c.snapshot.pathIsPhysical (some host) p)

variable {c}

/-- Only the child of an edge is left upwards. -/
theorem sourceStep_inr {p q : ID} (h : c.sourceStep p = .inr q) : p ∈ c.upstreamByViewer.keys := by
  unfold sourceStep at h
  split at h
  · cases h
  · next e he => exact OMap.mem_keys.2 ⟨e, he⟩

theorem videoStep_inr {p q : ID} (h : c.videoStep p = .inr q) : p ∈ c.upstreamByViewer.keys := by
  unfold videoStep at h
  split at h
  · cases h
  · split at h
    · cases h
    · next e he => exact OMap.mem_keys.2 ⟨e, he⟩

theorem physicalStep_inr {host p q : ID} (h : c.snapshot.physicalStep host p = .inr q) :
    p ∈ c.upstreamByViewer.keys := by
  unfold RouteSnapshot.physicalStep at h
  split at h
  · cases h
  · split at h
    · cases h
    · next e he => exact OMap.mem_keys.2 ⟨e, he⟩

/-- A walk up with the fuel of one more than the edges. -/
theorem ends_walk {step : ID → Bool ⊕ ID}
    (hs : ∀ p q, step p = .inr q → p ∈ c.upstreamByViewer.keys) (p : ID) :
    Ends (visiting step false) ([], p) (walk step false c.pathFuel [] p) := by
  refine ends_visiting hs List.nodup_nil (List.nil_subset _) ?_
  simp only [OMap.length_keys, pathFuel, List.length_nil]
  omega

/-- `depth` returns on any graph. -/
theorem ends_depth : ∀ {n : ℕ} {seen : List ID} {d : Int} {p : ID}, seen.Nodup →
    seen ⊆ c.upstreamByViewer.keys → c.upstreamByViewer.len < n + seen.length →
    Ends c.depthLoop (seen, d, p) (c.depthFrom n seen d p)
  | 0, seen, d, p, hnd, hsub, hn => by
    have := (hnd.subperm hsub).length_le
    rw [OMap.length_keys] at this
    omega
  | n + 1, seen, d, p, hnd, hsub, hn => by
    unfold depthFrom
    by_cases hp : p ∈ seen
    · rw [if_pos hp]
      exact .here (by simp [depthLoop, hp])
    rw [if_neg hp]
    cases he : c.edge p with
    | none => exact .here (by simp [depthLoop, hp, he])
    | some e =>
      dsimp only
      by_cases hk : e.kind == .sfu
      · rw [if_pos hk]
        exact .here (by simp [depthLoop, hp, he, hk])
      by_cases hh : e.parentPeerID = c.hostPeerID
      · rw [if_neg hk, if_pos hh]
        exact .here (by simp [depthLoop, hp, he, hk, hh])
      · rw [if_neg hk, if_neg hh]
        have hnext : c.depthLoop (seen, d, p) = .inr (p :: seen, d + 1, e.parentPeerID) := by
          simp [depthLoop, hp, he, hk, hh]
        refine .next hnext (ends_depth (hnd.cons hp) ?_ ?_)
        · exact List.cons_subset.2 ⟨OMap.mem_keys.2 ⟨e, he⟩, hsub⟩
        · simp only [List.length_cons]
          omega

/-- **The walk of the picture meets no missing edge** on a path that is in
    service, and returns without a visited set. -/
theorem ends_video {p : ID} (h : c.SourcePath p) :
    ∃ ok, Ends c.videoLoop p (some ok) ∧ Ends c.videoStep p ok := by
  have hup : ∀ {p e}, c.edge p = some e → (e.kind = .peer →
      ∃ ok, Ends c.videoLoop e.parentPeerID (some ok) ∧ Ends c.videoStep e.parentPeerID ok) →
      ∃ ok, Ends c.videoLoop p (some ok) ∧ Ends c.videoStep p ok := by
    intro p e he hnext
    by_cases hp : p = c.hostPeerID
    · exact ⟨true, .here (by simp [videoLoop, hp]), .here (by simp [videoStep, hp])⟩
    by_cases hv : (!e.videoReady || (c.roomMedia && e.videoGeneration ≠ c.videoGeneration)) = true
    · exact ⟨false, .here (by simp only [videoLoop, if_neg hp, he, if_pos hv]),
        .here (by simp only [videoStep, if_neg hp, he, if_pos hv])⟩
    cases hk : e.kind with
    | sfu => exact ⟨true, .here (by simp only [videoLoop, if_neg hp, he, if_neg hv, hk]; rfl),
        .here (by simp only [videoStep, if_neg hp, he, if_neg hv, hk]; rfl)⟩
    | peer =>
      obtain ⟨ok, hl, hs⟩ := hnext hk
      exact ⟨ok, .next (by simp only [videoLoop, if_neg hp, he, if_neg hv, hk]; rfl) hl,
        .next (by simp only [videoStep, if_neg hp, he, if_neg hv, hk]; rfl) hs⟩
  induction h with
  | host => exact ⟨true, .here (by simp [videoLoop]), .here (by simp [videoStep])⟩
  | sfu he _ _ hk => exact hup he fun hk' => by simp [hk] at hk'
  | peer he _ _ _ _ ih => exact hup he fun _ => ih

/-- **The walks return on any graph.** -/
theorem loopsReturn (c : Core) (p : ID) : c.LoopsReturn p := by
  refine ⟨fun hp => ?_, fun hp => ?_, fun hs hr => ?_, ?_, fun host hh => ?_⟩
  · rw [depth, if_neg hp]
    refine ends_depth List.nodup_nil (List.nil_subset _) ?_
    simp only [pathFuel, List.length_nil]
    omega
  · have h := ends_walk (c := c) (fun _ _ => sourceStep_inr) p
    simpa [sourceUsable, hp] using h
  · obtain ⟨ok, hl, hv⟩ := ends_video (sourcePath_of_usable hs)
    have hw := walk_of_ends false (fun _ _ => videoStep_inr) hv
    rw [OMap.length_keys] at hw
    have hready : c.sourceVideoReady p = ok := by
      simp only [sourceVideoReady, hs, hr, Bool.not_false, Bool.true_and, pathFuel]
      exact hw
    rw [hready]
    exact hl
  · refine ends_collecting (childrenOf_subset c) (nodup_childrenOf c) List.nodup_nil
      (List.nil_subset _) ?_
    simp only [OMap.length_keys, List.length_cons, List.length_nil]
    omega
  · have h := ends_walk (c := c) (fun _ _ => @physicalStep_inr c host _ _) p
    simpa [RouteSnapshot.pathIsPhysical, hh, pathFuel, snapshot] using h

/-! ## The parent path -/

/-- Where a parent path ends. -/
inductive PathEnd where
  | host
  | sfu (e : CommittedEdge)
  | nowhere

/-- The edges from the peer upwards, and where they end. -/
inductive ParentPath (c : Core) : ID → List CommittedEdge → PathEnd → Prop
  | host : ParentPath c c.hostPeerID [] .host
  | nowhere {p} : p ≠ c.hostPeerID → c.edge p = none → ParentPath c p [] .nowhere
  | sfu {p e} : p ≠ c.hostPeerID → c.edge p = some e → e.kind = .sfu → ParentPath c p [e] (.sfu e)
  | peer {p e es t} : p ≠ c.hostPeerID → c.edge p = some e → e.kind = .peer →
      ParentPath c e.parentPeerID es t → ParentPath c p (e :: es) t

/-- The Host itself, or its usable publication of the SFU edge's generation. -/
def PathEnd.Serves (c : Core) : PathEnd → Prop
  | .host => True
  | .sfu e => ∃ q, c.hostPublication = some q ∧ q.usable ∧ q.generation = e.publicationGeneration
  | .nowhere => False

/-- The whole path is in service, and so is its end. -/
def InService (c : Core) (es : List CommittedEdge) (t : PathEnd) : Prop :=
  (∀ e ∈ es, e.usable ∧ e.physicalActive) ∧ t.Serves c

variable {es es' : List CommittedEdge} {t t' : PathEnd} {p : ID}

/-- A peer has one parent path. -/
theorem ParentPath.unique (h : ParentPath c p es t) (h' : ParentPath c p es' t') :
    es' = es ∧ t' = t := by
  induction h generalizing es' t' with
  | host =>
    cases h' with
    | host => exact ⟨rfl, rfl⟩
    | nowhere hp => exact absurd rfl hp
    | sfu hp => exact absurd rfl hp
    | peer hp => exact absurd rfl hp
  | nowhere hp he =>
    cases h' with
    | host => exact absurd rfl hp
    | nowhere => exact ⟨rfl, rfl⟩
    | sfu _ he' => cases he.symm.trans he'
    | peer _ he' => cases he.symm.trans he'
  | sfu hp he hk =>
    cases h' with
    | host => exact absurd rfl hp
    | nowhere _ he' => cases he.symm.trans he'
    | sfu _ he' =>
      cases he.symm.trans he'
      exact ⟨rfl, rfl⟩
    | peer _ he' hk' =>
      cases he.symm.trans he'
      cases hk.symm.trans hk'
  | peer hp he hk _ ih =>
    cases h' with
    | host => exact absurd rfl hp
    | nowhere _ he' => cases he.symm.trans he'
    | sfu _ he' hk' =>
      cases he.symm.trans he'
      cases hk.symm.trans hk'
    | peer _ he' _ hup =>
      cases he.symm.trans he'
      obtain ⟨rfl, rfl⟩ := ih hup
      exact ⟨rfl, rfl⟩

/-- Whoever is rooted has a parent path to the Host or to an SFU edge. -/
theorem Rooted.parentPath (h : c.Rooted p) : ∃ es t, ParentPath c p es t ∧ t ≠ .nowhere := by
  unfold Rooted at h
  generalize hok : true = ok at h
  induction h with
  | @here p ok hs =>
    subst hok
    unfold rootStep at hs
    split at hs
    · next hp => exact ⟨[], .host, hp ▸ .host, by simp⟩
    · next hp =>
      split at hs
      · cases hs
      · next e he =>
        split at hs
        · next hk => exact ⟨[e], .sfu e, .sfu hp he hk, by simp⟩
        · cases hs
  | @next p q ok hs _ ih =>
    obtain ⟨es, t, hpath, ht⟩ := ih hok
    unfold rootStep at hs
    split at hs
    · cases hs
    · next hp =>
      split at hs
      · cases hs
      · next e he =>
        split at hs
        · cases hs
        · next hk =>
          cases hs
          exact ⟨e :: es, t, .peer hp he (kind_peer hk) hpath, ht⟩

/-- Every peer of a forest has a parent path, which ends only where the peer has
    no edge of its own or at the Host or an SFU edge. -/
theorem Forest.parentPath (hf : c.Forest) (p : ID) :
    ∃ es t, ParentPath c p es t ∧ ((c.edge p).isSome → t ≠ .nowhere) := by
  by_cases hp : p = c.hostPeerID
  · exact ⟨[], .host, hp ▸ .host, by simp⟩
  cases he : c.edge p with
  | none => exact ⟨[], .nowhere, .nowhere hp he, by simp⟩
  | some e =>
    obtain ⟨es, t, hpath, ht⟩ := (hf.rooted p e he).parentPath
    exact ⟨es, t, hpath, fun _ => ht⟩

/-- A source path is a parent path in service. -/
theorem SourcePath.inService (hf : c.Forest) (h : c.SourcePath p) :
    ∃ es t, ParentPath c p es t ∧ InService c es t := by
  have hne : ∀ {p e}, c.edge p = some e → p ≠ c.hostPeerID := by
    rintro p e he rfl
    simp [hf.outward.host] at he
  induction h with
  | host => exact ⟨[], .host, .host, by simp, trivial⟩
  | @sfu p e he hu ha hk hs =>
    refine ⟨[e], .sfu e, .sfu (hne he) he hk, by simp [hu, ha], ?_⟩
    unfold publicationServes at hs
    split at hs
    · next q hq =>
      simp only [Bool.and_eq_true, beq_iff_eq] at hs
      exact ⟨q, hq, hs.1.1, hs.2⟩
    · cases hs
  | @peer p e he hu ha hk _ ih =>
    obtain ⟨es, t, hpath, hall, ht⟩ := ih
    exact ⟨e :: es, t, .peer (hne he) he hk hpath, by simpa [hu, ha] using hall, ht⟩

/-- A parent path in service is a source path. -/
theorem ParentPath.source (hf : c.Forest) (h : ParentPath c p es t) (hs : InService c es t) :
    c.SourcePath p := by
  induction h with
  | host => exact .host
  | nowhere => exact hs.2.elim
  | @sfu p e _ he hk =>
    obtain ⟨hall, q, hq, hu, hg⟩ := hs
    obtain ⟨hue, hae⟩ := hall e (by simp)
    refine .sfu he hue hae hk ?_
    simp [publicationServes, hq, hu, hf.publication q hq, hg]
  | @peer p e es t _ he hk _ ih =>
    obtain ⟨hall, ht⟩ := hs
    obtain ⟨hue, hae⟩ := hall e (by simp)
    exact .peer he hue hae hk (ih ⟨fun e' he' => hall e' (by simp [he']), ht⟩)

/-- The walk of `sourceUsable` follows a source path to its end. -/
theorem SourcePath.ends (h : c.SourcePath p) : p = c.hostPeerID ∨ Ends c.sourceStep p true := by
  induction h with
  | host => exact .inl rfl
  | sfu he hu ha hk hs => exact .inr (.here (by simp [sourceStep, he, hu, ha, hk, hs]))
  | @peer p e he hu ha hk _ ih =>
    right
    by_cases hp : e.parentPeerID = c.hostPeerID
    · exact .here (by simp [sourceStep, he, hu, ha, hk, hp])
    · exact .next (by simp [sourceStep, he, hu, ha, hk, hp]) (ih.resolve_left hp)

theorem usable_of_sourcePath (h : c.SourcePath p) : c.sourceUsable p = true := by
  unfold sourceUsable
  rcases h.ends with hp | he
  · simp [hp]
  · have hw := walk_of_ends false (fun _ _ => sourceStep_inr) he
    rw [OMap.length_keys] at hw
    simp [pathFuel, hw]

/-- **A source is usable exactly when its parent path is in service.** -/
theorem Forest.sourceUsable_iff (hf : c.Forest) (h : ParentPath c p es t) :
    c.sourceUsable p = true ↔ InService c es t := by
  constructor
  · intro hs
    obtain ⟨es', t', hpath, hin⟩ := (sourcePath_of_usable hs).inService hf
    obtain ⟨rfl, rfl⟩ := h.unique hpath
    exact hin
  · exact fun hin => usable_of_sourcePath (h.source hf hin)

end Core

namespace Controller

/-- **Path walks are total.**  From any peer of any reachable state every walk
    returns and meets no missing edge; the peer has one parent path, which leads
    to the Host or to an SFU edge as soon as the peer has an edge; `sourceUsable`
    says exactly whether that path is in service, and a ready picture needs it. -/
theorem path_walks_total {c : Controller} (h : c.Reachable) (p : ID) :
    c.LoopsReturn p ∧
    (∃ es t, Core.ParentPath c.toCore p es t ∧ ((c.edge p).isSome → t ≠ .nowhere) ∧
      (∀ es' t', Core.ParentPath c.toCore p es' t' → es' = es ∧ t' = t) ∧
      (c.sourceUsable p = true ↔ Core.InService c.toCore es t)) ∧
    (c.sourceVideoReady p = true → c.sourceUsable p = true) := by
  have hf := h.good.sound.forest
  obtain ⟨es, t, hpath, hend⟩ := hf.parentPath p
  refine ⟨Core.loopsReturn _ p, ⟨es, t, hpath, hend, fun es' t' h' => hpath.unique h',
    hf.sourceUsable_iff hpath⟩, fun hready => ?_⟩
  simp only [Core.sourceVideoReady, Bool.and_eq_true] at hready
  exact hready.1.1

/-- The viewer is served by the Host. -/
theorem path_walks_total_viewerServed : ∃ c : Controller, c.Reachable ∧ (c.edge "viewer").isSome ∧
    c.LoopsReturn "viewer" ∧ ∃ es t, Core.ParentPath c.toCore "viewer" es t ∧ t ≠ .nowhere ∧
      Core.InService c.toCore es t := by
  have hc : ∃ c : Controller, c.Reachable ∧ (c.edge "viewer").isSome ∧
      c.sourceUsable "viewer" = true :=
    ⟨_, ⟨smallRoom, 0, _, .upsertParticipant hostInput (some 0) :: viewerServed, rfl, rfl⟩, rfl, rfl⟩
  obtain ⟨c, hc, he, hs⟩ := hc
  obtain ⟨hloops, ⟨es, t, hpath, hend, -, hiff⟩, -⟩ := path_walks_total hc "viewer"
  exact ⟨c, hc, he, hloops, es, t, hpath, hend he, hiff.1 hs⟩

end Controller

end Piik.Route
