/-
  The Viewer's own endpoints on the input route: one is open at a time, each
  speaks at one upstream and closes itself there once, and the texts that are
  sealed under a counter have rising numbers, whichever endpoint sealed them.
-/
import Piik.Client.InputRoute

namespace Piik.Client.InputRoute

/-- The endpoint that a packet comes from. -/
def Source.index : Source → Option ℕ
  | .endpoint i => some i
  | _ => none

namespace Route

/-- What an endpoint has sent. -/
def spoken (r : Route) (i : ℕ) : List Sent := r.sent.filter fun s => s.source.index = some i

/-- The number of an endpoint's counter. -/
def counterOf (r : Route) (i : ℕ) : Option ℕ := (r.endpoints[i]?).map Endpoint.counter

/-- The numbers that were used under a counter, in the order of the packets. -/
def numbers (r : Route) (counter : ℕ) : List ℕ :=
  r.sent.filterMap fun s => if s.source.index.bind r.counterOf = some counter then s.sequence else none

/-- The packets of an endpoint: texts at its upstream, and a last one if it is closed. -/
structure Spoken (e : Endpoint) (l : List Sent) : Prop where
  home : ∀ s ∈ l, e.home = some s.up ∧ s.packet.id = some (.text e.identity.endpointId) ∧
    s.packet.epoch = some (.text e.epoch)
  /-- The number of a text is in its header. -/
  numbered : ∀ s ∈ l, ∀ n, s.sequence = some n → Endpoint.Numbered s.packet n
  last : ∃ texts : List Sent, (∀ s ∈ texts, truthy s.packet.closed = false) ∧
    if e.opened then l = texts else ∃ s, truthy s.packet.closed = true ∧ l = texts ++ [s]

/-- What holds of the endpoints in every state of a route. -/
structure Holds (r : Route) : Prop where
  accounts : ∀ (i : ℕ) (e : Endpoint), r.endpoints[i]? = some e → e.Accounts
  /-- One endpoint is open at most. -/
  current : ∀ (i : ℕ) (e : Endpoint), r.endpoints[i]? = some e → e.opened = true → r.endpoint = some i
  place : ∀ i, r.endpoint = some i → r.ready = true ∧ r.up ≠ none ∧
    ∃ e : Endpoint, r.endpoints[i]? = some e ∧ e.home = r.up ∧ e.counter = r.counter
  counter : r.counter < r.counters.length
  counters : ∀ (i : ℕ) (e : Endpoint), r.endpoints[i]? = some e → e.counter < r.counters.length
  identity : r.register = true → ∀ (i : ℕ) (e : Endpoint), r.endpoints[i]? = some e → e.counter = r.counter →
    r.identity = some e.identity
  /-- A counter belongs to one identity. -/
  shared : ∀ (i j : ℕ) (e e' : Endpoint), r.endpoints[i]? = some e → r.endpoints[j]? = some e' →
    e.counter = e'.counter →
    e.identity = e'.identity
  made : ∀ s ∈ r.sent, ∀ i, s.source.index = some i → i < r.endpoints.length
  spoken : ∀ (i : ℕ) (e : Endpoint), r.endpoints[i]? = some e → Spoken e (r.spoken i)
  numbers : ∀ counter, (r.numbers counter).Pairwise (· < ·) ∧
    ∀ n ∈ r.numbers counter, n ≤ r.counters.getD counter 0
  sealing : ∀ (i : ℕ) (e : Endpoint) (sealing : Sealing), r.endpoints[i]? = some e → e.opened = true →
    e.sealing = some sealing →
    sealing.sequence = r.counters.getD e.counter 0 ∧ ∀ n ∈ r.numbers e.counter, n < sealing.sequence

variable {S : Subtle} {r r' r'' : Route} {p : Packet} {source : Source} {sequence : Option ℕ} {channel i : ℕ}
  {fresh : Fresh} {data : Message} {e e' : Endpoint} {out : Option Transmission}

/-- What happens beside the endpoints. -/
structure Beside (r r' : Route) : Prop where
  endpoint : r'.endpoint = r.endpoint
  endpoints : r'.endpoints = r.endpoints
  identity : r'.identity = r.identity
  counter : r'.counter = r.counter
  counters : r'.counters = r.counters
  register : r'.register = r.register
  place : r.endpoint ≠ none → r'.up = r.up ∧ (r.ready = true → r'.ready = true)
  sent : ∃ l, r'.sent = r.sent ++ l ∧ ∀ s ∈ l, s.source.index = none

theorem Beside.trans (h : Beside r r') (h' : Beside r' r'') : Beside r r'' where
  endpoint := h'.endpoint.trans h.endpoint
  endpoints := h'.endpoints.trans h.endpoints
  identity := h'.identity.trans h.identity
  counter := h'.counter.trans h.counter
  counters := h'.counters.trans h.counters
  register := h'.register.trans h.register
  place := by
    intro hne
    obtain ⟨hup, hready⟩ := h.place hne
    obtain ⟨hup', hready'⟩ := h'.place (h.endpoint ▸ hne)
    exact ⟨hup'.trans hup, fun hr => hready' (hready hr)⟩
  sent := by
    obtain ⟨l, hl, hnone⟩ := h.sent
    obtain ⟨l', hl', hnone'⟩ := h'.sent
    refine ⟨l ++ l', by rw [hl', hl, List.append_assoc], fun s hs => ?_⟩
    rcases List.mem_append.1 hs with hs | hs
    · exact hnone s hs
    · exact hnone' s hs

theorem Holds.beside (h : Holds r) (hbeside : Beside r r') : Holds r' := by
  obtain ⟨l, hsent, hnone⟩ := hbeside.sent
  have hcounter : r'.counterOf = r.counterOf := by
    funext i
    rw [counterOf, counterOf, hbeside.endpoints]
  have hnumbers : ∀ counter, r'.numbers counter = r.numbers counter := by
    intro counter
    rw [Route.numbers, Route.numbers, hsent, List.filterMap_append, hcounter]
    have hl : l.filterMap (fun s =>
        if s.source.index.bind r.counterOf = some counter then s.sequence else none) = [] := by
      refine List.filterMap_eq_nil_iff.2 fun s hs => ?_
      simp [hnone s hs]
    rw [hl, List.append_nil]
  have hspoken : ∀ i, r'.spoken i = r.spoken i := by
    intro i
    rw [Route.spoken, Route.spoken, hsent, List.filter_append]
    have hl : l.filter (fun s => s.source.index = some i) = [] := by
      refine List.filter_eq_nil_iff.2 fun s hs => ?_
      simp [hnone s hs]
    rw [hl, List.append_nil]
  constructor
  · rw [hbeside.endpoints]
    exact h.accounts
  · rw [hbeside.endpoints, hbeside.endpoint]
    exact h.current
  · intro i hi
    rw [hbeside.endpoint] at hi
    obtain ⟨hready, hup, e, he, hhome, hcount⟩ := h.place i hi
    obtain ⟨hup', hready'⟩ := hbeside.place (by simp [hi])
    rw [hup', hbeside.endpoints, hbeside.counter]
    exact ⟨hready' hready, hup, e, he, hhome, hcount⟩
  · rw [hbeside.counter, hbeside.counters]
    exact h.counter
  · rw [hbeside.endpoints, hbeside.counters]
    exact h.counters
  · rw [hbeside.register, hbeside.endpoints, hbeside.counter, hbeside.identity]
    exact h.identity
  · rw [hbeside.endpoints]
    exact h.shared
  · rw [hbeside.endpoints, hsent]
    intro s hs i hi
    rcases List.mem_append.1 hs with hs | hs
    · exact h.made s hs i hi
    · rw [hnone s hs] at hi
      cases hi
  · intro i e he
    rw [hspoken]
    exact h.spoken i e (hbeside.endpoints ▸ he)
  · intro counter
    rw [hnumbers, hbeside.counters]
    exact h.numbers counter
  · intro i e sealing he
    rw [hnumbers, hbeside.counters]
    exact h.sealing i e sealing (hbeside.endpoints ▸ he)

theorem beside_rfl : Beside r r := ⟨rfl, rfl, rfl, rfl, rfl, rfl, fun _ => ⟨rfl, id⟩, [], by simp⟩

theorem beside_sendUp (hsource : source.index = none) : Beside r (r.sendUp source p sequence) := by
  rw [sendUp_eq]
  refine ⟨rfl, rfl, rfl, rfl, rfl, rfl, fun _ => ⟨rfl, id⟩, _, rfl, ?_⟩
  intro s hs
  obtain ⟨up, -, hs⟩ : ∃ up, r.up = some up ∧ s = ⟨up, source, p, sequence⟩ := by
    cases hup : r.up with
    | none => simp [hup] at hs
    | some up => exact ⟨up, rfl, by simpa [hup] using hs⟩
  rw [hs, hsource]

theorem beside_loseChild (detach : Bool) : Beside r (r.loseChild channel detach) := by
  unfold loseChild
  split
  · exact beside_rfl
  · next child _ =>
    rw [foldl_sendUp]
    have hl : ∀ s ∈ r.up.elim [] fun up => child.ids.pairs.map fun pair =>
        (⟨up, .child channel, closedPacket pair, none⟩ : Sent), s.source.index = none := by
      intro s hs
      cases hup : r.up with
      | none => simp [hup] at hs
      | some up =>
        rw [hup, Option.elim_some] at hs
        obtain ⟨pair, -, rfl⟩ := List.mem_map.1 hs
        rfl
    cases detach with
    | true => exact ⟨rfl, rfl, rfl, rfl, rfl, rfl, fun _ => ⟨rfl, id⟩, _, rfl, hl⟩
    | false => exact ⟨rfl, rfl, rfl, rfl, rfl, rfl, fun _ => ⟨rfl, id⟩, _, rfl, hl⟩

theorem beside_foldl (channels : List ℕ) : Beside r (channels.foldl (fun r c => r.loseChild c false) r) := by
  induction channels generalizing r with
  | nil => exact beside_rfl
  | cons channel channels ih => exact (beside_loseChild false).trans ih

theorem beside_childMessage : Beside r (r.childMessage channel data) := by
  have hset : ∀ child ids p, Beside r ((r.setIds channel child ids).sendUp (.child channel) p none) := by
    intro child ids p
    have hids : Beside r (r.setIds channel child ids) :=
      ⟨rfl, rfl, rfl, rfl, rfl, rfl, fun _ => ⟨rfl, id⟩, [], by simp [setIds]⟩
    exact hids.trans (beside_sendUp rfl)
  unfold childMessage
  split
  · split
    · exact ⟨rfl, rfl, rfl, rfl, rfl, rfl, fun _ => ⟨rfl, id⟩, [], by simp [Route.send]⟩
    · split
      · exact beside_rfl
      · dsimp only
        split_ifs
        · exact hset _ _ _
        · exact beside_sendUp rfl
        · exact beside_rfl
        · exact beside_loseChild true
        · exact hset _ _ _
  · exact beside_rfl

/-! ## A step of an endpoint -/

theorem emit_eq : r.emit i e out =
    { r with endpoints := r.endpoints.set i e
             sent := r.sent ++ out.elim [] fun t => r.up.elim [] fun up =>
               [⟨up, .endpoint i, t.packet, t.sequence⟩] } := by
  cases out with
  | none => simp [emit]
  | some t => simp [emit, sendUp_eq]

theorem getElem?_emit (hi : r.endpoints[i]? = some e) (j : ℕ) :
    (r.emit i e' out).endpoints[j]? = if j = i then some e' else r.endpoints[j]? := by
  obtain ⟨hlt, -⟩ := List.getElem?_eq_some_iff.1 hi
  rw [emit_eq, List.getElem?_set]
  by_cases hj : i = j
  · subst hj
    simp [hlt]
  · simp [hj, Ne.symm hj]

theorem counterOf_emit (hi : r.endpoints[i]? = some e) (hcounter : e'.counter = e.counter) :
    (r.emit i e' out).counterOf = r.counterOf := by
  funext j
  rw [counterOf, getElem?_emit hi, counterOf]
  split
  · next hj => rw [hj, hi, Option.map_some, Option.map_some, hcounter]
  · rfl

/-- The packets and the numbers that are added. -/
theorem numbers_emit (hi : r.endpoints[i]? = some e) (hcounter : e'.counter = e.counter) (counter : ℕ) :
    (r.emit i e' out).numbers counter = r.numbers counter ++
      if e.counter = counter ∧ r.up ≠ none then (out.bind Transmission.sequence).toList else [] := by
  have hof : r.counterOf i = some e.counter := by rw [counterOf, hi]; rfl
  rw [Route.numbers, counterOf_emit hi hcounter, emit_eq, List.filterMap_append]
  congr 1
  cases out with
  | none => simp
  | some t =>
    cases hup : r.up with
    | none => simp
    | some up =>
      have hindex : (Source.endpoint i).index.bind r.counterOf = some e.counter := hof
      by_cases hc : e.counter = counter
      · cases hsequence : t.sequence <;> simp [hindex, hc, hsequence]
      · simp [hindex, hc]

theorem spoken_emit (j : ℕ) :
    (r.emit i e' out).spoken j = r.spoken j ++
      if i = j then out.elim [] fun t => r.up.elim [] fun up => [⟨up, .endpoint i, t.packet, t.sequence⟩]
      else [] := by
  rw [Route.spoken, emit_eq, List.filter_append]
  congr 1
  cases out with
  | none => simp
  | some t =>
    cases hup : r.up with
    | none => simp
    | some up => by_cases hj : i = j <;> simp [Source.index, hj]

theorem emit_beside : (r.emit i e' out).endpoint = r.endpoint ∧ (r.emit i e' out).ready = r.ready ∧
    (r.emit i e' out).up = r.up ∧ (r.emit i e' out).counter = r.counter ∧
    (r.emit i e' out).counters = r.counters ∧ (r.emit i e' out).register = r.register ∧
    (r.emit i e' out).identity = r.identity := by
  rw [emit_eq]
  exact ⟨rfl, rfl, rfl, rfl, rfl, rfl, rfl⟩

/-- What is an endpoint after the step was one before it. -/
theorem before_emit (hi : r.endpoints[i]? = some e) (hsame : e.Same e') {j : ℕ} {e₁ : Endpoint}
    (he₁ : (r.emit i e' out).endpoints[j]? = some e₁) :
    ∃ d : Endpoint, r.endpoints[j]? = some d ∧ d.Same e₁ := by
  rw [getElem?_emit hi] at he₁
  split at he₁
  · next hj =>
    cases he₁
    exact ⟨e, hj ▸ hi, hsame⟩
  · exact ⟨e₁, he₁, rfl, rfl, rfl, rfl⟩

/-- An endpoint that is open was made for the present upstream. -/
theorem Holds.home (h : Holds r) (hi : r.endpoints[i]? = some e) (ho : e.opened = true) :
    ∃ up, r.up = some up ∧ e.home = some up := by
  obtain ⟨-, hup, e₁, he₁, hhome, -⟩ := h.place i (h.current i e hi ho)
  obtain rfl := Option.some.inj (hi.symm.trans he₁)
  obtain ⟨up, hup⟩ := Option.ne_none_iff_exists'.1 hup
  exact ⟨up, hup, hhome.trans hup⟩

/-- What an endpoint said, with the packet that its step adds. -/
theorem Spoken.emits {l : List Sent} {up : Option ℕ} (h : Spoken e l) (hemits : e.Emits e' out)
    (hup : e.opened = true → ∃ u, up = some u ∧ e.home = some u) :
    Spoken e' (l ++ out.elim [] fun t => up.elim [] fun u => [⟨u, source, t.packet, t.sequence⟩]) := by
  have hsame := hemits.same
  obtain ⟨hhome, hnumbered, texts, htexts, hlast⟩ := h
  rw [← hsame.home, ← hsame.identity, ← hsame.epoch] at hhome
  cases hemits with
  | quiet _ heq =>
    rw [Option.elim_none, List.append_nil]
    exact ⟨hhome, hnumbered, texts, htexts, heq ▸ hlast⟩
  | closes _ ho hc =>
    obtain ⟨u, rfl, hu⟩ := hup ho
    rw [if_pos ho] at hlast
    rw [Option.elim_some, Option.elim_some]
    refine ⟨List.forall_mem_append.2 ⟨hhome, List.forall_mem_singleton.2 ⟨?_, ?_, ?_⟩⟩,
      List.forall_mem_append.2 ⟨hnumbered, List.forall_mem_singleton.2 fun n hn => ?_⟩, texts, htexts, ?_⟩
    · exact hsame.home.trans hu
    · rw [hsame.identity]
      rfl
    · rw [hsame.epoch]
      rfl
    · cases hn
    · rw [if_neg (by simp [hc]), hlast]
      exact ⟨_, rfl, rfl⟩
  | seals _ ho ho' _ _ hid hepoch hopen hsequence hdata =>
    obtain ⟨u, rfl, hu⟩ := hup ho
    rw [if_pos ho] at hlast
    rw [Option.elim_some, Option.elim_some]
    refine ⟨List.forall_mem_append.2 ⟨hhome, List.forall_mem_singleton.2 ⟨?_, ?_, ?_⟩⟩,
      List.forall_mem_append.2 ⟨hnumbered, List.forall_mem_singleton.2 fun n hn => ?_⟩, _,
      List.forall_mem_append.2 ⟨hlast ▸ htexts, List.forall_mem_singleton.2 hopen⟩, by rw [if_pos ho']⟩
    · exact hsame.home.trans hu
    · rw [hsame.identity]
      exact hid
    · rw [hsame.epoch]
      exact hepoch
    · obtain rfl := Option.some.inj (hsequence.symm.trans hn)
      exact hdata

/-- The numbers under a counter still rise, and none is beyond the counter. -/
theorem Holds.rising (h : Holds r) (hi : r.endpoints[i]? = some e) (hemits : e.Emits e' out) (counter : ℕ) :
    ((r.emit i e' out).numbers counter).Pairwise (· < ·) ∧
      ∀ n ∈ (r.emit i e' out).numbers counter, n ≤ r.counters.getD counter 0 := by
  obtain ⟨hrising, hbelow⟩ := h.numbers counter
  rw [numbers_emit hi hemits.same.counter]
  split
  · next hc =>
    cases hemits with
    | quiet => simpa using ⟨hrising, hbelow⟩
    | closes => simpa [Endpoint.closing] using ⟨hrising, hbelow⟩
    | seals _ ho _ hseals _ _ _ _ hsequence _ =>
      obtain ⟨hnow, hlt⟩ := h.sealing i e _ hi ho hseals
      rw [hc.1] at hnow hlt
      simp only [Option.bind_some, hsequence, Option.toList]
      constructor
      · rw [List.pairwise_append]
        refine ⟨hrising, by simp, fun n hn m hm => ?_⟩
        rw [List.mem_singleton.1 hm]
        exact hlt n hn
      · exact List.forall_mem_append.2 ⟨hbelow, List.forall_mem_singleton.2 hnow.le⟩
  · simpa using ⟨hrising, hbelow⟩

/-- A text that is being sealed then has a number above all that were used. -/
theorem Holds.above (h : Holds r) (hi : r.endpoints[i]? = some e) (hemits : e.Emits e' out)
    (hsealing : out = none → ∀ s, e'.opened = true → e'.sealing = some s →
      s.sequence = r.counters.getD e.counter 0 ∧ ∀ n ∈ r.numbers e.counter, n < s.sequence)
    {j : ℕ} {e₁ : Endpoint} {sealing : Sealing} (he₁ : (r.emit i e' out).endpoints[j]? = some e₁)
    (ho : e₁.opened = true) (hs : e₁.sealing = some sealing) :
    sealing.sequence = r.counters.getD e₁.counter 0 ∧
      ∀ n ∈ (r.emit i e' out).numbers e₁.counter, n < sealing.sequence := by
  have hsame := hemits.same
  rw [numbers_emit hi hsame.counter]
  rw [getElem?_emit hi] at he₁
  split at he₁
  · cases he₁
    rw [hsame.counter]
    cases hemits with
    | quiet =>
      obtain ⟨hnow, hlt⟩ := hsealing rfl sealing ho hs
      exact ⟨hnow, by simpa using hlt⟩
    | closes _ _ hc =>
      rw [hc] at ho
      cases ho
    | seals _ _ _ _ hnone =>
      rw [hnone] at hs
      cases hs
  · next hj =>
    have hcur := h.current j e₁ he₁ ho
    -- the endpoint of the step is not the open one, so that it uses no number
    have hnot : out.bind Transmission.sequence = none := by
      cases hemits with
      | quiet => rfl
      | closes => rfl
      | seals _ ho' =>
        have hcur' := h.current i e hi ho'
        exact absurd (Option.some.inj (hcur.symm.trans hcur')) hj
    rw [hnot]
    obtain ⟨hnow, hlt⟩ := h.sealing j e₁ sealing he₁ ho hs
    exact ⟨hnow, by simpa using hlt⟩

/-- What is added to the packets comes from the endpoint. -/
theorem source_emit {s : Sent} (hs : s ∈ (r.emit i e' out).sent) : s ∈ r.sent ∨ s.source = .endpoint i := by
  rw [emit_eq] at hs
  rcases List.mem_append.1 hs with hs | hs
  · exact Or.inl hs
  · cases out with
    | none => simp at hs
    | some t =>
      cases hu : r.up with
      | none => simp [hu] at hs
      | some up =>
        simp only [hu, Option.elim_some, List.mem_singleton] at hs
        rw [hs]
        exact Or.inr rfl

/-- A step of an endpoint, when what it is sealing then has a number of its own. -/
theorem Holds.emit (h : Holds r) (hi : r.endpoints[i]? = some e) (haccounts : e'.Accounts)
    (hemits : e.Emits e' out) (hsealing : out = none → ∀ s, e'.opened = true → e'.sealing = some s →
      s.sequence = r.counters.getD e.counter 0 ∧ ∀ n ∈ r.numbers e.counter, n < s.sequence) :
    Holds (r.emit i e' out) := by
  have hget := @getElem?_emit r i e e' out hi
  have hsame := hemits.same
  have hbefore := @before_emit r i e e' out hi hsame
  obtain ⟨hendpoint, hready, hup, hcounter, hcounters, hregister, hidentity⟩ := @emit_beside r i e' out
  constructor
  · intro j e₁ he₁
    rw [hget] at he₁
    split at he₁
    · cases he₁
      exact haccounts
    · exact h.accounts j e₁ he₁
  · intro j e₁ he₁ ho
    rw [hendpoint]
    rw [hget] at he₁
    split at he₁
    · next hj =>
      cases he₁
      exact hj ▸ h.current i e hi (hemits.opened ho)
    · exact h.current j e₁ he₁ ho
  · intro j hj
    rw [hendpoint] at hj
    obtain ⟨hr, hu, e₁, he₁, hhome, hcount⟩ := h.place j hj
    rw [hready, hup, hcounter]
    refine ⟨hr, hu, ?_⟩
    rw [hget]
    by_cases hji : j = i
    · subst hji
      obtain rfl := Option.some.inj (hi.symm.trans he₁)
      exact ⟨e', by rw [if_pos rfl], hsame.home.trans hhome, hsame.counter.trans hcount⟩
    · exact ⟨e₁, by rw [if_neg hji, he₁], hhome, hcount⟩
  · rw [hcounter, hcounters]
    exact h.counter
  · intro j e₁ he₁
    obtain ⟨d, hd, hdsame⟩ := hbefore he₁
    rw [hcounters, hdsame.counter]
    exact h.counters j d hd
  · intro hreg j e₁ he₁ hc
    obtain ⟨d, hd, hdsame⟩ := hbefore he₁
    rw [hidentity, hdsame.identity]
    rw [hregister] at hreg
    rw [hcounter, hdsame.counter] at hc
    exact h.identity hreg j d hd hc
  · intro j k e₁ e₂ he₁ he₂ hc
    obtain ⟨d₁, hd₁, hdsame₁⟩ := hbefore he₁
    obtain ⟨d₂, hd₂, hdsame₂⟩ := hbefore he₂
    rw [hdsame₁.counter, hdsame₂.counter] at hc
    rw [hdsame₁.identity, hdsame₂.identity]
    exact h.shared j k d₁ d₂ hd₁ hd₂ hc
  · intro s hs j hj
    rw [emit_eq, List.length_set]
    rcases source_emit hs with hs | hs
    · exact h.made s hs j hj
    · rw [hs] at hj
      cases hj
      exact (List.getElem?_eq_some_iff.1 hi).1
  · intro j e₁ he₁
    rw [spoken_emit]
    rw [hget] at he₁
    split at he₁
    · next hj =>
      subst hj
      cases he₁
      rw [if_pos rfl]
      exact (h.spoken j e hi).emits hemits (h.home hi)
    · next hj =>
      rw [if_neg (Ne.symm hj), List.append_nil]
      exact h.spoken j e₁ he₁
  · rw [hcounters]
    exact h.rising hi hemits
  · intro j e₁ sealing he₁ ho hs
    rw [hcounters]
    exact h.above hi hemits hsealing he₁ ho hs

theorem Holds.emits (h : Holds r) (hi : r.endpoints[i]? = some e) (haccounts : e'.Accounts)
    (hemits : e.Emits e' out ∧ e.Keeps e') : Holds (r.emit i e' out) := by
  obtain ⟨hemits, hkeeps⟩ := hemits
  refine h.emit hi haccounts hemits fun hout s ho hs => ?_
  rcases hkeeps with hnone | hkeeps
  · rw [hnone] at hs
    cases hs
  · subst hout
    cases hemits with
    | quiet _ heq => exact h.sealing i e s hi (heq ▸ ho) (hkeeps ▸ hs)

/-- The open endpoint seals nothing, and its counter goes up. -/
theorem Holds.raise {sent : ℕ} (h : Holds r) (hi : r.endpoints[i]? = some e) (ho : e.opened = true)
    (hs : e.sealing = none) (hsent : r.counters[e.counter]? = some sent) :
    Holds { r with counters := r.counters.set e.counter (sent + 1) } := by
  obtain ⟨hlt, hget⟩ := List.getElem?_eq_some_iff.1 hsent
  have hlen : (r.counters.set e.counter (sent + 1)).length = r.counters.length := List.length_set
  have hle : ∀ counter, r.counters.getD counter 0 ≤ (r.counters.set e.counter (sent + 1)).getD counter 0 := by
    intro counter
    rw [List.getD_eq_getElem?_getD, List.getD_eq_getElem?_getD, List.getElem?_set]
    split
    · next heq =>
      rw [← heq, hsent]
      simp
    · exact le_rfl
  refine ⟨h.accounts, h.current, h.place, hlen ▸ h.counter, fun j e₁ he₁ => hlen ▸ h.counters j e₁ he₁,
    h.identity, h.shared, h.made, h.spoken, ?_, ?_⟩
  · intro counter
    obtain ⟨hrising, hbelow⟩ := h.numbers counter
    exact ⟨hrising, fun n hn => (hbelow n hn).trans (hle counter)⟩
  · intro j e₁ sealing he₁ ho₁ hs₁
    have hj := Option.some.inj ((h.current i e hi ho).symm.trans (h.current j e₁ he₁ ho₁))
    subst hj
    obtain rfl := Option.some.inj (hi.symm.trans he₁)
    rw [hs] at hs₁
    cases hs₁

theorem holds_beginSeal {sent : ℕ} {nonce : List UInt8} {out : Endpoint × ℕ} (h : Holds r)
    (hi : r.endpoints[i]? = some e) (hsent : r.counters[e.counter]? = some sent)
    (hs : e.beginSeal sent nonce = some out) :
    Holds { r.emit i out.1 none with counters := r.counters.set e.counter out.2 } := by
  obtain ⟨e', sent'⟩ := out
  have haccounts := (h.accounts i e hi).beginSeal hs
  obtain ⟨hsame, hopened, hnone, hcase⟩ := Endpoint.beginSeal_spec hs
  rcases hcase with ⟨-, hnone', rfl⟩ | ⟨ho, rfl, plain, htaken⟩
  · obtain ⟨hlt, hget⟩ := List.getElem?_eq_some_iff.1 hsent
    have hcounters : r.counters.set e.counter sent' = r.counters := by
      rw [← hget, List.set_getElem_self]
    rw [hcounters]
    exact h.emits hi haccounts ⟨.quiet hsame hopened, .inl hnone'⟩
  · have hraised := h.raise hi ho hnone hsent
    have hcount : (r.counters.set e.counter (sent + 1)).getD e.counter 0 = sent + 1 := by
      rw [List.getD_eq_getElem?_getD, List.getElem?_set_self (List.getElem?_eq_some_iff.1 hsent).1]
      rfl
    refine @Holds.emit _ i e e' none hraised hi haccounts (.quiet hsame hopened) fun _ s _ hseal => ?_
    obtain rfl := Option.some.inj (htaken.symm.trans hseal)
    refine ⟨hcount.symm, fun n hn => ?_⟩
    have hbelow := (h.numbers e.counter).2 n hn
    rw [List.getD_eq_getElem?_getD, hsent] at hbelow
    exact Nat.lt_succ_of_le hbelow

theorem holds_closeEndpoint (h : Holds r) : Holds (r.closeEndpoint i) := by
  unfold closeEndpoint
  split
  · exact h
  · next e hi => exact h.emits hi (h.accounts i e hi).close Endpoint.emits_close

/-- The endpoint that is retired is closed, so that none is open. -/
theorem holds_retireEndpoint (h : Holds r) : Holds r.retireEndpoint ∧ r.retireEndpoint.endpoint = none := by
  unfold retireEndpoint
  cases hendpoint : r.endpoint with
  | none => exact ⟨h, hendpoint⟩
  | some i =>
    refine ⟨?_, rfl⟩
    obtain ⟨-, -, e, hi, -⟩ := h.place i hendpoint
    have h' := @holds_closeEndpoint r i h
    have hclosed : ∀ (j : ℕ) (e' : Endpoint), (r.closeEndpoint i).endpoints[j]? = some e' → e'.opened = false := by
      intro j e' he'
      rw [closeEndpoint, hi] at he'
      dsimp only at he'
      rw [getElem?_emit hi] at he'
      split at he'
      · cases he'
        unfold Endpoint.close
        split
        · next hc => simpa using hc
        · rfl
      · next hj =>
        cases ho : e'.opened with
        | false => rfl
        | true => exact absurd (Option.some.inj ((h.current j e' he' ho).symm.trans hendpoint)) hj
    refine ⟨h'.accounts, ?_, ?_, h'.counter, h'.counters, h'.identity, h'.shared, h'.made, h'.spoken,
      h'.numbers, h'.sealing⟩
    · intro j e' he' ho
      rw [hclosed j e' he'] at ho
      cases ho
    · intro j hj
      cases hj

/-! ## The route -/

theorem numbers_congr (h : Holds r) (hsent : r'.sent = r.sent)
    (hcounter : ∀ j < r.endpoints.length, r'.counterOf j = r.counterOf j) (counter : ℕ) :
    r'.numbers counter = r.numbers counter := by
  rw [Route.numbers, Route.numbers, hsent]
  refine List.filterMap_congr fun s hs => ?_
  cases hindex : s.source.index with
  | none => rfl
  | some j => rw [Option.bind_some, Option.bind_some, hcounter j (h.made s hs j hindex)]

/-- A new endpoint takes the place that is free. -/
theorem Holds.make (h : Holds r) (hnone : r.endpoint = none) (hready : r.ready = true) (hup : r.up ≠ none)
    {made : Endpoint} (hidentity : r.register = true → r.identity.all (· = made.identity))
    (hregister : r.register = true) (hhome : made.home = r.up) (hcount : made.counter = r.counter)
    (hopened : made.opened = true) (hsealing : made.sealing = none) (haccounts : made.Accounts) :
    Holds { r with identity := some made.identity, endpoint := some r.endpoints.length
                   endpoints := r.endpoints ++ [made] } := by
  have hclosed : ∀ (j : ℕ) (e : Endpoint), r.endpoints[j]? = some e → e.opened = true → False := by
    intro j e he ho
    have hcurrent := h.current j e he ho
    rw [hnone] at hcurrent
    cases hcurrent
  have hold : ∀ (j : ℕ) (e : Endpoint), r.endpoints[j]? = some e → e.counter = r.counter →
      e.identity = made.identity := by
    intro j e he hc
    have hall := hidentity hregister
    rw [h.identity hregister j e he hc] at hall
    simpa using hall
  have hget : ∀ (j : ℕ) (e : Endpoint), (r.endpoints ++ [made])[j]? = some e →
      r.endpoints[j]? = some e ∨ j = r.endpoints.length ∧ e = made := by
    intro j e he
    rw [List.getElem?_append] at he
    split at he
    · exact .inl he
    · next hlt =>
      obtain ⟨hj, rfl⟩ := List.getElem?_eq_some_iff.1 he
      simp only [List.length_singleton, Nat.lt_one_iff] at hj
      exact .inr ⟨by omega, by simp⟩
  have hnumbers : ∀ counter, Route.numbers { r with
      identity := some made.identity, endpoint := some r.endpoints.length
      endpoints := r.endpoints ++ [made] } counter = r.numbers counter := by
    refine numbers_congr h rfl fun j hj => ?_
    show ((r.endpoints ++ [made])[j]?).map _ = (r.endpoints[j]?).map _
    rw [List.getElem?_append_left hj]
  constructor
  · intro j e he
    rcases hget j e he with he | ⟨-, rfl⟩
    · exact h.accounts j e he
    · exact haccounts
  · intro j e he ho
    rcases hget j e he with he | ⟨rfl, -⟩
    · exact (hclosed j e he ho).elim
    · rfl
  · intro j hj
    obtain rfl := Option.some.inj hj
    exact ⟨hready, hup, made, by simp, hhome, hcount⟩
  · exact h.counter
  · intro j e he
    rcases hget j e he with he | ⟨-, rfl⟩
    · exact h.counters j e he
    · rw [hcount]
      exact h.counter
  · intro _ j e he hc
    rcases hget j e he with he | ⟨-, rfl⟩
    · exact congrArg some (hold j e he hc).symm
    · rfl
  · intro j k e e' he he' hc
    rcases hget j e he with hj | ⟨-, hj⟩ <;> rcases hget k e' he' with hk | ⟨-, hk⟩
    · exact h.shared j k e e' hj hk hc
    · rw [hk] at hc ⊢
      exact hold j e hj (hc.trans hcount)
    · rw [hj] at hc ⊢
      exact (hold k e' hk (hc.symm.trans hcount)).symm
    · rw [hj, hk]
  · intro s hs j hj
    rw [List.length_append]
    exact Nat.lt_of_lt_of_le (h.made s hs j hj) (Nat.le_add_right _ _)
  · intro j e he
    rcases hget j e he with he | ⟨rfl, rfl⟩
    · exact h.spoken j e he
    · have hnil : r.spoken r.endpoints.length = [] := by
        refine List.filter_eq_nil_iff.2 fun s hs => ?_
        have := h.made s hs r.endpoints.length
        simpa using this
      have hnone : ∀ s, s ∉ r.spoken r.endpoints.length := by simp [hnil]
      refine ⟨fun s hs => absurd hs (hnone s), fun s hs => absurd hs (hnone s), [], by simp, ?_⟩
      · rw [if_pos hopened]
        exact hnil
  · intro counter
    rw [hnumbers]
    exact h.numbers counter
  · intro j e sealing he ho hs
    rcases hget j e he with he | ⟨-, rfl⟩
    · exact (hclosed j e he ho).elim
    · rw [hsealing] at hs
      cases hs

theorem holds_refreshEndpoint (h : Holds r) (hup : r.ready = true → r.up ≠ none) :
    Holds (r.refreshEndpoint fresh) := by
  unfold refreshEndpoint
  split
  · exact h
  · next hwanted =>
    simp only [Bool.or_eq_true, Bool.not_eq_true', not_or, Bool.not_eq_true, Bool.not_eq_false,
      Option.isSome_eq_false_iff, Option.isNone_iff_eq_none] at hwanted
    obtain ⟨⟨⟨hnone, hready⟩, hregister⟩, -⟩ := hwanted
    split
    · exact h
    · next identity hidentity =>
      refine h.make hnone hready (hup hready) (fun _ => ?_) hregister rfl rfl rfl rfl
        (Endpoint.Accounts.fresh identity fresh.epoch r.counter r.up)
      cases hold : r.identity with
      | none => rfl
      | some old =>
        rw [hold] at hidentity
        obtain rfl := Option.some.inj hidentity
        simp

/-- A new counter, and an identity to come. -/
theorem Holds.renew (h : Holds r) (hnone : r.endpoint = none) (register : Bool) :
    Holds { r with register := register, identity := none, counter := r.counters.length
                   counters := r.counters ++ [0] } := by
  have hcounters : ∀ counter, (r.counters ++ [0]).getD counter 0 = r.counters.getD counter 0 := by
    intro counter
    rw [List.getD_eq_getElem?_getD, List.getD_eq_getElem?_getD, List.getElem?_append]
    split
    · rfl
    · next hlt =>
      rw [List.getElem?_eq_none (not_lt.1 hlt)]
      cases counter - r.counters.length <;> simp
  refine ⟨h.accounts, h.current, fun i hi => absurd (hi.symm.trans hnone) (by simp), by simp, ?_, ?_, h.shared,
    h.made, h.spoken, ?_, ?_⟩
  · intro i e he
    rw [List.length_append]
    exact Nat.lt_of_lt_of_le (h.counters i e he) (Nat.le_add_right _ _)
  · intro _ i e he hc
    exact absurd hc (h.counters i e he).ne
  · intro counter
    rw [hcounters]
    exact h.numbers counter
  · intro i e sealing he
    rw [hcounters]
    exact h.sealing i e sealing he

theorem holds_reauthenticate (h : Holds r) (hup : r.ready = true → r.up ≠ none) (register : Bool) :
    Holds (({ r with register := register } : Route).reauthenticate fresh) := by
  have hregister : ({ r with register := register } : Route).retireEndpoint =
      { r.retireEndpoint with register := register } := by
    cases hendpoint : r.endpoint with
    | none => simp [retireEndpoint, hendpoint]
    | some i =>
      cases hi : r.endpoints[i]? with
      | none => simp [retireEndpoint, closeEndpoint, hendpoint, hi]
      | some e => simp [retireEndpoint, closeEndpoint, emit_eq, hendpoint, hi]
  obtain ⟨h', hnone⟩ := holds_retireEndpoint h
  have haside := @aside_retireEndpoint r
  rw [reauthenticate, hregister]
  exact holds_refreshEndpoint (h'.renew hnone register) (by simpa [haside.ready, haside.up] using hup)

/-- With no endpoint, the upstream and what is known of it can change. -/
theorem Holds.turn (h : Holds r) (hnone : r.endpoint = none) (ready : Bool) (up : Option ℕ) :
    Holds { r with ready := ready, up := up } :=
  ⟨h.accounts, h.current, fun i hi => absurd (hi.symm.trans hnone) (by simp), h.counter, h.counters, h.identity,
    h.shared, h.made, h.spoken, h.numbers, h.sealing⟩

theorem beside_broadcast : Beside r (r.broadcast p) :=
  ⟨rfl, rfl, rfl, rfl, rfl, rfl, fun _ => ⟨rfl, id⟩, [], by simp [Route.broadcast]⟩

theorem holds_setUpstream {up : Option ℕ} {channelOpen : Bool} (h : Holds r) :
    Holds (r.setUpstream up channelOpen) ∧ (r.up ≠ up → (r.setUpstream up channelOpen).endpoint = none) := by
  unfold setUpstream
  split
  · next hup => exact ⟨h, fun hne => absurd hup hne⟩
  · dsimp only
    generalize hlost : (if r.up.isSome then r.children.keys.foldl (fun r child => r.loseChild child false) r
      else r) = r₁
    have h₁ : Holds r₁ := by
      split at hlost
      · exact hlost ▸ h.beside (beside_foldl _)
      · exact hlost ▸ h
    obtain ⟨h₂, hnone⟩ := holds_retireEndpoint h₁
    have h₃ := (h₂.turn hnone false up).beside (@beside_broadcast _ { ready := some (.bool false) })
    split
    · refine ⟨h₃.beside (beside_sendUp rfl), fun _ => ?_⟩
      rw [(@beside_sendUp _ { ready := some (.bool true) } .self none rfl).endpoint]
      exact hnone
    · exact ⟨h₃, fun _ => hnone⟩

/-- The upstream is not ready, and the endpoint is retired. -/
theorem holds_unready (h : Holds r) : Holds ({ r with ready := false } : Route).retireEndpoint := by
  have hready : ({ r with ready := false } : Route).retireEndpoint =
      { r.retireEndpoint with ready := false } := by
    cases hendpoint : r.endpoint with
    | none => simp [retireEndpoint, hendpoint]
    | some i =>
      cases hi : r.endpoints[i]? with
      | none => simp [retireEndpoint, closeEndpoint, hendpoint, hi]
      | some e => simp [retireEndpoint, closeEndpoint, emit_eq, hendpoint, hi]
  obtain ⟨h', hnone⟩ := holds_retireEndpoint h
  rw [hready]
  exact h'.turn hnone false _

theorem holds_deliver (h : Holds r) (hup : r.up ≠ none) : Holds (r.deliver fresh p) := by
  unfold deliver
  cases hready : p.ready with
  | none =>
    dsimp only
    split
    · split
      · exact h
      · next e hi =>
        split
        · exact h.emits hi (h.accounts _ e hi).receive Endpoint.emits_receive
        · exact h
    · exact h
  | some ready =>
    dsimp only
    split
    · split
      · exact h
      · split
        · split
          · exact h
          · next e hi => exact h.emits hi (h.accounts _ e hi).send Endpoint.emits_send
        · exact h
    · cases ready.truthy with
      | true =>
        have hbeside : Beside r { r with ready := true } :=
          ⟨rfl, rfl, rfl, rfl, rfl, rfl, fun _ => ⟨rfl, fun _ => rfl⟩, [], by simp⟩
        exact holds_refreshEndpoint (h.beside hbeside) fun _ => hup
      | false => exact holds_unready h

theorem holds_received (h : Holds r) (hup : r.up ≠ none) : Holds (r.received fresh data) := by
  unfold received
  split
  · exact h
  · exact (holds_deliver h hup).beside beside_broadcast

theorem holds_dispose (h : Holds r) : Holds r.dispose := by
  obtain ⟨h', hturn⟩ := @holds_setUpstream r none false h
  have hnone : (r.setUpstream none false).endpoint = none := by
    by_cases hup : r.up = none
    · have hstay : r.setUpstream none false = r := by rw [setUpstream, if_pos hup]
      rw [hstay]
      cases hendpoint : r.endpoint with
      | none => rfl
      | some i => exact absurd hup (h.place i hendpoint).2.1
    · exact hturn hup
  refine ⟨h'.accounts, h'.current, fun i hi => absurd (hi.symm.trans hnone) (by simp), h'.counter, h'.counters,
    fun hregister => ?_, h'.shared, h'.made, h'.spoken, h'.numbers, h'.sealing⟩
  cases hregister

theorem holds_step {e : Event} (h : Tracks r ∧ Holds r) (hs : r.step S e = some r') : Holds r' := by
  obtain ⟨htracks, h⟩ := h
  have hready : r.ready = true → r.up ≠ none := by
    intro hready hup
    rw [htracks.quiet hup] at hready
    cases hready
  have hquiet : ∀ {r' : Route}, r'.endpoint = r.endpoint → r'.endpoints = r.endpoints → r'.identity = r.identity →
      r'.counter = r.counter → r'.counters = r.counters → r'.register = r.register → r'.up = r.up →
      r'.ready = r.ready → r'.sent = r.sent → Holds r' := by
    intro r' h₁ h₂ h₃ h₄ h₅ h₆ h₇ h₈ h₉
    exact h.beside ⟨h₁, h₂, h₃, h₄, h₅, h₆, fun _ => ⟨h₇, fun hr => h₈.trans hr⟩, [], by simp [h₉]⟩
  cases e with
  | enable fresh =>
    obtain rfl := Option.some.inj hs
    exact holds_reauthenticate h hready true
  | reauthenticate fresh =>
    obtain rfl := Option.some.inj hs
    exact holds_reauthenticate h hready r.register
  | setUpstream channel channelOpen =>
    obtain rfl := Option.some.inj hs
    exact (holds_setUpstream h).1
  | opened up =>
    obtain ⟨-, hs⟩ := Option.ite_none_right_eq_some.1 hs
    obtain rfl := Option.some.inj hs
    exact h.beside (beside_sendUp rfl)
  | lost up =>
    obtain ⟨-, hs⟩ := Option.ite_none_right_eq_some.1 hs
    obtain rfl := Option.some.inj hs
    exact (holds_unready h).beside beside_broadcast
  | received up fresh data =>
    obtain ⟨hup, hs⟩ := Option.ite_none_right_eq_some.1 hs
    obtain rfl := Option.some.inj hs
    exact holds_received h (by simp [hup])
  | attachChild channel channelOpen =>
    obtain ⟨-, hs⟩ := Option.ite_none_left_eq_some.1 hs
    obtain rfl := Option.some.inj hs
    cases channelOpen <;> exact hquiet rfl rfl rfl rfl rfl rfl rfl rfl rfl
  | connectionLost channel =>
    obtain rfl := Option.some.inj hs
    exact h.beside (beside_loseChild false)
  | childOpened channel =>
    obtain ⟨-, hs⟩ := Option.ite_none_right_eq_some.1 hs
    obtain rfl := Option.some.inj hs
    exact hquiet rfl rfl rfl rfl rfl rfl rfl rfl rfl
  | childMessage channel data =>
    obtain rfl := Option.some.inj hs
    exact h.beside beside_childMessage
  | childClosed channel =>
    obtain rfl := Option.some.inj hs
    exact h.beside (beside_loseChild true)
  | dispose =>
    obtain rfl := Option.some.inj hs
    exact holds_dispose h
  | send i data =>
    obtain ⟨e, hi, rfl⟩ := Option.map_eq_some_iff.1 hs
    exact h.emits hi (h.accounts i e hi).send Endpoint.emits_send
  | close i =>
    obtain ⟨e, hi, rfl⟩ := Option.map_eq_some_iff.1 hs
    exact h.emits hi (h.accounts i e hi).close Endpoint.emits_close
  | beginSeal i nonce =>
    obtain ⟨e, hi, hs⟩ := Option.bind_eq_some_iff.1 hs
    obtain ⟨sent, hsent, hs⟩ := Option.bind_eq_some_iff.1 hs
    obtain ⟨out, hout, rfl⟩ := Option.map_eq_some_iff.1 hs
    exact holds_beginSeal h hi hsent hout
  | endSeal i =>
    obtain ⟨e, hi, hs⟩ := Option.bind_eq_some_iff.1 hs
    obtain ⟨out, hout, rfl⟩ := Option.map_eq_some_iff.1 hs
    exact h.emits hi ((h.accounts i e hi).endSeal hout) (Endpoint.emits_endSeal hout)
  | beginOpen i =>
    obtain ⟨e, hi, hs⟩ := Option.bind_eq_some_iff.1 hs
    obtain ⟨e', hout, rfl⟩ := Option.map_eq_some_iff.1 hs
    exact h.emits hi ((h.accounts i e hi).beginOpen hout) (Endpoint.emits_beginOpen hout)
  | endOpen i =>
    obtain ⟨e, hi, hs⟩ := Option.bind_eq_some_iff.1 hs
    obtain ⟨e', hout, rfl⟩ := Option.map_eq_some_iff.1 hs
    exact h.emits hi ((h.accounts i e hi).endOpen hout) (Endpoint.emits_endOpen hout)

end Route

end Piik.Client.InputRoute
