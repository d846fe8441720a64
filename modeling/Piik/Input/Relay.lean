/-
  The input relay of the media edges (`media/inputroute/relay.go`).  A relay
  passes the packets of its children on to its parent and remembers, for each
  child, the endpoints and epochs that it has passed on and not closed: when the
  child is lost, the relay closes them in its place.  The relay of the Host has
  no parent and hands the packets to the input manager.

  A step is one critical section of `mu`, or the call of the manager that
  follows one.  A section that ends by losing a child is two steps, as the
  source unlocks in between.
-/
import Piik.Lib.PairSet
import Piik.Lib.Steps

namespace Piik.InputRoute

/-- `MaxPacket` -/
def maxPacket : ℕ := 6144

/-- The most epochs that a child may leave open. -/
def maxTrackedEpochs : ℕ := 128

/-- The endpoints of one child. -/
def maxEndpoints : ℕ := 20

/-- A packet that was decoded. -/
structure Packet where
  id : String := ""
  epoch : String := ""
  data : String := ""
  closed : Bool := false
  ready : Option Bool := none
  deriving DecidableEq

/-- A message of a channel, with what `json.Unmarshal` finds in it. -/
structure Message where
  isString : Bool := true
  size : ℕ
  packet : Option Packet
  deriving DecidableEq

/-- `decode` -/
def decode (message : Message) : Option Packet :=
  if !message.isString || message.size > maxPacket then none
  else message.packet.filter fun p =>
    p.ready.isSome || p.id.utf8ByteSize = 32 && p.epoch.utf8ByteSize = 32 && (p.closed || p.data ≠ "")

/-- `leg`; every leg that is made has a number of its own. -/
structure Leg where
  ref : ℕ
  channel : ℕ
  endpoints : PairSet String String

/-- A packet that goes up, and the leg it was read from. -/
structure Sent where
  leg : ℕ
  packet : Packet
  deriving DecidableEq

/-- The id and the epoch that a packet is about. -/
def Sent.pair (e : Sent) : String × String := (e.packet.id, e.packet.epoch)

/-- A call of `receive` that is due. -/
structure Reading where
  edge : String
  leg : ℕ
  packet : Packet
  /-- The call is given `current`. -/
  fenced : Bool
  deriving DecidableEq

/-- The state of a relay, with what it sent and received so far. -/
structure Relay where
  /-- `receive` is set. -/
  root : Bool
  up : Option ℕ := none
  down : OMap String Leg := .empty
  ready : Bool := root
  closed : Bool := false
  /-- The legs that were made. -/
  made : ℕ := 0
  /-- The legs that `ResetDown` has retired. -/
  reset : List ℕ := []
  /-- What is handed to `send` for the parent, or to the manager. -/
  forwarded : List Sent := []
  reading : List Reading := []
  /-- The calls of `receive`, with what `current` said. -/
  received : List (Reading × Bool) := []
  /-- What is sent to the channels of the children. -/
  sentDown : List (ℕ × Packet) := []

namespace Relay

/-- The packet goes to the parent, or to the manager once the mutex is free. -/
def forward (r : Relay) (edge : String) (leg : ℕ) (fenced : Bool) (p : Packet) : Relay :=
  { r with forwarded := r.forwarded ++ [⟨leg, p⟩]
           reading := if r.root then r.reading ++ [⟨edge, leg, p, fenced⟩] else r.reading }

/-- A packet for a child. -/
def send (r : Relay) (channel : ℕ) (p : Packet) : Relay :=
  { r with sentDown := r.sentDown ++ [(channel, p)] }

/-- A packet for every child. -/
def broadcast (r : Relay) (p : Packet) : Relay :=
  { r with sentDown := r.sentDown ++ r.down.values.map fun child => (child.channel, p) }

/-- The upstream's channel, the first with the label. -/
def attachUp (r : Relay) (channel : ℕ) (labelled : Bool) : Relay :=
  if r.closed || r.up.isSome || !labelled then r else { r with up := some channel }

/-- A packet of the upstream: its readiness is kept, and every child gets it. -/
def upMessage (r : Relay) (channel : ℕ) (p : Packet) : Relay :=
  if r.closed || r.up ≠ some channel then r
  else
    let r := match p.ready with
      | some ready => if p.id = "" then { r with ready } else r
      | none => r
    r.broadcast p

/-- The upstream is gone for now. -/
def setUpAvailable (r : Relay) (available : Bool) : Relay :=
  if available then r
  else { r with ready := false }.broadcast { ready := some false }

/-- `AttachDown`, once no old leg is in the way. -/
def attachDown (r : Relay) (edge : String) (channel : ℕ) : Relay :=
  if r.closed || r.down.has edge then r
  else { r with down := r.down.set edge ⟨r.made, channel, .empty⟩, made := r.made + 1 }

/-- What is remembered of a child. -/
def setEndpoints (r : Relay) (edge : String) (child : Leg) (endpoints : PairSet String String) : Relay :=
  { r with down := r.down.set edge { child with endpoints } }

/-- A packet of a child. A child that names too many epochs is lost next. -/
def downMessage (r : Relay) (edge : String) (channel : ℕ) (p : Packet) : Relay :=
  match r.down.get edge with
  | none => r
  | some child =>
    if r.closed || child.channel ≠ channel then r
    else if p.ready.isSome then r.send channel { ready := some r.ready }
    else if !r.ready then r
    else if p.closed then
      (r.setEndpoints edge child (child.endpoints.erase p.id p.epoch)).forward edge child.ref true p
    else if !child.endpoints.hasGroup p.id && child.endpoints.len ≥ maxEndpoints then r
    else if child.endpoints.has p.id p.epoch then r.forward edge child.ref true p
    else if child.endpoints.count ≥ maxTrackedEpochs then r
    else (r.setEndpoints edge child (child.endpoints.insert p.id p.epoch)).forward edge child.ref true p

/-- Close what a child left open. -/
def resetDown (r : Relay) (edge : String) (channel : ℕ) : Relay :=
  match r.down.get edge with
  | none => r
  | some child =>
    if r.closed || child.channel ≠ channel then r
    else { r with down := r.down.set edge ⟨r.made, channel, .empty⟩, made := r.made + 1
                  reset := r.reset ++ [child.ref] }

/-- The packet that closes an epoch of a child. -/
def closedPacket (pair : String × String) : Packet :=
  { id := pair.1, epoch := pair.2, closed := true }

/-- The edge loses its leg, or keeps the channel under a new one. -/
def dropLeg (r : Relay) (edge : String) (channel : ℕ) (remove : Bool) : Relay :=
  if remove then { r with down := r.down.delete edge }
  else { r with down := r.down.set edge ⟨r.made, channel, .empty⟩, made := r.made + 1 }

/-- `loseDown`; the order is that of the maps. -/
def loseDown (r : Relay) (edge : String) (channel : ℕ) (remove : Bool) (order : List (String × String)) :
    Option Relay :=
  match r.down.get edge with
  | none => some r
  | some child =>
    if child.channel ≠ channel then some r
    else if order.Perm child.endpoints.pairs then
      some ((order.map closedPacket).foldl (fun r p => r.forward edge child.ref false p)
        (r.dropLeg edge channel remove))
    else none

/-- `current`, for a channel that is open or not. -/
def current (r : Relay) (reading : Reading) (channelOpen : Bool) : Bool :=
  !reading.fenced ||
    !r.closed && (r.down.get reading.edge).any (fun child => child.ref = reading.leg) && channelOpen

/-- A packet that was read arrives, and whether its child still has the same leg. -/
def receive (r : Relay) (i : ℕ) (channelOpen : Bool) : Option Relay :=
  r.reading[i]?.map fun reading =>
    { r with reading := r.reading.eraseIdx i
             received := r.received ++ [(reading, r.current reading channelOpen)] }

/-- What happens to a relay. -/
inductive Event
  | attachUp (channel : ℕ) (labelled : Bool)
  | upMessage (channel : ℕ) (message : Message)
  | setUpAvailable (available : Bool)
  | attachDown (edge : String) (channel : ℕ)
  | downMessage (edge : String) (channel : ℕ) (message : Message)
  | resetDown (edge : String) (channel : ℕ)
  | loseDown (edge : String) (channel : ℕ) (remove : Bool) (order : List (String × String))
  | reply (p : Packet)
  | close
  | receive (i : ℕ) (channelOpen : Bool)

/-- One event. `none` is an event that cannot happen now. -/
def step (r : Relay) : Event → Option Relay
  | .attachUp channel labelled => some (r.attachUp channel labelled)
  | .upMessage channel message =>
    some ((decode message).elim r fun p => r.upMessage channel p)
  | .setUpAvailable available => some (r.setUpAvailable available)
  | .attachDown edge channel => some (r.attachDown edge channel)
  | .downMessage edge channel message =>
    some ((decode message).elim r fun p => r.downMessage edge channel p)
  | .resetDown edge channel => some (r.resetDown edge channel)
  | .loseDown edge channel remove order => r.loseDown edge channel remove order
  | .reply p => some (if r.closed then r else r.broadcast p)
  | .close => some { r with closed := true }
  | .receive i channelOpen => r.receive i channelOpen

/-! ## What a leg has passed on -/

/-- The packets of a leg: each opens or closes its pair. -/
def log (r : Relay) (ref : ℕ) : List ((String × String) × Bool) :=
  (r.forwarded.filter (·.leg = ref)).map fun e => (e.pair, !e.packet.closed)

/-- The leg is in place. -/
def IsLive (r : Relay) (ref : ℕ) : Prop := ∃ edge child, r.down.get edge = some child ∧ child.ref = ref

/-- The relay remembers just what its children left open at the upstream. -/
structure Tracks (r : Relay) : Prop where
  made : ∀ ref, r.IsLive ref → ref < r.made
  once : ∀ edge edge' child child', r.down.get edge = some child → r.down.get edge' = some child' →
    child.ref = child'.ref → edge = edge'
  ahead : ∀ e ∈ r.forwarded, e.leg < r.made
  /-- A leg remembers the pairs it has passed on and not closed. -/
  tracked : ∀ edge child id epoch, r.down.get edge = some child →
    child.endpoints.has id epoch = Log.isOpen (r.log child.ref) (id, epoch)
  bounded : ∀ edge child, r.down.get edge = some child →
    child.endpoints.len ≤ maxEndpoints ∧ child.endpoints.count ≤ maxTrackedEpochs
  /-- A leg that is gone has closed everything, unless the manager has reset it. -/
  lost : ∀ ref < r.made, ¬r.IsLive ref → ref ∉ r.reset → ∀ pair, Log.isOpen (r.log ref) pair = false

variable {r r' : Relay} {es es' : List Event} {edge : String} {channel ref : ℕ} {child : Leg} {p : Packet}

theorem tracks_init (root : Bool) : Tracks { root } where
  made := by
    rintro ref ⟨edge, child, hget, -⟩
    cases hget
  once := by
    intro edge edge' child child' hget
    cases hget
  ahead := by simp
  tracked := by
    intro edge child id epoch hget
    cases hget
  bounded := by
    intro edge child hget
    cases hget
  lost := by simp

/-- What does not touch the legs and sends nothing up. -/
theorem Tracks.quiet (h : Tracks r) (hdown : r'.down = r.down) (hforwarded : r'.forwarded = r.forwarded)
    (hmade : r'.made = r.made) (hreset : r'.reset = r.reset) : Tracks r' := by
  have hlog : ∀ ref, r'.log ref = r.log ref := by
    intro ref
    rw [log, log, hforwarded]
  have hlive : ∀ ref, r'.IsLive ref ↔ r.IsLive ref := by
    intro ref
    rw [IsLive, IsLive, hdown]
  constructor
  · intro ref
    rw [hlive, hmade]
    exact h.made ref
  · rw [hdown]
    exact h.once
  · rw [hforwarded, hmade]
    exact h.ahead
  · rw [hdown]
    intro edge child id epoch hget
    rw [hlog]
    exact h.tracked edge child id epoch hget
  · rw [hdown]
    exact h.bounded
  · intro ref
    rw [hmade, hlive, hreset, hlog]
    exact h.lost ref

theorem log_append {l : List Sent} (hforwarded : r'.forwarded = r.forwarded ++ l) (ref : ℕ) :
    r'.log ref = r.log ref ++ (l.filter (·.leg = ref)).map fun e => (e.pair, !e.packet.closed) := by
  rw [log, log, hforwarded, List.filter_append, List.map_append]

/-- A leg takes the packet that it passes on. -/
theorem Tracks.passes (h : Tracks r) (hchild : r.down.get edge = some child)
    {endpoints : PairSet String String} (hlen : endpoints.len ≤ maxEndpoints)
    (hcount : endpoints.count ≤ maxTrackedEpochs)
    (hhas : ∀ id epoch, endpoints.has id epoch =
      if (p.id, p.epoch) = (id, epoch) then !p.closed else child.endpoints.has id epoch)
    (hget : ∀ e, r'.down.get e = if e = edge then some { child with endpoints } else r.down.get e)
    (hforwarded : r'.forwarded = r.forwarded ++ [⟨child.ref, p⟩]) (hmade : r'.made = r.made)
    (hreset : r'.reset = r.reset) : Tracks r' := by
  have hlive : ∀ ref, r'.IsLive ref ↔ r.IsLive ref := by
    intro ref
    constructor
    · rintro ⟨e, child', he, rfl⟩
      rw [hget] at he
      split at he
      · cases he
        exact ⟨edge, child, hchild, rfl⟩
      · exact ⟨e, child', he, rfl⟩
    · rintro ⟨e, child', he, rfl⟩
      by_cases heq : e = edge
      · obtain rfl := Option.some.inj (hchild.symm.trans (heq ▸ he))
        exact ⟨edge, { child with endpoints }, by rw [hget, if_pos rfl], rfl⟩
      · exact ⟨e, child', by rw [hget, if_neg heq, he], rfl⟩
  have hlog := log_append hforwarded
  have hother : ∀ ref, ref ≠ child.ref → r'.log ref = r.log ref := by
    intro ref hne
    rw [hlog]
    simp [Ne.symm hne]
  constructor
  · intro ref
    rw [hlive, hmade]
    exact h.made ref
  · intro e e' c c' he he' heq
    rw [hget] at he he'
    split at he <;> split at he'
    · next h₁ h₂ => rw [h₁, h₂]
    · next h₁ _ =>
      cases he
      exact h₁.trans (h.once _ _ _ _ hchild he' heq)
    · next _ h₂ =>
      cases he'
      exact (h.once _ _ _ _ he hchild heq).trans h₂.symm
    · exact h.once _ _ _ _ he he' heq
  · intro e he
    rw [hforwarded] at he
    rw [hmade]
    rcases List.mem_append.1 he with he | he
    · exact h.ahead e he
    · rw [List.mem_singleton.1 he]
      exact h.made _ ⟨edge, child, hchild, rfl⟩
  · intro e c id epoch he
    rw [hget] at he
    split at he
    · cases he
      rw [hhas, hlog, h.tracked edge child id epoch hchild]
      simp [Sent.pair]
    · next hne =>
      have href : c.ref ≠ child.ref := fun heq => hne (h.once _ _ _ _ he hchild heq)
      rw [hother _ href]
      exact h.tracked e c id epoch he
  · intro e c he
    rw [hget] at he
    split at he
    · cases he
      exact ⟨hlen, hcount⟩
    · exact h.bounded e c he
  · intro ref hlt hnot hreset'
    rw [hlive] at hnot
    rw [hmade] at hlt
    rw [hreset] at hreset'
    have href : ref ≠ child.ref := by
      rintro rfl
      exact hnot ⟨edge, child, hchild, rfl⟩
    rw [hother ref href]
    exact h.lost ref hlt hnot hreset'

/-- An edge loses its leg, having closed what it remembers, or gets a new one. -/
theorem Tracks.replace (h : Tracks r) (edge : String) (leg : Option Leg) (closes : List Sent)
    (hget : ∀ e, r'.down.get e = if e = edge then leg else r.down.get e)
    (hnew : ∀ child ∈ leg, child.ref = r.made ∧ child.endpoints = .empty)
    (hmade : r'.made = if leg.isSome then r.made + 1 else r.made)
    (hforwarded : r'.forwarded = r.forwarded ++ closes)
    (hcloses : ∀ e ∈ closes, ∃ child, r.down.get edge = some child ∧ e.leg = child.ref)
    (hreset : ∀ ref ∈ r.reset, ref ∈ r'.reset)
    (hold : ∀ child, r.down.get edge = some child →
      child.ref ∈ r'.reset ∨ ∀ pair, Log.isOpen (r'.log child.ref) pair = false) : Tracks r' := by
  have hle : r.made ≤ r'.made := by
    rw [hmade]
    split <;> omega
  have hlog := log_append hforwarded
  have hother : ∀ ref, (∀ child, r.down.get edge = some child → child.ref ≠ ref) →
      r'.log ref = r.log ref := by
    intro ref hne
    have hnone : closes.filter (·.leg = ref) = [] := by
      refine List.filter_eq_nil_iff.2 fun e he => ?_
      obtain ⟨child, hchild, hleg⟩ := hcloses e he
      simpa [hleg] using hne child hchild
    rw [hlog, hnone]
    simp
  have hfresh : ∀ ref, (∃ e child, r.down.get e = some child ∧ child.ref = ref) → ref ≠ r.made := by
    rintro ref hlive rfl
    exact absurd (h.made _ hlive) (lt_irrefl _)
  constructor
  · rintro ref ⟨e, child, he, rfl⟩
    rw [hget] at he
    split at he
    · subst he
      rw [(hnew child rfl).1, hmade]
      simp
    · exact lt_of_lt_of_le (h.made _ ⟨e, child, he, rfl⟩) hle
  · intro e e' child child' he he' heq
    rw [hget] at he he'
    split at he <;> split at he'
    · next h₁ h₂ => rw [h₁, h₂]
    · subst he
      rw [(hnew child rfl).1] at heq
      exact absurd heq.symm (hfresh _ ⟨e', child', he', rfl⟩)
    · subst he'
      rw [(hnew child' rfl).1] at heq
      exact absurd heq (hfresh _ ⟨e, child, he, rfl⟩)
    · exact h.once _ _ _ _ he he' heq
  · intro e he
    rw [hforwarded] at he
    rcases List.mem_append.1 he with he | he
    · exact lt_of_lt_of_le (h.ahead e he) hle
    · obtain ⟨child, hchild, hleg⟩ := hcloses e he
      rw [hleg]
      exact lt_of_lt_of_le (h.made _ ⟨edge, child, hchild, rfl⟩) hle
  · intro e child id epoch he
    rw [hget] at he
    split at he
    · subst he
      have hempty : r.log r.made = [] := by
        rw [log, List.map_eq_nil_iff, List.filter_eq_nil_iff]
        intro e he
        have := h.ahead e he
        simp only [decide_eq_true_eq]
        omega
      rw [(hnew child rfl).2, (hnew child rfl).1, hother, hempty]
      · rfl
      · intro child' hchild'
        exact hfresh _ ⟨edge, child', hchild', rfl⟩
    · next hne =>
      rw [hother]
      · exact h.tracked e child id epoch he
      · intro child' hchild' heq
        exact hne (h.once _ _ _ _ he hchild' heq.symm)
  · intro e child he
    rw [hget] at he
    split at he
    · subst he
      rw [(hnew child rfl).2]
      exact ⟨Nat.zero_le _, Nat.zero_le _⟩
    · exact h.bounded e child he
  · intro ref hlt hnot hreset' pair
    have hlt' : ref < r.made := by
      rw [hmade] at hlt
      cases hleg : leg with
      | none => simpa [hleg] using hlt
      | some child =>
        by_contra hge
        have heq : ref = r.made := by
          simp only [hleg, Option.isSome_some, if_true] at hlt
          omega
        refine hnot ⟨edge, child, by rw [hget, if_pos rfl, hleg], ?_⟩
        rw [heq]
        exact (hnew child hleg).1
    by_cases hwas : ∃ child, r.down.get edge = some child ∧ child.ref = ref
    · obtain ⟨child, hchild, rfl⟩ := hwas
      rcases hold child hchild with hmem | hclosed
      · exact absurd hmem hreset'
      · exact hclosed pair
    · have hne : ∀ child, r.down.get edge = some child → child.ref ≠ ref :=
        fun child hchild heq => hwas ⟨child, hchild, heq⟩
      rw [hother ref hne]
      refine h.lost ref hlt' ?_ (fun hmem => hreset' (hreset ref hmem)) pair
      rintro ⟨e, child, he, heq⟩
      by_cases hedge : e = edge
      · exact hne child (hedge ▸ he) heq
      · exact hnot ⟨e, child, by rw [hget, if_neg hedge, he], heq⟩

theorem Tracks.downMessage (h : Tracks r) : Tracks (r.downMessage edge channel p) := by
  unfold Relay.downMessage
  split
  · exact h
  next child hchild =>
    have hbounded := h.bounded edge child hchild
    have hset : ∀ endpoints e, (r.setEndpoints edge child endpoints).down.get e =
        if e = edge then some { child with endpoints } else r.down.get e := by
      intro endpoints e
      simp [setEndpoints]
    split_ifs with hother hready hnot hclosed hfull hknown hmany
    · exact h
    · exact h.quiet rfl rfl rfl rfl
    · exact h
    · refine h.passes hchild (PairSet.len_erase_le.trans hbounded.1)
        (PairSet.count_erase_le.trans hbounded.2) (fun id epoch => ?_) (hset _) rfl rfl rfl
      rw [Bool.eq_iff_iff, PairSet.has_erase]
      split
      · next heq =>
        obtain ⟨rfl, rfl⟩ := Prod.mk.inj heq
        simp [hclosed]
      · next hne =>
        have hne' : ¬(id = p.id ∧ epoch = p.epoch) := fun heq => hne (by rw [heq.1, heq.2])
        simp [hne']
    · exact h
    · refine h.passes hchild hbounded.1 hbounded.2 (fun id epoch => ?_) (fun e => ?_) rfl rfl rfl
      · split
        · next heq =>
          obtain ⟨rfl, rfl⟩ := Prod.mk.inj heq
          simp [hknown, hclosed]
        · rfl
      · by_cases heq : e = edge
        · rw [if_pos heq, heq]
          exact hchild
        · rw [if_neg heq]
          rfl
    · exact h
    · rw [Bool.not_eq_true] at hknown
      refine h.passes hchild ?_ ?_ (fun id epoch => ?_) (hset _) rfl rfl rfl
      · rw [PairSet.len_insert]
        split
        · exact hbounded.1
        · next hnew =>
          simp only [Bool.and_eq_true, Bool.not_eq_true', decide_eq_true_eq, not_and] at hfull
          have := hfull (Bool.not_eq_true _ ▸ hnew)
          omega
      · rw [PairSet.count_insert hknown]
        omega
      · rw [Bool.eq_iff_iff, PairSet.has_insert]
        split
        · next heq =>
          obtain ⟨rfl, rfl⟩ := Prod.mk.inj heq
          simp [hclosed]
        · next hne =>
          have hne' : ¬(id = p.id ∧ epoch = p.epoch) := fun heq => hne (by rw [heq.1, heq.2])
          simp [hne']

/-- Packets that go up one after another. -/
theorem foldl_forward (l : List Packet) (ref : ℕ) :
    let r' := l.foldl (fun r p => r.forward edge ref false p) r
    r'.down = r.down ∧ r'.made = r.made ∧ r'.reset = r.reset ∧ r'.closed = r.closed ∧
      r'.received = r.received ∧ r'.forwarded = r.forwarded ++ l.map fun p => ⟨ref, p⟩ := by
  induction l generalizing r with
  | nil => simp
  | cons p l ih =>
    obtain ⟨hdown, hmade, hreset, hclosed, hreceived, hforwarded⟩ := @ih (r.forward edge ref false p)
    refine ⟨hdown, hmade, hreset, hclosed, hreceived, hforwarded.trans ?_⟩
    simp [forward]

/-- What the loss of a leg sends: a close for every pair it has open, and for no other. -/
theorem loseDown_forwarded {remove : Bool} {order : List (String × String)}
    (hchild : r.down.get edge = some child) (hchannel : child.channel = channel)
    (hs : r.loseDown edge channel remove order = some r') :
    order.Perm child.endpoints.pairs ∧
      r'.forwarded = r.forwarded ++ order.map fun pair => ⟨child.ref, closedPacket pair⟩ := by
  unfold loseDown at hs
  rw [hchild] at hs
  dsimp only at hs
  rw [if_neg (not_not.2 hchannel)] at hs
  obtain ⟨hperm, hs⟩ := Option.ite_none_right_eq_some.1 hs
  obtain rfl := Option.some.inj hs
  refine ⟨hperm, ?_⟩
  rw [(foldl_forward _ _).2.2.2.2.2, List.map_map]
  cases remove <;> rfl

theorem Tracks.loseDown {remove : Bool} {order : List (String × String)} (h : Tracks r)
    (hs : r.loseDown edge channel remove order = some r') : Tracks r' := by
  unfold Relay.loseDown at hs
  split at hs
  · obtain rfl := Option.some.inj hs
    exact h
  next child hchild =>
    split at hs
    · obtain rfl := Option.some.inj hs
      exact h
    · obtain ⟨hperm, hs⟩ := Option.ite_none_right_eq_some.1 hs
      obtain rfl := Option.some.inj hs
      -- Everything that was open is closed by one packet of the order.
      have hclosed : ∀ r' : Relay, r'.forwarded = r.forwarded ++
          (order.map closedPacket).map (fun p => ⟨child.ref, p⟩) →
          ∀ pair, Log.isOpen (r'.log child.ref) pair = false := by
        intro r' hforwarded pair
        obtain ⟨id, epoch⟩ := pair
        have hlog : r'.log child.ref = r.log child.ref ++ order.map fun k => (k, false) := by
          have hall : ∀ e ∈ (order.map closedPacket).map (fun p => (⟨child.ref, p⟩ : Sent)),
              decide (e.leg = child.ref) = true := by
            intro e he
            obtain ⟨p, -, rfl⟩ := List.mem_map.1 he
            simp
          rw [log_append hforwarded, List.filter_eq_self.2 hall]
          simp [Sent.pair, closedPacket, Function.comp_def]
        rw [hlog, Log.isOpen_closes, ← h.tracked edge child id epoch hchild]
        by_cases hmem : (id, epoch) ∈ order
        · simp [hmem]
        · have hnot : child.endpoints.has id epoch = false := by
            rw [← Bool.not_eq_true, PairSet.has_iff, ← hperm.mem_iff]
            exact hmem
          simp [hnot]
      have hcloses : ∀ e ∈ (order.map closedPacket).map (fun p => (⟨child.ref, p⟩ : Sent)),
          ∃ child, r.down.get edge = some child ∧ e.leg = child.ref := by
        intro e he
        obtain ⟨p, -, rfl⟩ := List.mem_map.1 he
        exact ⟨child, hchild, rfl⟩
      obtain ⟨hdown, hmade, hreset, -, -, hforwarded⟩ :=
        @foldl_forward (r.dropLeg edge channel remove) edge (order.map closedPacket) child.ref
      have hold : ∀ (reset : List ℕ) child', r.down.get edge = some child' → child'.ref ∈ reset ∨
          ∀ pair, Log.isOpen (((order.map closedPacket).foldl (fun r p => r.forward edge child.ref false p)
            (r.dropLeg edge channel remove)).log child'.ref) pair = false := by
        intro reset child' hchild'
        obtain rfl := Option.some.inj (hchild.symm.trans hchild')
        refine .inr (hclosed _ (hforwarded.trans ?_))
        cases remove <;> rfl
      cases remove with
      | true =>
        refine h.replace edge none _ (fun e => ?_) (by simp) hmade hforwarded hcloses (fun ref href => ?_)
          (hold _)
        · rw [hdown]
          exact OMap.get_delete r.down edge e
        · rw [hreset]
          exact href
      | false =>
        refine h.replace edge (some ⟨r.made, channel, .empty⟩) _ (fun e => ?_) ?_ hmade hforwarded hcloses
          (fun ref href => ?_) (hold _)
        · rw [hdown]
          exact OMap.get_set r.down edge e _
        · rintro child' ⟨⟩
          exact ⟨rfl, rfl⟩
        · rw [hreset]
          exact href

theorem Tracks.attachDown (h : Tracks r) : Tracks (r.attachDown edge channel) := by
  unfold Relay.attachDown
  split
  · exact h
  · next hfree =>
    simp only [Bool.or_eq_true, not_or, Bool.not_eq_true, OMap.has, Option.isSome_eq_false_iff,
      Option.isNone_iff_eq_none] at hfree
    refine h.replace edge (some ⟨r.made, channel, .empty⟩) [] (fun e => ?_) ?_ rfl
      (by simp) (by simp) (fun _ => id) ?_
    · exact OMap.get_set r.down edge e _
    · rintro child ⟨⟩
      exact ⟨rfl, rfl⟩
    · intro child hchild
      rw [hfree.2] at hchild
      cases hchild

theorem Tracks.resetDown (h : Tracks r) : Tracks (r.resetDown edge channel) := by
  unfold Relay.resetDown
  split
  · exact h
  next child hchild =>
    split
    · exact h
    · refine h.replace edge (some ⟨r.made, channel, .empty⟩) [] (fun e => ?_) ?_ rfl
        (by simp) (by simp) (fun ref href => List.mem_append_left _ href) ?_
      · exact OMap.get_set r.down edge e _
      · rintro child' ⟨⟩
        exact ⟨rfl, rfl⟩
      · intro child' hchild'
        obtain rfl := Option.some.inj (hchild.symm.trans hchild')
        exact .inl (List.mem_append_right _ (List.mem_singleton_self _))

theorem tracks_step {e : Event} (h : Tracks r) (hs : r.step e = some r') : Tracks r' := by
  cases e with
  | attachUp channel labelled =>
    obtain rfl := Option.some.inj hs
    unfold attachUp
    split
    · exact h
    · exact h.quiet rfl rfl rfl rfl
  | upMessage channel message =>
    obtain rfl := Option.some.inj hs
    cases decode message with
    | none => exact h
    | some p =>
      show Tracks (r.upMessage channel p)
      unfold upMessage
      split
      · exact h
      · dsimp only
        split
        · split <;> exact h.quiet rfl rfl rfl rfl
        · exact h.quiet rfl rfl rfl rfl
  | setUpAvailable available =>
    obtain rfl := Option.some.inj hs
    unfold setUpAvailable
    split
    · exact h
    · exact h.quiet rfl rfl rfl rfl
  | attachDown edge channel =>
    obtain rfl := Option.some.inj hs
    exact h.attachDown
  | downMessage edge channel message =>
    obtain rfl := Option.some.inj hs
    cases decode message with
    | none => exact h
    | some p => exact h.downMessage
  | resetDown edge channel =>
    obtain rfl := Option.some.inj hs
    exact h.resetDown
  | loseDown edge channel remove order => exact h.loseDown hs
  | reply p =>
    obtain rfl := Option.some.inj hs
    split
    · exact h
    · exact h.quiet rfl rfl rfl rfl
  | close =>
    obtain rfl := Option.some.inj hs
    exact h.quiet rfl rfl rfl rfl
  | receive i channelOpen =>
    obtain ⟨reading, -, rfl⟩ := Option.map_eq_some_iff.1 hs
    exact h.quiet rfl rfl rfl rfl

theorem reaches_tracks {root : Bool} (h : Steps.Reaches step { root } es r) : Tracks r :=
  h.invariant (tracks_init root) tracks_step

/-- **A relay closes what it has passed on.**  Each leg remembers exactly the pairs that it has
    passed on and not closed, within the bounds; a leg that is lost closes each of them once and
    nothing else; and what is gone has nothing open, unless the manager reset it. -/
theorem relay_tracks {root : Bool} (h : Steps.Reaches step { root } es r) :
    Tracks r ∧
    ∀ edge child remove order r', r.down.get edge = some child →
      r.step (.loseDown edge child.channel remove order) = some r' →
      ∃ closes : List (String × String), closes.Nodup ∧
        r'.forwarded = r.forwarded ++ closes.map (fun pair => ⟨child.ref, closedPacket pair⟩) ∧
        ∀ pair, pair ∈ closes ↔ Log.isOpen (r.log child.ref) pair = true := by
  have htracks := reaches_tracks h
  refine ⟨htracks, fun edge child remove order r' hchild hs => ?_⟩
  obtain ⟨hperm, hforwarded⟩ := loseDown_forwarded hchild rfl hs
  refine ⟨order, hperm.nodup_iff.2 (PairSet.nodup_pairs _), hforwarded, fun ⟨id, epoch⟩ => ?_⟩
  rw [hperm.mem_iff, ← PairSet.has_iff, htracks.tracked edge child id epoch hchild]

/-- One pair is opened and its child is lost. -/
theorem relay_tracks_lost :
    let id := "00112233445566778899aabbccddeeff"
    let es : List Event := [.attachUp 0 true, .upMessage 0 ⟨true, 14, some { ready := some true }⟩,
      .attachDown "a" 1, .downMessage "a" 1 ⟨true, 100, some { id, epoch := id, data := "x" }⟩]
    ∃ r r', Steps.Reaches step { root := false } es r ∧
      r.step (.loseDown "a" 1 true [(id, id)]) = some r' ∧
      ∃ child closes, r.down.get "a" = some child ∧ closes ≠ [] ∧
        r'.forwarded = r.forwarded ++ closes.map fun pair => ⟨child.ref, closedPacket pair⟩ := by
  intro id es
  have hrun : (Steps.run step { root := false } es).bind (fun r => (r.down.get "a").bind fun child =>
      (r.step (.loseDown "a" 1 true [(id, id)])).map fun _ =>
        decide (child.channel = 1 ∧ Log.isOpen (r.log child.ref) (id, id) = true)) = some true := by
    decide +kernel
  obtain ⟨r, hr, hrun⟩ := Option.bind_eq_some_iff.1 hrun
  obtain ⟨child, hchild, hrun⟩ := Option.bind_eq_some_iff.1 hrun
  obtain ⟨r', hr', hend⟩ := Option.map_eq_some_iff.1 hrun
  obtain ⟨hchannel, hopen⟩ := of_decide_eq_true hend
  have hreach := Steps.reaches_of_run hr
  obtain ⟨closes, -, hforwarded, hmem⟩ := (relay_tracks hreach).2 "a" child true [(id, id)] r' hchild
    (by rw [hchannel]; exact hr')
  exact ⟨r, r', hreach, hr', child, closes, hchild, List.ne_nil_of_mem ((hmem _).2 hopen), hforwarded⟩

/-! ## The fence of the root -/

/-- A leg that is made and gone. -/
def IsGone (r : Relay) (ref : ℕ) : Prop := ref < r.made ∧ ¬r.IsLive ref

/-- New legs only: no leg comes back. -/
structure Renews (r r' : Relay) : Prop where
  made : r.made ≤ r'.made
  live : ∀ ref, r'.IsLive ref → r.IsLive ref ∨ r.made ≤ ref

theorem Renews.of_down (hdown : r'.down = r.down) (hmade : r'.made = r.made) : Renews r r' :=
  ⟨hmade.ge, fun ref href => .inl (by rwa [IsLive, hdown] at href)⟩

theorem Renews.set {leg : Leg} (hdown : r'.down = r.down.set edge leg) (hmade : r.made ≤ r'.made)
    (hleg : r.IsLive leg.ref ∨ r.made ≤ leg.ref) : Renews r r' := by
  refine ⟨hmade, ?_⟩
  rintro ref ⟨e, child, he, rfl⟩
  rw [hdown, OMap.get_set] at he
  split at he
  · cases he
    exact hleg
  · exact .inl ⟨e, child, he, rfl⟩

theorem renews_downMessage : Renews r (r.downMessage edge channel p) := by
  unfold Relay.downMessage
  split
  · exact .of_down rfl rfl
  next child hchild =>
    have hset : ∀ endpoints, Renews r
        ((r.setEndpoints edge child endpoints).forward edge child.ref true p) := by
      intro endpoints
      exact .set rfl le_rfl (.inl ⟨edge, child, hchild, rfl⟩)
    split_ifs
    · exact .of_down rfl rfl
    · exact .of_down rfl rfl
    · exact .of_down rfl rfl
    · exact hset _
    · exact .of_down rfl rfl
    · exact .of_down rfl rfl
    · exact .of_down rfl rfl
    · exact hset _

theorem renews_loseDown {remove : Bool} {order : List (String × String)}
    (hs : r.loseDown edge channel remove order = some r') : Renews r r' := by
  unfold Relay.loseDown at hs
  split at hs
  · obtain rfl := Option.some.inj hs
    exact .of_down rfl rfl
  next child hchild =>
    split at hs
    · obtain rfl := Option.some.inj hs
      exact .of_down rfl rfl
    · obtain ⟨-, hs⟩ := Option.ite_none_right_eq_some.1 hs
      obtain rfl := Option.some.inj hs
      obtain ⟨hdown, hmade, -⟩ :=
        @foldl_forward (r.dropLeg edge channel remove) edge (order.map closedPacket) child.ref
      cases remove with
      | true =>
        refine ⟨hmade.ge, ?_⟩
        rintro ref ⟨e, child', he, rfl⟩
        rw [hdown] at he
        have he : (r.down.delete edge).get e = some child' := he
        rw [OMap.get_delete] at he
        split at he
        · cases he
        · exact .inl ⟨e, child', he, rfl⟩
      | false => exact .set hdown ((Nat.le_succ _).trans hmade.ge) (.inr le_rfl)

theorem renews_step {e : Event} (hs : r.step e = some r') : Renews r r' := by
  cases e with
  | attachUp channel labelled =>
    obtain rfl := Option.some.inj hs
    unfold attachUp
    split <;> exact .of_down rfl rfl
  | upMessage channel message =>
    obtain rfl := Option.some.inj hs
    cases decode message with
    | none => exact .of_down rfl rfl
    | some p =>
      show Renews r (r.upMessage channel p)
      unfold upMessage
      split
      · exact .of_down rfl rfl
      · dsimp only
        split
        · split <;> exact .of_down rfl rfl
        · exact .of_down rfl rfl
  | setUpAvailable available =>
    obtain rfl := Option.some.inj hs
    unfold setUpAvailable
    split <;> exact .of_down rfl rfl
  | attachDown edge channel =>
    obtain rfl := Option.some.inj hs
    unfold attachDown
    split
    · exact .of_down rfl rfl
    · exact .set rfl (Nat.le_succ _) (.inr le_rfl)
  | downMessage edge channel message =>
    obtain rfl := Option.some.inj hs
    cases decode message with
    | none => exact .of_down rfl rfl
    | some p => exact renews_downMessage
  | resetDown edge channel =>
    obtain rfl := Option.some.inj hs
    unfold resetDown
    split
    · exact .of_down rfl rfl
    · split
      · exact .of_down rfl rfl
      · exact .set rfl (Nat.le_succ _) (.inr le_rfl)
  | loseDown edge channel remove order => exact renews_loseDown hs
  | reply p =>
    obtain rfl := Option.some.inj hs
    split <;> exact .of_down rfl rfl
  | close =>
    obtain rfl := Option.some.inj hs
    exact .of_down rfl rfl
  | receive i channelOpen =>
    obtain ⟨reading, -, rfl⟩ := Option.map_eq_some_iff.1 hs
    exact .of_down rfl rfl

theorem IsGone.run {ref : ℕ} (h : r.IsGone ref) (hrun : Steps.Reaches step r es r') : r'.IsGone ref := by
  refine hrun.invariant (P := fun r => r.IsGone ref) h ?_
  rintro r₁ e r₂ ⟨hlt, hnot⟩ hs
  have hrenews := renews_step hs
  refine ⟨lt_of_lt_of_le hlt hrenews.made, fun hlive => ?_⟩
  rcases hrenews.live ref hlive with hlive | hge
  · exact hnot hlive
  · omega

theorem live_resetDown (htracks : Tracks r) (hopen : r.closed = false)
    (hchild : r.down.get edge = some child) : (r.resetDown edge child.channel).IsGone child.ref := by
  have hdown : r.resetDown edge child.channel =
      { r with down := r.down.set edge ⟨r.made, child.channel, .empty⟩, made := r.made + 1
               reset := r.reset ++ [child.ref] } := by
    simp [resetDown, hchild, hopen]
  have hlt := htracks.made _ ⟨edge, child, hchild, rfl⟩
  rw [hdown]
  refine ⟨lt_of_lt_of_le hlt (Nat.le_succ _), ?_⟩
  rintro ⟨e, child', he, heq⟩
  rw [OMap.get_set] at he
  split at he
  · cases he
    exact absurd heq hlt.ne'
  · next hne => exact hne (htracks.once _ _ _ _ he hchild heq)

theorem live_loseDown {remove : Bool} {order : List (String × String)} (htracks : Tracks r)
    (hchild : r.down.get edge = some child)
    (hs : r.loseDown edge child.channel remove order = some r') : r'.IsGone child.ref := by
  have hlt := htracks.made _ ⟨edge, child, hchild, rfl⟩
  refine ⟨lt_of_lt_of_le hlt (renews_loseDown hs).made, ?_⟩
  unfold loseDown at hs
  rw [hchild] at hs
  dsimp only at hs
  rw [if_neg (by simp)] at hs
  obtain ⟨-, hs⟩ := Option.ite_none_right_eq_some.1 hs
  obtain rfl := Option.some.inj hs
  rintro ⟨e, child', he, heq⟩
  rw [(@foldl_forward (r.dropLeg edge child.channel remove) edge (order.map closedPacket) child.ref).1] at he
  have hother : e ≠ edge → r.down.get e = some child' → False := fun hne hget =>
    hne (htracks.once _ _ _ _ hget hchild heq)
  cases remove with
  | true =>
    have he : (r.down.delete edge).get e = some child' := he
    rw [OMap.get_delete] at he
    split at he
    · cases he
    · next hne => exact hother hne he
  | false =>
    have he : (r.down.set edge ⟨r.made, child.channel, .empty⟩).get e = some child' := he
    rw [OMap.get_set] at he
    split at he
    · cases he
      exact absurd heq hlt.ne'
    · next hne => exact hother hne he

/-- **The manager takes no packet of a leg that it has reset or that is lost.**  Whatever was read
    before, and however long its delivery takes, `current` refuses it. -/
theorem relay_fences {root : Bool} {e : Event} (h : Steps.Reaches step { root } es r)
    (hchild : r.down.get edge = some child)
    (he : e = .resetDown edge child.channel ∧ r.closed = false ∨
      ∃ remove order, e = .loseDown edge child.channel remove order)
    (hs : r.step e = some r') {r₁ r₂ : Relay} (h' : Steps.Reaches step r' es' r₁) {i : ℕ}
    {reading : Reading} {channelOpen : Bool} (hreading : r₁.reading[i]? = some reading)
    (hleg : reading.leg = child.ref) (hfenced : reading.fenced = true)
    (hreceive : r₁.step (.receive i channelOpen) = some r₂) :
    r₂.received = r₁.received ++ [(reading, false)] := by
  have htracks := reaches_tracks h
  have hgone : r'.IsGone child.ref := by
    rcases he with ⟨rfl, hopen⟩ | ⟨remove, order, rfl⟩
    · obtain rfl := Option.some.inj hs
      exact live_resetDown htracks hopen hchild
    · exact live_loseDown htracks hchild hs
  have hnot := (hgone.run h').2
  obtain ⟨reading', hreading', rfl⟩ := Option.map_eq_some_iff.1 hreceive
  obtain rfl := Option.some.inj (hreading.symm.trans hreading')
  have hcurrent : r₁.current reading channelOpen = false := by
    unfold current
    cases hget : r₁.down.get reading.edge with
    | none => simp [hfenced]
    | some child' =>
      have hne : child'.ref ≠ reading.leg := fun heq => hnot ⟨reading.edge, child', hget, heq.trans hleg⟩
      simp [hfenced, hne]
  show r₁.received ++ [(reading, r₁.current reading channelOpen)] = _
  rw [hcurrent]

/-- A packet is read, and the manager resets the leg before it is delivered. -/
theorem relay_fences_reset :
    let id := "00112233445566778899aabbccddeeff"
    let p : Packet := { id, epoch := id, data := "x" }
    let es : List Event := [.attachDown "a" 1, .downMessage "a" 1 ⟨true, 100, some p⟩]
    ∃ r r₁ r₂, Steps.Reaches step { root := true } es r ∧ r.step (.resetDown "a" 1) = some r₁ ∧
      r₁.step (.receive 0 true) = some r₂ ∧ r₂.received = r₁.received ++ [(⟨"a", 0, p, true⟩, false)] := by
  intro id p es
  have hrun : (Steps.run step { root := true } es).bind (fun r => (r.down.get "a").bind fun child =>
      (r.step (.resetDown "a" 1)).bind fun r₁ => (r₁.step (.receive 0 true)).map fun _ =>
        decide (child.channel = 1 ∧ child.ref = 0 ∧ r.closed = false ∧
          r₁.reading[0]? = some ⟨"a", 0, p, true⟩)) = some true := by
    decide +kernel
  obtain ⟨r, hr, hrun⟩ := Option.bind_eq_some_iff.1 hrun
  obtain ⟨child, hchild, hrun⟩ := Option.bind_eq_some_iff.1 hrun
  obtain ⟨r₁, hr₁, hrun⟩ := Option.bind_eq_some_iff.1 hrun
  obtain ⟨r₂, hr₂, hend⟩ := Option.map_eq_some_iff.1 hrun
  obtain ⟨hchannel, href, hopen, hreading⟩ := of_decide_eq_true hend
  exact ⟨r, r₁, r₂, Steps.reaches_of_run hr, hr₁, hr₂,
    relay_fences (Steps.reaches_of_run hr) hchild (.inl ⟨by rw [hchannel], hopen⟩) hr₁ .start hreading
      href.symm rfl hr₂⟩

end Relay

end Piik.InputRoute
