/-
  The H.264 part of `relayVideoInput` (`app/mediaedge/relay_input.go`): received
  packets are put in order by the SDK's sample builder, and access units are
  taken whole from what it yields.

  The builder, the depacketizer and the codec tests are the SDK's; the log says
  what the input saw and did, in order.
-/
import Piik.Lib.Steps

namespace Piik.Edge

/-! ## Packets -/

/-- The largest access unit. -/
def maxAccessUnitBytes : ℕ := 4 * 1024 * 1024
/-- The most packets that may wait. -/
def relayPacketLimit : ℕ := maxAccessUnitBytes / 1024
/-- The clock of the timestamps. -/
def videoClockRate : ℕ := 90000

/-- A packet of the video, its payload included. -/
structure RtpPacket where
  sequenceNumber : UInt16
  timestamp : UInt32
  marker : Bool := false
  payload : List UInt8
  deriving DecidableEq

/-- A packet that is no padding. -/
def RtpPacket.isMedia (p : RtpPacket) : Bool := p.payload ≠ []

/-- `int32(a - b)`. -/
def since (a b : UInt32) : ℤ := (a - b).toInt32.toInt

/-- What the input needs of the SDK.  A call of the builder may call the drop handler, as often
    as it says. -/
structure RelaySdk (β δ : Type) where
  newBuilder : β
  push : β → RtpPacket → ℕ × β
  popPackets : β → ℕ × Option RtpPacket × β
  forcePopPackets : β → ℕ × Option RtpPacket × β
  /-- The packets of `ForcePopPackets`, called until there are none. -/
  drain : β → List RtpPacket
  /-- The packets that the builder still holds. -/
  retained : β → ℕ
  isKeyFrame : List UInt8 → Bool
  newDepacketizer : δ
  unmarshal : δ → List UInt8 → Option (List UInt8 × δ)
  /-- `cacheH264` returns an error. -/
  cacheFails : List RtpPacket → Bool

/-! ## Access units -/

/-- The bit that says whether a fragmented NAL unit is open, after a payload. -/
def fragment (fragmented : Bool) : List UInt8 → Option Bool
  | [] => some fragmented
  | head :: rest =>
    if head &&& 0x1f = 28 then
      match rest with
      | [] => none
      | header :: _ =>
        if header &&& 0x80 ≠ 0 then
          if fragmented then none else some (header &&& 0x40 = 0)
        else if !fragmented then none
        else some (header &&& 0x40 = 0)
    else if fragmented then none
    else some false

section Unit

variable {β δ : Type} (sdk : RelaySdk β δ)

/-- The loop of `relayH264AccessUnit`. -/
def accessUnitFrom : δ → Bool → List UInt8 → List RtpPacket → Option (List UInt8)
  | _, fragmented, data, [] => if !fragmented && data ≠ [] then some data else none
  | d, fragmented, data, packet :: packets =>
    if packet.payload = [] then accessUnitFrom d fragmented data packets else
    match fragment fragmented packet.payload with
    | none => none
    | some fragmented => match sdk.unmarshal d packet.payload with
      | none => none
      | some (decoded, d) =>
        if maxAccessUnitBytes < data.length + decoded.length then none
        else accessUnitFrom d fragmented (data ++ decoded) packets

/-- The access unit that the packets make, if they make one. -/
def relayH264AccessUnit (packets : List RtpPacket) : Option (List UInt8) :=
  accessUnitFrom sdk sdk.newDepacketizer false [] packets

end Unit

/-! ## The input -/

/-- The packets of the access unit that is under way. -/
structure RelayH264AU where
  packets : List RtpPacket := []
  bytes : ℕ := 0
  failed : Bool := false
  deriving DecidableEq

/-- What the input sees and does. -/
inductive Obs
  /-- The builder yields a packet. -/
  | yielded (p : RtpPacket)
  /-- The builder calls the drop handler. -/
  | skipped
  /-- An access unit is begun. -/
  | opened (timestamp : UInt32)
  | emitted (data : List UInt8) (timestamp : UInt32)
  | discarded (timestamp : UInt32)
  /-- A recovery has replaced the builder. -/
  | retired
  deriving DecidableEq

/-- The state of the input, with a record of what it did. -/
structure RelayVideoInput (β : Type) where
  builder : Option β := none
  /-- The calls of `onPacketDropped`. -/
  dropped : ℕ := 0
  recoveryTimestamp : UInt32 := 0
  recoverySequence : UInt16 := 0
  hasRecovery : Bool := false
  pending : Bool := false
  pendingTimestamp : UInt32 := 0
  latestTimestamp : UInt32 := 0
  h264AU : Option RelayH264AU := none
  log : List Obs := []

/-- What one turn of the loop of `pop` comes to. -/
inductive PopOutcome
  | goesOn
  | nothing
  | sample (data : List UInt8) (timestamp : UInt32)
  /-- There is no builder yet. -/
  | panics
  deriving DecidableEq

namespace RelayVideoInput

variable {β δ : Type} (sdk : RelaySdk β δ) (s : RelayVideoInput β)

/-- Put something on the record. -/
def note (o : Obs) : RelayVideoInput β := { s with log := s.log ++ [o] }

/-- The access unit that is under way is lost. -/
def hasFailed : Bool := s.h264AU.any (·.failed)

/-- Give up the access unit, once for a timestamp. -/
def discardH264 (timestamp : UInt32) : RelayVideoInput β :=
  if s.hasFailed && s.pendingTimestamp = timestamp then s
  else { s.note (.discarded timestamp) with
         h264AU := some { failed := true }, pending := true, pendingTimestamp := timestamp
         dropped := s.dropped + 1 }

/-- The drop handler of the current builder. -/
def onDropped : RelayVideoInput β := (s.note .skipped).discardH264 s.pendingTimestamp

/-- The builder is replaced, and with it goes what it and the access unit hold. -/
def replaceBuilder : RelayVideoInput β :=
  { (if s.builder.isSome then s.note .retired else s) with
    builder := some sdk.newBuilder, h264AU := none, pending := false }

/-- The packets that go to `cacheH264`. -/
def retiredPackets : List RtpPacket :=
  (match s.h264AU with
    | some au => if au.failed then [] else au.packets
    | none => []) ++
  match s.builder with
    | some b => sdk.drain b
    | none => []

/-- The end of `push`: the packet goes to the builder. -/
def pushPacket (packet : RtpPacket) : RelayVideoInput β :=
  let s := if sdk.isKeyFrame packet.payload then
      { s with recoveryTimestamp := packet.timestamp, hasRecovery := true
               recoverySequence := packet.sequenceNumber }
    else s
  let s := if !packet.isMedia then s
    else if !s.pending then
      { s with pending := true, pendingTimestamp := packet.timestamp
               latestTimestamp := packet.timestamp }
    else if 0 < since packet.timestamp s.latestTimestamp then
      { s with latestTimestamp := packet.timestamp }
    else s
  match s.builder with
  | none => s
  | some b =>
    let (calls, b) := sdk.push b packet
    onDropped^[calls] { s with builder := some b }

/-- `push`, and whether it returns an error. -/
def push (packet : RtpPacket) : RelayVideoInput β × Bool :=
  let recovery := sdk.isKeyFrame packet.payload
  let sameH264AU := s.pending && packet.timestamp = s.pendingTimestamp
  if packet.isMedia && s.hasRecovery && since packet.timestamp s.recoveryTimestamp < 0 then (s, false)
  else if recovery && s.hasRecovery && packet.timestamp = s.recoveryTimestamp &&
      packet.sequenceNumber = s.recoverySequence then (s, false)
  else if s.builder.isNone || recovery && !sameH264AU &&
      (!s.hasRecovery || packet.timestamp ≠ s.recoveryTimestamp) then
    if sdk.cacheFails (s.retiredPackets sdk) then (s.replaceBuilder sdk, true)
    else ((s.replaceBuilder sdk).pushPacket sdk packet, false)
  else (s.pushPacket sdk packet, false)

/-- The packet joins the access unit. -/
def append (au : RelayH264AU) (packet : RtpPacket) : PopOutcome × RelayVideoInput β :=
  let s := s.note (.yielded packet)
  let bytes := au.bytes + packet.payload.length
  if relayPacketLimit ≤ au.packets.length || maxAccessUnitBytes + 2 * relayPacketLimit < bytes then
    (.goesOn, s.discardH264 s.pendingTimestamp)
  else
    let packets := au.packets ++ [packet]
    if !packet.isMedia || !packet.marker then
      (.goesOn, { s with h264AU := some { au with packets, bytes } })
    else match relayH264AccessUnit sdk packets with
      | none =>
        (.goesOn, { s with h264AU := some { au with packets, bytes } }.discardH264 s.pendingTimestamp)
      | some data =>
        (.sample data s.pendingTimestamp,
          { s.note (.emitted data s.pendingTimestamp) with h264AU := none, pending := false })

/-- The access unit of another timestamp is over. -/
def close (packet : RtpPacket) : RelayVideoInput β :=
  if s.h264AU.isSome && packet.timestamp ≠ s.pendingTimestamp then
    { s.discardH264 s.pendingTimestamp with h264AU := none }
  else s

/-- One packet of the builder. -/
def take (packet : RtpPacket) : PopOutcome × RelayVideoInput β :=
  if !packet.isMedia then
    match s.h264AU with
    | none => (.goesOn, s.note (.yielded packet))
    | some au => if au.failed then (.goesOn, s.note (.yielded packet)) else s.append sdk au packet
  else
    let s := s.close packet
    match s.h264AU with
    | some au =>
      if au.failed then (.goesOn, s.note (.yielded packet))
      else { s with pending := true }.append sdk au packet
    | none =>
      { s.note (.opened packet.timestamp) with
        h264AU := some {}, pendingTimestamp := packet.timestamp, pending := true }.append sdk {} packet

/-- More than a second of media has come since the pending packet. -/
def overdue : Bool :=
  s.pending && (videoClockRate : ℤ) < since s.latestTimestamp s.pendingTimestamp

/-- One round of the loop of `popH264`. -/
def iterate : PopOutcome × RelayVideoInput β :=
  match s.builder with
  | none => (.panics, s)
  | some b =>
    let (calls, packet, b) := sdk.popPackets b
    let s := onDropped^[calls] { s with builder := some b }
    match packet with
    | some packet => s.take sdk packet
    | none =>
      if s.overdue then
        let s := s.discardH264 s.pendingTimestamp
        let (calls, packet, b) := sdk.forcePopPackets b
        let s := onDropped^[calls] { s with builder := some b }
        match packet with
        | some packet => s.take sdk packet
        | none => (.nothing, s)
      else (.nothing, s)

/-- The rounds of `popH264`, at most so many. -/
def popLoop : ℕ → RelayVideoInput β → PopOutcome × RelayVideoInput β
  | 0, s => (.goesOn, s)
  | rounds + 1, s => match s.iterate sdk with
    | (.goesOn, s) => popLoop rounds s
    | done => done

/-- `popH264`: every round takes a packet from the builder. -/
def popH264 : PopOutcome × RelayVideoInput β :=
  s.popLoop sdk (s.builder.elim 0 sdk.retained + 1)

/-- The calls of the relay. -/
inductive RelayEvent
  | push (packet : RtpPacket)
  | pop

/-- One call of the input.  A pop before the first push would panic. -/
def step (s : RelayVideoInput β) : RelayEvent → Option (RelayVideoInput β)
  | .push packet => some (s.push sdk packet).1
  | .pop => if s.builder.isSome then some (s.popH264 sdk).2 else none

end RelayVideoInput

/-! ## What a whole access unit is -/

/-- The payload is one fragment of a unit. -/
def isFragment : List UInt8 → Prop
  | head :: _ :: _ => head &&& 0x1f = 28
  | _ => False

/-- The bit of the first fragment. -/
def startsFragment : List UInt8 → Bool
  | _ :: header :: _ => header &&& 0x80 ≠ 0
  | _ => false

/-- The bit of the last fragment. -/
def endsFragment : List UInt8 → Bool
  | _ :: header :: _ => header &&& 0x40 ≠ 0
  | _ => false

/-- The rest of a NAL unit that has been started: it ends with the last. -/
structure IsTail (c : List (List UInt8)) : Prop where
  fragments : ∀ p ∈ c, isFragment p ∧ !startsFragment p
  ends : ∃ earlier last, c = earlier ++ [last] ∧ endsFragment last ∧ ∀ p ∈ earlier, !endsFragment p

/-- A fragmented NAL unit: the first starts it, and the last ends it. -/
inductive IsFuChain : List (List UInt8) → Prop
  | alone {p : List UInt8} : isFragment p → startsFragment p → endsFragment p → IsFuChain [p]
  | long {p : List UInt8} {c : List (List UInt8)} :
      isFragment p → startsFragment p → endsFragment p = false → IsTail c → IsFuChain (p :: c)

/-- Whole NAL units, fragmented ones never interleaved. -/
inductive NalUnits : List (List UInt8) → Prop
  | nil : NalUnits []
  | single {p : List UInt8} {rest : List (List UInt8)} :
      p.head?.map (· &&& 0x1f) ≠ some 28 → NalUnits rest → NalUnits (p :: rest)
  | chain {c rest : List (List UInt8)} : IsFuChain c → NalUnits rest → NalUnits (c ++ rest)

section Unit

variable {β δ : Type} (sdk : RelaySdk β δ)

/-- The payloads one after the other, all of them or none. -/
def depacketize : δ → List (List UInt8) → Option (List UInt8)
  | _, [] => some []
  | d, payload :: payloads => do
    let (decoded, d) ← sdk.unmarshal d payload
    let rest ← depacketize d payloads
    return decoded ++ rest

/-- The payloads of the media packets. -/
def payloads (packets : List RtpPacket) : List (List UInt8) :=
  (packets.filter (·.isMedia)).map (·.payload)

/-- The packets are an access unit of the timestamp, and the data is what they hold. -/
structure WholeUnit (timestamp : UInt32) (packets : List RtpPacket) (data : List UInt8) : Prop where
  first : ∃ p ∈ packets.head?, p.isMedia
  last : ∃ earlier p, packets = earlier ++ [p] ∧ p.isMedia ∧ p.marker ∧
    ∀ q ∈ earlier, q.isMedia → q.marker = false
  ofTimestamp : ∀ p ∈ packets, p.isMedia → p.timestamp = timestamp
  inOrder : packets.IsChain fun p q => q.sequenceNumber = p.sequenceNumber + 1
  holds : depacketize sdk sdk.newDepacketizer (payloads packets) = some data
  nalUnits : NalUnits (payloads packets)
  few : packets.length ≤ relayPacketLimit
  small : (packets.map (·.payload.length)).sum ≤ maxAccessUnitBytes + 2 * relayPacketLimit
  decoded : data ≠ [] ∧ data.length ≤ maxAccessUnitBytes

/-- The two ways in which the loop meets a payload: no NAL unit is open, or one is. -/
def NalUnitsFrom (fragmented : Bool) (ps : List (List UInt8)) : Prop :=
  if fragmented then ∃ c rest, ps = c ++ rest ∧ IsTail c ∧ NalUnits rest else NalUnits ps

theorem nalUnitsFrom_cons {b b' : Bool} {p : List UInt8} {ps : List (List UInt8)} (hp : p ≠ [])
    (h : fragment b p = some b') (hps : NalUnitsFrom b' ps) : NalUnitsFrom b (p :: ps) := by
  obtain ⟨head, rest, rfl⟩ := List.exists_cons_of_ne_nil hp
  simp only [fragment] at h
  split at h
  case isTrue hfu =>
    rcases rest with _ | ⟨header, rest⟩
    · simp at h
    simp only at h
    have hfrag : isFragment (head :: header :: rest) := hfu
    by_cases hs : header &&& 0x80 ≠ 0
    · -- The payload starts a unit, so none is open before it.
      cases b with
      | true => simp [hs] at h
      | false =>
        rw [if_pos hs] at h
        obtain rfl := Option.some.inj h
        have hstart : startsFragment (head :: header :: rest) := by simpa [startsFragment] using hs
        by_cases he : header &&& 0x40 = 0
        · have hend : endsFragment (head :: header :: rest) = false := by simpa [endsFragment] using he
          simp only [NalUnitsFrom, he, decide_true, if_true] at hps
          obtain ⟨c, rest', rfl, hc, hrest⟩ := hps
          exact NalUnits.chain (.long hfrag hstart hend hc) hrest
        · have hend : endsFragment (head :: header :: rest) := by simpa [endsFragment] using he
          simp only [NalUnitsFrom, he, decide_false, Bool.false_eq_true, if_false] at hps
          exact NalUnits.chain (.alone hfrag hstart hend) hps
    · cases b with
      | false => simp [hs] at h
      | true =>
        rw [if_neg hs] at h
        obtain rfl := Option.some.inj h
        have hstart : startsFragment (head :: header :: rest) = false := by
          simpa [startsFragment] using hs
        simp only [NalUnitsFrom, if_true]
        by_cases he : header &&& 0x40 = 0
        · have hend : endsFragment (head :: header :: rest) = false := by simpa [endsFragment] using he
          simp only [NalUnitsFrom, he, decide_true, if_true] at hps
          obtain ⟨c, rest', rfl, hc, hrest⟩ := hps
          obtain ⟨earlier, last, rfl, hlast, hearlier⟩ := hc.ends
          refine ⟨_ :: (earlier ++ [last]), rest', rfl, ⟨?_, _ :: earlier, last, rfl, hlast, ?_⟩, hrest⟩
          · simp only [List.forall_mem_cons]
            exact ⟨⟨hfrag, by simp [hstart]⟩, hc.fragments⟩
          · simp only [List.forall_mem_cons]
            exact ⟨by simp [hend], hearlier⟩
        · have hend : endsFragment (head :: header :: rest) := by simpa [endsFragment] using he
          simp only [NalUnitsFrom, he, decide_false, Bool.false_eq_true, if_false] at hps
          exact ⟨[_], ps, rfl, ⟨by simp [hfrag, hstart], [], _, rfl, hend, by simp⟩, hps⟩
  case isFalse hfu =>
    cases b with
    | true => simp at h
    | false =>
      obtain rfl : b' = false := by simpa using h.symm
      exact NalUnits.single (by simpa using hfu) hps

theorem payloads_cons_media {p : RtpPacket} {ps : List RtpPacket} (h : p.payload ≠ []) :
    payloads (p :: ps) = p.payload :: payloads ps := by
  simp [payloads, RtpPacket.isMedia, h]

theorem payloads_cons_padding {p : RtpPacket} {ps : List RtpPacket} (h : p.payload = []) :
    payloads (p :: ps) = payloads ps := by
  simp [payloads, RtpPacket.isMedia, h]

theorem accessUnitFrom_spec {d : δ} {b : Bool} {data out : List UInt8} {packets : List RtpPacket}
    (h : accessUnitFrom sdk d b data packets = some out) (hdata : data.length ≤ maxAccessUnitBytes) :
    (∃ rest, depacketize sdk d (payloads packets) = some rest ∧ out = data ++ rest) ∧
      NalUnitsFrom b (payloads packets) ∧ out ≠ [] ∧ out.length ≤ maxAccessUnitBytes := by
  induction packets generalizing d b data with
  | nil =>
    simp only [accessUnitFrom, Bool.and_eq_true, Bool.not_eq_true', decide_eq_true_eq,
      Option.ite_none_right_eq_some, Option.some.injEq] at h
    obtain ⟨⟨rfl, hne⟩, rfl⟩ := h
    exact ⟨⟨[], rfl, by simp⟩, .nil, hne, hdata⟩
  | cons packet packets ih =>
    rw [accessUnitFrom] at h
    split at h
    case isTrue hpad =>
      rw [payloads_cons_padding hpad]
      exact ih h hdata
    case isFalse hmedia =>
      rw [payloads_cons_media hmedia]
      cases hf : fragment b packet.payload with
      | none => simp [hf] at h
      | some b' =>
        cases hu : sdk.unmarshal d packet.payload with
        | none => simp [hf, hu] at h
        | some decoded =>
          obtain ⟨decoded, d'⟩ := decoded
          simp only [hf, hu, Option.ite_none_left_eq_some, not_lt] at h
          obtain ⟨⟨rest, hrest, rfl⟩, hnal, hne, hsmall⟩ := ih h.2 (by simpa using h.1)
          refine ⟨⟨decoded ++ rest, ?_, by simp⟩, nalUnitsFrom_cons hmedia hf hnal, hne, hsmall⟩
          simp [depacketize, hu, hrest]

theorem relayH264AccessUnit_spec {data : List UInt8} {packets : List RtpPacket}
    (h : relayH264AccessUnit sdk packets = some data) :
    depacketize sdk sdk.newDepacketizer (payloads packets) = some data ∧
      NalUnits (payloads packets) ∧ data ≠ [] ∧ data.length ≤ maxAccessUnitBytes := by
  obtain ⟨⟨rest, hrest, rfl⟩, hnal, hne, hsmall⟩ := accessUnitFrom_spec sdk h (by simp)
  exact ⟨by simpa using hrest, hnal, hne, hsmall⟩

end Unit

/-! ## The log -/

/-- What the current builder has said. -/
def said (log : List Obs) : List Obs := log.foldl (fun said o => match o with
  | .yielded _ | .skipped => said ++ [o]
  | .retired => []
  | _ => said) []

/-- The last packet of the current builder that is no padding. -/
def lastMedia (log : List Obs) : Option RtpPacket := log.foldl (fun last o => match o with
  | .yielded p => if p.isMedia then some p else last
  | .retired => none
  | _ => last) none

/-- The last thing that happened to an access unit. -/
def lastBoundary (log : List Obs) : Option Obs := log.foldl (fun last o => match o with
  | .yielded _ | .skipped => last
  | _ => some o) none

/-- How many access units were given up. -/
def discards (log : List Obs) : ℕ := log.countP fun o => match o with
  | .discarded _ => true
  | _ => false

section Log

variable {log : List Obs} {p : RtpPacket} {t : UInt32} {data : List UInt8}

@[simp] theorem said_yielded : said (log ++ [.yielded p]) = said log ++ [.yielded p] := by simp [said]
@[simp] theorem said_skipped : said (log ++ [.skipped]) = said log ++ [.skipped] := by simp [said]
@[simp] theorem said_opened : said (log ++ [.opened t]) = said log := by simp [said]
@[simp] theorem said_emitted : said (log ++ [.emitted data t]) = said log := by simp [said]
@[simp] theorem said_discarded : said (log ++ [.discarded t]) = said log := by simp [said]
@[simp] theorem said_retired : said (log ++ [.retired]) = [] := by simp [said]

@[simp] theorem lastMedia_yielded :
    lastMedia (log ++ [.yielded p]) = if p.isMedia then some p else lastMedia log := by simp [lastMedia]
@[simp] theorem lastMedia_skipped : lastMedia (log ++ [.skipped]) = lastMedia log := by simp [lastMedia]
@[simp] theorem lastMedia_opened : lastMedia (log ++ [.opened t]) = lastMedia log := by simp [lastMedia]
@[simp] theorem lastMedia_emitted : lastMedia (log ++ [.emitted data t]) = lastMedia log := by
  simp [lastMedia]
@[simp] theorem lastMedia_discarded : lastMedia (log ++ [.discarded t]) = lastMedia log := by
  simp [lastMedia]
@[simp] theorem lastMedia_retired : lastMedia (log ++ [.retired]) = none := by simp [lastMedia]

@[simp] theorem lastBoundary_yielded : lastBoundary (log ++ [.yielded p]) = lastBoundary log := by
  simp [lastBoundary]
@[simp] theorem lastBoundary_skipped : lastBoundary (log ++ [.skipped]) = lastBoundary log := by
  simp [lastBoundary]
@[simp] theorem lastBoundary_opened : lastBoundary (log ++ [.opened t]) = some (.opened t) := by
  simp [lastBoundary]
@[simp] theorem lastBoundary_emitted :
    lastBoundary (log ++ [.emitted data t]) = some (.emitted data t) := by simp [lastBoundary]
@[simp] theorem lastBoundary_discarded : lastBoundary (log ++ [.discarded t]) = some (.discarded t) := by
  simp [lastBoundary]
@[simp] theorem lastBoundary_retired : lastBoundary (log ++ [.retired]) = some .retired := by
  simp [lastBoundary]

@[simp] theorem discards_yielded : discards (log ++ [.yielded p]) = discards log := by simp [discards]
@[simp] theorem discards_skipped : discards (log ++ [.skipped]) = discards log := by simp [discards]
@[simp] theorem discards_opened : discards (log ++ [.opened t]) = discards log := by simp [discards]
@[simp] theorem discards_emitted : discards (log ++ [.emitted data t]) = discards log := by
  simp [discards]
@[simp] theorem discards_discarded : discards (log ++ [.discarded t]) = discards log + 1 := by
  simp [discards]
@[simp] theorem discards_retired : discards (log ++ [.retired]) = discards log := by simp [discards]

end Log

/-! ## The builder -/

/-- The calls of the builder. -/
inductive BuilderCall
  | push (packet : RtpPacket)
  | pop
  | forcePop

section Builder

variable {β δ : Type} (sdk : RelaySdk β δ)

/-- What the input hears of a call, and the builder after it. -/
def RelaySdk.answer (b : β) : BuilderCall → List Obs × β
  | .push packet => (List.replicate (sdk.push b packet).1 .skipped, (sdk.push b packet).2)
  | .pop =>
    (List.replicate (sdk.popPackets b).1 .skipped ++ ((sdk.popPackets b).2.1.map .yielded).toList,
      (sdk.popPackets b).2.2)
  | .forcePop =>
    (List.replicate (sdk.forcePopPackets b).1 .skipped ++
        ((sdk.forcePopPackets b).2.1.map .yielded).toList,
      (sdk.forcePopPackets b).2.2)

/-- What a builder may have said, under any order of calls. -/
inductive RelaySdk.Says : List Obs → β → Prop
  | new : RelaySdk.Says [] sdk.newBuilder
  | call {said : List Obs} {b : β} (c : BuilderCall) :
      RelaySdk.Says said b → RelaySdk.Says (said ++ (sdk.answer b c).1) (sdk.answer b c).2

/-- Packets come in sequence order, every gap is reported before the packet after it, and a packet
    that has come is no more in the builder. -/
structure RelaySdk.Orderly : Prop where
  inOrder {said earlier later : List Obs} {b : β} {p q : RtpPacket} :
    sdk.Says said b → said = earlier ++ .yielded p :: .yielded q :: later →
      q.sequenceNumber = p.sequenceNumber + 1
  pop {said : List Obs} {b b' : β} {calls : ℕ} {p : Option RtpPacket} :
    sdk.Says said b → sdk.popPackets b = (calls, p, b') →
      sdk.retained b' + p.toList.length ≤ sdk.retained b
  forcePop {said : List Obs} {b b' : β} {calls : ℕ} {p : Option RtpPacket} :
    sdk.Says said b → sdk.forcePopPackets b = (calls, p, b') →
      sdk.retained b' + p.toList.length ≤ sdk.retained b

/-! ## What may be written after what -/

/-- The relation of an entry to the log before it. -/
def Allowed (earlier : List Obs) : Obs → Prop
  | .yielded q => ∀ p, (said earlier).getLast? = some (.yielded p) →
      q.sequenceNumber = p.sequenceNumber + 1
  | .opened t =>
    (∀ t', lastBoundary earlier ≠ some (.opened t')) ∧
    lastBoundary earlier ≠ some (.discarded t) ∧
    (∀ p, lastMedia earlier = some p → p.timestamp = t → p.marker) ∧
    ((said earlier).getLast? = some .skipped → ∃ t', lastBoundary earlier = some (.discarded t'))
  | .emitted data t => ∃ before packets, earlier = before ++ .opened t :: packets.map .yielded ∧
      WholeUnit sdk t packets data
  | .discarded t =>
    (∀ t', lastBoundary earlier = some (.opened t') → t' = t) ∧
    ∀ t', lastBoundary earlier ≠ some (.discarded t')
  | .skipped | .retired => True

end Builder

namespace RelayVideoInput

variable {β δ : Type} (sdk : RelaySdk β δ) {s : RelayVideoInput β} {owed : List Obs}

/-! ## The invariant -/

/-- The log, the count of reports and the builder agree.  The builder may have said what the input
    has yet to hear. -/
structure Kept (owed : List Obs) (s : RelayVideoInput β) : Prop where
  along : Steps.Along (Allowed sdk) s.log
  dropped : s.dropped = discards s.log
  built : ∀ b, s.builder = some b → sdk.Says (said s.log ++ owed) b

/-- No access unit is open, and none has failed. -/
structure Idle (s : RelayVideoInput β) : Prop where
  opened : ∀ t, lastBoundary s.log ≠ some (.opened t)
  discarded : ∀ t, lastBoundary s.log ≠ some (.discarded t)
  marked : ∀ p, lastMedia s.log = some p → p.marker
  unskipped : (said s.log).getLast? ≠ some .skipped

/-- The access unit under way was given up, and its packets are skipped. -/
structure Failed (s : RelayVideoInput β) : Prop where
  pending : s.pending
  discarded : lastBoundary s.log = some (.discarded s.pendingTimestamp)
  past : ∀ p, lastMedia s.log = some p → p.timestamp = s.pendingTimestamp ∨ p.marker

/-- The packets are what has come of the open access unit. -/
structure Building (packets : List RtpPacket) (s : RelayVideoInput β) : Prop where
  opened : ∃ before, s.log = before ++ .opened s.pendingTimestamp :: packets.map .yielded
  ofTimestamp : ∀ p ∈ packets, p.isMedia → p.timestamp = s.pendingTimestamp
  first : packets = [] ∨ ∃ p ∈ packets.head?, p.isMedia
  inOrder : packets.IsChain fun p q => q.sequenceNumber = p.sequenceNumber + 1

/-- The access unit is open, and its packets fit. -/
structure Assembling (au : RelayH264AU) (s : RelayVideoInput β) : Prop where
  pending : s.pending
  building : Building au.packets s
  unmarked : ∀ p ∈ au.packets, p.isMedia → p.marker = false
  few : au.packets.length ≤ relayPacketLimit
  bytes : au.bytes = (au.packets.map (·.payload.length)).sum
  small : au.bytes ≤ maxAccessUnitBytes + 2 * relayPacketLimit

/-- What the access unit says about the log. -/
def InPhase (s : RelayVideoInput β) : Prop :=
  match s.h264AU with
  | none => Idle s
  | some au => if au.failed then Failed s else au.packets ≠ [] ∧ Assembling au s

/-- What holds between the calls. -/
structure Inv (owed : List Obs) (s : RelayVideoInput β) : Prop where
  kept : Kept sdk owed s
  phase : InPhase s

/-! ## The log of an open access unit -/

section Open

variable {before : List Obs} {t : UInt32} {packets : List RtpPacket} {p : RtpPacket}

theorem open_snoc : before ++ .opened t :: (packets ++ [p]).map Obs.yielded =
    (before ++ .opened t :: packets.map .yielded) ++ [.yielded p] := by
  simp

theorem lastBoundary_open :
    lastBoundary (before ++ .opened t :: packets.map .yielded) = some (.opened t) := by
  induction packets using List.reverseRecOn with
  | nil => exact lastBoundary_opened
  | append_singleton packets p ih => rw [open_snoc, lastBoundary_yielded, ih]

theorem said_open :
    said (before ++ .opened t :: packets.map .yielded) = said before ++ packets.map .yielded := by
  induction packets using List.reverseRecOn with
  | nil => simp [said]
  | append_singleton packets p ih => rw [open_snoc, said_yielded, ih]; simp

/-- What came last came of the access unit, when it began with a packet that is no padding. -/
theorem lastMedia_open (h : ∃ p ∈ packets.head?, p.isMedia) {q : RtpPacket}
    (hq : lastMedia (before ++ .opened t :: packets.map .yielded) = some q) :
    q ∈ packets ∧ q.isMedia := by
  induction packets using List.reverseRecOn with
  | nil => simp at h
  | append_singleton packets p ih =>
    rw [open_snoc, lastMedia_yielded] at hq
    split at hq
    case isTrue hp =>
      obtain rfl := Option.some.inj hq
      exact ⟨by simp, hp⟩
    case isFalse hp =>
      rcases packets with _ | ⟨first, packets⟩
      · simp [hp] at h
      · obtain ⟨hmem, hmedia⟩ := ih (by simpa using h) hq
        exact ⟨List.mem_append_left _ hmem, hmedia⟩

end Open

theorem Building.lastBoundary {packets : List RtpPacket} (h : Building packets s) :
    lastBoundary s.log = some (.opened s.pendingTimestamp) := by
  obtain ⟨before, hlog⟩ := h.opened
  rw [hlog, lastBoundary_open]

theorem Building.past {packets : List RtpPacket} {p : RtpPacket} (h : Building packets s)
    (hne : packets ≠ []) (hp : lastMedia s.log = some p) : p.timestamp = s.pendingTimestamp := by
  obtain ⟨before, hlog⟩ := h.opened
  rw [hlog] at hp
  obtain ⟨hmem, hmedia⟩ := lastMedia_open (h.first.resolve_left hne) hp
  exact h.ofTimestamp p hmem hmedia

/-! ## Discards -/

/-- An access unit that has not failed may be given up. -/
structure Discardable (s : RelayVideoInput β) : Prop where
  unfailed : s.hasFailed = false
  opened : ∀ t, lastBoundary s.log = some (.opened t) → t = s.pendingTimestamp
  discarded : ∀ t, lastBoundary s.log ≠ some (.discarded t)
  past : ∀ p, lastMedia s.log = some p → p.timestamp = s.pendingTimestamp ∨ p.marker

theorem Building.discardable {packets : List RtpPacket} (h : Building packets s) (hne : packets ≠ [])
    (hs : s.hasFailed = false) : Discardable s where
  unfailed := hs
  opened t ht := by simpa [h.lastBoundary] using ht.symm
  discarded t := by simp [h.lastBoundary]
  past p hp := Or.inl (h.past hne hp)

theorem Idle.discardable (h : Idle s) (hs : s.h264AU = none) : Discardable s where
  unfailed := by simp [hasFailed, hs]
  opened t ht := absurd ht (h.opened t)
  discarded := h.discarded
  past p hp := Or.inr (h.marked p hp)

/-- It has failed, or it may be given up. -/
theorem InPhase.failed_or (h : InPhase s) :
    (Failed s ∧ ∃ au, s.h264AU = some au ∧ au.failed) ∨ Discardable s := by
  rw [InPhase] at h
  cases hau : s.h264AU with
  | none => exact Or.inr (Idle.discardable (by simpa [hau] using h) hau)
  | some au =>
    simp only [hau] at h
    split at h
    case isTrue hf => exact Or.inl ⟨h, au, rfl, hf⟩
    case isFalse hf =>
      exact Or.inr (h.2.building.discardable h.1 (by simp [hasFailed, hau, hf]))

theorem discardH264_of_failed {au : RelayH264AU} (hau : s.h264AU = some au) (hf : au.failed) :
    s.discardH264 s.pendingTimestamp = s := by
  simp [discardH264, hasFailed, hau, hf]

theorem Discardable.discardH264 (h : Discardable s) (hk : Kept sdk owed s) :
    Kept sdk owed (s.discardH264 s.pendingTimestamp) ∧
      Failed (s.discardH264 s.pendingTimestamp) ∧
      (s.discardH264 s.pendingTimestamp).h264AU = some { failed := true } := by
  rw [RelayVideoInput.discardH264, h.unfailed]
  refine ⟨⟨?_, ?_, ?_⟩, ⟨rfl, ?_, ?_⟩, rfl⟩
  · exact Steps.along_snoc.2 ⟨hk.along, h.opened, h.discarded⟩
  · simp [note, hk.dropped]
  · intro b hb
    simpa [note] using hk.built b hb
  · simp [note]
  · intro p hp
    exact h.past p (by simpa [note] using hp)

theorem Inv.discardH264 (h : Inv sdk owed s) :
    Kept sdk owed (s.discardH264 s.pendingTimestamp) ∧
      Failed (s.discardH264 s.pendingTimestamp) ∧
      ∃ au, (s.discardH264 s.pendingTimestamp).h264AU = some au ∧ au.failed := by
  rcases h.phase.failed_or with ⟨hf, au, hau, hfailed⟩ | hd
  · rw [discardH264_of_failed hau hfailed]
    exact ⟨h.kept, hf, au, hau, hfailed⟩
  · obtain ⟨hk, hf, hau⟩ := hd.discardH264 sdk h.kept
    exact ⟨hk, hf, _, hau, rfl⟩

theorem inPhase_of_failed {au : RelayH264AU} (hf : Failed s) (hau : s.h264AU = some au)
    (hfailed : au.failed) : InPhase s := by
  simp only [InPhase, hau, hfailed, if_true]
  exact hf

theorem inPhase_of_idle (h : Idle s) (hau : s.h264AU = none) : InPhase s := by
  simp only [InPhase, hau]
  exact h

@[simp] theorem discardH264_builder {t : UInt32} : (s.discardH264 t).builder = s.builder := by
  unfold RelayVideoInput.discardH264
  split <;> rfl

@[simp] theorem onDropped_builder : s.onDropped.builder = s.builder := by
  rw [onDropped, discardH264_builder, note]

theorem Inv.onDropped (h : Inv sdk (.skipped :: owed) s) : Inv sdk owed s.onDropped := by
  have hk : Kept sdk owed (s.note .skipped) :=
    ⟨Steps.along_snoc.2 ⟨h.kept.along, trivial⟩, by simp [note, h.kept.dropped],
      fun b hb => by simpa [note] using h.kept.built b hb⟩
  rcases h.phase.failed_or with ⟨hf, au, hau, hfailed⟩ | hd
  · have hs : s.onDropped = s.note .skipped := discardH264_of_failed (s := s.note .skipped) hau hfailed
    rw [hs]
    refine ⟨hk, inPhase_of_failed (s := s.note .skipped) ⟨hf.pending, ?_, ?_⟩ hau hfailed⟩
    · simpa [note] using hf.discarded
    · intro p hp
      exact hf.past p (by simpa [note] using hp)
  · have hd' : Discardable (s.note .skipped) :=
      ⟨hd.unfailed, fun t ht => hd.opened t (by simpa [note] using ht),
        fun t ht => hd.discarded t (by simpa [note] using ht),
        fun p hp => hd.past p (by simpa [note] using hp)⟩
    obtain ⟨hk, hf, hau⟩ := hd'.discardH264 sdk hk
    exact ⟨hk, inPhase_of_failed hf hau rfl⟩

/-- The handler, as often as the builder calls it. -/
theorem Inv.iterate_onDropped {calls : ℕ} (h : Inv sdk (List.replicate calls .skipped ++ owed) s) :
    Inv sdk owed (RelayVideoInput.onDropped^[calls] s) ∧
      (RelayVideoInput.onDropped^[calls] s).builder = s.builder := by
  induction calls generalizing s with
  | zero => exact ⟨h, rfl⟩
  | succ calls ih =>
    rw [Function.iterate_succ_apply]
    obtain ⟨hinv, hb⟩ := ih (Inv.onDropped sdk h)
    exact ⟨hinv, hb.trans onDropped_builder⟩

/-! ## Packets -/

section Packets

variable {p : RtpPacket} {au : RelayH264AU} {packets : List RtpPacket}

/-- A packet is in order when the builder has said it. -/
theorem Kept.hear (hsdk : sdk.Orderly) (h : Kept sdk (.yielded p :: owed) s)
    (hb : s.builder.isSome) : Kept sdk owed (s.note (.yielded p)) := by
  obtain ⟨b, hb⟩ := Option.isSome_iff_exists.1 hb
  refine ⟨Steps.along_snoc.2 ⟨h.along, ?_⟩, by simp [note, h.dropped], fun b hb => ?_⟩
  · intro q hq
    obtain ⟨earlier, hearlier⟩ := List.getLast?_eq_some_iff.1 hq
    have hsaid : said s.log ++ .yielded p :: owed = earlier ++ .yielded q :: .yielded p :: owed := by
      simp [hearlier]
    exact hsdk.inOrder (h.built b hb) hsaid
  · simpa [note] using h.built b hb

theorem Failed.hear (h : Failed s) (hp : p.isMedia → p.timestamp = s.pendingTimestamp) :
    Failed (s.note (.yielded p)) := by
  refine ⟨h.pending, by simpa [note] using h.discarded, fun q hq => ?_⟩
  simp only [note, lastMedia_yielded] at hq
  split at hq
  case isTrue hmedia =>
    obtain rfl := Option.some.inj hq
    exact Or.inl (hp hmedia)
  case isFalse => exact h.past q hq

theorem Idle.hear (h : Idle s) (hp : p.isMedia = false) : Idle (s.note (.yielded p)) := by
  refine ⟨?_, ?_, fun q hq => h.marked q ?_, ?_⟩
  · simpa [note] using h.opened
  · simpa [note] using h.discarded
  · simpa [note, hp] using hq
  · simp [note]

/-- The open access unit takes one more packet. -/
theorem Building.hear (h : Building packets s)
    (hk : Steps.Along (Allowed sdk) (s.note (.yielded p)).log)
    (hp : p.isMedia → p.timestamp = s.pendingTimestamp) (hfirst : packets = [] → p.isMedia) :
    Building (packets ++ [p]) (s.note (.yielded p)) := by
  obtain ⟨before, hlog⟩ := h.opened
  refine ⟨⟨before, by simp [note, hlog]⟩, ?_, ?_, ?_⟩
  · intro q hq hmedia
    rcases List.mem_append.1 hq with hq | hq
    · exact h.ofTimestamp q hq hmedia
    · obtain rfl := List.mem_singleton.1 hq
      exact hp hmedia
  · right
    rcases packets with _ | ⟨first, packets⟩
    · simpa using hfirst rfl
    · simpa using h.first
  · have hq := (Steps.along_snoc.1 hk).2
    refine List.isChain_append.2 ⟨h.inOrder, List.isChain_singleton p, ?_⟩
    intro last hlast q hq'
    obtain rfl : p = q := by simpa using hq'
    obtain ⟨earlier, rfl⟩ := List.getLast?_eq_some_iff.1 hlast
    refine hq last ?_
    rw [hlog, said_open]
    simp

/-- A whole access unit. -/
theorem Assembling.whole {data : List UInt8} (h : Assembling au s)
    (hb : Building (au.packets ++ [p]) (s.note (.yielded p)))
    (hmedia : p.isMedia) (hmarker : p.marker) (hfew : au.packets.length < relayPacketLimit)
    (hsmall : au.bytes + p.payload.length ≤ maxAccessUnitBytes + 2 * relayPacketLimit)
    (hdata : relayH264AccessUnit sdk (au.packets ++ [p]) = some data) :
    WholeUnit sdk s.pendingTimestamp (au.packets ++ [p]) data := by
  obtain ⟨hholds, hnal, hne, hdec⟩ := relayH264AccessUnit_spec sdk hdata
  refine ⟨hb.first.resolve_left (by simp), ⟨au.packets, p, rfl, hmedia, hmarker, h.unmarked⟩,
    hb.ofTimestamp, hb.inOrder, hholds, hnal, ?_, ?_, hne, hdec⟩
  · simp only [List.length_append, List.length_singleton]
    omega
  · rw [h.bytes] at hsmall
    simpa using hsmall

/-- What a pop returns is the last entry of the log. -/
def Returns (r : PopOutcome × RelayVideoInput β) : Prop :=
  r.1 = .goesOn ∨ ∃ data t earlier, r.1 = .sample data t ∧ r.2.log = earlier ++ [.emitted data t]

theorem append_spec (hsdk : sdk.Orderly) (hk : Kept sdk (.yielded p :: owed) s)
    (hau : s.h264AU = some au) (hf : au.failed = false) (h : Assembling au s) (hb : s.builder.isSome)
    (hp : p.isMedia → p.timestamp = s.pendingTimestamp) (hfirst : au.packets = [] → p.isMedia) :
    Inv sdk owed (s.append sdk au p).2 ∧ Returns (s.append sdk au p) ∧
      (s.append sdk au p).2.builder = s.builder := by
  have hk' := Kept.hear sdk hsdk hk hb
  have hbuild := h.building.hear sdk hk'.along hp hfirst
  have hunfailed : (s.note (.yielded p)).hasFailed = false := by simp [hasFailed, note, hau, hf]
  have hdisc : ∀ au' : RelayH264AU, au'.failed = false →
      Discardable { s.note (.yielded p) with h264AU := some au' } := by
    intro au' hf'
    obtain ⟨-, h₁, h₂, h₃⟩ := hbuild.discardable (by simp) hunfailed
    exact ⟨by simp [hasFailed, hf'], h₁, h₂, h₃⟩
  rw [append]
  simp only
  split_ifs with hlimit hgoes
  · obtain ⟨hk, hfail, hau'⟩ := (hbuild.discardable (by simp) hunfailed).discardH264 sdk hk'
    exact ⟨⟨hk, inPhase_of_failed hfail hau' rfl⟩, Or.inl rfl, discardH264_builder⟩
  · -- The access unit stays open.
    simp only [Bool.or_eq_true, decide_eq_true_eq, not_or, not_le, not_lt] at hlimit
    refine ⟨⟨⟨hk'.along, hk'.dropped, hk'.built⟩, ?_⟩, Or.inl rfl, rfl⟩
    simp only [InPhase, hf, Bool.false_eq_true, if_false]
    refine ⟨by simp, h.pending, ⟨hbuild.opened, hbuild.ofTimestamp, hbuild.first, hbuild.inOrder⟩,
      ?_, ?_, ?_, ?_⟩
    · intro q hq hmedia
      rcases List.mem_append.1 hq with hq | hq
      · exact h.unmarked q hq hmedia
      · obtain rfl := List.mem_singleton.1 hq
        simpa [hmedia] using hgoes
    · simp only [List.length_append, List.length_singleton]
      omega
    · simp [h.bytes]
    · exact hlimit.2
  · simp only [Bool.or_eq_true, decide_eq_true_eq, not_or, not_le, not_lt] at hlimit
    obtain ⟨hmedia, hmarker⟩ : p.isMedia ∧ p.marker := by
      simpa using hgoes
    cases hunit : relayH264AccessUnit sdk (au.packets ++ [p]) with
    | none =>
      have hk₂ : Kept sdk owed { s.note (.yielded p) with
          h264AU := some { au with packets := au.packets ++ [p]
                                   bytes := au.bytes + p.payload.length } } :=
        ⟨hk'.along, hk'.dropped, hk'.built⟩
      obtain ⟨hk, hfail, hau'⟩ := (hdisc { au with packets := au.packets ++ [p]
                                                   bytes := au.bytes + p.payload.length } hf).discardH264
        sdk hk₂
      exact ⟨⟨hk, inPhase_of_failed hfail hau' rfl⟩, Or.inl rfl, discardH264_builder⟩
    | some data =>
      have hwhole := h.whole sdk hbuild hmedia hmarker hlimit.1 hlimit.2 hunit
      obtain ⟨before, hlog⟩ := hbuild.opened
      refine ⟨⟨⟨?_, ?_, ?_⟩, ?_, ?_, ?_, ?_⟩, Or.inr ⟨data, _, _, rfl, rfl⟩, rfl⟩
      · exact Steps.along_snoc.2 ⟨hk'.along, before, _, hlog, hwhole⟩
      · simpa [note, -List.append_assoc] using hk'.dropped
      · intro b hb
        simpa [note, -List.append_assoc] using hk'.built b hb
      · simp [note, -List.append_assoc]
      · simp [note, -List.append_assoc]
      · intro q hq
        obtain rfl : p = q := by simpa [note, hmedia, -List.append_assoc] using hq
        exact hmarker
      · simp [note, -List.append_assoc]

theorem Failed.opens {t : UInt32} (h : Failed s) (ht : t ≠ s.pendingTimestamp) :
    Allowed sdk s.log (.opened t) := by
  refine ⟨by simp [h.discarded], ?_, ?_, fun _ => ⟨_, h.discarded⟩⟩
  · intro hlast
    rw [h.discarded] at hlast
    exact ht (by simpa using hlast.symm)
  · intro q hq hqt
    exact (h.past q hq).resolve_left fun hqs => ht (hqt.symm.trans hqs)

theorem Idle.opens {t : UInt32} (h : Idle s) : Allowed sdk s.log (.opened t) :=
  ⟨h.opened, h.discarded t, fun q hq _ => h.marked q hq, fun hskip => absurd hskip h.unskipped⟩

/-- An access unit is begun, and takes its first packet. -/
theorem opening_spec (hsdk : sdk.Orderly) (hk : Kept sdk (.yielded p :: owed) s) (hb : s.builder.isSome)
    (hopens : Allowed sdk s.log (.opened p.timestamp)) (hp : p.isMedia)
    (s' : RelayVideoInput β)
    (hs' : s' = { s.note (.opened p.timestamp) with
                  h264AU := some {}, pendingTimestamp := p.timestamp, pending := true }) :
    Inv sdk owed (s'.append sdk {} p).2 ∧ Returns (s'.append sdk {} p) ∧
      (s'.append sdk {} p).2.builder = s.builder := by
  subst hs'
  refine append_spec sdk hsdk ⟨?_, ?_, ?_⟩ rfl rfl ⟨rfl, ⟨?_, by simp, Or.inl rfl, .nil⟩, ?_, ?_, ?_, ?_⟩
    hb (fun _ => rfl) fun _ => hp
  · exact Steps.along_snoc.2 ⟨hk.along, hopens⟩
  · simp [note, hk.dropped]
  · intro b hb
    simpa [note] using hk.built b hb
  · exact ⟨s.log, rfl⟩
  · simp
  · simp
  · simp
  · simp

theorem take_spec (hsdk : sdk.Orderly) (h : Inv sdk (.yielded p :: owed) s) (hb : s.builder.isSome) :
    Inv sdk owed (s.take sdk p).2 ∧ Returns (s.take sdk p) ∧
      (s.take sdk p).2.builder = s.builder := by
  have hk := Kept.hear sdk hsdk h.kept hb
  have hphase := h.phase
  rw [InPhase] at hphase
  rw [take]
  split
  case isTrue hpad =>
    -- Padding joins an open access unit, and is no boundary.
    have hp : p.isMedia = false := by simpa using hpad
    cases hau : s.h264AU with
    | none =>
      simp only [hau] at hphase
      exact ⟨⟨hk, inPhase_of_idle (s := s.note (.yielded p)) (hphase.hear hp) hau⟩, Or.inl rfl, rfl⟩
    | some au =>
      simp only [hau] at hphase
      split at hphase
      case isTrue hf =>
        simp only [hf, if_true]
        refine ⟨⟨hk, inPhase_of_failed (s := s.note (.yielded p)) (hphase.hear (by simp [hp])) hau hf⟩,
          Or.inl rfl, rfl⟩
      case isFalse hf =>
        simp only [hf, Bool.false_eq_true, if_false]
        exact append_spec sdk hsdk h.kept hau (by simpa using hf) hphase.2 hb (by simp [hp])
          fun hnil => absurd hnil hphase.1
  case isFalse hmedia =>
    have hp : p.isMedia := by simpa using hmedia
    rw [close]
    cases hau : s.h264AU with
    | none =>
      simp only [hau, Option.isSome_none, Bool.false_and, Bool.false_eq_true, if_false] at hphase ⊢
      exact opening_spec sdk hsdk h.kept hb (hphase.opens sdk) hp _ rfl
    | some au =>
      by_cases ht : p.timestamp = s.pendingTimestamp
      · simp only [ht, hau, Option.isSome_some, ne_eq, not_true_eq_false, decide_false, Bool.and_false,
          Bool.false_eq_true, if_false]
        simp only [hau] at hphase
        split at hphase
        case isTrue hf =>
          simp only [hf, if_true]
          exact ⟨⟨hk, inPhase_of_failed (s := s.note (.yielded p)) (hphase.hear fun _ => ht) hau hf⟩,
            Or.inl rfl, rfl⟩
        case isFalse hf =>
          simp only [hf, Bool.false_eq_true, if_false]
          have ha := hphase.2
          exact append_spec sdk hsdk (s := { s with pending := true, h264AU := some au })
            ⟨h.kept.along, h.kept.dropped, h.kept.built⟩ rfl (by simpa using hf)
            ⟨rfl, ⟨ha.building.opened, ha.building.ofTimestamp, ha.building.first, ha.building.inOrder⟩,
              ha.unmarked, ha.few, ha.bytes, ha.small⟩ hb (fun _ => ht) fun _ => hp
      · -- The packet of another timestamp ends the access unit, whole or not.
        obtain ⟨hkd, hfd, -⟩ := h.discardH264 sdk
        have ht' : p.timestamp ≠ (s.discardH264 s.pendingTimestamp).pendingTimestamp := by
          rw [RelayVideoInput.discardH264]
          split <;> exact ht
        simp only [Option.isSome_some, ne_eq, ht, not_false_eq_true, decide_true, Bool.and_self, if_true]
        obtain ⟨hinv, hret, hbuilder⟩ := opening_spec sdk hsdk
          (s := { s.discardH264 s.pendingTimestamp with h264AU := none })
          ⟨hkd.along, hkd.dropped, hkd.built⟩ (by simpa using hb) (hfd.opens sdk ht') hp _ rfl
        exact ⟨hinv, hret, hbuilder.trans discardH264_builder⟩

end Packets

/-- The phase hangs on the log and the access unit alone, and on the pending timestamp while there
    is one. -/
theorem InPhase.congr {s' : RelayVideoInput β} (h : InPhase s) (hlog : s'.log = s.log)
    (hau : s'.h264AU = s.h264AU)
    (hpending : s.h264AU.isSome → s'.pending = s.pending ∧ s'.pendingTimestamp = s.pendingTimestamp) :
    InPhase s' := by
  rw [InPhase] at h ⊢
  rw [hau]
  cases hs : s.h264AU with
  | none =>
    simp only [hs] at h ⊢
    exact ⟨by simpa [hlog] using h.opened, by simpa [hlog] using h.discarded,
      by simpa [hlog] using h.marked, by simpa [hlog] using h.unskipped⟩
  | some au =>
    obtain ⟨hp, ht⟩ := hpending (by simp [hs])
    simp only [hs] at h ⊢
    split at h
    case isTrue hf =>
      rw [if_pos hf]
      exact ⟨hp.trans h.pending, by rw [hlog, ht]; exact h.discarded, by rw [hlog, ht]; exact h.past⟩
    case isFalse hf =>
      rw [if_neg hf]
      obtain ⟨hne, hpend, hbuild, hunmarked, hfew, hbytes, hsmall⟩ := h
      refine ⟨hne, hp.trans hpend, ⟨?_, ?_, hbuild.first, hbuild.inOrder⟩, hunmarked, hfew, hbytes, hsmall⟩
      · rw [hlog, ht]
        exact hbuild.opened
      · rw [ht]
        exact hbuild.ofTimestamp

theorem InPhase.pending (h : InPhase s) (hs : s.h264AU.isSome) : s.pending := by
  obtain ⟨au, hau⟩ := Option.isSome_iff_exists.1 hs
  simp only [InPhase, hau] at h
  split at h
  · exact h.pending
  · exact h.2.pending

/-! ## Pops -/

section Pops

variable {b : β}

/-- The builder has answered, and the input has still to hear it. -/
theorem Inv.owe {b' : β} {answer : List Obs} (h : Inv sdk [] s) (hb : s.builder = some b)
    (hans : ∀ said, sdk.Says said b → sdk.Says (said ++ answer) b') :
    Inv sdk answer { s with builder := some b' } := by
  refine ⟨⟨h.kept.along, h.kept.dropped, ?_⟩, h.phase.congr rfl rfl fun _ => ⟨rfl, rfl⟩⟩
  intro b'' hb''
  obtain rfl := Option.some.inj hb''
  exact hans _ (by simpa using h.kept.built b hb)

/-- The handler runs, and the builder yields nothing. -/
theorem hear_none {b' : β} {calls : ℕ} (h : Inv sdk [] s) (hb : s.builder = some b)
    (hans : ∀ said, sdk.Says said b → sdk.Says (said ++ List.replicate calls .skipped) b') :
    Inv sdk [] (RelayVideoInput.onDropped^[calls] { s with builder := some b' }) ∧
      (RelayVideoInput.onDropped^[calls] { s with builder := some b' }).builder = some b' :=
  Inv.iterate_onDropped sdk (by simpa using h.owe sdk hb hans)

/-- The handler runs, and then the builder yields a packet. -/
theorem hear_some (hsdk : sdk.Orderly) {b' : β} {calls : ℕ} {p : RtpPacket} (h : Inv sdk [] s)
    (hb : s.builder = some b)
    (hans : ∀ said, sdk.Says said b →
      sdk.Says (said ++ (List.replicate calls .skipped ++ [.yielded p])) b')
    (s' : RelayVideoInput β)
    (hs' : s' = RelayVideoInput.onDropped^[calls] { s with builder := some b' }) :
    Inv sdk [] (s'.take sdk p).2 ∧ Returns (s'.take sdk p) ∧
      (s'.take sdk p).2.builder = some b' := by
  subst hs'
  obtain ⟨hinv, hbuilder⟩ := Inv.iterate_onDropped sdk (h.owe sdk hb hans)
  obtain ⟨hinv, hret, hb'⟩ := take_spec sdk hsdk hinv (by simp [hbuilder])
  exact ⟨hinv, hret, hb'.trans hbuilder⟩

/-- One round keeps the invariant; it goes on only with fewer packets in the builder. -/
theorem iterate_spec (hsdk : sdk.Orderly) (h : Inv sdk [] s) (hb : s.builder = some b) :
    Inv sdk [] (s.iterate sdk).2 ∧ ((s.iterate sdk).1 = .nothing ∨ Returns (s.iterate sdk)) ∧
      ∃ b', (s.iterate sdk).2.builder = some b' ∧
        ((s.iterate sdk).1 = .goesOn → sdk.retained b' < sdk.retained b) := by
  have hsays := h.kept.built b hb
  simp only [List.append_nil] at hsays
  rcases hpop : sdk.popPackets b with ⟨calls, packet, b₁⟩
  have hkept := hsdk.pop hsays hpop
  cases packet with
  | some packet =>
    simp only [iterate, hb, hpop]
    obtain ⟨hinv, hret, hb'⟩ := hear_some sdk hsdk h hb
      (fun said hsaid => by simpa [RelaySdk.answer, hpop] using hsaid.call .pop) _ rfl
    refine ⟨hinv, Or.inr hret, b₁, hb', fun _ => ?_⟩
    simp only [Option.toList_some, List.length_singleton] at hkept
    omega
  | none =>
    obtain ⟨hinv, hb'⟩ := hear_none sdk h hb
      (fun said hsaid => by simpa [RelaySdk.answer, hpop] using hsaid.call .pop)
    simp only [iterate, hb, hpop]
    generalize RelayVideoInput.onDropped^[calls] { s with builder := some b₁ } = s₁ at hinv hb' ⊢
    split
    case isFalse => exact ⟨hinv, Or.inl rfl, b₁, hb', by simp⟩
    case isTrue =>
      -- The access unit is given up before the builder is forced.
      obtain ⟨hk, hf, au, hau, hfailed⟩ := hinv.discardH264 sdk
      have hinv' := Inv.mk hk (inPhase_of_failed hf hau hfailed)
      have hb'' : (s₁.discardH264 s₁.pendingTimestamp).builder = some b₁ :=
        discardH264_builder.trans hb'
      rcases hforce : sdk.forcePopPackets b₁ with ⟨calls', packet', b₂⟩
      have hsays' := hk.built b₁ hb''
      simp only [List.append_nil] at hsays'
      have hkept' := hsdk.forcePop hsays' hforce
      simp only [hforce]
      cases packet' with
      | none =>
        obtain ⟨hinv, hb'⟩ := hear_none sdk hinv' hb''
          (fun said hsaid => by simpa [RelaySdk.answer, hforce] using hsaid.call .forcePop)
        exact ⟨hinv, Or.inl rfl, b₂, hb', by simp⟩
      | some packet' =>
        obtain ⟨hinv, hret, hb'⟩ := hear_some sdk hsdk hinv' hb''
          (fun said hsaid => by simpa [RelaySdk.answer, hforce] using hsaid.call .forcePop) _ rfl
        refine ⟨hinv, Or.inr hret, b₂, hb', fun _ => ?_⟩
        simp only [Option.toList_some, Option.toList_none, List.length_singleton,
          List.length_nil] at hkept hkept'
        omega

/-- Enough rounds come to an end. -/
theorem popLoop_spec (hsdk : sdk.Orderly) {rounds : ℕ} (h : Inv sdk [] s) (hb : s.builder = some b)
    (hrounds : sdk.retained b < rounds) :
    Inv sdk [] (popLoop sdk rounds s).2 ∧ (popLoop sdk rounds s).2.builder.isSome ∧
      ((popLoop sdk rounds s).1 = .nothing ∨ ∃ data t earlier,
        (popLoop sdk rounds s).1 = .sample data t ∧
          (popLoop sdk rounds s).2.log = earlier ++ [.emitted data t]) := by
  induction rounds generalizing s b with
  | zero => omega
  | succ rounds ih =>
    obtain ⟨hinv, hout, b', hb', hless⟩ := iterate_spec sdk hsdk h hb
    rw [popLoop]
    rcases hround : s.iterate sdk with ⟨outcome, s'⟩
    simp only [hround] at hinv hout hb' hless
    cases outcome with
    | goesOn =>
      have := hless rfl
      exact ih hinv hb' (by omega)
    | nothing => exact ⟨hinv, by simp [hb'], Or.inl rfl⟩
    | sample data t =>
      refine ⟨hinv, by simp [hb'], Or.inr ?_⟩
      rcases hout with hout | hout | hout
      · simp at hout
      · simp at hout
      · exact hout
    | panics =>
      rcases hout with hout | hout | ⟨data, t, earlier, hout, -⟩ <;> simp at hout

theorem popH264_spec (hsdk : sdk.Orderly) (h : Inv sdk [] s) (hb : s.builder.isSome) :
    Inv sdk [] (s.popH264 sdk).2 ∧ (s.popH264 sdk).2.builder.isSome ∧
      ((s.popH264 sdk).1 = .nothing ∨ ∃ data t earlier, (s.popH264 sdk).1 = .sample data t ∧
        (s.popH264 sdk).2.log = earlier ++ [.emitted data t]) := by
  obtain ⟨b, hb⟩ := Option.isSome_iff_exists.1 hb
  rw [popH264, hb]
  exact popLoop_spec sdk hsdk h hb (by simp)

end Pops

/-! ## Pushes -/

section Pushes

variable {p : RtpPacket}

theorem replaceBuilder_spec (h : Inv sdk [] s) (hnone : s.builder = none → s.log = []) :
    Inv sdk [] (s.replaceBuilder sdk) ∧ (s.replaceBuilder sdk).builder.isSome := by
  refine ⟨?_, rfl⟩
  rw [replaceBuilder]
  split
  case isTrue =>
    refine ⟨⟨Steps.along_snoc.2 ⟨h.kept.along, trivial⟩, by simp [note, h.kept.dropped], ?_⟩,
      inPhase_of_idle ⟨?_, ?_, ?_, ?_⟩ rfl⟩
    · intro b hb
      obtain rfl := Option.some.inj hb
      simpa [note] using RelaySdk.Says.new
    all_goals simp [note]
  case isFalse hb =>
    have hlog := hnone (by simpa using hb)
    refine ⟨⟨h.kept.along, h.kept.dropped, ?_⟩, inPhase_of_idle ⟨?_, ?_, ?_, ?_⟩ rfl⟩
    · intro b hb
      obtain rfl := Option.some.inj hb
      simpa [hlog, said] using RelaySdk.Says.new
    all_goals simp [hlog, lastBoundary, lastMedia, said]

theorem Inv.congr {s' : RelayVideoInput β} (h : Inv sdk owed s) (hlog : s'.log = s.log)
    (hau : s'.h264AU = s.h264AU) (hb : s'.builder = s.builder) (hdropped : s'.dropped = s.dropped)
    (hpending : s.h264AU.isSome → s'.pending = s.pending ∧ s'.pendingTimestamp = s.pendingTimestamp) :
    Inv sdk owed s' := by
  refine ⟨⟨by rw [hlog]; exact h.kept.along, by rw [hdropped, hlog]; exact h.kept.dropped, ?_⟩,
    h.phase.congr hlog hau hpending⟩
  rw [hb, hlog]
  exact h.kept.built

theorem admit_spec (h : Inv sdk [] s) (hb : s.builder.isSome) :
    Inv sdk [] (s.pushPacket sdk p) ∧ (s.pushPacket sdk p).builder.isSome := by
  obtain ⟨b, hb⟩ := Option.isSome_iff_exists.1 hb
  have hans : ∀ said, sdk.Says said b →
      sdk.Says (said ++ List.replicate (sdk.push b p).1 .skipped) (sdk.push b p).2 :=
    fun said hsaid => hsaid.call (.push p)
  -- Of the timestamps, only the pending one matters, and it stays while an access unit is open.
  have key : ∀ s₁ : RelayVideoInput β, s₁.builder = some (sdk.push b p).2 → s₁.log = s.log →
      s₁.h264AU = s.h264AU → s₁.dropped = s.dropped →
      (s.h264AU.isSome → s₁.pending = s.pending ∧ s₁.pendingTimestamp = s.pendingTimestamp) →
      Inv sdk [] (RelayVideoInput.onDropped^[(sdk.push b p).1] s₁) ∧
        (RelayVideoInput.onDropped^[(sdk.push b p).1] s₁).builder.isSome := by
    intro s₁ hb₁ hlog hau hdropped hpending
    have howe : Inv sdk (List.replicate (sdk.push b p).1 .skipped ++ []) s₁ := by
      simpa using (h.owe sdk hb hans).congr sdk hlog hau hb₁ hdropped hpending
    obtain ⟨hinv, hb'⟩ := Inv.iterate_onDropped sdk howe
    exact ⟨hinv, by simp [hb', hb₁]⟩
  have hpending := h.phase.pending
  rw [pushPacket]
  simp only
  split_ifs
  all_goals
    simp only [hb]
    refine key _ rfl rfl rfl rfl fun hau => ?_
    first
      | exact ⟨rfl, rfl⟩
      | exact absurd (hpending hau) (by simpa using ‹(!s.pending) = true›)

/-- A push keeps the invariant, and a builder that is there stays or is replaced. -/
theorem push_spec (h : Inv sdk [] s) (hnone : s.builder = none → s.log = []) :
    Inv sdk [] (s.push sdk p).1 ∧ ((s.push sdk p).1.builder = none → (s.push sdk p).1.log = []) := by
  have hdone : ∀ {s' : RelayVideoInput β}, Inv sdk [] s' ∧ s'.builder.isSome →
      Inv sdk [] s' ∧ (s'.builder = none → s'.log = []) := by
    rintro s' ⟨hinv, hb⟩
    exact ⟨hinv, fun hb' => by simp [hb'] at hb⟩
  have hreplaced := replaceBuilder_spec sdk h hnone
  rw [push]
  split_ifs with hlate hsame hnew hfails
  · exact ⟨h, hnone⟩
  · exact ⟨h, hnone⟩
  · exact hdone hreplaced
  · exact hdone (admit_spec sdk hreplaced.1 hreplaced.2)
  · refine hdone (admit_spec sdk h ?_)
    simp only [Bool.or_eq_true, not_or] at hnew
    exact Option.isSome_iff_ne_none.2 (by simpa using hnew.1)

end Pushes

theorem reaches_inv (hsdk : sdk.Orderly) {events : List RelayEvent}
    (h : Steps.Reaches (step sdk) {} events s) :
    Inv sdk [] s ∧ (s.builder = none → s.log = []) := by
  refine h.invariant (P := fun s => Inv sdk [] s ∧ (s.builder = none → s.log = [])) ?_ ?_
  · refine ⟨⟨⟨Steps.along_nil, rfl, by simp⟩, inPhase_of_idle ⟨?_, ?_, ?_, ?_⟩ rfl⟩, fun _ => rfl⟩
    all_goals simp [lastBoundary, lastMedia, said]
  · rintro s e s' ⟨hinv, hnone⟩ he
    cases e with
    | push packet =>
      obtain rfl := Option.some.inj he
      exact push_spec sdk hinv hnone
    | pop =>
      simp only [step, Option.ite_none_right_eq_some, Option.some.injEq] at he
      obtain ⟨hb, rfl⟩ := he
      obtain ⟨hinv, hb, -⟩ := popH264_spec sdk hsdk hinv hb
      exact ⟨hinv, fun hb' => by simp [hb'] at hb⟩

/-! ## Whole access units -/

section Whole

variable {data : List UInt8} {t : UInt32}

/-- A sample holds what came after every discard before it. -/
theorem emitted_after_discard {earlier between later : List Obs} {t' : UInt32}
    (h : Steps.Along (Allowed sdk) s.log)
    (hlog : s.log = (earlier ++ .discarded t' :: between) ++ .emitted data t :: later) :
    ∃ gap packets, between = gap ++ .opened t :: packets.map .yielded ∧
      WholeUnit sdk t packets data := by
  obtain ⟨before, packets, hcut, hwhole⟩ := h _ _ _ hlog
  rcases List.append_eq_append_iff.1 hcut with ⟨gap, rfl, hgap⟩ | ⟨gap, rfl, hgap⟩
  · rcases gap with _ | ⟨o, gap⟩
    · simp at hgap
    · obtain ⟨rfl, rfl⟩ : .discarded t' = o ∧ between = gap ++ .opened t :: packets.map .yielded := by
        simpa using hgap
      exact ⟨gap, packets, rfl, hwhole⟩
  · -- The discard is no packet of the sample.
    rcases gap with _ | ⟨o, gap⟩
    · simp at hgap
    · obtain ⟨rfl, hmap⟩ : .opened t = o ∧ packets.map .yielded = gap ++ .discarded t' :: between := by
        simpa using hgap
      have hmem : Obs.discarded t' ∈ packets.map Obs.yielded := by simp [hmap]
      simp at hmem

/-- In every run, whatever order packets and pops come in: what may follow what in the log, every
    discard is reported once, and what a pop returns is a whole access unit. -/
theorem emits_whole (hsdk : sdk.Orderly) {events : List RelayEvent}
    (h : Steps.Reaches (step sdk) {} events s) :
    Steps.Along (Allowed sdk) s.log ∧ s.dropped = discards s.log ∧
      (∀ earlier t' between data t later,
        s.log = (earlier ++ .discarded t' :: between) ++ .emitted data t :: later →
        ∃ gap packets, between = gap ++ .opened t :: packets.map .yielded ∧
          WholeUnit sdk t packets data) ∧
      (s.builder.isSome → (s.popH264 sdk).1 = .nothing ∨ ∃ data t, (s.popH264 sdk).1 = .sample data t ∧
        ∃ before packets,
          (s.popH264 sdk).2.log = before ++ .opened t :: packets.map .yielded ++ [.emitted data t] ∧
          Allowed sdk before (.opened t) ∧ WholeUnit sdk t packets data) := by
  obtain ⟨hinv, -⟩ := reaches_inv sdk hsdk h
  refine ⟨hinv.kept.along, hinv.kept.dropped, ?_, fun hb => ?_⟩
  · intro earlier t' between data t later hlog
    exact emitted_after_discard sdk hinv.kept.along hlog
  · obtain ⟨hpop, -, hnothing | ⟨data, t, earlier, hout, hlog⟩⟩ := popH264_spec sdk hsdk hinv hb
    · exact Or.inl hnothing
    · have halong := hpop.kept.along
      rw [hlog] at halong
      obtain ⟨halong, before, packets, rfl, hwhole⟩ := Steps.along_snoc.1 halong
      exact Or.inr ⟨data, t, hout, before, packets, hlog, halong _ _ _ rfl, hwhole⟩

end Whole

end RelayVideoInput

/-! ## A builder -/

/-- A builder of one queue, with the sequence number that comes next. -/
structure QueueBuilder where
  next : Option UInt16 := none
  held : List RtpPacket := []
  deriving DecidableEq

namespace QueueBuilder

variable (b : QueueBuilder)

/-- The packet that is next. -/
def ready : Option RtpPacket := b.held.find? fun p => b.next.all (p.sequenceNumber = ·)

/-- The packet is taken. -/
def yield (p : RtpPacket) : QueueBuilder where
  next := some (p.sequenceNumber + 1)
  held := b.held.erase p

/-- Take the next packet if it is there. -/
def pop : ℕ × Option RtpPacket × QueueBuilder :=
  match b.ready with
  | some p => (0, some p, b.yield p)
  | none => (0, none, b)

/-- The first packet that it holds, where the next in order has not come. -/
def forcePop : ℕ × Option RtpPacket × QueueBuilder :=
  match b.ready, b.held with
  | some p, _ => (0, some p, b.yield p)
  | none, [] => (0, none, b)
  | none, p :: _ => (1, some p, b.yield p)

end QueueBuilder

/-- A builder that hands the packets on in order, and payloads that are taken as they are. -/
def queueSdk : RelaySdk QueueBuilder Unit where
  newBuilder := {}
  push b p := (0, { b with held := b.held ++ [p] })
  popPackets := QueueBuilder.pop
  forcePopPackets := QueueBuilder.forcePop
  drain := QueueBuilder.held
  retained b := b.held.length
  isKeyFrame payload := payload.head?.any (· &&& 0x1f = 7)
  newDepacketizer := ()
  unmarshal _ payload := some ([0, 0, 0, 1] ++ payload, ())
  cacheFails _ := false

namespace QueueBuilder

variable {b b' : QueueBuilder} {calls : ℕ} {packet : Option RtpPacket} {p : RtpPacket}

theorem ready_spec (h : b.ready = some p) :
    p ∈ b.held ∧ ∀ n, b.next = some n → p.sequenceNumber = n := by
  refine ⟨List.mem_of_find?_eq_some h, fun n hn => ?_⟩
  have := List.find?_some h
  simpa [hn] using this

theorem length_yield (h : p ∈ b.held) : (b.yield p).held.length + 1 = b.held.length := by
  have := List.length_pos_of_mem h
  rw [QueueBuilder.yield, List.length_erase_of_mem h]
  omega

/-- A yield after a yield is in order. -/
def InOrder (earlier : List Obs) (o : Obs) : Prop :=
  ∀ p q, earlier.getLast? = some (.yielded p) → o = .yielded q →
    q.sequenceNumber = p.sequenceNumber + 1

theorem says_spec {said : List Obs} (h : queueSdk.Says said b) :
    Steps.Along InOrder said ∧
      ∀ p, said.getLast? = some (.yielded p) → b.next = some (p.sequenceNumber + 1) := by
  have hyield : ∀ {said : List Obs} {b : QueueBuilder} {p : RtpPacket}, b.ready = some p →
      (Steps.Along InOrder said ∧
        ∀ p, said.getLast? = some (.yielded p) → b.next = some (p.sequenceNumber + 1)) →
      Steps.Along InOrder (said ++ [.yielded p]) ∧
        ∀ q, (said ++ [Obs.yielded p]).getLast? = some (.yielded q) →
          (b.yield p).next = some (q.sequenceNumber + 1) := by
    rintro said b p hready ⟨halong, hnext⟩
    refine ⟨Steps.along_snoc.2 ⟨halong, ?_⟩, ?_⟩
    · intro q q' hq hq'
      obtain rfl := Obs.yielded.inj hq'
      exact (ready_spec hready).2 _ (hnext q hq)
    · intro q hq
      obtain rfl : p = q := by simpa using hq
      rfl
  induction h with
  | new => simp
  | call c h ih =>
    cases c with
    | push packet => simpa [RelaySdk.answer, queueSdk] using ih
    | pop =>
      simp only [RelaySdk.answer, queueSdk, pop]
      split
      case h_1 p hready => simpa using hyield hready ih
      case h_2 => simpa using ih
    | forcePop =>
      simp only [RelaySdk.answer, queueSdk, forcePop]
      split
      case h_1 p hready => simpa using hyield hready ih
      case h_2 => simpa using ih
      case h_3 p held _ _ =>
        -- The gap is reported before the packet after it.
        simp only [List.replicate_one, Option.map_some, Option.toList_some]
        rw [← List.append_assoc]
        refine ⟨Steps.along_snoc.2 ⟨Steps.along_snoc.2 ⟨ih.1, ?_⟩, ?_⟩, ?_⟩
        · simp [InOrder]
        · simp [InOrder]
        · intro q hq
          obtain rfl : p = q := by simpa using hq
          rfl

end QueueBuilder

theorem queueSdk_orderly : queueSdk.Orderly where
  inOrder {said earlier later b p q} h hsaid := by
    have halong := (QueueBuilder.says_spec h).1
    exact halong (earlier ++ [.yielded p]) (.yielded q) later (by simpa using hsaid) p q (by simp) rfl
  pop {said b b' calls packet} _ hpop := by
    simp only [queueSdk, QueueBuilder.pop] at hpop ⊢
    split at hpop
    case h_1 p hready =>
      obtain ⟨-, rfl, rfl⟩ : _ ∧ some p = packet ∧ b.yield p = b' := by simpa using hpop
      exact (QueueBuilder.length_yield (QueueBuilder.ready_spec hready).1).le
    case h_2 =>
      obtain ⟨-, rfl, rfl⟩ : _ ∧ none = packet ∧ b = b' := by simpa using hpop
      simp
  forcePop {said b b' calls packet} _ hpop := by
    simp only [queueSdk, QueueBuilder.forcePop] at hpop ⊢
    split at hpop
    case h_1 p hready =>
      obtain ⟨-, rfl, rfl⟩ : _ ∧ some p = packet ∧ b.yield p = b' := by simpa using hpop
      exact (QueueBuilder.length_yield (QueueBuilder.ready_spec hready).1).le
    case h_2 =>
      obtain ⟨-, rfl, rfl⟩ : _ ∧ none = packet ∧ b = b' := by simpa using hpop
      simp
    case h_3 p held _ hheld =>
      obtain ⟨-, rfl, rfl⟩ : _ ∧ some p = packet ∧ b.yield p = b' := by simpa using hpop
      exact (QueueBuilder.length_yield (by simp [hheld])).le

namespace RelayVideoInput

theorem emits_whole_one :
    (∃ s, Steps.run (step queueSdk) {} [.push ⟨10, 0, false, [0x67, 1]⟩, .push ⟨11, 0, true, [0x65, 1]⟩,
        .pop, .push ⟨12, 3000, true, [0x41, 2]⟩] = some s ∧
      s.dropped = discards s.log ∧ (s.popH264 queueSdk).1 = .sample [0, 0, 0, 1, 0x41, 2] 3000) ∧
      ∃ packets, WholeUnit queueSdk 3000 packets [0, 0, 0, 1, 0x41, 2] := by
  have hmap : (Steps.run (step queueSdk) {} [.push ⟨10, 0, false, [0x67, 1]⟩,
      .push ⟨11, 0, true, [0x65, 1]⟩, .pop, .push ⟨12, 3000, true, [0x41, 2]⟩]).map
      (fun s => (s.builder.isSome, (s.popH264 queueSdk).1)) =
      some (true, .sample [0, 0, 0, 1, 0x41, 2] 3000) := by decide +kernel
  obtain ⟨s, hrun, hs⟩ := Option.map_eq_some_iff.1 hmap
  obtain ⟨hb, hout⟩ := Prod.mk.inj hs
  obtain ⟨-, hdropped, -, hpop⟩ := emits_whole queueSdk queueSdk_orderly (Steps.reaches_of_run hrun)
  refine ⟨⟨s, hrun, hdropped, hout⟩, ?_⟩
  rcases hpop hb with hnothing | ⟨data, t, hsample, before, packets, -, -, hwhole⟩
  · simp [hout] at hnothing
  · obtain ⟨rfl, rfl⟩ := PopOutcome.sample.inj (hsample.symm.trans hout)
    exact ⟨packets, hwhole⟩

/-- The picture after a gap is returned, whosever packets the gap has swallowed, once the loss has
    been reported; and a picture that a recovery replaces is given up without a report. -/
theorem emits_after_gap_and_retires_unreported :
    (Steps.run (step queueSdk) {} [.push ⟨10, 0, true, [0x67, 1]⟩, .pop, .push ⟨11, 3000, false, [0x41, 1]⟩,
        .push ⟨13, 6000, true, [0x41, 2]⟩, .push ⟨14, 96000, true, [0x41, 3]⟩]).map
        (fun s => ((s.popH264 queueSdk).1, (s.popH264 queueSdk).2.log.drop 4)) =
      some (.sample [0, 0, 0, 1, 0x41, 2] 6000,
        [.yielded ⟨11, 3000, false, [0x41, 1]⟩, .discarded 3000, .skipped, .opened 6000,
          .yielded ⟨13, 6000, true, [0x41, 2]⟩, .emitted [0, 0, 0, 1, 0x41, 2] 6000]) ∧
    (Steps.run (step queueSdk) {} [.push ⟨10, 0, true, [0x67, 1]⟩, .pop, .push ⟨11, 3000, false, [0x41, 1]⟩,
        .pop, .push ⟨13, 6000, true, [0x67, 1]⟩]).map (fun s => (s.log.drop 3, s.dropped)) =
      some ([.opened 3000, .yielded ⟨11, 3000, false, [0x41, 1]⟩, .retired], 0) := by
  constructor <;> decide +kernel

end RelayVideoInput

end Piik.Edge
