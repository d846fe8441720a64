/-
  The frames between the capture sidecar and its host
  (`app/nativecapture/protocol.go`): a header of 32 bytes and a payload.
-/
import Piik.Lib.BigEndian

namespace Piik.Capture

open BigEndian

/-! ## Limits -/

/-- Every frame starts with a header of this length. -/
def envelopeHeaderBytes : ℕ := 32
/-- The longest body of a picture or of sound. -/
def maxMediaBytes : ℕ := 4 * 1024 * 1024
/-- The longest text of a status or of a diagnostic. -/
def maxStatusBytes : ℕ := 4 * 1024
/-- The longest command. -/
def maxControlBytes : ℕ := 64
/-- The layers of a capture. -/
def maxOutputs : ℕ := 6
/-- The longest side of a picture. -/
def maxVideoDimension : UInt32 := 8192
/-- The largest picture, in whole macroblocks. -/
def maxVideoPixels : UInt64 := 36864 * 16 * 16

/-- The most ticks of 100 ns that a `time.Duration` holds. -/
def maxTime100ns : ℕ := (2 ^ 63 - 1) / 100

/-- Both sides are even and bounded, and so is the area. -/
def validVideoSize (width height : UInt32) : Bool :=
  2 ≤ width && width ≤ maxVideoDimension && width % 2 == 0 &&
    2 ≤ height && height ≤ maxVideoDimension && height % 2 == 0 &&
    ((width + 15) / 16).toUInt64 * ((height + 15) / 16).toUInt64 * 256 ≤ maxVideoPixels

/-! ## Frames -/

/-- The sixth byte of a header. -/
abbrev FrameKind := UInt8

/-- Sound. -/
def framePCM : FrameKind := 1
/-- A picture. -/
def frameH264 : FrameKind := 2
/-- A status text. -/
def frameStatus : FrameKind := 3
/-- A picture of the other codec. -/
def frameVP8 : FrameKind := 4
/-- The start of a picture. It has no body. -/
def frameBegin : FrameKind := 5
/-- An output that is not there, with a diagnostic. -/
def frameLayerUnavailable : FrameKind := 6
/-- A command, in ASCII. -/
def frameControl : FrameKind := 7

/-- The fields of a header with the body. -/
structure Frame where
  kind : FrameKind
  keyFrame : Bool := false
  layer : ℤ := 0
  width : UInt32 := 0
  height : UInt32 := 0
  /-- A `time.Duration`, in nanoseconds. -/
  timestamp : Int64 := 0
  duration : Int64 := 0
  data : List UInt8 := []
  deriving DecidableEq

/-- `errors.New`, or an error of the stream. -/
inductive Error
  | new (text : String)
  | eof
  | unexpectedEOF
  | shortWrite
  | other (code : ℕ)
  deriving DecidableEq

/-- A picture, of either codec. -/
def isVideo (kind : FrameKind) : Bool := kind == frameH264 || kind == frameVP8

/-- A frame of the kind has a duration, and no other frame has one. -/
def isTimed (kind : FrameKind) : Bool := isVideo kind || kind == framePCM || kind == frameBegin

/-- The largest payload of a kind. -/
def maximum (kind : FrameKind) : ℕ :=
  if kind == frameStatus || kind == frameLayerUnavailable then maxStatusBytes
  else if kind == frameControl then maxControlBytes
  else maxMediaBytes

/-- `bytes[lo:hi]`. -/
def slice (bytes : List UInt8) (lo hi : ℕ) : List UInt8 := (bytes.take hi).drop lo

/-- `SMED`, the first bytes of a header. -/
def magic : List UInt8 := [0x53, 0x4d, 0x45, 0x44]

/-- `time.Duration(ticks) * 100 * time.Nanosecond`. -/
def fromTicks (ticks : ℕ) : Int64 := Int64.ofNat ticks * 100 * 1

/-- `uint64(d / (100 * time.Nanosecond))`. -/
def toTicks (d : Int64) : ℕ := (d / (100 * 1)).toUInt64.toNat

/-- The check of the magic, the version, the kind and the size. -/
def headerInvalid (header : List UInt8) (kind : FrameKind) (size : ℕ) : Bool :=
  slice header 0 4 ≠ magic || header.getD 4 0 ≠ 2 || kind < framePCM || frameControl < kind ||
    maximum kind < size || (kind == frameBegin) != (size == 0)

/-- The check of the fields whose range depends on the kind. -/
def mediaInvalid (kind : FrameKind) (key : UInt8) (layer : ℕ) (timestamp100ns duration100ns : ℕ)
    (width height : UInt32) : Bool :=
  maxTime100ns < timestamp100ns || maxTime100ns < duration100ns ||
    (isTimed kind && duration100ns == 0) ||
    (!isTimed kind && (timestamp100ns ≠ 0 || duration100ns ≠ 0)) ||
    (isVideo kind && (1 < key || maxOutputs ≤ layer || !validVideoSize width height)) ||
    (!isVideo kind && (key ≠ 0 || width ≠ 0 || height ≠ 0)) ||
    (kind == frameLayerUnavailable && maxOutputs ≤ layer) ||
    (!isVideo kind && kind ≠ frameLayerUnavailable && layer ≠ 0)

/-- The frame without its body, and the length of the body. -/
def parseFrameHeader (header : List UInt8) : Except Error (Frame × ℕ) :=
  let kind : FrameKind := header.getD 5 0
  let size := uint (slice header 28 32)
  if headerInvalid header kind size then .error (.new "native capture frame header is invalid") else
  let timestamp100ns := uint (slice header 8 16)
  let duration100ns := uint (slice header 16 24)
  let width := UInt32.ofNat (uint (slice header 24 26))
  let height := UInt32.ofNat (uint (slice header 26 28))
  let layer := (header.getD 7 0).toNat
  let key := header.getD 6 0
  if mediaInvalid kind key layer timestamp100ns duration100ns width height then
    .error (.new "native capture media frame is invalid")
  else .ok ({ kind, keyFrame := isVideo kind && key == 1, layer, width, height
              timestamp := fromTicks timestamp100ns, duration := fromTicks duration100ns }, size)

/-- The check of the bodies that are texts. -/
def validateFrameData (frame : Frame) : Option Error :=
  if frame.kind = frameLayerUnavailable ∧ ¬ frame.data.toByteArray.validateUTF8 then
    some (.new "native unavailable output diagnostic is invalid")
  else if frame.kind = frameControl ∧ frame.data.any (fun value => value < 32 || 126 < value) then
    some (.new "native control payload is not ASCII")
  else none

/-! ## Reading -/

/-- A stream of bytes and the error after the last one. -/
structure Reader where
  bytes : List UInt8
  last : Error := .eof
  deriving DecidableEq

/-- `io.ReadFull` into a buffer of `n` bytes. -/
def readFull (input : Reader) (n : ℕ) : Except Error (List UInt8) × Reader :=
  if n ≤ input.bytes.length then
    (.ok (input.bytes.take n), { input with bytes := input.bytes.drop n })
  else if input.last = .eof ∧ input.bytes ≠ [] then (.error .unexpectedEOF, { input with bytes := [] })
  else (.error input.last, { input with bytes := [] })

/-- A header, and as many bytes as it says. -/
def readFrame (input : Reader) : Except Error Frame × Reader :=
  match readFull input envelopeHeaderBytes with
  | (.error err, input) => (.error err, input)
  | (.ok header, input) => match parseFrameHeader header with
    | .error err => (.error err, input)
    | .ok (frame, size) => match readFull input size with
      | (.error err, input) => (.error err, input)
      | (.ok data, input) =>
        let frame := { frame with data }
        match validateFrameData frame with
        | some err => (.error err, input)
        | none => (.ok frame, input)

/-! ## Writing -/

/-- An `io.Writer`: what each call answers, the bytes taken and the error. -/
abbrev Writer := ℕ → List UInt8 → ℕ × Option Error

/-- The header that `writeFrame` fills in. -/
def frameHeader (frame : Frame) : List UInt8 :=
  magic ++ [2, frame.kind, if frame.keyFrame then 1 else 0, UInt8.ofNat frame.layer.toNat] ++
    put 8 (toTicks frame.timestamp) ++ put 8 (toTicks frame.duration) ++
    put 2 frame.width.toNat ++ put 2 frame.height.toNat ++ put 4 frame.data.length

/-- A field does not fit into the header. -/
def outsideEnvelope (frame : Frame) : Bool :=
  frame.timestamp < 0 || frame.duration < 0 || frame.layer < 0 || 255 < frame.layer ||
    65535 < frame.width || 65535 < frame.height || maxMediaBytes < frame.data.length

/-- The loop of `writeFrame` over the header and the payload: what is written, and the error. -/
def writeAll (output : Writer) : List (List UInt8) → ℕ → List UInt8 → List UInt8 × Option Error
  | [], _, written => (written, none)
  | data :: rest, call, written =>
    if data = [] then writeAll output rest call written else
    match output call data with
    | (n, some err) => (written ++ data.take n, some err)
    | (n, none) =>
      if n ≠ data.length then (written ++ data.take n, some .shortWrite)
      else writeAll output rest (call + 1) (written ++ data.take n)

/-- A frame is checked the way its reader will check it, before the first byte is written. -/
def writeFrame (output : Writer) (frame : Frame) : List UInt8 × Option Error :=
  if outsideEnvelope frame then ([], some (.new "native capture frame is outside its envelope")) else
  match parseFrameHeader (frameHeader frame) with
  | .error err => ([], some err)
  | .ok _ => match validateFrameData frame with
    | some err => ([], some err)
    | none => writeAll output [frameHeader frame, frame.data] 0 []

/-! ## Durations -/

theorem fromTicks_toInt {ticks : ℕ} (h : ticks ≤ maxTime100ns) :
    (fromTicks ticks).toInt = ticks * 100 := by
  have hsmall : ticks * 100 < 2 ^ 63 := by
    simp only [maxTime100ns] at h
    omega
  rw [fromTicks, Int64.mul_one, show (100 : Int64) = Int64.ofNat 100 from rfl, ← Int64.ofNat_mul,
    Int64.toInt_ofNat_of_lt hsmall]
  push_cast
  ring

/-- `d.Truncate(100 * time.Nanosecond)`. -/
def truncate (d : Int64) : Int64 := d - d % 100

theorem fromTicks_toTicks {d : Int64} (h : 0 ≤ d) : fromTicks (toTicks d) = truncate d := by
  have hd : 0 ≤ d.toInt := by simpa using Int64.le_iff_toInt_le.1 h
  have hlt := d.toInt_lt
  have hquot : (d / (100 * 1)).toInt = d.toInt / 100 := by
    rw [Int64.toInt_div_of_ne_right _ _ (by decide)]
    exact Int.tdiv_eq_ediv_of_nonneg hd
  have hpos : 0 ≤ d / (100 * 1) := by
    rw [Int64.le_iff_toInt_le, hquot]
    simp only [Int64.toInt_zero]
    omega
  have hticks : Int64.ofNat (toTicks d) = d / (100 * 1) := by
    rw [toTicks, Int64.toNat_toUInt64_of_le hpos, Int64.ofNat_toNatClampNeg _ hpos]
  apply Int64.toInt_inj.1
  rw [fromTicks, hticks, truncate, Int64.mul_one, Int64.toInt_mul, hquot, Int64.toInt_sub,
    Int64.toInt_mod]
  have hmod : d.toInt.tmod 100 = d.toInt % 100 := Int.tmod_eq_emod_of_nonneg hd
  have hhundred : (100 : Int64).toInt = 100 := rfl
  rw [hhundred, hmod]
  congr 1
  omega

/-! ## Headers -/

variable {header data tail : List UInt8} {frame : Frame} {size : ℕ}

theorem parseFrameHeader_ok (h : parseFrameHeader header = .ok (frame, size)) :
    headerInvalid header (header.getD 5 0) (uint (slice header 28 32)) = false ∧
    mediaInvalid (header.getD 5 0) (header.getD 6 0) (header.getD 7 0).toNat
      (uint (slice header 8 16)) (uint (slice header 16 24))
      (UInt32.ofNat (uint (slice header 24 26))) (UInt32.ofNat (uint (slice header 26 28))) = false ∧
    size = uint (slice header 28 32) ∧
    frame = { kind := header.getD 5 0
              keyFrame := isVideo (header.getD 5 0) && header.getD 6 0 == 1
              layer := (header.getD 7 0).toNat
              width := UInt32.ofNat (uint (slice header 24 26))
              height := UInt32.ofNat (uint (slice header 26 28))
              timestamp := fromTicks (uint (slice header 8 16))
              duration := fromTicks (uint (slice header 16 24)) } := by
  simp only [parseFrameHeader] at h
  split at h
  · cases h
  split at h
  · cases h
  rename_i hheader hmedia
  obtain ⟨rfl, rfl⟩ := Prod.mk.inj (Except.ok.inj h)
  exact ⟨by simpa using hheader, by simpa using hmedia, rfl, rfl⟩

theorem length_frameHeader : (frameHeader frame).length = envelopeHeaderBytes := by
  simp [frameHeader, magic, envelopeHeaderBytes]

theorem frameHeader_timestamp :
    slice (frameHeader frame) 8 16 = put 8 (toTicks frame.timestamp) := rfl

theorem frameHeader_duration :
    slice (frameHeader frame) 16 24 = put 8 (toTicks frame.duration) := rfl

theorem frameHeader_width : slice (frameHeader frame) 24 26 = put 2 frame.width.toNat := rfl

theorem frameHeader_height : slice (frameHeader frame) 26 28 = put 2 frame.height.toNat := rfl

theorem frameHeader_size : slice (frameHeader frame) 28 32 = put 4 frame.data.length := rfl

/-- The frame with its times cut down to whole ticks. -/
def Frame.truncated (frame : Frame) : Frame :=
  { frame with timestamp := truncate frame.timestamp, duration := truncate frame.duration }

/-- What the envelope check promises of a frame. -/
theorem inside_envelope (h : outsideEnvelope frame = false) :
    0 ≤ frame.timestamp ∧ 0 ≤ frame.duration ∧ 0 ≤ frame.layer ∧ frame.layer ≤ 255 ∧
      frame.width ≤ 65535 ∧ frame.height ≤ 65535 ∧ frame.data.length ≤ maxMediaBytes := by
  simp only [outsideEnvelope, Bool.or_eq_false_iff, decide_eq_false_iff_not, not_lt,
    Int64.not_lt, UInt32.not_lt] at h
  tauto

theorem toTicks_lt {d : Int64} : toTicks d < 256 ^ 8 := by
  simpa [toTicks] using (d / (100 * 1)).toUInt64.toNat_lt

theorem ofNat_uint_put {w : UInt32} (h : w ≤ 65535) : UInt32.ofNat (uint (put 2 w.toNat)) = w := by
  have hw : w.toNat ≤ 65535 := UInt32.le_iff_toNat_le.1 h
  rw [uint_put_of_lt (by omega), UInt32.ofNat_toNat]

/-- A header that is accepted spells its frame, but for the fractions of ticks. -/
theorem parse_frameHeader {parsed : Frame} (henv : outsideEnvelope frame = false)
    (h : parseFrameHeader (frameHeader frame) = .ok (parsed, size)) :
    parsed = { frame.truncated with data := [] } ∧ size = frame.data.length := by
  obtain ⟨ht, hd, hlo, hhi, hw, hh, hlen⟩ := inside_envelope henv
  obtain ⟨-, hmedia, rfl, rfl⟩ := parseFrameHeader_ok h
  have hkind : (frameHeader frame).getD 5 0 = frame.kind := rfl
  have hkey : (frameHeader frame).getD 6 0 = if frame.keyFrame then 1 else 0 := rfl
  have hlayer : (((frameHeader frame).getD 7 0).toNat : ℤ) = frame.layer := by
    have hbyte : (frameHeader frame).getD 7 0 = UInt8.ofNat frame.layer.toNat := rfl
    rw [hbyte, UInt8.toNat_ofNat']
    omega
  have hvideo : (isVideo frame.kind && (frameHeader frame).getD 6 0 == 1) = frame.keyFrame := by
    rw [hkind, hkey] at hmedia
    rw [hkey]
    cases hk : frame.keyFrame with
    | false => simp
    | true =>
      cases hv : isVideo frame.kind with
      | true => simp
      | false => simp [mediaInvalid, hk, hv] at hmedia
  constructor
  · rw [frameHeader_timestamp, frameHeader_duration, frameHeader_width, frameHeader_height, hkind,
      hvideo, hlayer, ofNat_uint_put hw, ofNat_uint_put hh, uint_put_of_lt toTicks_lt,
      uint_put_of_lt toTicks_lt, fromTicks_toTicks ht, fromTicks_toTicks hd]
    rfl
  · rw [frameHeader_size, uint_put_of_lt]
    simp only [maxMediaBytes] at hlen
    omega

/-! ## Streams -/

theorem readFull_append {bytes : List UInt8} {last : Error} :
    readFull ⟨bytes ++ tail, last⟩ bytes.length = (.ok bytes, ⟨tail, last⟩) := by
  simp [readFull]

theorem readFull_ok {input rest : Reader} {n : ℕ} (h : readFull input n = (.ok data, rest)) :
    input.bytes = data ++ rest.bytes ∧ data.length = n := by
  simp only [readFull] at h
  split at h
  · rename_i hle
    obtain ⟨hdata, rfl⟩ := Prod.mk.inj h
    obtain rfl := Except.ok.inj hdata
    exact ⟨(List.take_append_drop _ _).symm, List.length_take_of_le hle⟩
  · split at h <;> cases (Prod.mk.inj h).1

/-- A write without an error took every byte. -/
theorem writeAll_none {output : Writer} {chunks : List (List UInt8)} {call : ℕ}
    {before written : List UInt8} (h : writeAll output chunks call before = (written, none)) :
    written = before ++ chunks.flatten := by
  induction chunks generalizing call before with
  | nil =>
    obtain ⟨rfl, -⟩ := Prod.mk.inj h
    simp
  | cons data chunks ih =>
    simp only [writeAll] at h
    split at h
    · rename_i hnil
      simpa [hnil] using ih h
    split at h
    · cases (Prod.mk.inj h).2
    split at h
    · cases (Prod.mk.inj h).2
    · rename_i hn
      simpa [not_not.1 hn] using ih h

/-- What `writeFrame` accepts it writes whole. -/
theorem writeFrame_ok {output : Writer} {written : List UInt8}
    (h : writeFrame output frame = (written, none)) :
    outsideEnvelope frame = false ∧ (∃ p, parseFrameHeader (frameHeader frame) = .ok p) ∧
      validateFrameData frame = none ∧ written = frameHeader frame ++ frame.data := by
  simp only [writeFrame] at h
  split at h
  · cases (Prod.mk.inj h).2
  rename_i henv
  split at h
  · cases (Prod.mk.inj h).2
  rename_i p hparse
  split at h
  · cases (Prod.mk.inj h).2
  rename_i hvalid
  exact ⟨by simpa using henv, ⟨p, hparse⟩, hvalid, by simpa using writeAll_none h⟩

theorem readFrame_written {output : Writer} {written : List UInt8}
    (h : writeFrame output frame = (written, none)) (tail : List UInt8) (last : Error) :
    readFrame ⟨written ++ tail, last⟩ = (.ok frame.truncated, ⟨tail, last⟩) := by
  obtain ⟨henv, ⟨⟨parsed, size⟩, hparse⟩, hvalid, rfl⟩ := writeFrame_ok h
  obtain ⟨rfl, rfl⟩ := parse_frameHeader henv hparse
  rw [readFrame, List.append_assoc, ← @length_frameHeader frame, readFull_append]
  simp only [hparse, readFull_append]
  have hdata : validateFrameData { frame.truncated with data := frame.data } = none := hvalid
  rw [hdata]
  rfl

/-- A frame whose header's size is within the limit of its kind, whose payload has that size and
    whose times are the header's ticks, computed exactly. -/
structure WithinLimits (header : List UInt8) (frame : Frame) : Prop where
  header_length : header.length = envelopeHeaderBytes
  declared : uint (slice header 28 32) = frame.data.length
  payload : uint (slice header 28 32) ≤ maximum frame.kind
  timestamp : frame.timestamp.toInt = uint (slice header 8 16) * 100
  duration : frame.duration.toInt = uint (slice header 16 24) * 100

theorem readFrame_ok {input rest : Reader} (h : readFrame input = (.ok frame, rest)) :
    ∃ header, input.bytes = header ++ frame.data ++ rest.bytes ∧ WithinLimits header frame := by
  simp only [readFrame] at h
  split at h
  · cases (Prod.mk.inj h).1
  rename_i header after hheader
  split at h
  · cases (Prod.mk.inj h).1
  rename_i parsed size hparse
  split at h
  · cases (Prod.mk.inj h).1
  rename_i data after' hdata
  split at h
  · cases (Prod.mk.inj h).1
  obtain ⟨hframe, rfl⟩ := Prod.mk.inj h
  obtain rfl := Except.ok.inj hframe
  obtain ⟨hbytes, hlength⟩ := readFull_ok hheader
  obtain ⟨hafter, hsize⟩ := readFull_ok hdata
  obtain ⟨hinvalid, hmedia, rfl, rfl⟩ := parseFrameHeader_ok hparse
  simp only [headerInvalid, Bool.or_eq_false_iff, decide_eq_false_iff_not, not_lt] at hinvalid
  simp only [mediaInvalid, Bool.or_eq_false_iff, decide_eq_false_iff_not, not_lt] at hmedia
  refine ⟨header, by rw [hbytes, hafter, List.append_assoc], hlength, hsize.symm, hinvalid.1.2, ?_, ?_⟩
  · exact fromTicks_toInt hmedia.1.1.1.1.1.1.1
  · exact fromTicks_toInt hmedia.1.1.1.1.1.1.2

/-- What `writeFrame` accepts `readFrame` reads back from the front of any stream, and what
    `readFrame` returns is within the limits. -/
theorem frame_codec :
    (∀ output frame written, writeFrame output frame = (written, none) → ∀ tail last,
      readFrame ⟨written ++ tail, last⟩ = (.ok frame.truncated, ⟨tail, last⟩)) ∧
    ∀ input, (∃ err, (readFrame input).1 = .error err) ∨
      ∃ frame header rest, readFrame input = (.ok frame, rest) ∧
        input.bytes = header ++ frame.data ++ rest.bytes ∧ WithinLimits header frame := by
  refine ⟨fun output frame written h tail last => readFrame_written h tail last, ?_⟩
  intro input
  rcases hread : readFrame input with ⟨err | frame, rest⟩
  · exact .inl ⟨err, rfl⟩
  · obtain ⟨header, hbytes, hlimits⟩ := readFrame_ok hread
    exact .inr ⟨frame, header, rest, rfl, hbytes, hlimits⟩

/-- Two bytes of sound: the fractions of ticks are lost on the way. -/
theorem frame_codec_sound :
    let frame : Frame := { kind := framePCM, timestamp := 150, duration := 250, data := [1, 2] }
    let written := (writeFrame (fun _ data => (data.length, none)) frame).1
    ∀ tail last, readFrame ⟨written ++ tail, last⟩ =
      (.ok { frame with timestamp := 100, duration := 200 }, ⟨tail, last⟩) :=
  frame_codec.1 (fun _ data => (data.length, none)) _ _ (by decide)

end Piik.Capture
