/-
  `NatPredictionCandidateEmitter` (`client/webrtc/nat-prediction.ts`): every local
  candidate is forwarded as it comes, and once the server-reflexive ones show an
  arithmetic progression of ports, candidates that continue it are sent as well.
-/
import Piik.Lib.Text

namespace Piik.Client.Prediction

/-! ## Candidates -/

/-- The lowest port that is predicted. -/
def minPredictablePort : ℤ := 1
/-- The highest port that is predicted. -/
def maxPredictablePort : ℤ := 65535
/-- How many ports are predicted on each side. -/
def natPredictionSteps : ℕ := 4
/-- The most predictions of a batch. -/
def maxNatPredictionCandidates : ℕ := natPredictionSteps * 2

/-- A candidate that is not `null`; a field that is absent or `null` is `none`. -/
structure Candidate where
  candidate : String
  sdpMid : Option String := none
  sdpMLineIndex : Option ℕ := none
  usernameFragment : Option String := none
  deriving DecidableEq

/-- `null` ends the candidates. -/
abbrev SignalCandidate := Option Candidate

/-- The username fragment, where it is truthy. -/
def Candidate.fragment (c : Candidate) : Option String := c.usernameFragment.filter (· ≠ "")

/-- The username fragment that a signal was gathered under. -/
def fragment (signal : SignalCandidate) : Option String := signal.bind Candidate.fragment

/-- White space and line ends, as `trim` and `\s` have them. -/
def isSpace (c : Char) : Bool :=
  [0x9, 0xa, 0xb, 0xc, 0xd, 0x20, 0xa0, 0x1680, 0x2028, 0x2029, 0x202f, 0x205f, 0x3000,
    0xfeff].contains c.toNat || (0x2000 ≤ c.toNat && c.toNat ≤ 0x200a)

/-- `text.trim().split(/\s+/)`, with no field for a blank text. -/
def fieldsOf (text : String) : List String :=
  ((text.toList.splitOnP isSpace).filter (· ≠ [])).map String.ofList

/-! ### `Number` -/

/-- Digits in a radix, at least one. -/
def digits (radix : ℕ) (text : List Char) : Option ℕ :=
  if text ≠ [] ∧ text.all (Text.radixDigit · < radix) then some (Text.number radix text) else none

/-- A number without a sign: `1.`, `.5`, `12.50`. -/
def mantissa (text : List Char) : Option ℚ :=
  match Text.cut '.' text with
  | none => (digits 10 text).map fun n => (n : ℚ)
  | some (whole, fraction) =>
    (digits 10 (whole ++ fraction)).map fun n => (n : ℚ) / 10 ^ fraction.length

/-- What stands after the `e` of a number. -/
def exponent : List Char → Option ℤ
  | '+' :: text => (digits 10 text).map fun n => (n : ℤ)
  | '-' :: text => (digits 10 text).map fun n => -(n : ℤ)
  | text => (digits 10 text).map fun n => (n : ℤ)

/-- A number with a decimal point and an exponent, exactly. -/
def decimal (text : List Char) : Option ℚ :=
  match Text.cut 'e' (text.map fun c => if c = 'E' then 'e' else c) with
  | none => mantissa text
  | some (before, after) => (mantissa before).bind fun m => (exponent after).map fun e => m * 10 ^ e

/-- The nearest number with 53 significant bits, an even one between two of them. -/
def toDouble (v : ℚ) : ℚ :=
  if v = 0 then 0 else
    let unit : ℚ := 2 ^ (Int.log 2 v - 52)
    let below := ⌊v / unit⌋
    let rest := v / unit - below
    (if rest < 1 / 2 ∨ rest = 1 / 2 ∧ below % 2 = 0 then below else below + 1) * unit

/-- `Number` of a text without blanks; `none` is `NaN` or infinite. -/
def number (text : String) : Option ℚ :=
  match text.toList with
  | '0' :: 'x' :: rest | '0' :: 'X' :: rest => (digits 16 rest).map fun n => toDouble n
  | '0' :: 'o' :: rest | '0' :: 'O' :: rest => (digits 8 rest).map fun n => toDouble n
  | '0' :: 'b' :: rest | '0' :: 'B' :: rest => (digits 2 rest).map fun n => toDouble n
  | '-' :: rest => (decimal rest).map fun v => -toDouble v
  | '+' :: rest => (decimal rest).map toDouble
  | rest => (decimal rest).map toDouble

/-! ### Server-reflexive candidates -/

/-- A server-reflexive candidate with the fields that are read of it. -/
structure SrflxObservation where
  candidate : Candidate
  fields : List String
  address : String
  port : ℤ
  groupKey : String
  deriving DecidableEq

/-- The field after the first one of this name. -/
def related (fields : List String) (name : String) : String :=
  match fields.findIdx? fun field => field.toLower = name with
  | none => ""
  | some index => fields.getD (index + 1) ""

/-- A port that may be predicted. -/
def inPredictableRange (port : ℤ) : Bool := minPredictablePort ≤ port && port ≤ maxPredictablePort

/-- The port a field spells. -/
def portOf (field : String) : Option ℤ :=
  match number field with
  | none => none
  | some value => if value.den = 1 && inPredictableRange value.num then some value.num else none

/-- The names are compared in lower case; no other letter has one of theirs as its lower case. -/
def parseSrflxCandidate (c : Candidate) : Option SrflxObservation :=
  let fields := fieldsOf c.candidate
  let typeIndex := fields.findIdx fun field => field.toLower = "typ"
  if fields.length < 8 || !(fields.getD 0 "").toLower.startsWith "candidate:" ||
      (fields.getD 2 "").toLower ≠ "udp" || fields.length ≤ typeIndex ||
      (fields.getD (typeIndex + 1) "").toLower ≠ "srflx" then none
  else match portOf (fields.getD 5 "") with
    | none => none
    | some port =>
      let address := fields.getD 4 ""
      -- one public address may cover several local sockets
      let groupKey := "/".intercalate
        [c.sdpMid.getD "", (c.sdpMLineIndex.map toString).getD "", fields.getD 1 "",
          related fields "raddr", related fields "rport", address]
      some { candidate := c, fields, address, port, groupKey }

/-! ## Predictions -/

/-- Keeps the first observation of every port of a group. -/
def distinctObservations (observations : List SrflxObservation) : List SrflxObservation :=
  observations.foldl (fun seen o =>
    if seen.any fun s => s.groupKey = o.groupKey && s.port = o.port then seen else seen ++ [o]) []

/-- The observations by port. -/
def byPort (observations : List SrflxObservation) : List SrflxObservation :=
  observations.mergeSort fun left right => left.port ≤ right.port

/-- The step between the ports, where it is the same everywhere. -/
def stableStep (observations : List SrflxObservation) : Option ℤ :=
  if observations.length < 3 then none else
  match byPort observations with
  | first :: second :: rest =>
    let step := second.port - first.port
    if step ≤ 0 || ((first :: second :: rest).zip (second :: rest)).any
        (fun pair => pair.2.port - pair.1.port ≠ step) then none
    else some step
  | _ => none

/-- The anchor's candidate under another foundation and port. -/
def predicted (anchor : SrflxObservation) (letter : String) (index : ℕ) (port : ℤ) : Candidate :=
  { anchor.candidate with
    candidate := " ".intercalate
      ((anchor.fields.set 0 s!"candidate:s{letter}{index}").set 5 (toString port)) }

/-- The predictions on one side of an anchor. -/
def predictedBeside (anchor : SrflxObservation) (letter : String) (direction step : ℤ) :
    List Candidate :=
  (List.range natPredictionSteps).filterMap fun i =>
    let port := anchor.port + direction * step * (i + 1 : ℕ)
    if inPredictableRange port then some (predicted anchor letter (i + 1) port) else none

/-- The ports beyond the highest and the lowest that were observed. -/
def predictedAround (low high : SrflxObservation) (step : ℤ) : List Candidate :=
  predictedBeside high "p" 1 step ++ predictedBeside low "m" (-1) step

/-- Adds an observation to the group of its key, or opens the group. -/
def intoGroup (o : SrflxObservation) :
    List (String × List SrflxObservation) → List (String × List SrflxObservation)
  | [] => [(o.groupKey, [o])]
  | (key, group) :: groups =>
    if key = o.groupKey then (key, group ++ [o]) :: groups else (key, group) :: intoGroup o groups

/-- The observations by the base that they were made from. -/
def groupsOf (observations : List SrflxObservation) : List (String × List SrflxObservation) :=
  observations.foldl (fun groups o => intoGroup o groups) []

/-- The first group with a stable step is continued. -/
def predictFrom : List (String × List SrflxObservation) → List Candidate
  | [] => []
  | (_, group) :: groups =>
    let distinct := distinctObservations group
    match stableStep distinct with
    | none => predictFrom groups
    | some step => match byPort distinct with
      | [] => []
      | first :: rest =>
        (predictedAround first ((first :: rest).getLast (by simp)) step).take
          maxNatPredictionCandidates

/-- The predictions from the candidates of a batch. -/
def predictSrflxCandidates (candidates : List Candidate) : List Candidate :=
  predictFrom (groupsOf (candidates.filterMap parseSrflxCandidate))

/-! ## Batches -/

/-- A candidate, and whether predictions may be made from it. -/
abbrev Seen := Candidate × Bool

/-- What is sent, the batches numbered as they are opened. -/
inductive Sent
  | concrete (batch : ℕ) (seen : Seen)
  | predicted (batch : ℕ) (c : Candidate)
  /-- The end marker that closes a batch. -/
  | ending (batch : ℕ) (marker : SignalCandidate)
  /-- An end marker that closes no batch. -/
  | passed (marker : SignalCandidate)
  deriving DecidableEq

/-- The candidates of one gathering. -/
structure Batch where
  number : ℕ
  observedSrflx : List Candidate := []
  predictionsSent : Bool := false
  completed : Bool := false

namespace Batch

/-- Send the predictions, once, if there are any. -/
def trySendPredictions (b : Batch) : Batch × List Sent :=
  if b.predictionsSent then (b, []) else
  let predictions := predictSrflxCandidates b.observedSrflx
  if predictions = [] then (b, [])
  else ({ b with predictionsSent := true }, predictions.map (.predicted b.number))

/-- A candidate is kept for the predictions if it is eligible, and sent. -/
def add (b : Batch) (c : Candidate) (predictionEligible : Bool) : Batch × List Sent :=
  if b.completed then (b, [])
  else if (parseSrflxCandidate c).isNone then (b, [.concrete b.number (c, predictionEligible)])
  else if predictionEligible then
    let (b, sent) := { b with observedSrflx := b.observedSrflx ++ [c] }.trySendPredictions
    (b, sent ++ [.concrete b.number (c, predictionEligible)])
  else (b, [.concrete b.number (c, predictionEligible)])

/-- The last predictions, and the end marker. A batch ends once. -/
def complete (b : Batch) (marker : SignalCandidate) : Batch × List Sent :=
  if b.completed then (b, []) else
  let (b, sent) := b.trySendPredictions
  ({ b with completed := true }, sent ++ [.ending b.number marker])

end Batch

/-! ## The emitter -/

/-- The batch of the present generation. -/
structure Emitter where
  enabled : Bool
  batch : Option Batch := none
  generation : Option Candidate := none
  endSent : Bool := false
  /-- The batches opened so far. -/
  opened : ℕ := 0
  /-- What was handed to `send`. -/
  log : List Sent := []

/-- The calls of the peer connection. -/
inductive Call
  | addSignal (next : SignalCandidate) (predictionEligible : Bool)
  | gatheringComplete
  | discard

namespace Emitter

/-- The batch is left; nothing else holds it. -/
def discard (e : Emitter) : Emitter :=
  { e with batch := none, generation := none, endSent := false }

/-- End the batch, if there is one, with the marker. -/
def completeBatch (e : Emitter) (marker : SignalCandidate) : Emitter :=
  match e.batch with
  | none =>
    if !e.endSent && (fragment marker).isSome then
      { e with generation := marker, endSent := true, log := e.log ++ [.passed marker] }
    else e
  | some b =>
    -- an unscoped end is kept with the candidates that were gathered
    let marker := if (fragment marker).isSome then marker
      else if (fragment e.generation).isSome then
        e.generation.map fun g => { g with candidate := "" }
      else none
    { e with batch := none, endSent := true, log := e.log ++ (b.complete marker).2 }

/-- A candidate joins the open batch, or opens one. -/
def addConcrete (e : Emitter) (next : Candidate) (predictionEligible : Bool) : Emitter :=
  let e := if e.batch.isSome && (fragment e.generation).isSome && next.fragment.isSome &&
      next.fragment ≠ fragment e.generation then e.discard else e
  let e := if e.batch.isSome then e else
    { e with generation := some next, endSent := false
             batch := some { number := e.opened }, opened := e.opened + 1 }
  match e.batch with
  | none => e
  | some b =>
    let (b, sent) := b.add next (e.enabled && predictionEligible)
    { e with batch := some b, log := e.log ++ sent }

/-- A candidate, or the end of one gathering. -/
def addSignal (e : Emitter) (next : SignalCandidate) (predictionEligible : Bool) : Emitter :=
  match next with
  | none => e.completeBatch none
  | some c =>
    if c.candidate = "" then
      -- an end of another generation is forwarded and completes nothing
      if c.fragment.isSome && (fragment e.generation).isSome && c.fragment ≠ fragment e.generation
      then { e with log := e.log ++ [.passed c] }
      else e.completeBatch c
    else e.addConcrete c predictionEligible

/-- One call. -/
def step (e : Emitter) : Call → Emitter
  | .addSignal next predictionEligible => e.addSignal next predictionEligible
  | .gatheringComplete => e.completeBatch none
  | .discard => e.discard

/-- The calls one after the other. -/
def run (enabled : Bool) (calls : List Call) : Emitter := calls.foldl step { enabled }

end Emitter

/-! ## Groups -/

section Groups

variable {o : SrflxObservation} {observations group : List SrflxObservation} {key : String}
  {groups : List (String × List SrflxObservation)} {p : String × List SrflxObservation}

/-- The observations of a key. -/
def ofKey (key : String) (observations : List SrflxObservation) : List SrflxObservation :=
  observations.filter fun o => o.groupKey = key

theorem mem_intoGroup_key :
    key ∈ (intoGroup o groups).map Prod.fst ↔ key = o.groupKey ∨ key ∈ groups.map Prod.fst := by
  induction groups with
  | nil => simp [intoGroup]
  | cons p groups ih =>
    obtain ⟨k, group⟩ := p
    by_cases hk : k = o.groupKey
    · simp [intoGroup, hk]
    · simp only [intoGroup, hk, if_false, List.map_cons, List.mem_cons, ih]
      tauto

theorem nodup_intoGroup (h : (groups.map Prod.fst).Nodup) :
    ((intoGroup o groups).map Prod.fst).Nodup := by
  induction groups with
  | nil => simp [intoGroup]
  | cons p groups ih =>
    obtain ⟨k, group⟩ := p
    rw [List.map_cons, List.nodup_cons] at h
    by_cases hk : k = o.groupKey
    · simpa [intoGroup, hk] using ⟨by simpa [hk] using h.1, h.2⟩
    · rw [intoGroup, if_neg hk, List.map_cons, List.nodup_cons, mem_intoGroup_key]
      exact ⟨not_or.2 ⟨hk, h.1⟩, ih h.2⟩

/-- An observation joins the group of its key and no other. -/
theorem mem_intoGroup (h : p ∈ intoGroup o groups) (hnodup : (groups.map Prod.fst).Nodup) :
    (p.1 ≠ o.groupKey ∧ p ∈ groups) ∨ (∃ group, (p.1, group) ∈ groups ∧ p.2 = group ++ [o] ∧
      p.1 = o.groupKey) ∨ (o.groupKey ∉ groups.map Prod.fst ∧ p = (o.groupKey, [o])) := by
  induction groups with
  | nil =>
    right; right
    exact ⟨by simp, List.mem_singleton.1 h⟩
  | cons q groups ih =>
    obtain ⟨k, group⟩ := q
    rw [List.map_cons, List.nodup_cons] at hnodup
    by_cases hk : k = o.groupKey
    · rw [intoGroup, if_pos hk] at h
      rcases List.mem_cons.1 h with rfl | h
      · exact .inr (.inl ⟨group, by simp, rfl, hk⟩)
      · refine .inl ⟨?_, List.mem_cons_of_mem _ h⟩
        intro hkey
        exact hnodup.1 (List.mem_map.2 ⟨p, h, hkey.trans hk.symm⟩)
    · rw [intoGroup, if_neg hk] at h
      rcases List.mem_cons.1 h with rfl | h
      · exact .inl ⟨hk, by simp⟩
      · rcases ih h hnodup.2 with ⟨hne, hmem⟩ | ⟨g, hmem, hg, hkey⟩ | ⟨hnot, rfl⟩
        · exact .inl ⟨hne, List.mem_cons_of_mem _ hmem⟩
        · exact .inr (.inl ⟨g, List.mem_cons_of_mem _ hmem, hg, hkey⟩)
        · exact .inr (.inr ⟨by simpa [Ne.symm hk] using hnot, rfl⟩)

/-- The groups are the observations by their keys. -/
theorem groupsOf_spec (observations : List SrflxObservation) :
    ((groupsOf observations).map Prod.fst).Nodup ∧
      (∀ o ∈ observations, o.groupKey ∈ (groupsOf observations).map Prod.fst) ∧
      ∀ p ∈ groupsOf observations, p.2 = ofKey p.1 observations := by
  induction observations using List.reverseRecOn with
  | nil => simp [groupsOf]
  | append_singleton observations o ih =>
    obtain ⟨hnodup, hkeys, hgroup⟩ := ih
    have hstep : groupsOf (observations ++ [o]) = intoGroup o (groupsOf observations) := by
      simp [groupsOf]
    rw [hstep]
    refine ⟨nodup_intoGroup hnodup, ?_, ?_⟩
    · intro o' ho'
      rw [mem_intoGroup_key]
      rcases List.mem_append.1 ho' with ho' | ho'
      · exact .inr (hkeys o' ho')
      · exact .inl (by rw [List.mem_singleton.1 ho'])
    · intro p hp
      rcases mem_intoGroup hp hnodup with ⟨hne, hmem⟩ | ⟨group, hmem, hp2, hkey⟩ | ⟨hnot, rfl⟩
      · rw [hgroup p hmem]
        simp [ofKey, Ne.symm hne]
      · have hgroup : group = ofKey p.1 observations := hgroup _ hmem
        rw [hp2, hgroup]
        simp [ofKey, hkey]
      · have hempty : ofKey o.groupKey observations = [] := by
          rw [ofKey, List.filter_eq_nil_iff]
          intro o' ho' hkey
          have heq : o'.groupKey = o.groupKey := by simpa using hkey
          exact hnot (heq ▸ hkeys o' ho')
        simpa [ofKey] using hempty

/-- The ports of a group are kept, and every observation kept is one of the group. -/
theorem distinctObservations_spec (observations : List SrflxObservation) :
    (∀ o ∈ distinctObservations observations, o ∈ observations) ∧
      ∀ o ∈ observations, ∃ s ∈ distinctObservations observations, s.port = o.port := by
  induction observations using List.reverseRecOn with
  | nil => simp [distinctObservations]
  | append_singleton observations o ih =>
    obtain ⟨hsub, hport⟩ := ih
    rw [distinctObservations, List.foldl_append, ← distinctObservations]
    simp only [List.foldl_cons, List.foldl_nil]
    split
    · rename_i hseen
      obtain ⟨s, hs, heq⟩ := List.any_eq_true.1 hseen
      simp only [Bool.and_eq_true, decide_eq_true_eq] at heq
      refine ⟨fun o' ho' => List.mem_append_left _ (hsub o' ho'), fun o' ho' => ?_⟩
      rcases List.mem_append.1 ho' with ho' | ho'
      · exact hport o' ho'
      · obtain rfl := List.mem_singleton.1 ho'
        exact ⟨s, hs, heq.2⟩
    · refine ⟨fun o' ho' => ?_, fun o' ho' => ?_⟩
      · rcases List.mem_append.1 ho' with ho' | ho'
        · exact List.mem_append_left _ (hsub o' ho')
        · exact List.mem_append_right _ ho'
      · rcases List.mem_append.1 ho' with ho' | ho'
        · obtain ⟨s, hs, heq⟩ := hport o' ho'
          exact ⟨s, List.mem_append_left _ hs, heq⟩
        · exact ⟨o', List.mem_append_right _ ho', rfl⟩

end Groups

/-! ## Progressions -/

section Progressions

variable {low high : SrflxObservation} {step : ℤ} {count : ℕ} {group l : List SrflxObservation}

/-- The ports of a group run from the lowest to the highest in equal steps. -/
structure Progression (group : List SrflxObservation) (low high : SrflxObservation) (step : ℤ)
    (count : ℕ) : Prop where
  low_mem : low ∈ group
  high_mem : high ∈ group
  step_pos : 0 < step
  enough : 2 ≤ count
  last : high.port = low.port + count * step
  ports : ∀ port, (∃ o ∈ group, o.port = port) ↔ ∃ k ≤ count, port = low.port + k * step

theorem mem_byPort {o : SrflxObservation} : o ∈ byPort l ↔ o ∈ l := List.mem_mergeSort

/-- Equal steps between neighbours put the ports at multiples of the step. -/
theorem ports_of_steps {rest : List SrflxObservation}
    (h : ∀ pair ∈ (low :: rest).zip rest, pair.2.port - pair.1.port = step) :
    (∀ port, (∃ o ∈ low :: rest, o.port = port) ↔
        ∃ k ≤ rest.length, port = low.port + k * step) ∧
      ((low :: rest).getLast (by simp)).port = low.port + rest.length * step := by
  induction rest generalizing low with
  | nil => simp [eq_comm]
  | cons second rest ih =>
    have hfirst : second.port - low.port = step := h (low, second) (by simp)
    obtain ⟨hports, hlast⟩ := ih fun pair hpair => h pair (List.mem_cons_of_mem _ hpair)
    constructor
    · intro port
      rw [List.exists_mem_cons_iff, hports]
      constructor
      · rintro (rfl | ⟨k, hk, rfl⟩)
        · exact ⟨0, Nat.zero_le _, by simp⟩
        · refine ⟨k + 1, Nat.succ_le_succ hk, ?_⟩
          push_cast
          linear_combination hfirst
      · rintro ⟨k, hk, rfl⟩
        cases k with
        | zero => exact .inl (by simp)
        | succ k =>
          refine .inr ⟨k, Nat.le_of_succ_le_succ hk, ?_⟩
          push_cast
          linear_combination -hfirst
    · rw [List.getLast_cons_cons, hlast, List.length_cons]
      push_cast
      linear_combination hfirst

theorem stableStep_spec (h : stableStep l = some step) :
    ∃ low rest, byPort l = low :: rest ∧ 0 < step ∧ 2 ≤ rest.length ∧
      ∀ pair ∈ (low :: rest).zip rest, pair.2.port - pair.1.port = step := by
  simp only [stableStep] at h
  split at h
  · cases h
  rename_i hlength
  split at h
  · rename_i first second rest hsorted
    split at h
    · cases h
    rename_i hsteps
    obtain rfl := Option.some.inj h
    simp only [Bool.or_eq_true, decide_eq_true_eq, List.any_eq_true, not_or, not_exists, not_and,
      not_le, ne_eq, not_not] at hsteps
    refine ⟨first, second :: rest, hsorted, hsteps.1, ?_, fun pair hpair => hsteps.2 pair hpair⟩
    have := congrArg List.length hsorted
    simp only [byPort, List.length_mergeSort, List.length_cons] at this ⊢
    omega
  · cases h

/-- A stable step makes a progression of a group. -/
theorem progression_of_stableStep (h : stableStep (distinctObservations group) = some step) :
    ∃ low rest, byPort (distinctObservations group) = low :: rest ∧
      Progression group low ((low :: rest).getLast (by simp)) step rest.length := by
  obtain ⟨low, rest, hsorted, hpos, henough, hsteps⟩ := stableStep_spec h
  obtain ⟨hports, hlast⟩ := ports_of_steps hsteps
  obtain ⟨hsub, hport⟩ := distinctObservations_spec group
  have hmem : ∀ o, o ∈ low :: rest ↔ o ∈ distinctObservations group := by
    intro o
    rw [← hsorted, mem_byPort]
  refine ⟨low, rest, hsorted, ?_, ?_, hpos, henough, hlast, ?_⟩
  · exact hsub _ ((hmem _).1 (by simp))
  · exact hsub _ ((hmem _).1 (List.getLast_mem _))
  · intro port
    rw [← hports]
    constructor
    · rintro ⟨o, ho, rfl⟩
      obtain ⟨s, hs, heq⟩ := hport o ho
      exact ⟨s, (hmem s).2 hs, heq⟩
    · rintro ⟨o, ho, rfl⟩
      exact ⟨o, hsub o ((hmem o).1 ho), rfl⟩

/-- A port a step or more beyond either end is none of the group's. -/
theorem Progression.beyond (h : Progression group low high step count) {index : ℕ}
    (hindex : 1 ≤ index) {port : ℤ}
    (hport : port = high.port + step * index ∨ port = low.port - step * index) :
    ∀ o ∈ group, o.port ≠ port := by
  intro o ho heq
  obtain ⟨k, hk, hkport⟩ := (h.ports port).1 ⟨o, ho, heq⟩
  have hstep := h.step_pos
  have hbeyond : 0 < step * index := mul_pos hstep (by exact_mod_cast hindex)
  have hlow : 0 ≤ (k : ℤ) * step := by positivity
  have hhigh : (k : ℤ) * step ≤ count * step :=
    mul_le_mul_of_nonneg_right (by exact_mod_cast hk) hstep.le
  have hlast := h.last
  rcases hport with hport | hport <;> omega

/-- The predictions that the candidates of one batch give: they continue the progression of one
    group by up to four steps on both sides, as far as there are ports. -/
structure Extends (group : List SrflxObservation) (low high : SrflxObservation) (step : ℤ)
    (count : ℕ) (predictions : List Candidate) : Prop where
  progression : Progression group low high step count
  bounded : predictions.length ≤ maxNatPredictionCandidates
  beside : ∀ c, c ∈ predictions ↔ ∃ index port, 1 ≤ index ∧ index ≤ natPredictionSteps ∧
    inPredictableRange port = true ∧
    (port = high.port + step * index ∧ c = predicted high "p" index port ∨
      port = low.port - step * index ∧ c = predicted low "m" index port)
  fresh : ∀ index port, 1 ≤ index →
    (port = high.port + step * (index : ℕ) ∨ port = low.port - step * index) →
      ∀ o ∈ group, o.port ≠ port

theorem mem_predictedBeside {anchor : SrflxObservation} {letter : String} {direction : ℤ}
    {c : Candidate} : c ∈ predictedBeside anchor letter direction step ↔
      ∃ index port, 1 ≤ index ∧ index ≤ natPredictionSteps ∧ inPredictableRange port = true ∧
        port = anchor.port + direction * step * (index : ℕ) ∧
          c = predicted anchor letter index port := by
  simp only [predictedBeside, List.mem_filterMap, List.mem_range]
  constructor
  · rintro ⟨i, hi, heq⟩
    split at heq
    · rename_i hrange
      exact ⟨i + 1, _, Nat.succ_pos i, hi, hrange, rfl, (Option.some.inj heq).symm⟩
    · cases heq
  · rintro ⟨index, port, hpos, hindex, hrange, rfl, rfl⟩
    obtain ⟨i, rfl⟩ := Nat.exists_eq_add_of_le' hpos
    exact ⟨i, hindex, by rw [if_pos hrange]⟩

theorem length_predictedAround :
    (predictedAround low high step).length ≤ maxNatPredictionCandidates := by
  have hside : ∀ anchor letter direction,
      (predictedBeside anchor letter direction step).length ≤ natPredictionSteps := by
    intro anchor letter direction
    exact (List.length_filterMap_le _ _).trans (by simp)
  rw [predictedAround, List.length_append, maxNatPredictionCandidates, Nat.mul_two]
  exact Nat.add_le_add (hside _ _ _) (hside _ _ _)

theorem Progression.extends (h : Progression group low high step count) :
    Extends group low high step count
      ((predictedAround low high step).take maxNatPredictionCandidates) := by
  rw [List.take_of_length_le length_predictedAround]
  refine ⟨h, length_predictedAround, ?_, fun index port hindex hport => h.beyond hindex hport⟩
  intro c
  rw [predictedAround, List.mem_append, mem_predictedBeside, mem_predictedBeside, ← exists_or]
  apply exists_congr
  intro index
  rw [← exists_or]
  apply exists_congr
  intro port
  have hup : high.port + 1 * step * index = high.port + step * index := by ring
  have hdown : low.port + -1 * step * index = low.port - step * index := by ring
  rw [hup, hdown]
  tauto

end Progressions

/-- What is predicted continues the progression of a group of the observed candidates. -/
theorem predictSrflxCandidates_spec (observed : List Candidate) :
    predictSrflxCandidates observed = [] ∨ ∃ key low high step count,
      Extends (ofKey key (observed.filterMap parseSrflxCandidate)) low high step count
        (predictSrflxCandidates observed) := by
  have hall : ∀ groups, (∀ p ∈ groups, p ∈ groupsOf (observed.filterMap parseSrflxCandidate)) →
      predictFrom groups = [] ∨ ∃ key low high step count,
        Extends (ofKey key (observed.filterMap parseSrflxCandidate)) low high step count
          (predictFrom groups) := by
    intro groups hgroups
    induction groups with
    | nil => exact .inl rfl
    | cons p groups ih =>
      obtain ⟨key, group⟩ := p
      cases hstep : stableStep (distinctObservations group) with
      | none =>
        rw [predictFrom, hstep]
        exact ih fun p hp => hgroups p (List.mem_cons_of_mem _ hp)
      | some step =>
        obtain ⟨low, rest, hsorted, hprogression⟩ := progression_of_stableStep hstep
        have hgroup : group = ofKey key (observed.filterMap parseSrflxCandidate) :=
          (groupsOf_spec _).2.2 _ (hgroups (key, group) List.mem_cons_self)
        right
        refine ⟨key, low, (low :: rest).getLast (by simp), step, rest.length, ?_⟩
        rw [← hgroup]
        simp only [predictFrom, hstep, hsorted]
        exact hprogression.extends
  exact hall _ fun p hp => hp

/-! ## What a batch sends -/

/-- The batch an entry belongs to. -/
def Sent.inBatch (n : ℕ) : Sent → Bool
  | .concrete m _ | .predicted m _ | .ending m _ => m = n
  | .passed _ => false

/-- The candidate of an entry, where it is one that was handed over. -/
def Sent.concrete? : Sent → Option Seen
  | .concrete _ seen => some seen
  | _ => none

/-- The marker of an entry, where it is an end. -/
def Sent.end? : Sent → Option SignalCandidate
  | .ending _ marker | .passed marker => some marker
  | _ => none

/-- The entries of one batch. -/
def ofBatch (n : ℕ) (log : List Sent) : List Sent := log.filter (·.inBatch n)

/-- The server-reflexive candidates predictions may be made from. -/
def observedOf (seen : List Seen) : List SrflxObservation :=
  (seen.filter Prod.snd).filterMap fun s => parseSrflxCandidate s.1

/-- The predictions are those of a group of everything seen that may be predicted from. -/
def Predicts (seen : List Seen) (predictions : List Candidate) : Prop :=
  predictions = [] ∨ ∃ (key : String) (low high : SrflxObservation) (step : ℤ) (count : ℕ),
    Extends (ofKey key (observedOf seen)) low high step count predictions

theorem predicts_predictSrflxCandidates {observed : List Candidate} {seen : List Seen}
    (h : observed.filterMap parseSrflxCandidate = observedOf seen) :
    Predicts seen (predictSrflxCandidates observed) := by
  have hspec := predictSrflxCandidates_spec observed
  rw [h] at hspec
  exact hspec

section Batches

variable {b : Batch} {generation : Option Candidate} {entries : List Sent} {n : ℕ}
  {early late seen : List Seen} {predictions : List Candidate} {pending : Option Seen}
  {c : Candidate}

theorem observedOf_append {more : List Seen} :
    observedOf (seen ++ more) = observedOf seen ++ observedOf more := by
  simp [observedOf, List.filterMap_append]

/-- A batch sends its candidates, its predictions once among them, and at most one end after
    them, under the fragment of its first candidate. -/
structure BatchShape (n : ℕ) (entries : List Sent) (early : List Seen)
    (predictions : List Candidate) (late : List Seen) (closing : Option SignalCandidate) :
    Prop where
  sent : entries = early.map (.concrete n) ++ predictions.map (.predicted n) ++
    late.map (.concrete n) ++ closing.toList.map (.ending n)
  predicts : Predicts (early ++ late.take 1) predictions
  marked : ∀ marker ∈ closing, ∀ g ∈ (early ++ late).head?, g.1.fragment.isSome = true →
    fragment marker = g.1.fragment

/-- An open batch, with the candidate that is to be sent next. -/
structure Running (b : Batch) (generation : Option Candidate) (entries : List Sent)
    (early : List Seen) (predictions : List Candidate) (late : List Seen)
    (pending : Option Seen) : Prop where
  running : b.completed = false
  sent : entries = early.map (.concrete b.number) ++ predictions.map (.predicted b.number) ++
    late.map (.concrete b.number)
  predicts : Predicts (early ++ (late ++ pending.toList).take 1) predictions
  unsent : b.predictionsSent = false → predictions = [] ∧ late = [] ∧
    b.observedSrflx.filterMap parseSrflxCandidate = observedOf (early ++ pending.toList)
  /-- Predictions are sent before the candidate that completes their progression. -/
  begun : b.predictionsSent = true → late ++ pending.toList ≠ []
  first : ∀ g ∈ (early ++ late ++ pending.toList).head?, generation = some g.1

theorem Batch.trySendPredictions_number : b.trySendPredictions.1.number = b.number := by
  unfold Batch.trySendPredictions
  grind

/-- A candidate is about to be sent that the batch observes, or one that it does not. -/
theorem Running.pend {s : Seen} (h : Running b generation entries early predictions late none)
    (observedSrflx : List Candidate)
    (hfirst : early ++ late = [] → generation = some s.1)
    (hobserved : observedSrflx.filterMap parseSrflxCandidate =
      b.observedSrflx.filterMap parseSrflxCandidate ++ observedOf [s]) :
    Running { b with observedSrflx } generation entries early predictions late (some s) := by
  refine ⟨h.running, h.sent, ?_, fun hsent => ?_, fun _ => by simp, ?_⟩
  · cases hsent : b.predictionsSent with
    | false => exact .inl (h.unsent hsent).1
    | true =>
      have hlate := h.begun hsent
      have hpredicts := h.predicts
      rcases late with - | ⟨x, late⟩
      · simp at hlate
      · simpa using hpredicts
  · obtain ⟨hp, hl, heq⟩ := h.unsent hsent
    refine ⟨hp, hl, ?_⟩
    rw [hobserved, heq, ← observedOf_append]
    simp
  · intro g hg
    rcases hlist : early ++ late with - | ⟨x, xs⟩
    · rw [hlist] at hg
      obtain rfl : s = g := by simpa using hg
      exact hfirst hlist
    · have := h.first g
      rw [hlist] at hg this
      exact this (by simpa using hg)

/-- Predictions go after what was sent and continue all that is observed. -/
theorem Running.continued (h : Running b generation entries early predictions late pending) :
    ∃ predictions' : List Candidate,
      entries ++ b.trySendPredictions.2 = early.map (.concrete b.number) ++
        predictions'.map (.predicted b.number) ++ late.map (.concrete b.number) ∧
      Predicts (early ++ (late ++ pending.toList).take 1) predictions' ∧
      b.trySendPredictions.1.completed = false ∧
      (b.trySendPredictions.1.predictionsSent = false →
        predictions' = [] ∧ b.trySendPredictions.1 = b) := by
  unfold Batch.trySendPredictions
  split
  · rename_i hsent
    exact ⟨predictions, by simpa using h.sent, h.predicts, h.running, by simp [hsent]⟩
  rename_i hunsent
  obtain ⟨rfl, rfl, hobserved⟩ := h.unsent (by simpa using hunsent)
  dsimp only
  split
  · exact ⟨[], by simpa using h.sent, .inl rfl, h.running, fun _ => ⟨rfl, rfl⟩⟩
  · refine ⟨predictSrflxCandidates b.observedSrflx, by simp [h.sent], ?_, h.running, nofun⟩
    apply predicts_predictSrflxCandidates
    rw [hobserved]
    cases pending <;> rfl

theorem Running.predict {s : Seen}
    (h : Running b generation entries early predictions late (some s)) :
    ∃ predictions', Running b.trySendPredictions.1 generation (entries ++ b.trySendPredictions.2)
      early predictions' late (some s) := by
  obtain ⟨predictions', hsent, hpredicts, hrunning, hunsent⟩ := h.continued
  refine ⟨predictions', hrunning, ?_, hpredicts, fun hfalse => ?_, fun _ => by simp, h.first⟩
  · rw [hsent, Batch.trySendPredictions_number]
  · obtain ⟨hnil, hsame⟩ := hunsent hfalse
    rw [hsame] at hfalse ⊢
    exact ⟨hnil, (h.unsent hfalse).2⟩

theorem Running.settle {s : Seen}
    (h : Running b generation entries early predictions late (some s)) :
    ∃ early' late', early' ++ late' = early ++ late ++ [s] ∧
      Running b generation (entries ++ [.concrete b.number s]) early' predictions late' none := by
  cases hsent : b.predictionsSent with
  | false =>
    obtain ⟨rfl, rfl, hobserved⟩ := h.unsent hsent
    refine ⟨early ++ [s], [], by simp, h.running, by simp [h.sent], .inl rfl, fun _ => ?_, ?_, ?_⟩
    · exact ⟨rfl, rfl, by simpa using hobserved⟩
    · simp [hsent]
    · simpa using h.first
  | true =>
    refine ⟨early, late ++ [s], by simp, h.running, by simp [h.sent], ?_, ?_, ?_, ?_⟩
    · simpa using h.predicts
    · simp [hsent]
    · simp
    · simpa using h.first

theorem Running.add (h : Running b generation entries early predictions late none)
    (hfirst : early ++ late = [] → generation = some c) (predictionEligible : Bool) :
    ∃ early' predictions' late', early' ++ late' = early ++ late ++ [(c, predictionEligible)] ∧
      Running (b.add c predictionEligible).1 generation
        (entries ++ (b.add c predictionEligible).2) early' predictions' late' none := by
  unfold Batch.add
  rw [if_neg (by simp [h.running])]
  split
  · rename_i hnone
    obtain ⟨early', late', happend, hrun⟩ := (h.pend (s := (c, predictionEligible))
      b.observedSrflx hfirst (by simp_all [observedOf, List.filter_cons])).settle
    exact ⟨early', predictions, late', happend, hrun⟩
  split
  · rename_i heligible
    obtain ⟨predictions', hrun⟩ := (h.pend (s := (c, predictionEligible)) (b.observedSrflx ++ [c])
      hfirst (by simp [observedOf, heligible, List.filterMap_cons])).predict
    obtain ⟨early', late', happend, hrun⟩ := hrun.settle
    refine ⟨early', predictions', late', happend, ?_⟩
    rw [List.append_assoc] at hrun
    exact hrun
  · rename_i hplain
    obtain ⟨early', late', happend, hrun⟩ := (h.pend (s := (c, predictionEligible))
      b.observedSrflx hfirst (by simp [observedOf, hplain])).settle
    exact ⟨early', predictions, late', happend, hrun⟩

theorem Running.shape (h : Running b generation entries early predictions late none) :
    BatchShape b.number entries early predictions late none :=
  ⟨by simpa using h.sent, by simpa using h.predicts, by simp⟩

/-- The end of a batch closes it. -/
theorem Running.complete (h : Running b generation entries early predictions late none)
    (marker : SignalCandidate)
    (hmarker : ∀ g, generation = some g → g.fragment.isSome = true → fragment marker = g.fragment) :
    ∃ predictions', BatchShape b.number (entries ++ (b.complete marker).2) early predictions' late
      (some marker) := by
  obtain ⟨predictions', hsent, hpredicts, -, -⟩ := h.continued
  refine ⟨predictions', ?_, by simpa using hpredicts, ?_⟩
  · unfold Batch.complete
    rw [if_neg (by simp [h.running])]
    dsimp only
    rw [← List.append_assoc, hsent, Batch.trySendPredictions_number]
    rfl
  · rintro _ ⟨⟩ g hg
    exact hmarker g.1 (h.first g (by simpa using hg))

/-- The first candidate of the entries. -/
theorem Running.head (h : Running b generation entries early predictions late none)
    (hne : early ++ late ≠ []) :
    ((entries.filterMap Sent.concrete?).head?).map Prod.fst = generation := by
  have hall : entries.filterMap Sent.concrete? = early ++ late := by
    rw [h.sent]
    simp [Sent.concrete?, Function.comp_def, List.filterMap_append]
  rw [hall]
  obtain ⟨g, hg⟩ := Option.ne_none_iff_exists'.1 (mt List.head?_eq_none_iff.1 hne)
  rw [hg, h.first g (by simpa using hg)]
  rfl

end Batches

/-! ## Runs -/

section Runs

variable {e e' : Emitter} {b : Batch} {m n : ℕ} {sent : List Sent} {c : Candidate}

/-- The entries are of one batch. -/
def Belongs (m : ℕ) (sent : List Sent) : Prop := ∀ x ∈ sent, ∀ n, x.inBatch n = decide (m = n)

theorem ofBatch_append {l : List Sent} : ofBatch n (l ++ sent) = ofBatch n l ++ ofBatch n sent :=
  List.filter_append _ _

theorem Belongs.same (h : Belongs m sent) : ofBatch m sent = sent :=
  List.filter_eq_self.2 fun x hx => by simp [h x hx m]

theorem Belongs.other (h : Belongs m sent) (hne : m ≠ n) : ofBatch n sent = [] :=
  List.filter_eq_nil_iff.2 fun x hx => by simp [h x hx n, hne]

theorem Batch.trySendPredictions_sent : ∃ predictions : List Candidate,
    b.trySendPredictions.2 = predictions.map (.predicted b.number) := by
  unfold Batch.trySendPredictions
  split
  · exact ⟨[], rfl⟩
  dsimp only
  split
  · exact ⟨[], rfl⟩
  · exact ⟨_, rfl⟩

theorem Batch.add_sent (h : b.completed = false) (predictionEligible : Bool) :
    ∃ predictions : List Candidate, (b.add c predictionEligible).2 =
      predictions.map (.predicted b.number) ++
        [.concrete b.number (c, predictionEligible)] := by
  unfold Batch.add
  rw [if_neg (by simp [h])]
  split
  · exact ⟨[], rfl⟩
  split
  · obtain ⟨predictions, hsent⟩ :=
      trySendPredictions_sent (b := { b with observedSrflx := b.observedSrflx ++ [c] })
    refine ⟨predictions, ?_⟩
    simp only [hsent]
    rw [trySendPredictions_number]
  · exact ⟨[], rfl⟩

theorem Batch.add_number {predictionEligible : Bool} :
    (b.add c predictionEligible).1.number = b.number := by
  unfold Batch.add
  split
  · rfl
  split
  · rfl
  split
  · exact trySendPredictions_number
  · rfl

theorem Batch.complete_sent (h : b.completed = false) (marker : SignalCandidate) :
    ∃ predictions : List Candidate, (b.complete marker).2 =
      predictions.map (.predicted b.number) ++ [.ending b.number marker] := by
  obtain ⟨predictions, hsent⟩ := trySendPredictions_sent (b := b)
  refine ⟨predictions, ?_⟩
  unfold Batch.complete
  rw [if_neg (by simp [h])]
  simp only [hsent]
  rw [trySendPredictions_number]

theorem belongs_predicted (predictions : List Candidate) {x : Sent}
    (hx : ∀ n, x.inBatch n = decide (m = n)) :
    Belongs m (predictions.map (.predicted m) ++ [x]) := by
  intro y hy n
  rcases List.mem_append.1 hy with hy | hy
  · obtain ⟨c, -, rfl⟩ := List.mem_map.1 hy
    rfl
  · rw [List.mem_singleton.1 hy, hx]

/-- What holds after every call: an open batch is the newest owner of its entries, and every
    batch, open or not, has sent what it should. -/
structure Emitter.Inv (e : Emitter) : Prop where
  fresh : ∀ n, e.opened ≤ n → ofBatch n e.log = []
  running : ∀ b ∈ e.batch, b.number < e.opened ∧ ∃ early predictions late, early ++ late ≠ [] ∧
    Running b e.generation (ofBatch b.number e.log) early predictions late none
  shapes : ∀ n, ∃ early predictions late closing,
    BatchShape n (ofBatch n e.log) early predictions late closing

theorem Emitter.Inv.unchanged (h : e.Inv) (hlog : ∀ n, ofBatch n e'.log = ofBatch n e.log)
    (hopened : e'.opened = e.opened)
    (hbatch : ∀ b ∈ e'.batch, e.batch = some b ∧ e'.generation = e.generation) : e'.Inv := by
  refine ⟨fun n hn => ?_, fun b hb => ?_, fun n => ?_⟩
  · rw [hlog]
    exact h.fresh n (hopened ▸ hn)
  · obtain ⟨hbatch, hgeneration⟩ := hbatch b hb
    rw [hlog, hopened, hgeneration]
    exact h.running b hbatch
  · rw [hlog]
    exact h.shapes n

/-- Only the entries of one batch have changed. -/
theorem Emitter.Inv.extend (h : e.Inv) (hlog : e'.log = e.log ++ sent) (hbelongs : Belongs m sent)
    (hopened : e.opened ≤ e'.opened) (hm : m < e'.opened)
    (hshape : ∃ early predictions late closing,
      BatchShape m (ofBatch m e.log ++ sent) early predictions late closing)
    (hbatch : ∀ b ∈ e'.batch, b.number = m ∧ ∃ early predictions late, early ++ late ≠ [] ∧
      Running b e'.generation (ofBatch m e.log ++ sent) early predictions late none) : e'.Inv := by
  have hsame : ofBatch m e'.log = ofBatch m e.log ++ sent := by
    rw [hlog, ofBatch_append, hbelongs.same]
  have hother : ∀ n, m ≠ n → ofBatch n e'.log = ofBatch n e.log := by
    intro n hne
    rw [hlog, ofBatch_append, hbelongs.other hne, List.append_nil]
  refine ⟨fun n hn => ?_, fun b hb => ?_, fun n => ?_⟩
  · rw [hother n (by omega)]
    exact h.fresh n (hopened.trans hn)
  · obtain ⟨rfl, hrun⟩ := hbatch b hb
    rw [hsame]
    exact ⟨hm, hrun⟩
  · by_cases hn : m = n
    · subst hn
      rw [hsame]
      exact hshape
    · rw [hother n hn]
      exact h.shapes n

namespace Emitter

/-- A marker of another generation than the open batch's is not let through to it. -/
def Fits (e : Emitter) (marker : SignalCandidate) : Prop :=
  (fragment marker).isSome = true → (fragment e.generation).isSome = true →
    fragment marker = fragment e.generation

theorem Inv.discard (h : e.Inv) : e.discard.Inv :=
  h.unchanged (fun _ => rfl) rfl nofun

theorem ofBatch_passed {l : List Sent} (marker : SignalCandidate) :
    ofBatch n (l ++ [.passed marker]) = ofBatch n l := by
  simp [ofBatch, Sent.inBatch]

theorem Inv.passed (h : e.Inv) (marker : SignalCandidate) :
    Inv { e with log := e.log ++ [.passed marker] } :=
  h.unchanged (fun _ => ofBatch_passed marker) rfl fun _ hb => ⟨hb, rfl⟩

/-- The marker that closes the open batch. -/
def closing (e : Emitter) (marker : SignalCandidate) : SignalCandidate :=
  if (fragment marker).isSome then marker
  else if (fragment e.generation).isSome then e.generation.map fun g => { g with candidate := "" }
  else none

/-- An end is dropped, passed on where no batch is open, or closes the open batch. -/
theorem completeBatch_cases (h : e.Inv) (marker : SignalCandidate) :
    (e.batch = none ∧ e.completeBatch marker = e) ∨
    (e.batch = none ∧ e.endSent = false ∧ e.completeBatch marker =
      { e with generation := marker, endSent := true, log := e.log ++ [.passed marker] }) ∨
    ∃ (b : Batch) (predictions : List Candidate), e.batch = some b ∧ e.completeBatch marker =
      { e with batch := none, endSent := true
               log := e.log ++ (predictions.map (.predicted b.number) ++
                 [.ending b.number (e.closing marker)]) } := by
  cases hb : e.batch with
  | none =>
    simp only [completeBatch, hb]
    split
    · rename_i hend
      exact .inr (.inl ⟨trivial, by simp_all, rfl⟩)
    · exact .inl ⟨trivial, rfl⟩
  | some b =>
    obtain ⟨-, early, predictions, late, -, hrun⟩ := h.running b hb
    obtain ⟨predictions, hsent⟩ := b.complete_sent hrun.running (e.closing marker)
    refine .inr (.inr ⟨b, predictions, rfl, ?_⟩)
    rw [← hsent]
    simp only [completeBatch, hb, closing]

theorem fragment_ended (signal : SignalCandidate) :
    fragment (signal.map fun g => { g with candidate := "" }) = fragment signal := by
  cases signal <;> rfl

theorem Inv.completeBatch {marker : SignalCandidate} (h : e.Inv) (hfits : e.Fits marker) :
    (e.completeBatch marker).Inv := by
  unfold Emitter.completeBatch
  split
  · split
    · exact h.unchanged (fun _ => ofBatch_passed marker) rfl (by simp_all)
    · exact h
  · rename_i b hb
    obtain ⟨hnumber, early, predictions, late, hne, hrun⟩ := h.running b hb
    obtain ⟨predictions', hshape⟩ := hrun.complete (e.closing marker) (by
      intro g hg hsome
      have hgen : fragment e.generation = g.fragment := by
        rw [hg]
        rfl
      unfold closing
      split
      · rename_i hmarker
        rw [hfits hmarker (hgen ▸ hsome), hgen]
      · rw [if_pos (hgen ▸ hsome), fragment_ended, hgen])
    obtain ⟨sent, hsent⟩ := b.complete_sent hrun.running (e.closing marker)
    exact h.extend rfl (hsent ▸ belongs_predicted sent fun _ => rfl) le_rfl hnumber
      ⟨early, predictions', late, some (e.closing marker), hshape⟩ nofun

/-- A candidate goes to a batch, which may be new. -/
theorem Inv.admits (h : e.Inv) {generation : Option Candidate} {early late : List Seen}
    {predictions : List Candidate} {opened : ℕ} {endSent : Bool} (hopened : e.opened ≤ opened)
    (hnumber : b.number < opened)
    (hrun : Running b generation (ofBatch b.number e.log) early predictions late none)
    (hfirst : early ++ late = [] → generation = some c) (predictionEligible : Bool) :
    Inv { e with generation, endSent, opened, batch := some (b.add c predictionEligible).1
                 log := e.log ++ (b.add c predictionEligible).2 } := by
  obtain ⟨early', predictions', late', happend, hrun'⟩ := hrun.add hfirst predictionEligible
  obtain ⟨sent, hsent⟩ := b.add_sent (c := c) hrun.running predictionEligible
  have hsame : (b.add c predictionEligible).1.number = b.number := Batch.add_number
  have hshape := hrun'.shape
  rw [hsame] at hshape
  refine h.extend (m := b.number) rfl (hsent ▸ belongs_predicted sent fun _ => rfl) hopened hnumber
    ⟨early', predictions', late', none, hshape⟩ ?_
  rintro _ ⟨⟩
  refine ⟨hsame, early', predictions', late', ?_, hrun'⟩
  rw [happend]
  simp

/-- A candidate joins the batch that is open, or opens one. -/
theorem addConcrete_cases (e : Emitter) (c : Candidate) (predictionEligible : Bool) :
    (∃ b, e.batch = some b ∧ e.addConcrete c predictionEligible =
      { e with batch := some (b.add c (e.enabled && predictionEligible)).1
               log := e.log ++ (b.add c (e.enabled && predictionEligible)).2 }) ∨
    ∃ b : Batch, b = { number := e.opened } ∧ e.addConcrete c predictionEligible =
      { e with generation := some c, endSent := false, opened := e.opened + 1
               batch := some (b.add c (e.enabled && predictionEligible)).1
               log := e.log ++ (b.add c (e.enabled && predictionEligible)).2 } := by
  unfold Emitter.addConcrete
  split
  · -- the old batch is left first
    exact .inr ⟨_, rfl, rfl⟩
  cases hb : e.batch with
  | none => exact .inr ⟨_, rfl, by simp [hb]⟩
  | some b => exact .inl ⟨b, rfl, by simp [hb]⟩

theorem Inv.addConcrete (h : e.Inv) (c : Candidate) (predictionEligible : Bool) :
    (e.addConcrete c predictionEligible).Inv := by
  rcases addConcrete_cases e c predictionEligible with ⟨b, hb, heq⟩ | ⟨b, rfl, heq⟩
  · rw [heq]
    obtain ⟨hnumber, early, predictions, late, hne, hrun⟩ := h.running b hb
    exact h.admits le_rfl hnumber hrun (fun hnil => absurd hnil hne) _
  · rw [heq]
    have hnew : Running { number := e.opened } (some c) (ofBatch e.opened e.log) [] [] [] none :=
      ⟨rfl, h.fresh _ le_rfl, .inl rfl, fun _ => ⟨rfl, rfl, rfl⟩, nofun, nofun⟩
    exact h.admits (Nat.le_succ _) (Nat.lt_succ_self _) hnew (fun _ => rfl) _

theorem Inv.step (h : e.Inv) (call : Call) : (e.step call).Inv := by
  cases call with
  | gatheringComplete => exact h.completeBatch nofun
  | discard => exact h.discard
  | addSignal next predictionEligible =>
    cases next with
    | none => exact h.completeBatch nofun
    | some c =>
      simp only [Emitter.step, Emitter.addSignal]
      split
      · split
        · exact h.passed _
        · rename_i hsame
          refine h.completeBatch fun hc hg => ?_
          by_contra hne
          exact hsame (by simp_all [fragment])
      · exact h.addConcrete c _

theorem Inv.new (enabled : Bool) : Inv { enabled } :=
  ⟨fun _ _ => rfl, nofun, fun _ => ⟨[], [], [], none, rfl, .inl rfl, nofun⟩⟩

/-- Every reachable emitter. -/
theorem Inv.run (enabled : Bool) (calls : List Call) : (Emitter.run enabled calls).Inv := by
  induction calls using List.reverseRecOn with
  | nil => exact Inv.new enabled
  | append_singleton calls call ih =>
    rw [Emitter.run, List.foldl_append]
    exact ih.step call

end Emitter

/-! ## Predictions only add -/

/-- The candidate a call hands over. -/
def Call.concrete? (enabled : Bool) : Call → Option Seen
  | .addSignal (some c) predictionEligible =>
    if c.candidate = "" then none else some (c, enabled && predictionEligible)
  | _ => none

/-- A call that ends the candidates. -/
def Call.isEnd : Call → Bool
  | .addSignal none _ | .gatheringComplete => true
  | .addSignal (some c) _ => c.candidate = ""
  | .discard => false

/-- A call that ends the candidates under no username fragment. -/
def Call.unscopedEnd : Call → Bool
  | .addSignal none _ => true
  | .addSignal (some c) _ => c.candidate = "" && c.fragment.isNone
  | .gatheringComplete => true
  | .discard => false

/-- The marker may end the generation of this candidate: it is not of another fragment. -/
def endsGeneration (g : Candidate) (marker : SignalCandidate) : Bool :=
  !((fragment marker).isSome && g.fragment.isSome && fragment marker ≠ g.fragment)

/-- The ends among the entries that may end the generation of this candidate. -/
def endsOf (g : Candidate) (sent : List Sent) : List SignalCandidate :=
  (sent.filterMap Sent.end?).filter (endsGeneration g)

/-- An entry after predictions is read alone: these are neither candidates handed over nor ends. -/
theorem filterMap_predicted {α : Type} {f : Sent → Option α} {predictions : List Candidate}
    {x : Sent} (hf : ∀ c, f (.predicted m c) = none) :
    (predictions.map (Sent.predicted m) ++ [x]).filterMap f = (f x).toList := by
  have hnone : (predictions.map (Sent.predicted m)).filterMap f = [] := by
    rw [List.filterMap_map, List.filterMap_eq_nil_iff]
    exact fun c _ => hf c
  rw [List.filterMap_append, hnone, List.nil_append]
  cases hx : f x <;> simp [hx]

namespace Emitter

theorem enabled_step (h : e.Inv) (call : Call) : (e.step call).enabled = e.enabled := by
  have hcomplete : ∀ marker, (e.completeBatch marker).enabled = e.enabled := by
    intro marker
    rcases completeBatch_cases h marker with ⟨-, heq⟩ | ⟨-, -, heq⟩ | ⟨b, predictions, -, heq⟩ <;>
      rw [heq]
  cases call with
  | gatheringComplete => exact hcomplete none
  | discard => rfl
  | addSignal next predictionEligible =>
    cases next with
    | none => exact hcomplete none
    | some c =>
      simp only [step, addSignal]
      split
      · split
        · rfl
        · exact hcomplete _
      · rcases addConcrete_cases e c predictionEligible with ⟨b, -, heq⟩ | ⟨b, -, heq⟩ <;> rw [heq]

theorem enabled_run (enabled : Bool) (calls : List Call) :
    (run enabled calls).enabled = enabled := by
  induction calls using List.reverseRecOn with
  | nil => rfl
  | append_singleton calls call ih =>
    rw [run, List.foldl_append]
    exact (enabled_step (Inv.run enabled calls) call).trans ih

theorem log_addConcrete (h : e.Inv) (c : Candidate) (predictionEligible : Bool) :
    ∃ (n : ℕ) (predictions : List Candidate), (e.addConcrete c predictionEligible).log =
      e.log ++ (predictions.map (.predicted n) ++
        [.concrete n (c, e.enabled && predictionEligible)]) := by
  rcases addConcrete_cases e c predictionEligible with ⟨b, hb, heq⟩ | ⟨b, rfl, heq⟩
  · obtain ⟨-, early, predictions, late, -, hrun⟩ := h.running b hb
    obtain ⟨predictions, hsent⟩ :=
      b.add_sent (c := c) hrun.running (e.enabled && predictionEligible)
    exact ⟨b.number, predictions, by rw [heq, ← hsent]⟩
  · obtain ⟨predictions, hsent⟩ := Batch.add_sent (b := { number := e.opened }) (c := c) rfl
      (e.enabled && predictionEligible)
    exact ⟨e.opened, predictions, by rw [heq, ← hsent]⟩

theorem concretes_completeBatch (h : e.Inv) (marker : SignalCandidate) :
    (e.completeBatch marker).log.filterMap Sent.concrete? = e.log.filterMap Sent.concrete? := by
  rcases completeBatch_cases h marker with ⟨-, heq⟩ | ⟨-, -, heq⟩ | ⟨b, predictions, -, heq⟩
  · rw [heq]
  · rw [heq]
    simp [Sent.concrete?]
  · rw [heq, List.filterMap_append, filterMap_predicted fun _ => rfl]
    exact List.append_nil _

theorem concretes_step (h : e.Inv) (call : Call) :
    (e.step call).log.filterMap Sent.concrete? =
      e.log.filterMap Sent.concrete? ++ (call.concrete? e.enabled).toList := by
  cases call with
  | gatheringComplete =>
    simpa [Call.concrete?, step, addSignal] using concretes_completeBatch h none
  | discard => simp [step, discard, Call.concrete?]
  | addSignal next predictionEligible =>
    cases next with
    | none => simpa [Call.concrete?, step, addSignal] using concretes_completeBatch h none
    | some c =>
      simp only [step, addSignal, Call.concrete?]
      split
      · split
        · simp [Sent.concrete?]
        · simpa using concretes_completeBatch h _
      · obtain ⟨n, predictions, hlog⟩ := log_addConcrete h c predictionEligible
        rw [hlog, List.filterMap_append, filterMap_predicted fun _ => rfl]
        rfl

theorem concretes_run (enabled : Bool) (calls : List Call) :
    (run enabled calls).log.filterMap Sent.concrete? =
      calls.filterMap (Call.concrete? enabled) := by
  induction calls using List.reverseRecOn with
  | nil => rfl
  | append_singleton calls call ih =>
    rw [run, List.foldl_append, List.filterMap_append, ← ih]
    have hstep := concretes_step (Inv.run enabled calls) call
    rw [enabled_run] at hstep
    cases hcall : call.concrete? enabled <;> simpa [hcall, run] using hstep

/-! ### Ends -/

theorem ends_completeBatch (h : e.Inv) (marker : SignalCandidate) :
    ((e.completeBatch marker).log.filterMap Sent.end?).length ≤
      (e.log.filterMap Sent.end?).length + 1 := by
  rcases completeBatch_cases h marker with ⟨-, heq⟩ | ⟨-, -, heq⟩ | ⟨b, predictions, -, heq⟩
  · rw [heq]
    exact Nat.le_succ _
  · rw [heq]
    simp [Sent.end?]
  · rw [heq, List.filterMap_append, filterMap_predicted fun _ => rfl]
    simp [Sent.end?]

/-- An end is sent for a call that ends the candidates. -/
theorem ends_step (h : e.Inv) (call : Call) :
    ((e.step call).log.filterMap Sent.end?).length ≤
      (e.log.filterMap Sent.end?).length + if call.isEnd then 1 else 0 := by
  cases call with
  | gatheringComplete => exact ends_completeBatch h none
  | discard => exact le_rfl
  | addSignal next predictionEligible =>
    cases next with
    | none => exact ends_completeBatch h none
    | some c =>
      simp only [step, addSignal, Call.isEnd, decide_eq_true_eq]
      split
      · split
        · simp [Sent.end?]
        · exact ends_completeBatch h _
      · obtain ⟨n, predictions, hlog⟩ := log_addConcrete h c predictionEligible
        rw [hlog, List.filterMap_append, filterMap_predicted fun _ => rfl]
        simp [Sent.end?]

theorem ends_run (enabled : Bool) (calls : List Call) :
    ((run enabled calls).log.filterMap Sent.end?).length ≤ (calls.filter Call.isEnd).length := by
  induction calls using List.reverseRecOn with
  | nil => exact le_rfl
  | append_singleton calls call ih =>
    rw [run, List.foldl_append]
    refine (ends_step (Inv.run enabled calls) call).trans ?_
    rw [List.filter_append, List.length_append]
    refine Nat.add_le_add ih ?_
    cases hcall : call.isEnd <;> simp [hcall]

theorem opened_step (h : e.Inv) (call : Call) : e.opened ≤ (e.step call).opened := by
  have hcomplete : ∀ marker, (e.completeBatch marker).opened = e.opened := by
    intro marker
    rcases completeBatch_cases h marker with ⟨-, heq⟩ | ⟨-, -, heq⟩ | ⟨b, predictions, -, heq⟩ <;>
      rw [heq]
  cases call with
  | gatheringComplete => exact (hcomplete none).ge
  | discard => exact le_rfl
  | addSignal next predictionEligible =>
    cases next with
    | none => exact (hcomplete none).ge
    | some c =>
      simp only [step, addSignal]
      split
      · split
        · exact le_rfl
        · exact (hcomplete _).ge
      · rcases addConcrete_cases e c predictionEligible with ⟨b, -, heq⟩ | ⟨b, -, heq⟩ <;>
          simp [heq]

/-- What holds from a generation's first candidate on, until a discard or the next generation: its
    batch is open and has no end, or its end was sent and no other. -/
structure Ending (e : Emitter) (g : Candidate) (before sent : List Sent) : Prop where
  log : e.log = before ++ sent
  generation : e.generation = some g
  ended : (e.batch.isSome = true ∧ endsOf g sent = []) ∨
    (e.batch = none ∧ e.endSent = true ∧ (endsOf g sent).length ≤ 1)

variable {g : Candidate} {before : List Sent}

theorem endsOf_append {l : List Sent} : endsOf g (l ++ sent) = endsOf g l ++ endsOf g sent := by
  simp [endsOf, List.filterMap_append]

theorem endsOf_predicted {predictions : List Candidate} {x : Sent} :
    endsOf g (predictions.map (Sent.predicted m) ++ [x]) = endsOf g [x] := by
  rw [endsOf, filterMap_predicted fun _ => rfl]
  cases hx : x.end? <;> simp [endsOf, hx]

theorem Ending.complete (hinv : e.Inv) (h : Ending e g before sent) (marker : SignalCandidate) :
    ∃ sent', Ending (e.completeBatch marker) g before sent' := by
  rcases completeBatch_cases hinv marker with ⟨-, heq⟩ | ⟨hb, hend, -⟩ | ⟨b, predictions, hb, heq⟩
  · exact ⟨sent, by rwa [heq]⟩
  · rcases h.ended with ⟨hopen, -⟩ | ⟨-, hsent, -⟩
    · simp [hb] at hopen
    · simp [hend] at hsent
  · rcases h.ended with ⟨-, hnil⟩ | ⟨hnone, -⟩
    · refine ⟨_, by rw [heq, h.log, List.append_assoc], heq ▸ h.generation,
        .inr ⟨heq ▸ rfl, heq ▸ rfl, ?_⟩⟩
      rw [endsOf_append, hnil, endsOf_predicted, List.nil_append]
      exact (List.length_filter_le _ _).trans (by simp [Sent.end?])
    · simp [hb] at hnone

theorem Ending.step (hinv : e.Inv) (h : Ending e g before sent) {call : Call}
    (hcall : call ≠ .discard) (hopened : (e.step call).opened = e.opened) :
    ∃ sent', Ending (e.step call) g before sent' := by
  cases call with
  | gatheringComplete => exact h.complete hinv none
  | discard => exact absurd rfl hcall
  | addSignal next predictionEligible =>
    cases next with
    | none => exact h.complete hinv none
    | some c =>
      simp only [Emitter.step, addSignal] at hopened ⊢
      split
      · split
        · -- an end of another generation counts for none of this one
          rename_i hforeign
          refine ⟨sent ++ [.passed c], by simp [h.log], h.generation, ?_⟩
          have hnone : endsOf g [.passed c] = [] := by
            rw [h.generation] at hforeign
            have hends : endsGeneration g (some c) = false := by
              rw [endsGeneration, Bool.not_eq_false']
              exact hforeign
            simp [endsOf, Sent.end?, hends]
          rw [endsOf_append, hnone, List.append_nil]
          exact h.ended
        · exact h.complete hinv _
      · rename_i hconcrete
        rw [if_neg hconcrete] at hopened
        obtain ⟨n, predictions, hlog⟩ := log_addConcrete hinv c predictionEligible
        rcases addConcrete_cases e c predictionEligible with ⟨b, hb, heq⟩ | ⟨b, -, heq⟩
        · refine ⟨_, by rw [hlog, h.log, List.append_assoc], heq ▸ h.generation,
            .inl ⟨by rw [heq]; rfl, ?_⟩⟩
          rw [endsOf_append, endsOf_predicted]
          rcases h.ended with ⟨-, hnil⟩ | ⟨hnone, -⟩
          · rw [hnil]
            rfl
          · simp [hb] at hnone
        · -- the next generation would open a batch
          rw [heq] at hopened
          exact absurd hopened (Nat.succ_ne_self _)

/-- A candidate that opens a batch begins a generation. -/
theorem Ending.begin (hinv : e.Inv) {call : Call} {seen : Seen}
    (hcall : call.concrete? e.enabled = some seen) (hopened : (e.step call).opened = e.opened + 1) :
    ∃ sent, Ending (e.step call) seen.1 e.log sent := by
  obtain ⟨c, predictionEligible, rfl, hne, rfl⟩ : ∃ c predictionEligible,
      call = .addSignal (some c) predictionEligible ∧ c.candidate ≠ "" ∧
        (c, e.enabled && predictionEligible) = seen := by
    unfold Call.concrete? at hcall
    split at hcall
    · split at hcall
      · cases hcall
      · rename_i c predictionEligible hne
        exact ⟨c, predictionEligible, rfl, hne, Option.some.inj hcall⟩
    · cases hcall
  simp only [Emitter.step, addSignal, if_neg hne] at hopened ⊢
  obtain ⟨n, predictions, hlog⟩ := log_addConcrete hinv c predictionEligible
  rcases addConcrete_cases e c predictionEligible with ⟨b, -, heq⟩ | ⟨b, -, heq⟩
  · rw [heq] at hopened
    simp at hopened
  · refine ⟨_, hlog, by rw [heq], .inl ⟨by rw [heq]; rfl, ?_⟩⟩
    rw [endsOf_predicted]
    rfl

/-- The generation of an open batch is its first candidate. -/
theorem Inv.generation (h : e.Inv) (hb : e.batch = some b) :
    e.generation = (((ofBatch b.number e.log).filterMap Sent.concrete?).head?).map Prod.fst := by
  obtain ⟨-, early, predictions, late, hne, hrun⟩ := h.running b hb
  exact (hrun.head hne).symm

theorem unscopedEnd_step {call : Call} (h : call.unscopedEnd = true) :
    ∃ marker, fragment marker = none ∧ e.step call = e.completeBatch marker := by
  cases call with
  | gatheringComplete => exact ⟨none, rfl, rfl⟩
  | discard => cases h
  | addSignal next predictionEligible =>
    cases next with
    | none => exact ⟨none, rfl, rfl⟩
    | some c =>
      simp only [Call.unscopedEnd, Bool.and_eq_true, decide_eq_true_eq, Option.isNone_iff_eq_none]
        at h
      refine ⟨some c, h.2, ?_⟩
      simp [step, addSignal, h.1, h.2]

/-- Every candidate is forwarded once and in order; a batch sends its predictions once and its end
    once, after its candidates; until the next generation or a discard at most one end is sent that
    may end the generation, and never more of them than were asked for; the end of another
    generation is passed on and changes nothing; and an end without a fragment is sent under that
    of the candidates it ends. -/
structure OnlyAdds (enabled : Bool) (calls : List Call) : Prop where
  forwarded : (run enabled calls).log.filterMap Sent.concrete? =
    calls.filterMap (Call.concrete? enabled)
  batches : ∀ n, ∃ early predictions late closing,
    BatchShape n (ofBatch n (run enabled calls).log) early predictions late closing
  ended : ∀ before call span seen, calls = before ++ call :: span →
    call.concrete? enabled = some seen →
    (run enabled (before ++ [call])).opened = (run enabled before).opened + 1 →
    (run enabled calls).opened = (run enabled before).opened + 1 → .discard ∉ span →
    ∃ sent, (run enabled calls).log = (run enabled before).log ++ sent ∧
      (endsOf seen.1 sent).length ≤ 1
  answered : ((run enabled calls).log.filterMap Sent.end?).length ≤
    (calls.filter Call.isEnd).length
  foreign : ∀ b g eligible (marker : Candidate) predictionEligible,
    (run enabled calls).batch = some b →
    ((ofBatch b.number (run enabled calls).log).filterMap Sent.concrete?).head? =
      some (g, eligible) →
    marker.candidate = "" → marker.fragment.isSome = true → g.fragment.isSome = true →
    marker.fragment ≠ g.fragment →
      run enabled (calls ++ [.addSignal (some marker) predictionEligible]) =
        { run enabled calls with log := (run enabled calls).log ++ [.passed marker] }
  unscoped : ∀ b g eligible call, (run enabled calls).batch = some b →
    ((ofBatch b.number (run enabled calls).log).filterMap Sent.concrete?).head? =
      some (g, eligible) →
    call.unscopedEnd = true → ∃ predictions : List Candidate,
      (run enabled (calls ++ [call])).log = (run enabled calls).log ++
        (predictions.map (Sent.predicted b.number) ++ [.ending b.number
          (if g.fragment.isSome then some { g with candidate := "" } else none)])

theorem run_append (enabled : Bool) (calls : List Call) (call : Call) :
    run enabled (calls ++ [call]) = (run enabled calls).step call := by
  simp [run]

theorem opened_run (enabled : Bool) (calls more : List Call) :
    (run enabled calls).opened ≤ (run enabled (calls ++ more)).opened := by
  induction more using List.reverseRecOn with
  | nil => rw [List.append_nil]
  | append_singleton more next ih =>
    rw [← List.append_assoc, run_append]
    exact ih.trans (opened_step (Inv.run _ _) next)

/-- While no other generation begins, at most one end may have ended this one. -/
theorem ending_span {enabled : Bool} {call : Call} {seen : Seen} (calls span : List Call)
    (hcall : call.concrete? enabled = some seen)
    (hopens : (run enabled (calls ++ [call])).opened = (run enabled calls).opened + 1)
    (hopened : (run enabled (calls ++ call :: span)).opened = (run enabled calls).opened + 1)
    (hspan : .discard ∉ span) :
    ∃ sent, Ending (run enabled (calls ++ call :: span)) seen.1 (run enabled calls).log sent := by
  induction span using List.reverseRecOn with
  | nil =>
    rw [run_append] at hopens ⊢
    exact Ending.begin (Inv.run enabled calls) (by rwa [enabled_run]) hopens
  | append_singleton span last ih =>
    have hsplit : calls ++ call :: (span ++ [last]) = (calls ++ call :: span) ++ [last] := by simp
    have hgrows := opened_run enabled (calls ++ [call]) span
    rw [List.append_assoc, List.singleton_append] at hgrows
    rw [hsplit, run_append] at hopened ⊢
    have hstep := opened_step (Inv.run enabled (calls ++ call :: span)) last
    have hsame : (run enabled (calls ++ call :: span)).opened = (run enabled calls).opened + 1 := by
      omega
    obtain ⟨sent, hending⟩ := ih hsame (by simp_all)
    exact hending.step (Inv.run _ _) (by rintro rfl; simp at hspan) (hopened.trans hsame.symm)

theorem only_adds (enabled : Bool) (calls : List Call) : OnlyAdds enabled calls := by
  have hinv := Inv.run enabled calls
  refine ⟨concretes_run enabled calls, hinv.shapes, ?_, ends_run enabled calls, ?_, ?_⟩
  · rintro before call span seen rfl hcall hopens hopened hspan
    obtain ⟨sent, hending⟩ := ending_span before span hcall hopens hopened hspan
    refine ⟨sent, hending.log, ?_⟩
    rcases hending.ended with ⟨-, hnil⟩ | ⟨-, -, hone⟩
    · simp [hnil]
    · exact hone
  · intro b g eligible marker predictionEligible hb hg hend hmarker hgen hne
    have hgeneration : fragment (run enabled calls).generation = g.fragment := by
      rw [hinv.generation hb, hg]
      rfl
    rw [run_append]
    simp [step, addSignal, hend, hmarker, hgeneration, hgen, hne]
  · intro b g eligible call hb hg hcall
    have hgeneration : (run enabled calls).generation = some g := by
      rw [hinv.generation hb, hg]
      rfl
    obtain ⟨marker, hnone, hstep⟩ := unscopedEnd_step (e := run enabled calls) hcall
    rw [run_append, hstep]
    rcases completeBatch_cases hinv marker with
      ⟨hbatch, -⟩ | ⟨hbatch, -⟩ | ⟨b', predictions, hb', heq⟩
    · simp [hb] at hbatch
    · simp [hb] at hbatch
    · obtain rfl : b = b' := Option.some.inj (hb.symm.trans hb')
      refine ⟨predictions, ?_⟩
      rw [heq, closing, hnone, hgeneration]
      rfl

/-- A generation that shows no fragment at first is ended under none, and by any. -/
theorem run_unscoped_generation :
    let bare : Candidate := { candidate := "a" }
    let other : Candidate := { candidate := "b", usernameFragment := some "x" }
    let marker : Candidate := { candidate := "", usernameFragment := some "y" }
    (run false [.addSignal bare false, .gatheringComplete]).log =
      [.concrete 0 (bare, false), .ending 0 none] ∧
    (run false [.addSignal bare false, .addSignal other false, .addSignal marker false]).log =
      [.concrete 0 (bare, false), .concrete 0 (other, false), .ending 0 marker] := by
  have hnil : predictSrflxCandidates [] = [] := rfl
  constructor <;>
    simp [run, step, addSignal, addConcrete, completeBatch, Batch.add, Batch.complete,
      Batch.trySendPredictions, hnil, fragment, Candidate.fragment]

end Emitter

end Runs

end Piik.Client.Prediction
