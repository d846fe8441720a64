/-
  The log of the diagnostics recorder (`diagnostics/recorder.go`): a file of at most
  8 MiB and one backup of it, over a file system whose every call may fail.

  Nobody else touches the two files, and what is found there is regular.  What the
  operating system answers is an argument of the call; the pieces that were written
  are a ghost field.
-/
import Mathlib
import Piik.Lib.Steps

namespace Piik.Diagnostics

/-- The contents of a file. -/
abbrev Bytes := List UInt8

/-- `maxFileBytes` -/
def maxFileBytes : ℕ := 8 <<< 20

/-- Which call failed. -/
inductive Failure
  | closed | tooLong | close | remove | rename | openFile | write | sync
  deriving DecidableEq

/-- What the operating system answers: which calls fail, and after how many bytes a write does. -/
structure Answers where
  close : Bool := false
  /-- With another error than that there is no backup. -/
  remove : Bool := false
  rename : Bool := false
  openFile : Bool := false
  write : Option ℕ := none

/-- The log with its two files. -/
structure RotatingLog where
  /-- `l.file ≠ nil` -/
  file : Bool
  size : ℕ
  /-- `l.err`; joined errors are a list. -/
  err : List Failure := []
  rotations : ℕ := 0
  preexisting : Bool
  /-- What is at `l.path`. -/
  current : Option Bytes
  /-- What is at `l.path + ".1"`. -/
  backup : Option Bytes
  /-- The two files as they were found, and what each call has written since. -/
  history : List Bytes

namespace RotatingLog

variable (l : RotatingLog)

/-- `Open`, with `checkLogFile` on both files. -/
def opened (current backup : Option Bytes) : Option RotatingLog :=
  if maxFileBytes < (current.getD []).length ∨ maxFileBytes < (backup.getD []).length then none
  else some
    { file := true, size := (current.getD []).length
      preexisting := 0 < (current.getD []).length || backup.isSome
      current := some (current.getD []), backup, history := [backup.getD [], current.getD []] }

/-- `l.file.Write` of bytes that all arrive. -/
def put (piece : Bytes) : RotatingLog :=
  { l with size := l.size + piece.length, current := l.current.map (· ++ piece), history := l.history ++ [piece] }

/-- Write to the open file, all of it or the bytes that the failure left. -/
def append (data : Bytes) (os : Answers) : ℕ × Option Failure × RotatingLog :=
  match os.write with
  | none => (data.length, none, l.put data)
  | some n => ((data.take n).length, some .write, l.put (data.take n))

/-- The file becomes the backup, and an empty one takes its place. -/
def rotate (os : Answers) : Option Failure × RotatingLog :=
  if os.close then (some .close, { l with file := false })
  else if os.remove then (some .remove, { l with file := false })
  else if os.rename then (some .rename, { l with file := false, backup := none })
  else if os.openFile then
    (some .openFile, { l with file := false, backup := l.current, current := none, size := 0 })
  else (none, { l with backup := l.current, current := some [], size := 0, rotations := l.rotations + 1 })

/-- `Write` on an open file. -/
def writeOpen (data : Bytes) (os : Answers) : ℕ × Option Failure × RotatingLog :=
  if maxFileBytes < data.length then (0, some .tooLong, l)
  else if maxFileBytes < l.size + data.length then
    match l.rotate os with
    | (some failure, l) => (0, some failure, l)
    | (none, l) => l.append data os
  else l.append data os

/-- The first failure is kept. -/
def retain (failure : Option Failure) : RotatingLog :=
  { l with err := if l.err = [] then failure.toList else l.err }

/-- Write one record, after a rotation where it would not fit. -/
def write (data : Bytes) (os : Answers) : ℕ × Option Failure × RotatingLog :=
  if l.file then
    let r := l.writeOpen data os
    (r.1, r.2.1, r.2.2.retain r.2.1)
  else (0, some .closed, l)

/-- The log's part of `Close`. -/
def close (syncFails closeFails : Bool) : RotatingLog :=
  if l.file then
    { l with file := false
             err := l.err ++ (if syncFails then [.sync] else []) ++ if closeFails then [.close] else [] }
  else l

/-- What `retention` reports. -/
def earlierHistoryMayBeMissing : Bool := l.preexisting || 0 < l.rotations

/-- The calls, with what the operating system answers. -/
inductive Event
  | write (data : Bytes) (os : Answers)
  | close (syncFails closeFails : Bool)

/-- One call; `none` where it cannot be made. -/
def step : Event → Option RotatingLog
  | .write data os => some (l.write data os).2.2
  | .close syncFails closeFails => some (l.close syncFails closeFails)

/-! ## What the files hold -/

/-- The files hold the latest pieces, none of them cut in two, within their bound. -/
structure Holds (l : RotatingLog) : Prop where
  size : l.file = true → ∃ text, l.current = some text ∧ text.length = l.size
  bounded : (l.current.getD []).length ≤ maxFileBytes ∧ (l.backup.getD []).length ≤ maxFileBytes
  kept : ∃ dropped older newer : List Bytes, l.history = dropped ++ older ++ newer ∧
    l.backup.getD [] = older.flatten ∧ l.current.getD [] = newer.flatten ∧
    (l.earlierHistoryMayBeMissing = false → dropped.flatten = [])
  fresh : l.earlierHistoryMayBeMissing = false → l.file = true → l.backup = none
  /-- Of what is dropped, more than a file's worth is kept. -/
  full : l.err = [] → 0 < l.rotations →
    maxFileBytes < (l.backup.getD []).length + (l.current.getD []).length

variable {l}

theorem opened_holds {current backup : Option Bytes} (h : opened current backup = some l) : Holds l := by
  unfold opened at h
  split at h
  · cases h
  next hsmall =>
  rw [not_or, Nat.not_lt, Nat.not_lt] at hsmall
  obtain rfl := Option.some.inj h
  refine ⟨fun _ => ⟨_, rfl, rfl⟩, hsmall, ⟨[], [backup.getD []], [current.getD []], ?_⟩, ?_, ?_⟩
  · exact ⟨rfl, by simp, by simp, fun _ => rfl⟩
  · intro hmissing _
    simpa [earlierHistoryMayBeMissing] using (Bool.or_eq_false_iff.1 (Bool.or_eq_false_iff.1 hmissing).1).2
  · intro _ hrotations
    exact absurd hrotations (lt_irrefl 0)

/-- What changes only the handle and the failures keeps the files. -/
theorem Holds.shut (h : Holds l) (err : List Failure) (herr : err = [] → l.err = []) :
    Holds { l with file := false, err } where
  size hfile := by cases hfile
  bounded := h.bounded
  kept := h.kept
  fresh _ hfile := by cases hfile
  full hnone := h.full (herr hnone)

theorem Holds.put (h : Holds l) (hfile : l.file = true) {piece : Bytes}
    (hroom : l.size + piece.length ≤ maxFileBytes) : Holds (l.put piece) := by
  obtain ⟨text, htext, hsize⟩ := h.size hfile
  have hcurrent : (l.put piece).current = some (text ++ piece) := by rw [RotatingLog.put, htext]; rfl
  refine ⟨fun _ => ⟨_, hcurrent, ?_⟩, ?_, ?_, h.fresh, ?_⟩
  · rw [List.length_append, hsize]
    rfl
  · rw [hcurrent]
    refine ⟨?_, h.bounded.2⟩
    rw [Option.getD_some, List.length_append]
    omega
  · obtain ⟨dropped, older, newer, hhistory, hbackup, hnewer, hdropped⟩ := h.kept
    refine ⟨dropped, older, newer ++ [piece], ?_, hbackup, ?_, hdropped⟩
    · show l.history ++ [piece] = _
      rw [hhistory, List.append_assoc _ newer]
    · rw [hcurrent, List.flatten_append, ← hnewer, htext]
      simp
  · intro hnone hrotations
    have hfull := h.full hnone hrotations
    rw [htext, Option.getD_some] at hfull
    rw [hcurrent, Option.getD_some, List.length_append]
    exact hfull.trans_le (by
      show (l.backup.getD []).length + text.length ≤ (l.backup.getD []).length + (text.length + piece.length)
      omega)

theorem Holds.append (h : Holds l) (hfile : l.file = true) {data : Bytes} (os : Answers)
    (hroom : l.size + data.length ≤ maxFileBytes) : Holds (l.append data os).2.2 := by
  unfold RotatingLog.append
  split
  · exact h.put hfile hroom
  · refine h.put hfile ?_
    rw [List.length_take]
    omega

/-- The files after the current one has become the backup. -/
theorem Holds.turned (h : Holds l) (hfile : l.file = true) (current : Option Bytes)
    (hcurrent : current.getD [] = []) : ∃ dropped older newer : List Bytes,
      l.history = dropped ++ older ++ newer ∧ l.current.getD [] = older.flatten ∧
      current.getD [] = newer.flatten ∧ (l.earlierHistoryMayBeMissing = false → dropped.flatten = []) := by
  obtain ⟨dropped, older, newer, hhistory, hbackup, hnewer, hdropped⟩ := h.kept
  refine ⟨dropped ++ older, newer, [], ?_, hnewer, hcurrent, fun hmissing => ?_⟩
  · rw [hhistory, List.append_nil]
  · -- nothing was in a backup that has never been made
    rw [List.flatten_append, hdropped hmissing, ← hbackup, h.fresh hmissing hfile]
    rfl

/-- What a rotation does: it fails before anything changes, without a backup, or without a file;
    or it starts a new file. -/
theorem rotate_cases (l : RotatingLog) (os : Answers) :
    (∃ failure, l.rotate os = (some failure, { l with file := false })) ∨
    (∃ failure, l.rotate os = (some failure, { l with file := false, backup := none })) ∨
    (∃ failure, l.rotate os =
      (some failure, { l with file := false, backup := l.current, current := none, size := 0 })) ∨
    l.rotate os =
      (none, { l with backup := l.current, current := some [], size := 0, rotations := l.rotations + 1 }) := by
  unfold rotate
  split
  · exact .inl ⟨_, rfl⟩
  split
  · exact .inl ⟨_, rfl⟩
  split
  · exact .inr (.inl ⟨_, rfl⟩)
  split
  · exact .inr (.inr (.inl ⟨_, rfl⟩))
  · exact .inr (.inr (.inr rfl))

/-- A rotation that fails leaves a log that is never written again. -/
theorem Holds.rotate_fails (h : Holds l) (hfile : l.file = true) {os : Answers} {failure : Failure}
    {l' : RotatingLog} (hr : l.rotate os = (some failure, l')) : Holds (l'.retain (some failure)) := by
  have herr : (if l.err = [] then [failure] else l.err) = [] → l.err = [] := by
    split
    · intro hnone
      cases hnone
    · exact id
  have hfails : (if l.err = [] then [failure] else l.err) ≠ [] := by
    split
    · exact List.cons_ne_nil _ _
    · assumption
  rcases l.rotate_cases os with ⟨_, heq⟩ | ⟨_, heq⟩ | ⟨_, heq⟩ | heq
  · obtain ⟨hfailure, rfl⟩ := Prod.mk.inj (heq.symm.trans hr)
    exact h.shut _ herr
  · obtain ⟨hfailure, rfl⟩ := Prod.mk.inj (heq.symm.trans hr)
    refine ⟨(fun hopen => by cases hopen), ⟨h.bounded.1, Nat.zero_le _⟩, ?_, fun _ _ => rfl,
      fun hnone => absurd hnone hfails⟩
    obtain ⟨dropped, older, newer, hhistory, hbackup, hnewer, hdropped⟩ := h.kept
    refine ⟨dropped ++ older, [], newer, ?_, rfl, hnewer, fun hmissing => ?_⟩
    · show l.history = _
      rw [hhistory, List.append_nil]
    · rw [List.flatten_append, hdropped hmissing, ← hbackup, h.fresh hmissing hfile]
      rfl
  · obtain ⟨hfailure, rfl⟩ := Prod.mk.inj (heq.symm.trans hr)
    exact ⟨(fun hopen => by cases hopen), ⟨Nat.zero_le _, h.bounded.1⟩, h.turned hfile none rfl,
      (fun _ hopen => by cases hopen), fun hnone => absurd hnone hfails⟩
  · rw [heq] at hr
    cases hr

/-- After a rotation and the record that asked for it, the two files exceed the bound of one. -/
theorem Holds.rotate_append (h : Holds l) (hfile : l.file = true) {data : Bytes} {os : Answers}
    {l' : RotatingLog} (hr : l.rotate os = (none, l')) (hlen : data.length ≤ maxFileBytes)
    (hfull : maxFileBytes < l.size + data.length) :
    Holds ((l'.append data os).2.2.retain (l'.append data os).2.1) := by
  obtain ⟨text, htext, hsize⟩ := h.size hfile
  let turned : RotatingLog :=
    { l with backup := l.current, current := some [], size := 0, rotations := l.rotations + 1 }
  obtain rfl : turned = l' := by
    rcases l.rotate_cases os with ⟨_, heq⟩ | ⟨_, heq⟩ | ⟨_, heq⟩ | heq
    · rw [heq] at hr
      cases hr
    · rw [heq] at hr
      cases hr
    · rw [heq] at hr
      cases hr
    · exact (Prod.mk.inj (heq.symm.trans hr)).2
  obtain ⟨dropped, older, newer, hhistory, hbackup, hnewer, -⟩ := h.turned hfile (some []) rfl
  have hpiece : ∀ piece : Bytes, piece.length ≤ data.length → ∀ err : List Failure,
      (err = [] → piece = data) → Holds { turned.put piece with err } := by
    intro piece hpiece err herr
    have hmade : earlierHistoryMayBeMissing { turned.put piece with err } = true := by
      simp [earlierHistoryMayBeMissing, RotatingLog.put, turned]
    refine ⟨fun _ => ⟨piece, rfl, (Nat.zero_add _).symm⟩, ⟨hpiece.trans hlen, h.bounded.1⟩, ?_, ?_, ?_⟩
    · refine ⟨dropped, older, newer ++ [piece], ?_, hbackup, ?_, ?_⟩
      · show l.history ++ [piece] = _
        rw [hhistory, List.append_assoc _ newer]
      · rw [List.flatten_append, ← hnewer]
        simp [RotatingLog.put, turned]
      · intro hmissing
        rw [hmade] at hmissing
        cases hmissing
    · intro hmissing
      rw [hmade] at hmissing
      cases hmissing
    · intro hnone _
      show maxFileBytes < (l.current.getD []).length + piece.length
      rw [herr hnone, htext, Option.getD_some, hsize]
      exact hfull
  unfold RotatingLog.append retain
  cases os.write with
  | none => exact hpiece data (le_refl _) _ fun _ => rfl
  | some n =>
    refine hpiece (data.take n) (List.length_take_le' ..) _ fun hnone => ?_
    exfalso
    revert hnone
    dsimp only
    split
    · intro hnone
      cases hnone
    · next herr => exact herr

theorem Holds.retain (h : Holds l) (failure : Option Failure) : Holds (l.retain failure) :=
  ⟨h.size, h.bounded, h.kept, h.fresh, fun hnone => h.full (by
    unfold RotatingLog.retain at hnone
    dsimp only at hnone
    split at hnone
    · assumption
    · exact hnone)⟩

theorem Holds.write (h : Holds l) (data : Bytes) (os : Answers) : Holds (l.write data os).2.2 := by
  unfold RotatingLog.write
  split
  · next hfile =>
    dsimp only
    unfold writeOpen
    split
    · exact h.retain _
    next hlen =>
    split
    · next hfull =>
      split
      · next failure l' hr => exact h.rotate_fails hfile hr
      · next l' hr => exact h.rotate_append hfile hr (Nat.not_lt.1 hlen) hfull
    · next hroom => exact (h.append hfile os (Nat.not_lt.1 hroom)).retain _
  · exact h

theorem Holds.close (h : Holds l) (syncFails closeFails : Bool) : Holds (l.close syncFails closeFails) := by
  unfold RotatingLog.close
  split
  · refine h.shut _ fun hnone => ?_
    exact (List.append_eq_nil_iff.1 (List.append_eq_nil_iff.1 hnone).1).1
  · exact h

/-! ## Runs -/

theorem holds_step {e : Event} {l' : RotatingLog} (h : Holds l) (hs : l.step e = some l') : Holds l' := by
  cases e with
  | write data os =>
    obtain rfl := Option.some.inj hs
    exact h.write data os
  | close syncFails closeFails =>
    obtain rfl := Option.some.inj hs
    exact h.close syncFails closeFails

/-- What `Write` reports as written is what it adds to the history. -/
theorem write_history (l : RotatingLog) (data : Bytes) (os : Answers) :
    (l.write data os).2.2.history.flatten = l.history.flatten ++ data.take (l.write data os).1 ∧
      ((l.write data os).2.1 = none → (l.write data os).1 = data.length) := by
  have happend : ∀ l : RotatingLog, (l.append data os).2.2.history.flatten =
      l.history.flatten ++ data.take (l.append data os).1 ∧
        ((l.append data os).2.1 = none → (l.append data os).1 = data.length) := by
    intro l
    unfold append
    split
    · simp [put]
    · constructor
      · rw [List.length_take]
        simp [put, List.take_eq_take_min]
      · intro hnone
        cases hnone
  have hrotate : (l.rotate os).2.history = l.history := by
    rcases l.rotate_cases os with ⟨_, heq⟩ | ⟨_, heq⟩ | ⟨_, heq⟩ | heq
    all_goals rw [heq]
  unfold write
  split
  · dsimp only
    unfold writeOpen
    split
    · simp [retain]
    split
    · split
      · next failure l' hr =>
        have hhistory : l'.history = l.history := by
          rw [hr] at hrotate
          exact hrotate
        simp [retain, hhistory]
      · next l' hr =>
        rw [hr] at hrotate
        rw [← hrotate]
        exact happend l'
    · exact happend l
  · simp

/-- **The log keeps the latest history.**  Whatever is written, and whichever calls fail: each file
    is within its bound; the backup and the file hold the latest pieces of the history, each whole
    and in one file; nothing is missing unless the log says that it may be; and as long as no call
    has failed, what is kept after a rotation exceeds the bound of a file. -/
theorem log_retains {current backup : Option Bytes} {l₀ : RotatingLog} {es : List Event}
    (hopen : opened current backup = some l₀) (h : Steps.Reaches step l₀ es l) :
    ((l.current.getD []).length ≤ maxFileBytes ∧ (l.backup.getD []).length ≤ maxFileBytes) ∧
    (∃ dropped older newer : List Bytes, l.history = dropped ++ older ++ newer ∧
      l.backup.getD [] = older.flatten ∧ l.current.getD [] = newer.flatten ∧
      (l.earlierHistoryMayBeMissing = false → dropped.flatten = [])) ∧
    (l.err = [] → 0 < l.rotations →
      maxFileBytes < (l.backup.getD []).length + (l.current.getD []).length) ∧
    ∀ data os, (l.write data os).2.2.history.flatten = l.history.flatten ++ data.take (l.write data os).1 ∧
      ((l.write data os).2.1 = none → (l.write data os).1 = data.length) := by
  have hholds : Holds l := h.invariant (P := Holds) (opened_holds hopen) holds_step
  exact ⟨hholds.bounded, hholds.kept, hholds.full, l.write_history⟩

/-- The log after a file that is full to the last byte and one more byte. -/
def rotated (first : Bytes) : RotatingLog :=
  { file := true, size := 1, rotations := 1, preexisting := false, current := some [1]
    backup := some first, history := [[], [], first, [1]] }

theorem run_rotated {first : Bytes} (h : first.length = maxFileBytes) : Steps.run step
    { file := true, size := 0, preexisting := false, current := some [], backup := none, history := [[], []] }
    [.write first {}, .write [1] {}] = some (rotated first) := by
  have hone : ¬ maxFileBytes < 1 := by simp [maxFileBytes]
  simp [Steps.run, step, write, writeOpen, append, put, rotate, retain, rotated, h, hone]

/-- A record that is cut off after its first byte. -/
theorem write_rotated (first : Bytes) : ((rotated first).write [2, 3] { write := some 1 }).1 = 1 := by
  simp [write, writeOpen, append, rotated, maxFileBytes]

/-- A full file and the record that rotates it are both kept, and so is what is written of a record
    that is cut off after them. -/
theorem log_retains_rotated : ∃ l : RotatingLog, l.rotations = 1 ∧ l.err = [] ∧
    (∃ dropped older newer : List Bytes, l.history = dropped ++ older ++ newer ∧
      l.backup = some older.flatten ∧ l.current = some newer.flatten) ∧
    maxFileBytes < (l.backup.getD []).length + (l.current.getD []).length ∧
    (l.write [2, 3] { write := some 1 }).2.2.history.flatten = l.history.flatten ++ [2] := by
  have hopen : opened none none = some { file := true, size := 0, preexisting := false, current := some []
                                         backup := none, history := [[], []] } := by
    simp [opened]
  obtain ⟨first, hfirst⟩ : ∃ first : Bytes, first.length = maxFileBytes :=
    ⟨List.replicate maxFileBytes 0, List.length_replicate⟩
  obtain ⟨-, hkept, hfull, hwrite⟩ := log_retains hopen (Steps.reaches_of_run (run_rotated hfirst))
  obtain ⟨dropped, older, newer, hhistory, hbackup, hcurrent, -⟩ := hkept
  obtain ⟨hadded, -⟩ := hwrite [2, 3] { write := some 1 }
  rw [write_rotated] at hadded
  exact ⟨rotated first, rfl, rfl, ⟨dropped, older, newer, hhistory, congrArg some hbackup, congrArg some hcurrent⟩,
    hfull rfl Nat.zero_lt_one, hadded⟩

end RotatingLog

end Piik.Diagnostics
