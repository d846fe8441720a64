/-
  The ordered map (`ordered/map.go`): a slice of entries with tombstones, an
  index into it, and loops that walk the slice while their bodies change the map.

  `none` is a run-time panic: an index out of range, or a write to a nil map.
-/
import Piik.Lib.JsMap
import Piik.Lib.OMap

namespace Piik.Ordered

/-- A key with its value, and whether it was deleted. -/
structure Entry (K V : Type) where
  key : K
  value : V
  deleted : Bool := false

/-- The entries in order of insertion, deleted ones in their places until the next compaction, and
    the index of the live ones. -/
structure Map (K V : Type) where
  entries : List (Entry K V) := []
  /-- The built-in map; the zero value is nil. -/
  index : Option (OMap K ℕ) := none
  deleted : Int := 0
  iterating : Int := 0
  /-- The positions of the loops that run. -/
  loops : List ℕ := []

namespace Map

variable {K V : Type} [DecidableEq K] [Inhabited V] (m : Map K V)

/-! ## Reading -/

/-- The live entries. -/
def len : ℕ :=
  match m.index with
  | some index => index.len
  | none => 0

/-- Where the index finds a key. -/
def position (k : K) : Option ℕ := m.index.bind fun index => index.get k

/-- The value of a key, if it has one. The outer `none` is a panic: an index that points past the
    entries. -/
def get (k : K) : Option (Option V) :=
  match m.position k with
  | some position => (m.entries[position]?).map fun e => some e.value
  | none => some none

/-- Whether the key is present. -/
def has (k : K) : Bool := (m.position k).isSome

/-- The entries that are not deleted. -/
def live : List (Entry K V) := m.entries.filter fun e => !e.deleted

/-- The live keys in order. -/
def keys : List K := m.live.map Entry.key

/-- The live values in order. -/
def values : List V := m.live.map Entry.value

/-! ## Writing -/

/-- The second pass of `compact`: move the live entries together and renumber
    them. -/
def compactLoop : List (Entry K V) → Option (OMap K ℕ) → List (Entry K V) →
    Option (Option (OMap K ℕ) × List (Entry K V))
  | [], index, live => some (index, live)
  | e :: es, index, live =>
    if e.deleted then compactLoop es index live
    else match index with
      | none => none
      | some index => compactLoop es (some (index.set e.key live.length)) (live ++ [e])

/-- Drop the tombstones once they dominate, but not while a loop runs. -/
def compact : Option (Map K V) :=
  if m.iterating > 0 ∨ m.deleted = 0 ∨ m.deleted * 2 < m.entries.length then some m
  else match compactLoop m.entries m.index [] with
    | none => none
    | some (index, live) => some { m with index, entries := live, deleted := 0 }

/-- A key that is present keeps its position, a new one is appended. -/
def set (k : K) (v : V) : Option (Map K V) :=
  match m.position k with
  | some position => match m.entries[position]? with
    | none => none
    | some e => some { m with entries := m.entries.set position { e with value := v } }
  | none => some { m with
      index := some ((m.index.getD .empty).set k m.entries.length)
      entries := m.entries ++ [{ key := k, value := v }] }

/-- The tombstone of an entry. -/
def Entry.bury (e : Entry K V) : Entry K V := { e with value := default, deleted := true }

/-- Leave a tombstone and say whether the key was present. -/
def delete (k : K) : Option (Bool × Map K V) :=
  match m.position k with
  | none => some (false, m)
  | some position => match m.entries[position]? with
    | none => none
    | some e =>
      let m := { m with
        index := m.index.map fun index : OMap K ℕ => index.delete k
        entries := m.entries.set position (Entry.bury e), deleted := m.deleted + 1 }
      m.compact.map fun m => (true, m)

/-- Delete the key and append it, also when it was absent. -/
def moveToBack (k : K) (v : V) : Option (Map K V) :=
  (m.delete k).bind fun r => r.2.set k v

/-- Bury every entry. The index goes first, so that `compact` writes nothing to it. -/
def clear : Option (Map K V) :=
  compact { m with
    entries := m.entries.map fun e => if e.deleted then e else Entry.bury e
    index := none, deleted := m.deleted + m.live.length }

/-! ## Loops -/

/-- The first entry from here on that is not deleted, and the position after it. -/
def seek : List (Entry K V) → ℕ → Option ((K × V) × ℕ)
  | [], _ => none
  | e :: es, position => if e.deleted then seek es (position + 1)
    else some ((e.key, e.value), position + 1)

/-- The deferred end of a loop. -/
def finish (i : ℕ) : Option (Map K V) :=
  compact { m with iterating := m.iterating - 1, loops := m.loops.eraseIdx i }

/-- One turn of a loop: its next live entry, or its end. -/
def next (i : ℕ) : Option (MapAnswer K V × Map K V) :=
  match m.loops[i]? with
  | none => some (.done, m)
  | some position => match seek (m.entries.drop position) position with
    | some (e, position) => some (.entry (some e), { m with loops := m.loops.set i position })
    | none => (m.finish i).map fun m => (.entry none, m)

/-- A loop that is left before its end. -/
def leave (i : ℕ) : Option (Map K V) := if i < m.loops.length then m.finish i else some m

/-- One call, also of a loop's body or of its end. -/
def step : MapAct K V → Option (MapAnswer K V × Map K V)
  | .get k => (m.get k).map fun v => (.value v, m)
  | .has k => some (.bool (m.has k), m)
  | .len => some (.count m.len, m)
  | .set k v => (m.set k v).map fun m => (.done, m)
  | .moveToBack k v => (m.moveToBack k v).map fun m => (.done, m)
  | .delete k => (m.delete k).map fun r => (.bool r.1, r.2)
  | .clear => m.clear.map fun m => (.done, m)
  | .keys => some (.keys m.keys, m)
  | .values => some (.values m.values, m)
  | .begin => some (.done, { m with iterating := m.iterating + 1, loops := m.loops ++ [0] })
  | .next i => m.next i
  | .leave i => (m.leave i).map fun m => (.done, m)

/-- The answers to a run of calls, unless one of them panics. -/
def run : Map K V → List (MapAct K V) → Option (List (MapAnswer K V))
  | _, [] => some []
  | m, a :: as => (m.step a).bind fun r => (run r.2 as).map fun answers => r.1 :: answers

end Map

end Piik.Ordered
