/-
  The reference of an insertion-ordered map with live iteration: the `Map` of
  ECMAScript.

  The entries are a list that only grows; a removed entry leaves an empty place
  (`none`).  An iterator is an index into the list: it skips empty places,
  visits what was appended meanwhile, and is over at the end of the list.
-/
import Mathlib

universe u v

/-- The calls on a map and on the loops that walk it.  A loop is named by its
    place among the loops that have not ended. -/
inductive MapAct (κ : Type u) (ν : Type v)
  | get (k : κ)
  | has (k : κ)
  | len
  | set (k : κ) (v : ν)
  | moveToBack (k : κ) (v : ν)
  | delete (k : κ)
  | clear
  | keys
  | values
  /-- A loop over the map starts. -/
  | begin
  /-- A loop goes to its next entry, or ends. -/
  | next (i : ℕ)
  /-- A loop is left early. -/
  | leave (i : ℕ)

/-- What a call returns. -/
inductive MapAnswer (κ : Type u) (ν : Type v)
  | done
  | value (v : Option ν)
  | bool (b : Bool)
  | count (n : ℕ)
  | keys (l : List κ)
  | values (l : List ν)
  | entry (e : Option (κ × ν))

/-- The list of entries as the standard has it: a deleted one leaves its place empty. -/
structure JsMap (κ : Type u) (ν : Type v) where
  entries : List (Option (κ × ν)) := []
  /-- The next index of every loop. -/
  loops : List ℕ := []

namespace JsMap

variable {κ : Type u} {ν : Type v} (m : JsMap κ ν)

/-- The entries that are left, in order. -/
def live : List (κ × ν) := m.entries.reduceOption

/-- The first entry from here on, and the index after it. -/
def seek : List (Option (κ × ν)) → ℕ → Option ((κ × ν) × ℕ)
  | [], _ => none
  | none :: es, p => seek es (p + 1)
  | some e :: _, p => some (e, p + 1)

/-- All places are empty. -/
def clear : JsMap κ ν := { m with entries := m.entries.map fun _ => none }

/-- The next entry of a loop. -/
def next (i : ℕ) : MapAnswer κ ν × JsMap κ ν :=
  match m.loops[i]? with
  | none => (.done, m)
  | some p => match seek (m.entries.drop p) p with
    | some (e, p') => (.entry (some e), { m with loops := m.loops.set i p' })
    | none => (.entry none, { m with loops := m.loops.eraseIdx i })

variable [DecidableEq κ]

/-- The value of a key. -/
def get (k : κ) : Option ν := (m.live.find? fun e => e.1 = k).map Prod.snd

/-- Whether the key is there. -/
def has (k : κ) : Bool := (m.get k).isSome

/-- A key that is there keeps its place. -/
def set (k : κ) (v : ν) : JsMap κ ν :=
  if m.has k then
    { m with entries := m.entries.map <| Option.map fun e => if e.1 = k then (e.1, v) else e }
  else { m with entries := m.entries ++ [some (k, v)] }

/-- The place of the key is empty. -/
def delete (k : κ) : JsMap κ ν :=
  { m with entries := m.entries.map <| Option.filter fun e => e.1 ≠ k }

/-- One call. -/
def step : MapAct κ ν → MapAnswer κ ν × JsMap κ ν
  | .get k => (.value (m.get k), m)
  | .has k => (.bool (m.has k), m)
  | .len => (.count m.live.length, m)
  | .set k v => (.done, m.set k v)
  | .moveToBack k v => (.done, (m.delete k).set k v)
  | .delete k => (.bool (m.has k), m.delete k)
  | .clear => (.done, m.clear)
  | .keys => (.keys (m.live.map Prod.fst), m)
  | .values => (.values (m.live.map Prod.snd), m)
  | .begin => (.done, { m with loops := m.loops ++ [0] })
  | .next i => m.next i
  | .leave i => (.done, { m with loops := m.loops.eraseIdx i })

/-- The answers to a run of calls. -/
def run : JsMap κ ν → List (MapAct κ ν) → List (MapAnswer κ ν)
  | _, [] => []
  | m, a :: as => (m.step a).1 :: run (m.step a).2 as

end JsMap
