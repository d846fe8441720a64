/-
  Password admission of the room store (`room/password.go` and the locked
  halves of `room/store.go`): a challenge, a derivation with the lock released,
  and a commit.  Between the two halves any other operation may run.
-/
import Mathlib
import Piik.Room.Store

namespace Piik.Room

/-! ## Derivation -/

/-- In UTF-16 units, as is the maximum. -/
def minViewerPasswordLength : ℕ := 1
/-- The longest password of a viewer. -/
def maxViewerPasswordLength : ℕ := 64

/-- Its length, and printable ASCII without the space. -/
def validViewerPassword (value : String) : Bool :=
  utf16Length value ≥ minViewerPasswordLength && utf16Length value ≤ maxViewerPasswordLength &&
    value ≠ "" && value.toList.all fun c => '!' ≤ c && c ≤ '~'

/-- `gate.run`: `acquired` is whether the queue had a place, `mayStart` what the caller's
    predicate answered once a slot was free. -/
def gateRun (acquired mayStart : Bool) (task : Except Failure Bytes) : Except Failure Bytes :=
  if !acquired then .error (.code .roomBusy)
  else if !mayStart then .error .derivationCancelled
  else task

variable (scrypt : String → Bytes → Except Failure Bytes)

/-- The verifier of a password under a salt, where the gate lets the derivation run. -/
def deriveViewerPassword (password : String) (salt : Bytes) (acquired mayConnect : Bool) :
    Except Failure Bytes :=
  if !validViewerPassword password then .error (.code .invalidToken)
  else match gateRun acquired mayConnect (scrypt password salt) with
    | .error .derivationCancelled => .error (.code .invalidToken)
    | derived => derived

/-- `copy(dst, src)` -/
def copyBytes (dst src : Bytes) : Bytes := src.take dst.length ++ dst.drop src.length

/-- The material a challenge is made of; a missing room and one without a private
    password answer with zeros. -/
def challengedMaterial (found : Option Room) : Bytes :=
  let zeros : Bytes := List.replicate viewerPasswordMaterialBytes 0
  match found with
  | none => zeros
  | some room =>
    if room.codeEntryPolicy = codeEntryPrivate then
      room.viewerPasswordMaterial.elim zeros (copyBytes zeros)
    else zeros

/-- What a challenge reads of a room: the salt, the material, and which room it was. -/
structure Challenge where
  salt : Bytes
  expectedMaterial : Bytes
  room : Option ℕ

namespace Store

/-- A fresh salt and the verifier under it. -/
def deriveViewerPasswordMaterial (password : String) (acquired mayStart : Bool) :
    Act Store Bytes := do
  if !validViewerPassword password then throw (.code .invalidToken)
  let salt ← drawRandom viewerPasswordSaltBytes
  if salt.length ≠ viewerPasswordSaltBytes then
    throw (.other "Viewer password salt source must return 16 bytes")
  let verifier ← Database.liftExcept (gateRun acquired mayStart (scrypt password salt))
  return salt ++ verifier

/-- What is read under the lock for a derivation outside it. A room that is not there gives dummy
    material. -/
def viewerPasswordChallenge (roomID : String) : Act Store Challenge := do
  ensureInitialized
  let found := (← get).rooms.get roomID
  let expectedMaterial := challengedMaterial found
  return {
    salt := expectedMaterial.take viewerPasswordSaltBytes
    expectedMaterial
    room := found.map Room.ref }

/-- The room of a host, for a later check that it is still the same. -/
def hostManagedRoom (roomID hostToken : String) : Act Store ℕ := do
  ensureInitialized
  let room ← getHostManagedRoom roomID hostToken
  return room.ref

/-- The code still names the same room, and the token is its host's. -/
def hostStillOwnsRoom (s : Store) (roomID hostToken : String) (current : ℕ) : Bool :=
  (s.rooms.get roomID).any fun room =>
    room.ref = current && verifyDigest hostToken room.hostTokenDigest

/-! ## The lock released -/

/-- What happens to the store while nobody holds it: an operation of another caller, or
    a draw from the random source outside the lock. -/
def Elapses (s s' : Store) : Prop := (∃ op : Op, (s.step op).2 = s') ∨
  ∃ random, s' = { s with random }

/-- What may happen to the store while its lock is free. -/
def Elapsed : Store → Store → Prop := Relation.ReflTransGen Elapses

end Store

end Piik.Room
