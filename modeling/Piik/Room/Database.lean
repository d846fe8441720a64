/-
  The SQLite authority of the room store (`room/database.go`).

  A database is the content of its file, whether a connection is open, and what
  SQLite will answer: the next transaction is carried out whole or refused whole.
  Statements are functions of the rows, which stand in insertion (`rowid`) order.
-/
import Mathlib
import Piik.Lib.Base64

namespace Piik.Room

/-- A byte string. -/
abbrev Bytes := List UInt8

/-- `room.ErrorCode`. -/
inductive ErrorCode
  | invalidToken
  | roomAccessDenied
  | roomBusy
  | roomNotFound
  | roomFull
  | hostAlreadyConnected
  | roomLimit
  deriving DecidableEq, Repr

/-- The errors of the package; a `fault` is a Go panic. -/
inductive Failure
  | code (code : ErrorCode)
  | derivationCancelled
  | other (message : String)
  | sqlite
  | fault
  deriving DecidableEq, Repr

/-- A call that changes a state and may fail; the state it had changed stays. -/
abbrev Act (σ α : Type) := ExceptT Failure (StateM σ) α

/-! ## Scalars -/

/-- The length of a string in UTF-16 code units. -/
def utf16Length (value : String) : ℕ :=
  (value.toList.map fun c => if c.toNat > 0xffff then 2 else 1).sum

/-- The digits of a code. -/
def roomCodeLength : ℕ := 4

/-- A decimal digit. -/
def isDigit (c : Char) : Bool := '0' ≤ c && c ≤ '9'

/-- Four digits, the first of which is no zero. -/
def validRoomCode (value : String) : Bool :=
  utf16Length value = roomCodeLength && match value.toList with
    | [] => false
    | c :: cs => ('1' ≤ c && c ≤ '9') && cs.all isDigit

/-- A policy as it is stored. -/
abbrev CodeEntryPolicy := String

/-- Viewers may join by code. -/
def codeEntryOpen : CodeEntryPolicy := "open"
/-- Viewers may not join by code. -/
def codeEntryPrivate : CodeEntryPolicy := "private"

/-- The salt comes first in the material. -/
def viewerPasswordSaltBytes : ℕ := 16
/-- The verifier follows the salt. -/
def viewerPasswordVerifierBytes : ℕ := 32
/-- The salt and the verifier. -/
def viewerPasswordMaterialBytes : ℕ := viewerPasswordSaltBytes + viewerPasswordVerifierBytes

/-! ## Rows -/

/-- A row of the table `rooms`; a nil password material is `none`. -/
structure StoredRoomAuthority where
  roomID : String
  hostTokenDigest : Bytes
  viewerGrantDigest : Bytes
  viewerAuthorizationGeneration : String
  codeEntryPolicy : CodeEntryPolicy
  viewerPasswordMaterial : Option Bytes
  deriving DecidableEq, Repr

/-- A condition, or the failure. -/
def check (holds : Bool) (failure : Failure) : Except Failure Unit :=
  if holds then .ok () else .error failure

/-- One of the two policies. -/
def validCodeEntryPolicy (policy : CodeEntryPolicy) : Bool :=
  policy = codeEntryOpen || policy = codeEntryPrivate

/-- The check before a digest is written. -/
def assertDigest (value : Bytes) (name : String) : Except Failure Unit :=
  check (value.length = 32) (.other (name ++ " digest must contain 32 bytes"))

/-- The check after a digest was read. -/
def readDigest (value : Bytes) (name : String) : Except Failure Unit :=
  check (value.length = 32) (.other ("Room database contains an invalid " ++ name ++ " digest"))

/-- The check of the material, where there is one. -/
def assertPasswordMaterial (value : Option Bytes) : Except Failure Unit :=
  check (value.all fun material => material.length = viewerPasswordMaterialBytes)
    (.other "Viewer password material must contain 48 bytes")

/-- Sixteen bytes in the URL-safe alphabet. -/
def assertAuthorizationGeneration (value : String) : Except Failure Unit :=
  check
    (match Base64.decodeString value with
     | none => false
     | some decoded => decoded.length = 16 && Base64.encodeToString decoded = value)
    (.other "Viewer authorization generation is invalid")

/-- The check before a room is written. -/
def assertStoredRoom (room : StoredRoomAuthority) : Except Failure Unit := do
  check (validRoomCode room.roomID) (.other "Room database contains an invalid room ID")
  assertDigest room.hostTokenDigest "Host token"
  assertDigest room.viewerGrantDigest "Viewer grant"
  assertAuthorizationGeneration room.viewerAuthorizationGeneration
  check (validCodeEntryPolicy room.codeEntryPolicy)
    (.other "Room database contains an invalid code-entry policy")
  assertPasswordMaterial room.viewerPasswordMaterial

/-- The check of the two columns that select a room. -/
def assertRoomIdentity (roomID : String) (hostTokenDigest : Bytes) : Except Failure Unit := do
  check (validRoomCode roomID) (.other "Room ID is invalid")
  assertDigest hostTokenDigest "Host token"

/-- A statement changed one row. -/
def assertSingleChange (changes : ℕ) (operation : String) : Except Failure Unit :=
  check (changes = 1) (.other ("Room database " ++ operation ++ " did not match current authority"))

/-! ## Statements -/

/-- The rows of the table. -/
abbrev Rows := List StoredRoomAuthority

/-- `WHERE room_id = ? AND host_token_digest = ?` -/
def matchesRow (roomID : String) (hostTokenDigest : Bytes) (row : StoredRoomAuthority) : Bool :=
  row.roomID = roomID && row.hostTokenDigest = hostTokenDigest

/-- The primary key refuses a second row of a room; the `CHECK` constraints refuse
    nothing that `assertStoredRoom` lets through. -/
def insertStoredRoom (room : StoredRoomAuthority) (rows : Rows) : Except Failure (Rows × ℕ) :=
  if rows.any fun row => row.roomID = room.roomID then .error .sqlite else .ok (rows ++ [room], 1)

/-- An update statement, with the number of rows it changed. -/
def updateRooms (roomID : String) (hostTokenDigest : Bytes)
    (f : StoredRoomAuthority → StoredRoomAuthority) (rows : Rows) : Rows × ℕ :=
  (rows.map fun row => if matchesRow roomID hostTokenDigest row then f row else row,
    rows.countP (matchesRow roomID hostTokenDigest))

/-- The delete statement, with the number of rows it removed. -/
def deleteRoomStatement (roomID : String) (hostTokenDigest : Bytes) (rows : Rows) : Rows × ℕ :=
  (rows.filter fun row => !matchesRow roomID hostTokenDigest row,
    rows.countP (matchesRow roomID hostTokenDigest))

/-! ## The file -/

/-- A column as the schema describes it. -/
structure Column where
  name : String
  columnType : String
  notNull : ℕ
  primaryKey : ℕ
  deriving DecidableEq, Repr

/-- What SQLite reads from the file. -/
structure File where
  applicationID : ℤ := 0
  userVersion : ℤ := 0
  schemaObjects : List (String × String) := []
  columns : List Column := []
  quickCheck : List String := ["ok"]
  rows : Rows := []

/-- The mark of a room database. -/
def roomDatabaseApplicationID : ℤ := 0x5343524e
/-- The version of the schema. -/
def roomDatabaseSchemaVersion : ℤ := 2
/-- The largest integer that the driver hands over exactly. -/
def maxSafeInteger : ℤ := 9007199254740991

/-- The columns of the current schema. -/
def expectedColumns : List Column := [
  ⟨"room_id", "TEXT", 1, 1⟩,
  ⟨"host_token_digest", "BLOB", 1, 0⟩,
  ⟨"viewer_grant_digest", "BLOB", 1, 0⟩,
  ⟨"viewer_authorization_generation", "TEXT", 1, 0⟩,
  ⟨"code_entry_policy", "TEXT", 1, 0⟩,
  ⟨"viewer_password_material", "BLOB", 0, 0⟩]

namespace File

/-- The check of a pragma's answer. -/
def readPragmaInteger (name : String) (value : ℤ) : Except Failure ℤ :=
  if value < -maxSafeInteger ∨ value > maxSafeInteger then
    .error (.other ("Room database " ++ name ++ " is invalid"))
  else .ok value

/-- The columns are those of the schema. -/
def assertExactColumns (file : File) : Except Failure Unit :=
  check (file.columns = expectedColumns)
    (.other "Room database columns do not match the current schema")

/-- `roomSchema`, run on an empty file. -/
def createSchema (file : File) : File :=
  { file with
    applicationID := 1396920910
    userVersion := 2
    schemaObjects := [("table", "rooms")]
    columns := expectedColumns
    rows := [] }

/-- An empty file gets the schema, any other must have it. -/
def ensureExactSchema (file : File) : Except Failure File := do
  let applicationID ← readPragmaInteger "application_id" file.applicationID
  let schemaVersion ← readPragmaInteger "user_version" file.userVersion
  if applicationID = 0 && schemaVersion = 0 && file.schemaObjects.length = 0 then
    return file.createSchema
  check (applicationID = roomDatabaseApplicationID)
    (.other "Room database application identity does not match")
  check (schemaVersion = roomDatabaseSchemaVersion)
    (.other "Room database schema version does not match")
  check (file.schemaObjects = [("table", "rooms")])
    (.other "Room database schema objects do not match")
  file.assertExactColumns
  return file

/-- The check of the database's own integrity test. -/
def assertDatabaseIntegrity (file : File) : Except Failure Unit :=
  check (file.quickCheck = ["ok"]) (.other "Room database integrity check failed")

/-- The check after a room was read. -/
def readStoredRoom (room : StoredRoomAuthority) : Except Failure Unit := do
  readDigest room.hostTokenDigest "Host token"
  readDigest room.viewerGrantDigest "Viewer grant"
  check (validCodeEntryPolicy room.codeEntryPolicy)
    (.other "Room database contains an invalid code-entry policy")
  check (room.viewerPasswordMaterial.all fun material =>
      material.length = viewerPasswordMaterialBytes)
    (.other "Room database contains invalid Viewer password material")
  assertStoredRoom room

/-- `readStoredRooms`: every row is checked before the list is returned. -/
def readStoredRooms (file : File) : Except Failure Rows := do
  file.rows.forM readStoredRoom
  return file.rows

/-- The work of the opening transaction. -/
def recover (file : File) : Except Failure (Rows × File) := do
  let file ← file.ensureExactSchema
  file.assertDatabaseIntegrity
  let rows ← file.readStoredRooms
  return (rows, file)

end File

/-! ## The database -/

/-- A `Database`; `driver` says for each transaction to come whether SQLite
    carries it out. -/
structure Database where
  file : File
  conn : Bool := false
  driver : Stream' Bool

namespace Database

/-- A check as a step of an action. -/
def liftExcept {σ α : Type} : Except Failure α → Act σ α
  | .error e => throw e
  | .ok a => pure a

/-- Whether SQLite carries out the transaction that begins here. -/
def askDriver : Act Database Bool := do
  let d ← get
  set { d with driver := d.driver.tail }
  return d.driver.head

/-- `closeHandles`; a connection that was open may report an error of its own. -/
def closeHandles : Act Database Unit := do
  let d ← get
  set { d with conn := false }
  if d.conn then
    let carriedOut ← askDriver
    if !carriedOut then throw .sqlite

/-- `Initialize`: open, lock, create or verify the schema and read the rows. The
    handles are closed again on an error, and the file stays as it was. -/
def initializeDatabase : Act Database Rows := do
  if (← get).conn then throw (.other "Room database is already initialized")
  let carriedOut ← askDriver
  if !carriedOut then throw .sqlite
  match (← get).file.recover with
  | .error e => throw e
  | .ok (rows, file) =>
    modify fun d => { d with file, conn := true }
    return rows

/-- `BEGIN IMMEDIATE`, the statements, `COMMIT` or `ROLLBACK`. -/
def transaction (operation : Rows → Except Failure Rows) : Act Database Unit := do
  if !(← get).conn then throw (.other "Room database is not initialized")
  let carriedOut ← askDriver
  if !carriedOut then throw .sqlite
  match operation (← get).file.rows with
  | .error e => throw e
  | .ok rows => modify fun d => { d with file := { d.file with rows } }

/-- Write a new room. -/
def insertRoom (room : StoredRoomAuthority) : Act Database Unit := do
  liftExcept (assertStoredRoom room)
  transaction fun rows => do
    let (rows, changes) ← insertStoredRoom room rows
    assertSingleChange changes "insert"
    return rows

/-- An `UPDATE` of the exact Host's room, which must change one row. -/
def updateRoom (roomID : String) (hostTokenDigest : Bytes)
    (f : StoredRoomAuthority → StoredRoomAuthority) (operation : String) : Act Database Unit :=
  transaction fun rows => do
    let (rows, changes) := updateRooms roomID hostTokenDigest f rows
    assertSingleChange changes operation
    return rows

/-- Write the material of one room. -/
def setViewerPassword (roomID : String) (hostTokenDigest : Bytes)
    (viewerPasswordMaterial : Option Bytes) : Act Database Unit := do
  liftExcept (assertRoomIdentity roomID hostTokenDigest)
  liftExcept (assertPasswordMaterial viewerPasswordMaterial)
  updateRoom roomID hostTokenDigest (fun row => { row with viewerPasswordMaterial })
    "password update"

/-- Write the policy of one room. -/
def setCodeEntryPolicy (roomID : String) (hostTokenDigest : Bytes)
    (codeEntryPolicy : CodeEntryPolicy) : Act Database Unit := do
  liftExcept (assertRoomIdentity roomID hostTokenDigest)
  if !validCodeEntryPolicy codeEntryPolicy then throw (.other "Room code-entry policy is invalid")
  updateRoom roomID hostTokenDigest (fun row => { row with codeEntryPolicy })
    "code-entry policy update"

/-- Write the grant of one room, and its generation. -/
def setViewerGrant (roomID : String) (hostTokenDigest viewerGrantDigest : Bytes)
    (viewerAuthorizationGeneration : String) : Act Database Unit := do
  liftExcept (assertRoomIdentity roomID hostTokenDigest)
  liftExcept (assertDigest viewerGrantDigest "Viewer grant")
  liftExcept (assertAuthorizationGeneration viewerAuthorizationGeneration)
  updateRoom roomID hostTokenDigest
    (fun row => { row with viewerGrantDigest, viewerAuthorizationGeneration }) "Viewer grant update"

/-- One `DELETE` that must remove one row. -/
def deleteRow (room : String × Bytes) (operation : String) (rows : Rows) : Except Failure Rows := do
  let (rows, changes) := deleteRoomStatement room.1 room.2 rows
  assertSingleChange changes operation
  return rows

/-- Remove the rooms one after the other, inside one transaction. -/
def deleteRows : List (String × Bytes) → Rows → Except Failure Rows
  | [], rows => .ok rows
  | room :: rooms, rows => do
    let rows ← deleteRow room "delete" rows
    deleteRows rooms rows

/-- The rooms are named by their ids and Host token digests, all that is read of them. -/
def deleteRooms (rooms : List (String × Bytes)) : Act Database Unit := do
  liftExcept (rooms.forM fun room => assertRoomIdentity room.1 room.2)
  transaction (deleteRows rooms)

/-- The insertion of the new room and the removal of the old one are one transaction. -/
def replaceRoom (oldRoomID : String) (oldHostTokenDigest : Bytes)
    (replacement : StoredRoomAuthority) : Act Database Unit := do
  liftExcept (assertRoomIdentity oldRoomID oldHostTokenDigest)
  liftExcept (assertStoredRoom replacement)
  if replacement.roomID = oldRoomID then throw (.other "Replacement room ID must be different")
  transaction fun rows => do
    let (rows, inserted) ← insertStoredRoom replacement rows
    assertSingleChange inserted "replacement insert"
    deleteRow (oldRoomID, oldHostTokenDigest) "replacement delete" rows

end Database

end Piik.Room
