/-
  The room store (`room/store.go`, `room/retention.go`): room codes, Host and
  Viewer credentials, membership and the persistent authority behind them.

  A call reads and writes a `Store`.  A room is held by value; `ref` is the
  identity of the pointer the callers keep over an unlocked derivation.  The
  random source and the clock are streams of what they will answer.
-/
import Piik.Lib.OMap
import Piik.Lib.Sha256
import Piik.Room.Database

-- a room of the package `room`
set_option linter.dupNamespace false

namespace Piik.Room

/-- The number of four-digit room codes without a leading zero. -/
def capacity : ℕ := 9000

/-- The codes start here, so that each has four digits. -/
def roomCodeFirst : ℕ := 1000

/-- The largest viewer limit that a store may be given. -/
def maxViewersPerRoomLimit : ℤ := 20

/-- All codes, in order. -/
def roomCodes : List String := (List.range capacity).map fun index => toString (roomCodeFirst + index)

/-- A participant's role in its room. -/
inductive Role
  | host
  | viewer
  deriving DecidableEq, Repr

/-- What let a viewer in. -/
inductive AdmittedBy
  | grant
  | code
  deriving DecidableEq, Repr

/-- An empty `sessionID` means offline. -/
structure Participant where
  clientID : String
  peerID : String
  sessionID : String := ""
  admittedBy : AdmittedBy

/-- A room: the digests of its secrets, its policy, and who is there. -/
structure Room where
  ref : ℕ
  roomID : String
  hostTokenDigest : Bytes
  viewerGrantDigest : Bytes
  viewerPasswordMaterial : Option Bytes
  viewerAuthorizationGeneration : String
  codeEntryPolicy : CodeEntryPolicy
  host : Option Participant := none
  emptySinceMs : ℤ
  viewers : OMap String Participant := .empty

/-- What the creator of a room is told, with the secrets in clear. -/
structure CreatedRoom where
  roomID : String
  hostToken : String
  codeEntryPolicy : CodeEntryPolicy
  viewerGrant : String

/-- A request to join with a token or a grant. -/
structure ConnectParticipantInput where
  roomID : String
  role : Role
  token : String
  viewerGrant : String
  clientID : String
  sessionID : String

/-- A request to join with a password. -/
structure ConnectViewerWithPasswordInput where
  roomID : String
  clientID : String
  sessionID : String

/-- What a participant that joined is told. -/
structure ConnectedParticipant where
  roomID : String
  role : Role
  peerID : String
  hostOnline : Bool
  replacedSessionID : String
  codeEntryPolicy : CodeEntryPolicy
  viewerPasswordEnabled : Bool
  viewerAuthorizationGeneration : String

/-- The participant whose session ended. -/
structure DisconnectedParticipant where
  roomID : String
  role : Role
  peerID : String

/-- A room that is gone, with the sessions that it had. -/
structure ClosedRoom where
  roomID : String
  sessionIDs : List String

/-- The room that takes the place of another. -/
structure ReplacedRoom where
  created : CreatedRoom
  closed : ClosedRoom

/-- A viewer whose admission ends with the grant that it used. -/
structure RevokedViewer where
  peerID : String
  sessionID : String

/-- A change of the grant, and whom it puts out. -/
structure ViewerGrantUpdate where
  viewerGrant : String
  viewerAuthorizationGeneration : String
  previousViewerAuthorizationGeneration : String
  revokedViewers : List RevokedViewer

/-- A change of the policy for joining by code. -/
structure CodeEntryUpdate where
  codeEntryPolicy : CodeEntryPolicy
  viewerPasswordEnabled : Bool

/-- What a store is made from. The random bytes and the clock are read from the front. -/
structure Options where
  maxRooms : ℤ
  maxViewersPerRoom : ℤ
  database : Option Database
  random : Stream' Bytes
  now : Stream' ℤ

/-- The rooms and the codes that no room has, with their limits and the database under them. -/
structure Store where
  rooms : OMap String Room := .empty
  freeRoomCodes : List String
  random : Stream' Bytes
  now : Stream' ℤ
  database : Option Database
  initialized : Bool
  maxRooms : ℕ
  maxViewersPerRoom : ℕ
  nextRef : ℕ := 0

/-- A store that is not initialized yet. -/
def Store.new (options : Options) : Except Failure Store :=
  if options.maxRooms ≤ 0 ∨ options.maxRooms > capacity then
    .error (.other "Room limit must be an integer between 1 and 9000")
  else if options.maxViewersPerRoom ≤ 0 ∨ options.maxViewersPerRoom > maxViewersPerRoomLimit then
    .error (.other "Room viewer limit must be an integer between 1 and 20")
  else .ok {
    freeRoomCodes := roomCodes
    random := options.random
    now := options.now
    database := options.database
    initialized := options.database.isNone
    maxRooms := options.maxRooms.toNat
    maxViewersPerRoom := options.maxViewersPerRoom.toNat }

/-! ## Rooms -/

/-- SHA-256 of the UTF-8 bytes. -/
def digest (value : String) : Bytes :=
  (Sha256.sum256 (value.toUTF8.toList.map UInt8.toNat)).map UInt8.ofNat

/-- The value is the one that was digested. -/
def verifyDigest (value : String) (expectedDigest : Bytes) : Bool := digest value = expectedDigest

/-- A character of the URL-safe alphabet. -/
def isBase64Character (c : Char) : Bool :=
  ('A' ≤ c && c ≤ 'Z') || ('a' ≤ c && c ≤ 'z') || isDigit c || c = '_' || c = '-'

/-- The text of sixteen bytes in that alphabet, whose last character carries two bits. -/
def validViewerGrant (value : String) : Bool :=
  utf16Length value = 22 && value.toList.length = 22 &&
    (value.toList.take 21).all isBase64Character && (value.toList.drop 21).all fun c => c ∈ ['A', 'Q', 'g', 'w']

namespace Room

variable (room : Room)

/-- The part of a room that the database keeps. -/
def storedRoomAuthority : StoredRoomAuthority where
  roomID := room.roomID
  hostTokenDigest := room.hostTokenDigest
  viewerGrantDigest := room.viewerGrantDigest
  viewerAuthorizationGeneration := room.viewerAuthorizationGeneration
  codeEntryPolicy := room.codeEntryPolicy
  viewerPasswordMaterial := room.viewerPasswordMaterial

/-- The peer id of the Host, if there is one, and those of the viewers. -/
def peerIDs : List String :=
  (room.host.map Participant.peerID).toList ++ room.viewers.values.map Participant.peerID

/-- Somebody in the room is connected. -/
def roomOccupied : Bool :=
  room.host.any (fun host => host.sessionID ≠ "") ||
    room.viewers.values.any fun viewer => viewer.sessionID ≠ ""

/-- The viewer with this peer ID. -/
def findViewerByPeerID (peerID : String) : Option Participant :=
  room.viewers.values.find? fun viewer => viewer.peerID = peerID

/-- The sessions that are connected, the host's first. -/
def connectedSessionIDs : List String :=
  ((room.host.map Participant.sessionID).toList ++
    room.viewers.values.map Participant.sessionID).filter (· ≠ "")

/-- The grant is well formed and the room's own. -/
def viewerGrantIsValid (grant : String) : Bool :=
  grant ≠ "" && validViewerGrant grant && verifyDigest grant room.viewerGrantDigest

/-- The answer to a participant that joined. -/
def connectedParticipant (peerID : String) (role : Role) (replacedSessionID sessionID : String) :
    ConnectedParticipant where
  roomID := room.roomID
  role
  peerID
  hostOnline := room.host.any fun host => host.sessionID ≠ ""
  replacedSessionID := if replacedSessionID = sessionID then "" else replacedSessionID
  codeEntryPolicy := room.codeEntryPolicy
  viewerPasswordEnabled := room.viewerPasswordMaterial.isSome
  viewerAuthorizationGeneration := room.viewerAuthorizationGeneration

end Room

namespace Store

/-! ## What the store reads from outside -/

/-- The next answer of the random source, which need not have the size asked for. -/
def drawRandom (_size : ℕ) : Act Store Bytes := do
  let s ← get
  set { s with random := s.random.tail }
  return s.random.head

/-- The next reading of the clock. -/
def readClock : Act Store ℤ := do
  let s ← get
  set { s with now := s.now.tail }
  return s.now.head

/-- A call on the database, which must be configured. -/
def onDatabase {α : Type} (call : Act Database α) : Act Store α := do
  match (← get).database with
  | none => throw .fault
  | some d =>
    let (result, d') := call.run.run d
    modify fun s => { s with database := some d' }
    Database.liftExcept result

/-- Run a stable-authority write when a database is configured. -/
def writeDatabase (write : Act Database Unit) : Act Store Unit := do
  if (← get).database.isSome then onDatabase write

/-! ## The pool of room codes -/

/-- The largest value of the code's integers. -/
def maxUint64 : ℕ := 2 ^ 64 - 1

/-- Eight bytes as a number. -/
def bigEndianUint64 (value : Bytes) : ℕ := value.foldl (fun acc b => acc * 256 + b.toNat) 0

/-- The draws of `uniformIndex`: a value in the incomplete final bucket of the
    `2 ^ 64` possible ones is drawn again. -/
def uniformIndexWithin (count : ℕ) : ℕ → Act Store ℕ
  | 0 => throw (.other "Unable to select a room code uniformly")
  | attempts + 1 => do
    let remainder := (maxUint64 % count + 1) % count
    let value ← drawRandom 8
    if value.length ≠ 8 then throw (.other "Room code random source must return 8 bytes")
    if remainder ≠ 0 && bigEndianUint64 value ≥ maxUint64 - remainder + 1 then
      uniformIndexWithin count attempts
    else return bigEndianUint64 value % count

/-- An index below the count, from at most sixteen draws. -/
def uniformIndex (count : ℕ) : Act Store ℕ := uniformIndexWithin count 16

/-- Remove the code at an index by moving the last code into it. -/
def takeRoomCodeAt (index : ℕ) : Act Store String := do
  let s ← get
  let last := s.freeRoomCodes.length - 1
  let kept := s.freeRoomCodes.take last
  set { s with freeRoomCodes :=
    if index < last then kept.set index (s.freeRoomCodes.getD last "") else kept }
  return s.freeRoomCodes.getD index ""

/-- The preferred code if it is free, else one at random. -/
def takeRoomCode (preferredRoomID : String) : Act Store String := do
  let codes := (← get).freeRoomCodes
  if codes.length = 0 then throw (.code .roomLimit)
  let index := codes.idxOf preferredRoomID
  if preferredRoomID ≠ "" && index < codes.length then takeRoomCodeAt index
  else takeRoomCodeAt (← uniformIndex codes.length)

/-- A code goes back to the end of the free ones. -/
def releaseRoomCode (roomID : String) : Act Store Unit :=
  modify fun s => { s with freeRoomCodes := s.freeRoomCodes ++ [roomID] }

/-! ## Identifiers -/

/-- An identifier that is not taken, from so many draws. -/
def uniqueIDWithin (size : ℕ) (taken : String → Bool) : ℕ → Act Store String
  | 0 => throw (.other "Unable to allocate a unique identifier")
  | attempts + 1 => do
    let value ← drawRandom size
    if value.length ≠ size then
      throw (.other ("Identifier random source must return " ++ toString size ++ " bytes"))
    let candidate := Base64.encodeToString value
    if taken candidate then uniqueIDWithin size taken attempts else return candidate

/-- An identifier that is not taken, from at most eight draws. -/
def uniqueID (size : ℕ) (taken : String → Bool) : Act Store String := uniqueIDWithin size taken 8

/-- A peer ID that nobody in the room has. -/
def newPeerID (room : Room) : Act Store String := uniqueID 16 fun candidate =>
  room.host.any (fun host => host.peerID = candidate) ||
    room.viewers.values.any fun viewer => viewer.peerID = candidate

/-- A fresh grant. -/
def createViewerGrant : Act Store String := do
  let secret ← drawRandom 16
  if secret.length ≠ 16 then throw (.other "Viewer grant random source must return 16 bytes")
  return Base64.encodeToString secret

/-- A digest that no grant has, for a room without one. -/
def randomDigest : Act Store Bytes := do
  let value ← drawRandom 32
  if value.length ≠ 32 then throw (.other "Viewer grant random source must return 32 bytes")
  return value

/-- A fresh name for what viewers are authorized by. -/
def newAuthorizationGeneration : Act Store String := do
  let value ← drawRandom 16
  if value.length ≠ 16 then
    throw (.other "Authorization generation random source must return 16 bytes")
  return Base64.encodeToString value

/-- The identity of a new room. -/
def newRef : Act Store ℕ := do
  let s ← get
  set { s with nextRef := s.nextRef + 1 }
  return s.nextRef

/-- A room with fresh secrets, and what its creator is told. -/
def newRoom (roomID : String) (policy : CodeEntryPolicy) (material : Option Bytes) :
    Act Store (Room × CreatedRoom) := do
  let hostTokenBytes ← drawRandom 32
  if hostTokenBytes.length ≠ 32 then throw (.other "Host token random source must return 32 bytes")
  let hostToken := Base64.encodeToString hostTokenBytes
  let viewerGrant ← createViewerGrant
  let generation ← newAuthorizationGeneration
  let ref ← newRef
  let now ← readClock
  return (
    { ref, roomID
      hostTokenDigest := digest hostToken
      viewerGrantDigest := digest viewerGrant
      viewerPasswordMaterial := material
      viewerAuthorizationGeneration := generation
      codeEntryPolicy := policy
      emptySinceMs := now },
    { roomID, hostToken, codeEntryPolicy := policy, viewerGrant })

/-! ## Rooms of the store -/

/-- Nothing is served before the rooms of the database are restored. -/
def ensureInitialized : Act Store Unit := do
  if !(← get).initialized then throw (.other "RoomStore stable authority is not initialized")

/-- The room under a code. -/
def getAvailableRoom (roomID : String) : Act Store Room := do
  match (← get).rooms.get roomID with
  | none => throw (.code .invalidToken)
  | some room => return room

/-- The room under a code, for its host. -/
def getHostManagedRoom (roomID hostToken : String) : Act Store Room := do
  let room ← getAvailableRoom roomID
  if !verifyDigest hostToken room.hostTokenDigest then throw (.code .invalidToken)
  return room

/-- The store with another state of a room. -/
def withRoom (s : Store) (room : Room) : Store :=
  { s with rooms := s.rooms.modify room.roomID fun _ => room }

/-- Write to the room behind a pointer, which the map holds under its own id. -/
def putRoom (room : Room) : Act Store Unit := modify fun s => s.withRoom room

/-- The room after a departure: one that has just become empty notes the time. -/
def noteEmpty (room : Room) : Act Store Room := do
  if room.roomOccupied then return room
  let now ← readClock
  return { room with emptySinceMs := now }

/-! ## Restore -/

/-- A room as the database has it, empty. -/
def restoredRoom (stored : StoredRoomAuthority) (ref : ℕ) (now : ℤ) : Room where
  ref
  roomID := stored.roomID
  hostTokenDigest := stored.hostTokenDigest
  viewerGrantDigest := stored.viewerGrantDigest
  viewerPasswordMaterial := stored.viewerPasswordMaterial
  viewerAuthorizationGeneration := stored.viewerAuthorizationGeneration
  codeEntryPolicy := stored.codeEntryPolicy
  emptySinceMs := now

/-- `restore` sets the rooms one by one, each with a fresh reconnect window. -/
def restoreRooms : Rows → Act Store Unit
  | [] => pure ()
  | stored :: rest => do
    let ref ← newRef
    let now ← readClock
    let room := restoredRoom stored ref now
    modify fun s => { s with rooms := s.rooms.set stored.roomID room }
    restoreRooms rest

/-- The rooms of the database, if all of them are valid and within the limit. -/
def restore : Act Store Unit := do
  let storedRooms ← onDatabase Database.initializeDatabase
  if storedRooms.length > (← get).maxRooms then
    throw (.other "Room database exceeds the configured room limit")
  let roomIDs := storedRooms.map StoredRoomAuthority.roomID
  if roomIDs.dedup.length ≠ storedRooms.length then
    throw (.other "Room database contains duplicate room IDs")
  restoreRooms storedRooms
  modify fun s => { s with freeRoomCodes := s.freeRoomCodes.filter (· ∉ roomIDs) }

/-- `Initialize`: a store that could not restore holds nothing and closes its database. -/
def initializeStore : Act Store Unit := do
  let s ← get
  if s.initialized then return
  if s.database.isNone then
    modify fun s => { s with initialized := true }
    return
  try restore catch e =>
    modify fun s => { s with rooms := .empty }
    try onDatabase Database.closeHandles catch _ => pure ()
    throw e
  modify fun s => { s with initialized := true }

/-- `Close` -/
def close : Act Store Unit := do
  if (← get).database.isSome then onDatabase Database.closeHandles

/-! ## Create and replace -/

/-- The outcomes of the derivation gate that the commit resolves after its own checks. -/
def isGateOutcome (failure : Failure) : Bool :=
  failure = .derivationCancelled || failure = .code .roomBusy

/-- A derivation failure that is no gate outcome is returned before any check. -/
def refuseDerivation (derived : Option Failure) : Act Store Unit :=
  match derived with
  | none => pure ()
  | some failure => if isGateOutcome failure then pure () else throw failure

/-- A new room under a free code, first in the database and then in the store. -/
def createRoom (policy : CodeEntryPolicy) (material : Option Bytes) (derived : Option Failure)
    (preferredRoomID : String) : Act Store CreatedRoom := do
  refuseDerivation derived
  ensureInitialized
  let s ← get
  if s.rooms.len ≥ s.maxRooms then throw (.code .roomLimit)
  if derived = some (.code .roomBusy) then throw (.code .roomBusy)
  if derived = some .derivationCancelled then
    throw (.other "Room creation password derivation was cancelled")
  let roomID ← takeRoomCode preferredRoomID
  let (room, created) ← try
      let (room, created) ← newRoom roomID policy material
      writeDatabase (Database.insertRoom room.storedRoomAuthority)
      pure (room, created)
    catch e =>
      releaseRoomCode roomID
      throw e
  modify fun s => { s with rooms := s.rooms.set roomID room }
  return created

/-- The new room in the place of the old one, in the database and in the store. -/
def replaceRoomWith (roomID replacementRoomID : String) (policy : CodeEntryPolicy)
    (material : Option Bytes) (current : Room) : Act Store ReplacedRoom := do
  let (room, created) ← newRoom replacementRoomID policy material
  writeDatabase (Database.replaceRoom roomID current.hostTokenDigest room.storedRoomAuthority)
  let closed : ClosedRoom := { roomID, sessionIDs := current.connectedSessionIDs }
  modify fun s => { s with rooms := (s.rooms.delete roomID).set replacementRoomID room }
  releaseRoomCode roomID
  return { created, closed }

/-- The room the Host's token owns, if it is still the one the derivation began with. -/
def ownedRoom (roomID hostToken : String) (derived : Option Failure) (current : ℕ) :
    Act Store Room := do
  refuseDerivation derived
  ensureInitialized
  let owned ← getHostManagedRoom roomID hostToken
  if owned.ref ≠ current || derived = some .derivationCancelled then
    throw (.code .roomAccessDenied)
  if derived = some (.code .roomBusy) then throw (.code .roomBusy)
  return owned

/-- A room of the same host under another code. A failure gives the new code back. -/
def replaceRoom (roomID hostToken : String) (policy : CodeEntryPolicy) (material : Option Bytes)
    (derived : Option Failure) (current : ℕ) : Act Store ReplacedRoom := do
  let owned ← ownedRoom roomID hostToken derived current
  let replacementRoomID ← takeRoomCode ""
  try replaceRoomWith roomID replacementRoomID policy material owned
  catch e =>
    releaseRoomCode replacementRoomID
    throw e

/-! ## Authority changes -/

/-- The password's material, unless the room changed while it was derived. -/
def setViewerPassword (roomID hostToken : String) (material : Option Bytes)
    (derived : Option Failure) (current : ℕ) : Act Store Bool := do
  let currentRoom ← ownedRoom roomID hostToken derived current
  writeDatabase (Database.setViewerPassword roomID currentRoom.hostTokenDigest material)
  putRoom { currentRoom with viewerPasswordMaterial := material }
  return material.isSome

/-- Whether viewers may join by code. -/
def setCodeEntryPolicy (roomID : String) (policy : CodeEntryPolicy) (hostToken : String) :
    Act Store CodeEntryUpdate := do
  ensureInitialized
  let room ← getHostManagedRoom roomID hostToken
  writeDatabase (Database.setCodeEntryPolicy roomID room.hostTokenDigest policy)
  putRoom { room with codeEntryPolicy := policy }
  return { codeEntryPolicy := policy, viewerPasswordEnabled := room.viewerPasswordMaterial.isSome }

/-- A rotation issues a new invitation, a revocation none. -/
def grantOf (action : String) : Act Store String :=
  if action = "rotate" then createViewerGrant else pure ""

/-- A revoked invitation leaves a digest nobody knows the secret of. -/
def grantDigest (viewerGrant : String) : Act Store Bytes :=
  if viewerGrant ≠ "" then pure (digest viewerGrant) else randomDigest

/-- A room that was occupied and no longer is notes the time. -/
def noteEmptied (wasOccupied : Bool) (room : Room) : Act Store Room :=
  if wasOccupied then noteEmpty room else pure room

/-- Renew or disable the grant, and end the admissions under the old one. -/
def setViewerGrant (roomID action hostToken : String) : Act Store ViewerGrantUpdate := do
  ensureInitialized
  let room ← getHostManagedRoom roomID hostToken
  let viewerGrant ← grantOf action
  let revokedViewers := (room.viewers.values.filter fun viewer => viewer.admittedBy = .grant).map
    fun viewer => { peerID := viewer.peerID, sessionID := viewer.sessionID }
  let viewerGrantDigest ← grantDigest viewerGrant
  let generation ← newAuthorizationGeneration
  writeDatabase (Database.setViewerGrant roomID room.hostTokenDigest viewerGrantDigest generation)
  putRoom (← noteEmptied room.roomOccupied { room with
    viewerGrantDigest
    viewerAuthorizationGeneration := generation
    viewers := room.viewers.filter fun _ viewer => viewer.admittedBy ≠ .grant })
  return {
    viewerGrant
    viewerAuthorizationGeneration := generation
    previousViewerAuthorizationGeneration := room.viewerAuthorizationGeneration
    revokedViewers }

/-! ## Participants -/

/-- A host joins unless another client is connected as host. -/
def connectHost (room : Room) (input : ConnectParticipantInput) : Act Store ConnectedParticipant := do
  if room.host.any fun current => current.sessionID ≠ "" && current.clientID ≠ input.clientID then
    throw (.code .hostAlreadyConnected)
  let joining ← match room.host.filter fun current => current.clientID = input.clientID with
    | some current => pure current
    | none => do
      let peerID ← newPeerID room
      pure { clientID := input.clientID, peerID, admittedBy := .code }
  let room := { room with host := some { joining with sessionID := input.sessionID } }
  putRoom room
  return room.connectedParticipant joining.peerID .host joining.sessionID input.sessionID

/-- A viewer takes its place again, or a new one if there is room. -/
def connectViewer (room : Room) (clientID sessionID : String) (admittedBy : AdmittedBy) :
    Act Store ConnectedParticipant := do
  let joining ← match room.viewers.get clientID with
    | some joining => pure joining
    | none => do
      if room.viewers.len ≥ (← get).maxViewersPerRoom then throw (.code .roomFull)
      let peerID ← newPeerID room
      pure { clientID, peerID, admittedBy }
  let room := { room with
    viewers := room.viewers.set clientID { joining with sessionID, admittedBy } }
  putRoom room
  return room.connectedParticipant joining.peerID .viewer joining.sessionID sessionID

/-- The room of a connect; a viewer without an invitation learns only that there is none. -/
def roomToJoin (input : ConnectParticipantInput) : Act Store Room := do
  match (← get).rooms.get input.roomID with
  | none => throw (.code
      (if input.role = .viewer && input.viewerGrant = "" then .roomNotFound else .invalidToken))
  | some room => return room

/-- Join as host with the token, or as viewer the way the room admits it. -/
def connectParticipant (input : ConnectParticipantInput) : Act Store ConnectedParticipant := do
  ensureInitialized
  let room ← roomToJoin input
  if input.role = .host then
    if !verifyDigest input.token room.hostTokenDigest then throw (.code .invalidToken)
    connectHost room input
  else if input.viewerGrant ≠ "" then
    if !room.viewerGrantIsValid input.viewerGrant then throw (.code .invalidToken)
    connectViewer room input.clientID input.sessionID .grant
  else
    if room.codeEntryPolicy ≠ codeEntryOpen then throw (.code .invalidToken)
    connectViewer room input.clientID input.sessionID .code

/-- `room` and `expectedMaterial` are those of the challenge; `mayConnect` is what the
    caller's predicate answers. A material shorter than the salt is a slice out of range. -/
def connectViewerWithPassword (input : ConnectViewerWithPasswordInput)
    (derived expectedMaterial : Bytes) (room : Option ℕ) (mayConnect : Bool) :
    Act Store ConnectedParticipant := do
  ensureInitialized
  if expectedMaterial.length < viewerPasswordSaltBytes then throw .fault
  let isMatch := derived = expectedMaterial.drop viewerPasswordSaltBytes
  match (← get).rooms.get input.roomID with
  | none => throw (.code .roomNotFound)
  | some currentRoom =>
    if room ≠ some currentRoom.ref || currentRoom.codeEntryPolicy ≠ codeEntryPrivate ||
        !isMatch || currentRoom.viewerPasswordMaterial ≠ some expectedMaterial || !mayConnect then
      throw (.code .invalidToken)
    try connectViewer currentRoom input.clientID input.sessionID .code
    catch e => throw (if e = .code .roomFull then .code .invalidToken else e)

/-- The session ends. The participant keeps its place, so that it can come back. -/
def disconnectParticipant (roomID peerID sessionID : String) :
    Act Store (Option DisconnectedParticipant) := do
  ensureInitialized
  match (← get).rooms.get roomID with
  | none => return none
  | some room =>
    match room.host.filter fun host => host.peerID = peerID with
    | some host =>
      if host.sessionID ≠ sessionID then return none
      putRoom (← noteEmpty { room with host := some { host with sessionID := "" } })
      return some { roomID, role := .host, peerID }
    | none =>
      match room.findViewerByPeerID peerID with
      | none => return none
      | some viewer =>
        if viewer.sessionID ≠ sessionID then return none
        let viewers := room.viewers.modify viewer.clientID fun viewer =>
          { viewer with sessionID := "" }
        putRoom (← noteEmpty { room with viewers })
        return some { roomID, role := .viewer, peerID }

/-- A viewer that is not connected loses its place. -/
def removeDisconnectedViewer (roomID peerID : String) : Act Store Bool := do
  match (← get).rooms.get roomID with
  | none => return false
  | some room =>
    match room.findViewerByPeerID peerID with
    | none => return false
    | some viewer =>
      if viewer.sessionID ≠ "" then return false
      putRoom { room with viewers := room.viewers.delete viewer.clientID }
      return room.viewers.has viewer.clientID

/-! ## Retirement -/

/-- The rooms to close, with the Host token digest each row is found by. -/
def retiring (rooms : OMap String Room) (roomIDs : List String) : List (ClosedRoom × Bytes) :=
  roomIDs.filterMap fun roomID => (rooms.get roomID).map fun room =>
    ({ roomID, sessionIDs := room.connectedSessionIDs }, room.hostTokenDigest)

/-- Drop the rooms of a batch and put their codes back. -/
def releaseRooms : List ClosedRoom → Act Store Unit
  | [] => pure ()
  | room :: rest => do
    modify fun s => { s with rooms := s.rooms.delete room.roomID }
    releaseRoomCode room.roomID
    releaseRooms rest

/-- One transaction retires the batch before its codes are released. -/
def abandonRooms (roomIDs : List String) : Act Store (List ClosedRoom) := do
  ensureInitialized
  let retired := retiring (← get).rooms roomIDs
  let closed := retired.map Prod.fst
  if closed.length = 0 then return []
  writeDatabase (Database.deleteRooms (retired.map fun room => (room.1.roomID, room.2)))
  releaseRooms closed
  return closed

/-- Close one room. -/
def abandonRoom (roomID : String) : Act Store (Option ClosedRoom) := do
  let closed ← abandonRooms [roomID]
  return closed.head?

/-- Close all rooms. -/
def abandonAllRooms : Act Store (List ClosedRoom) := do
  abandonRooms (← get).rooms.keys

/-- Empty rooms in creation order, those never joined included. -/
def emptyRoomIDs (s : Store) (beforeMs : ℤ) : List String :=
  (s.rooms.entries.filter fun e => e.2.emptySinceMs ≤ beforeMs && !e.2.roomOccupied).map Prod.fst

/-- Close the rooms that have been empty since before the time. -/
def expireEmptyRooms (beforeMs : ℤ) : Act Store (List ClosedRoom) := do
  abandonRooms ((← get).emptyRoomIDs beforeMs)

/-! ## The operations as data -/

/-- An operation that may change the store. -/
inductive Op
  | initializeStore
  | close
  | createRoom (policy : CodeEntryPolicy) (material : Option Bytes) (derived : Option Failure)
      (preferredRoomID : String)
  | replaceRoom (roomID hostToken : String) (policy : CodeEntryPolicy) (material : Option Bytes)
      (derived : Option Failure) (current : ℕ)
  | setViewerPassword (roomID hostToken : String) (material : Option Bytes)
      (derived : Option Failure) (current : ℕ)
  | setCodeEntryPolicy (roomID : String) (policy : CodeEntryPolicy) (hostToken : String)
  | setViewerGrant (roomID action hostToken : String)
  | connectParticipant (input : ConnectParticipantInput)
  | connectViewerWithPassword (input : ConnectViewerWithPasswordInput)
      (derived expectedMaterial : Bytes) (room : Option ℕ) (mayConnect : Bool)
  | disconnectParticipant (roomID peerID sessionID : String)
  | removeDisconnectedViewer (roomID peerID : String)
  | abandonRoom (roomID : String)
  | abandonAllRooms
  | expireEmptyRooms (beforeMs : ℤ)

/-- The operation as an action on the store. -/
def Op.act : Op → Act Store Unit
  | .initializeStore => Store.initializeStore
  | .close => Store.close
  | .createRoom policy material derived preferredRoomID => do
    discard (Store.createRoom policy material derived preferredRoomID)
  | .replaceRoom roomID hostToken policy material derived current => do
    discard (Store.replaceRoom roomID hostToken policy material derived current)
  | .setViewerPassword roomID hostToken material derived current => do
    discard (Store.setViewerPassword roomID hostToken material derived current)
  | .setCodeEntryPolicy roomID policy hostToken => do
    discard (Store.setCodeEntryPolicy roomID policy hostToken)
  | .setViewerGrant roomID action hostToken => do
    discard (Store.setViewerGrant roomID action hostToken)
  | .connectParticipant input => do discard (Store.connectParticipant input)
  | .connectViewerWithPassword input derived expectedMaterial room mayConnect => do
    discard (Store.connectViewerWithPassword input derived expectedMaterial room mayConnect)
  | .disconnectParticipant roomID peerID sessionID => do
    discard (Store.disconnectParticipant roomID peerID sessionID)
  | .removeDisconnectedViewer roomID peerID => do
    discard (Store.removeDisconnectedViewer roomID peerID)
  | .abandonRoom roomID => do discard (Store.abandonRoom roomID)
  | .abandonAllRooms => do discard Store.abandonAllRooms
  | .expireEmptyRooms beforeMs => do discard (Store.expireEmptyRooms beforeMs)

/-- What an operation answers and the store after it. -/
def step (s : Store) (op : Op) : Except Failure Unit × Store := op.act.run.run s

/-- The store after one operation after another, whatever each answered. -/
def run (s : Store) (ops : List Op) : Store := ops.foldl (fun s op => (s.step op).2) s

end Store

end Piik.Room
