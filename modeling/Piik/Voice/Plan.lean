/-
  The voice flows of a room (`signal/voice_plan.go`): which publication every
  voice edge carries in which direction.

  The junction at the SFU is the peer `""`.  Edges are the pointers of the
  source by their ids.  Where the source iterates over a map, the order is an
  argument.
-/
import Piik.Lib.Search

namespace Piik.Voice

/-- What somebody says. -/
structure VoicePublication where
  id : String
  peerID : String
  deriving DecidableEq, Repr

/-- A `voiceEdge`, as far as the flows see it; `send` is by the sending end. -/
structure VoiceEdge where
  id : String
  parent : String
  child : String
  pending : Bool
  send : OMap String (List String)

namespace VoiceEdge

/-- The publications that one end of an edge sends. -/
def sends (edge : VoiceEdge) (peerID : String) : List String := (edge.send.get peerID).getD []

/-- What stays of an edge when flows are listed on it. -/
def fixed (edge : VoiceEdge) : String × String × String × Bool :=
  (edge.id, edge.parent, edge.child, edge.pending)

end VoiceEdge

/-- An edge, from a peer to a peer. -/
abbrev VoiceHop := Hop String String

/-- The hops of an edge that leave a peer. -/
def edgeHops (peerID : String) (edge : VoiceEdge) : List VoiceHop :=
  if edge.pending then []
  else
    (if edge.parent = peerID then [⟨edge.parent, edge.child, edge.id⟩] else []) ++
      (if edge.child = peerID then [⟨edge.child, edge.parent, edge.id⟩] else [])

/-- `adjacent[peerID]` -/
def adjacent (connections : List VoiceEdge) (peerID : String) : List VoiceHop :=
  connections.flatMap (edgeHops peerID)

/-- `edge.send[from] = append(edge.send[from], pubID)` on the edge with that id. -/
def appendSend (step : VoiceHop) (pubID : String) (edges : List VoiceEdge) : List VoiceEdge :=
  edges.map fun edge => if edge.id = step.edge then
    { edge with send := edge.send.set step.source (edge.sends step.source ++ [pubID]) } else edge

/-- List the publication on the edges of a path that do not carry it yet. -/
def sendAlong (pubID : String) : List VoiceHop → List VoiceEdge × List String →
    List VoiceEdge × List String
  | [], state => state
  | step :: path, (edges, used) =>
    if step.edge ∈ used then sendAlong pubID path (edges, used)
    else sendAlong pubID path (appendSend step pubID edges, step.edge :: used)

/-- The publications that each edge refuses. -/
abbrev Unavailable := OMap String (List String)

/-- `unavailable[peerID]` -/
def missing (unavailable : Unavailable) (peerID : String) : List String :=
  (unavailable.get peerID).getD []

variable (voiceAllowed : String → Bool)

/-- One publication to every member, in the order the members come in. -/
def sendToMembers (pub : VoicePublication) (paths : OMap String (List VoiceHop)) :
    List String → List VoiceEdge × List String × Unavailable → List VoiceEdge × Unavailable
  | [], (edges, _, unavailable) => (edges, unavailable)
  | peerID :: members, (edges, used, unavailable) =>
    if peerID = pub.peerID || !voiceAllowed peerID then
      sendToMembers pub paths members (edges, used, unavailable)
    else match paths.get peerID with
      | none => sendToMembers pub paths members
          (edges, used, unavailable.set peerID (missing unavailable peerID ++ [pub.id]))
      | some path =>
        let (edges, used) := sendAlong pub.id path (edges, used)
        sendToMembers pub paths members (edges, used, unavailable)

/-- The peers an edge can lead to. -/
def voicePeers (connections : List VoiceEdge) : List String :=
  connections.flatMap fun edge => [edge.parent, edge.child]

/-- The breadth-first search of one publication, with a turn for every peer. -/
def publicationPaths (connections : List VoiceEdge) (peerID : String) :
    OMap String (List VoiceHop) :=
  Hop.pathsFrom (adjacent connections) ((voicePeers connections).length + 1) peerID

/-- `projectVoiceFlows`; `members pub` is the order the members come in for a publication. -/
def projectVoiceFlows (connections : List VoiceEdge) (members : VoicePublication → List String) :
    List VoicePublication → List VoiceEdge × Unavailable → List VoiceEdge × Unavailable
  | [], state => state
  | pub :: pubs, (edges, unavailable) =>
    projectVoiceFlows connections members pubs
      (sendToMembers voiceAllowed pub (publicationPaths connections pub.peerID) (members pub)
        (edges, [], unavailable))

/-- The publications of a junction's plan: what its peer publishes to the SFU, and what
    it subscribes to there. -/
structure VoiceConnectionPlan where
  publish : List VoicePublication
  subscribe : List VoicePublication

/-- The plan of the connection between the SFU and a child. -/
def configureVoiceJunction (edge : VoiceEdge) (pubs : List VoicePublication) :
    VoiceConnectionPlan where
  publish := pubs.flatMap fun pub =>
    ((edge.sends edge.child).filter (· = pub.id)).map fun _ => pub
  subscribe := pubs.flatMap fun pub => ((edge.sends "").filter (· = pub.id)).map fun _ => pub

end Piik.Voice
