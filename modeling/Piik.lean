import Piik.Capture.Frame
import Piik.Client.Converge
import Piik.Client.InputEndpoints
import Piik.Client.InputSession
import Piik.Client.Prediction
import Piik.Client.Presentation
import Piik.Client.Probe
import Piik.Diagnostics.RotatingLog
import Piik.Edge.Groups
import Piik.Edge.Owners
import Piik.Edge.RelayInput
import Piik.Input.Control
import Piik.Input.Relay
import Piik.Input.RoundTrip
import Piik.Media.Pacer
import Piik.Ordered.Refine
import Piik.Protocol.Agreement
import Piik.Protocol.Origin
import Piik.Room.Gate
import Piik.Room.Retention
import Piik.Room.Uniform
import Piik.Route.Balance
import Piik.Route.Capacity
import Piik.Route.Cursor
import Piik.Route.Gap
import Piik.Route.Handoff
import Piik.Route.Linear
import Piik.Route.Paths
import Piik.Route.Retained
import Piik.Route.Safety
import Piik.Route.Stale
import Piik.Route.Wake
import Piik.Sfu.VoicePlans
import Piik.Sfu.VoiceSettles
import Piik.Signal.Joins
import Piik.Signal.Pump
import Piik.Signal.Session
import Piik.Voice.Flows
