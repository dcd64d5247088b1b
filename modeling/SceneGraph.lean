import SceneGraph.Main
import SceneGraph.Session
import SceneGraph.Proofs.Cascade.Enumeration
import SceneGraph.Proofs.Grouping.Acyclic
import SceneGraph.Proofs.Document.Codec
import SceneGraph.Proofs.Document.Remains
import SceneGraph.Proofs.Document.Declaring
import SceneGraph.Proofs.Document.RoundTrip
import SceneGraph.Proofs.Document.Isolation
import SceneGraph.Proofs.World.Registration
import SceneGraph.Proofs.Cascade.Calm
import SceneGraph.Proofs.Cascade.Induction
import SceneGraph.Proofs.Cascade.Termination
import SceneGraph.Proofs.Document.Alongside
import SceneGraph.Proofs.Document.Turns
import SceneGraph.Proofs.Cascade.SettingUp
import SceneGraph.Proofs.Document.Bytes
import SceneGraph.Proofs.Document.Totality
import SceneGraph.Proofs.Document.Separation
import SceneGraph.Proofs.Cascade.Fitting
import SceneGraph.Proofs.Document.Playing
import SceneGraph.Proofs.Cascade.Forwarding
import SceneGraph.Proofs.World.Fields
import SceneGraph.Proofs.World.Kinds
import SceneGraph.Proofs.Manager.Dispatch
import SceneGraph.Proofs.Grouping.Rejection
import SceneGraph.Proofs.Grouping.Rendering
import SceneGraph.Proofs.World.Visiting
import SceneGraph.Proofs.Document.Covering
import SceneGraph.Proofs.Grouping.Adding
import SceneGraph.Proofs.Document.Scanning
import SceneGraph.Proofs.Document.Layout
import SceneGraph.Proofs.Document.Gating
import SceneGraph.Proofs.Frame.FanOut
import SceneGraph.Proofs.Frame.Timer
import SceneGraph.Proofs.Document.Cancelling
import SceneGraph.Proofs.World.Ancestry
import SceneGraph.Proofs.World.Routes
