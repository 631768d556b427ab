import SidecarAdmission.Admission.Decision
import SidecarAdmission.Admission.Injection
import SidecarAdmission.Admission.Registry
import SidecarAdmission.Admission.Review
import SidecarAdmission.Admission.Selection
import SidecarAdmission.CommandLine.Invocation
import SidecarAdmission.CommandLine.Program
import SidecarAdmission.CommandLine.Report
import SidecarAdmission.CommandLine.Settings
import SidecarAdmission.Http.Message
import SidecarAdmission.Http.Webhook
import SidecarAdmission.Json.Basic
import SidecarAdmission.Json.Canonical
import SidecarAdmission.Json.Literal
import SidecarAdmission.Json.Patch
import SidecarAdmission.Json.Pointer
import SidecarAdmission.Json.Printer
import SidecarAdmission.Json.Reader
import SidecarAdmission.Json.Record
import SidecarAdmission.Json.Token
import SidecarAdmission.Lifecycle.Active
import SidecarAdmission.Lifecycle.Journal
import SidecarAdmission.Lifecycle.Launch
import SidecarAdmission.Lifecycle.Parameters
import SidecarAdmission.Lifecycle.ReloadLoop
import SidecarAdmission.Lifecycle.StopChannel
import SidecarAdmission.Lifecycle.Watch
import SidecarAdmission.Lifecycle.World
import SidecarAdmission.Main
import SidecarAdmission.Network.Address
import SidecarAdmission.Network.Listener
import SidecarAdmission.Number.Binary64
import SidecarAdmission.Number.Shortest
import SidecarAdmission.Resource.Decode
import SidecarAdmission.Resource.FromYaml
import SidecarAdmission.Resource.Kind
import SidecarAdmission.Resource.Pod
import SidecarAdmission.Resource.Timestamp
import SidecarAdmission.Resource.Value
import SidecarAdmission.Sidecar.Completion
import SidecarAdmission.Sidecar.Configuration
import SidecarAdmission.Sidecar.Defect
import SidecarAdmission.Sidecar.Image
import SidecarAdmission.Sidecar.Material
import SidecarAdmission.Sidecar.Spec
import SidecarAdmission.Storage.Failure
import SidecarAdmission.Storage.FileStore
import SidecarAdmission.Storage.Path
import SidecarAdmission.Telemetry.LogFormat
import SidecarAdmission.Telemetry.Metric
import SidecarAdmission.Telemetry.Record
import SidecarAdmission.Text.Ascii
import SidecarAdmission.Text.Base64
import SidecarAdmission.Text.Class
import SidecarAdmission.Text.Octets
import SidecarAdmission.Text.Quoted
import SidecarAdmission.Tls.Credentials
import SidecarAdmission.Tls.Der
import SidecarAdmission.Tls.Key
import SidecarAdmission.Tls.Pem
import SidecarAdmission.Yaml.Cursor
import SidecarAdmission.Yaml.Document
import SidecarAdmission.Yaml.Meaning
import SidecarAdmission.Yaml.Node
import SidecarAdmission.Yaml.Scalar
import SidecarAdmission.Yaml.Token
import SidecarAdmission.Yaml.Token.Lexer
import SidecarAdmission.Proofs.Json.Literal
import SidecarAdmission.Proofs.Json.Place
import SidecarAdmission.Proofs.Json.Pointer
import SidecarAdmission.Proofs.Json.Patch
import SidecarAdmission.Proofs.Resource.Decode
import SidecarAdmission.Proofs.Resource.Pod
import SidecarAdmission.Proofs.Admission.Injection
import SidecarAdmission.Proofs.Admission.Decision
import SidecarAdmission.Proofs.Admission.PatchedPod
import SidecarAdmission.Proofs.Json.Token
import SidecarAdmission.Proofs.Json.Reader
import SidecarAdmission.Proofs.Resource.Value
import SidecarAdmission.Proofs.Admission.Reinvocation
import SidecarAdmission.Proofs.Text.Octets
import SidecarAdmission.Proofs.Text.Base64
import SidecarAdmission.Proofs.Json.Lexeme
import SidecarAdmission.Proofs.Json.Source
import SidecarAdmission.Proofs.Json.Canonical
import SidecarAdmission.Proofs.Json.Record
import SidecarAdmission.Proofs.Admission.Review
import SidecarAdmission.Proofs.Admission.Answer
import SidecarAdmission.Proofs.Resource.Faithful
import SidecarAdmission.Proofs.Admission.Envelope
import SidecarAdmission.Proofs.Admission.RoundTrip
import SidecarAdmission.Proofs.Admission.ReplyKind
import SidecarAdmission.Proofs.Lifecycle.ReloadLoop
import SidecarAdmission.Proofs.Lifecycle.World
import SidecarAdmission.Proofs.Lifecycle.Serving
import SidecarAdmission.Proofs.Lifecycle.Load
import SidecarAdmission.Proofs.Lifecycle.Reloading
import SidecarAdmission.Proofs.Lifecycle.Schedule
import SidecarAdmission.Proofs.Http.Webhook
import SidecarAdmission.Proofs.Lifecycle.Run
import SidecarAdmission.Proofs.Lifecycle.Debounce
import SidecarAdmission.Proofs.Storage.Path
import SidecarAdmission.Proofs.Lifecycle.Watch
import SidecarAdmission.Proofs.Lifecycle.Startup
import SidecarAdmission.Proofs.Admission.Annotations
import SidecarAdmission.Proofs.Resource.Slots
import SidecarAdmission.Proofs.Sidecar.Completion
import SidecarAdmission.Proofs.Resource.FromYaml
import SidecarAdmission.Proofs.Sidecar.Material
import SidecarAdmission.Proofs.Sidecar.Spec
import SidecarAdmission.Proofs.Lifecycle.Heartbeat
import SidecarAdmission.Proofs.Resource.Typed
import SidecarAdmission.Proofs.Resource.Parts
import SidecarAdmission.Proofs.Sidecar.Container
import SidecarAdmission.Proofs.Sidecar.Volume
import SidecarAdmission.Proofs.Admission.PodText
import SidecarAdmission.Proofs.Text.Ascii
import SidecarAdmission.Proofs.Admission.Selection
import SidecarAdmission.Proofs.Admission.Disclosure
import SidecarAdmission.Proofs.Json.Whole
import SidecarAdmission.Proofs.Resource.Timestamp
import SidecarAdmission.Proofs.Resource.ReadBack
import SidecarAdmission.Proofs.Resource.Fit
import SidecarAdmission.Proofs.Resource.Reading
import SidecarAdmission.Proofs.Sidecar.ReadBack
import SidecarAdmission.Proofs.Sidecar.Defect
import SidecarAdmission.Proofs.Admission.PatchText
import SidecarAdmission.Proofs.Sidecar.Image
import SidecarAdmission.Proofs.Lifecycle.Candidate
import SidecarAdmission.Proofs.Lifecycle.Operation
import SidecarAdmission.Proofs.Lifecycle.Accounting
import SidecarAdmission.Proofs.Lifecycle.Beats
import SidecarAdmission.Proofs.Admission.Making
import SidecarAdmission.Proofs.Lifecycle.StopChannel
import SidecarAdmission.Proofs.Json.Piece
import SidecarAdmission.Proofs.Json.Characters
import SidecarAdmission.Proofs.Yaml.Cursor
import SidecarAdmission.Proofs.Yaml.Scalar
import SidecarAdmission.Proofs.Yaml.Lexer
import SidecarAdmission.Proofs.Yaml.Flow
import SidecarAdmission.Proofs.Yaml.JsonTokens
import SidecarAdmission.Proofs.Yaml.JsonNodes
import SidecarAdmission.Proofs.Yaml.Word
import SidecarAdmission.Proofs.Resource.Agreement
import SidecarAdmission.Proofs.Sidecar.JsonText
