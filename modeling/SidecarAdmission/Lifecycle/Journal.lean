import SidecarAdmission.Lifecycle.Launch
import SidecarAdmission.Telemetry.Record

/-!
What a webhook writes into its log: how it was started, how each reload came out, and how it ended.
-/

set_option autoImplicit false
set_option relaxedAutoImplicit false

namespace SidecarAdmission.Lifecycle

open SidecarAdmission.Network SidecarAdmission.Telemetry SidecarAdmission.Text

/-- The signals at which a webhook stops. -/
inductive StopSignal where
  | terminate
  | interrupt
deriving DecidableEq, Repr, Inhabited

/-- The name of a signal. -/
def StopSignal.name : StopSignal → String
  | .terminate => "SIGTERM"
  | .interrupt => "SIGINT"

namespace Journal

/-- A number of items. -/
def number (n : Nat) : Json := .integer n

/-- The counts of what a specification holds. -/
def counts (s : Sidecar.Spec) : List (String × Json) :=
  [("containers", number s.containers.length), ("volumes", number s.volumes.length),
   ("image_pull_secrets", number s.imagePullSecrets.length)]

/-- That the program has been started. -/
def began (version : String) : Record :=
  .info "sidecar-injector starting" [("version", .string version)]

/-- The parameters that the program goes by. -/
def configured (p : Parameters) : Record :=
  .info "Configuration loaded"
    [("port", number p.port), ("cert_file", .string p.certificateFile),
     ("key_file", .string p.keyFile),
     ("sidecar_config_file", .string p.configFile), ("debounce_ms", number p.debounce),
     ("health_check", .bool p.heartbeat?.isSome)]

/-- Whether counters are to be had at an address. -/
def exporter (privilege : Privilege) (a : Address) : Record :=
  match a.listenFailure? privilege with
  | none => .info "Metrics exporter listening" []
  | some e =>
    .error "Failed to install metrics exporter"
      [("error", .string ("failed to create HTTP listener: " ++ e.message))]

/-- The directories that are watched, as a list of quoted texts. -/
def directoryList (directories : List String) : String :=
  "[" ++ ", ".intercalate (directories.map Quoted.quote) ++ "]"

/-- How a webhook was started. -/
def launched (p : Parameters) (l : Launch) : List Record :=
  [.info "Sidecar config loaded"
     (("config", .string p.configFile) :: counts l.world.loop.state.spec),
   .info "Webhook server starting" [("path", .string Http.Webhook.reviewPath)]]
    ++ l.directories.map (fun d =>
      .info "Watching directory for changes" [("path", .string (Quoted.quote d))])
    ++ [.info "Watching for config and certificate changes"
          [("directories", .string (directoryList l.directories))],
        .info "Listening for admission reviews" []]

/-- How a reload came out. -/
def reloaded : LoadResult → Record
  | .loaded state => .info "Reloaded sidecar config and certificate" (counts state.spec)
  | .failed cause =>
    .error "Reload failed, keeping previous state" [("error", .string cause.message)]
  | .aborted => .error "Reload task failed, keeping previous state" []

/-- What was done in the end. -/
def totals (s : Summary) : List (String × Json) :=
  [("reloads", number s.reloads), ("failed_reloads", number s.failedReloads)]

/-- How a webhook ended. -/
def ended (signal : StopSignal) (s : Summary) : List Record :=
  [.info "Stop signal received" [("signal", .string signal.name)],
   .info "Reload coordinator received stop signal" [],
   .info "Webhook server stopped" [],
   .info "Reload coordinator stopped" (totals s),
   .info "Shutdown complete" (totals s)]

end Journal

end SidecarAdmission.Lifecycle
