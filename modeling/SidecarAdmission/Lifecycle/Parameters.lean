/-!
What a webhook is started with. Times are in milliseconds.
-/

set_option autoImplicit false
set_option relaxedAutoImplicit false

namespace SidecarAdmission.Lifecycle

/-- The parameters of a webhook, which stay as they are while it runs. -/
structure Parameters where
  port : Nat
  certificateFile : String
  keyFile : String
  configFile : String
  heartbeatInterval : Nat
  heartbeatFile : Option String
  debounce : Nat
deriving DecidableEq, Repr, Inhabited

namespace Parameters

/-- The parameters of a webhook that is told nothing. -/
def standard : Parameters where
  port := 8443
  certificateFile := "/etc/webhook/certs/cert.pem"
  keyFile := "/etc/webhook/certs/key.pem"
  configFile := "/etc/webhook/config/sidecarconfig.yaml"
  heartbeatInterval := 0
  heartbeatFile := none
  debounce := 200

/-- The interval and the file of the heartbeat; there is none without both. -/
def heartbeat? (p : Parameters) : Option (Nat × String) :=
  match p.heartbeatFile with
  | some file =>
    if 0 < p.heartbeatInterval ∧ file ≠ "" then some (p.heartbeatInterval, file) else none
  | none => none

/-- The files of which changes count. -/
def inputFiles (p : Parameters) : List String := [p.configFile, p.certificateFile, p.keyFile]

end Parameters

end SidecarAdmission.Lifecycle
