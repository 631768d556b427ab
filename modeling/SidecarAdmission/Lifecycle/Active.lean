import SidecarAdmission.Lifecycle.Parameters
import SidecarAdmission.Sidecar.Configuration
import SidecarAdmission.Tls.Credentials

/-!
The state that is served: a specification and the credentials that go with it. Both are loaded
together and replaced together, the configuration first.
-/

set_option autoImplicit false
set_option relaxedAutoImplicit false

namespace SidecarAdmission.Lifecycle

open SidecarAdmission.Storage

/-- What is in force. -/
structure Active where
  spec : Sidecar.Spec
  credentials : Tls.Credentials
deriving Repr, Inhabited

/-- Why a state could not be loaded. -/
inductive LoadError where
  | config (cause : Sidecar.ConfigurationError)
  | credentials (cause : Tls.CredentialsError)
deriving DecidableEq, Repr, Inhabited

/-- The wording of a failure to load. -/
def LoadError.message : LoadError → String
  | .config cause => "sidecar config: " ++ cause.message
  | .credentials cause => "tls credentials: " ++ cause.message

/-- The state that the files of a webhook give. -/
def Active.ofFiles (files : FileStore) (p : Parameters) : Except LoadError Active :=
  match Sidecar.Spec.ofFile files p.configFile with
  | .error e => .error (.config e)
  | .ok spec =>
    match Tls.Credentials.ofFiles files p.certificateFile p.keyFile with
    | .error e => .error (.credentials e)
    | .ok credentials => .ok ⟨spec, credentials⟩

end SidecarAdmission.Lifecycle
