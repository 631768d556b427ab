import SidecarAdmission.Lifecycle.World
import SidecarAdmission.Network.Listener

/-!
The start of a webhook. It listens only when there is a state to serve, on a port that its privilege
covers, and it watches only when it listens; whatever fails, it is not started at all.
-/

set_option autoImplicit false
set_option relaxedAutoImplicit false

namespace SidecarAdmission.Lifecycle

open SidecarAdmission.Network SidecarAdmission.Storage

/-- Why a webhook could not be started. -/
inductive LaunchError where
  | load (cause : LoadError)
  | listen (address : Address) (cause : ListenFailure)
  | watch
deriving DecidableEq, Repr, Inhabited

/-- The address at which a webhook is reached: all hosts of the machine, on its port. -/
def Parameters.address (p : Parameters) : Address := ⟨.v4 0 0 0 0, p.port⟩

/-- A webhook that has just been started, with its privilege and the directories that it watches. -/
structure Launch where
  privilege : Privilege
  directories : List String
  world : World
deriving Repr, Inhabited

/-- A webhook that is started among its files, with some privilege. -/
def launch (files : FileStore) (p : Parameters) (privilege : Privilege := .ordinary) :
    Except LaunchError Launch :=
  match Active.ofFiles files p with
  | .error e => .error (.load e)
  | .ok state =>
    match p.address.listenFailure? privilege with
    | some e => .error (.listen p.address e)
    | none =>
      match watchedDirectories? files p.inputFiles with
      | none => .error .watch
      | some directories =>
        .ok ⟨privilege, directories, .start files p (directories.map files.placeOf) state true⟩

end SidecarAdmission.Lifecycle
