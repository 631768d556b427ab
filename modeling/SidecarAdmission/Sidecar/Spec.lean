import SidecarAdmission.Sidecar.Completion

/-!
The material that is injected into pods: containers, volumes and image pull secrets, with the
orchestrator's defaults filled in.
-/

set_option autoImplicit false
set_option relaxedAutoImplicit false

namespace SidecarAdmission.Sidecar

open SidecarAdmission.Resource

/-- What is injected into a pod. -/
structure Spec where
  containers : List Value
  volumes : List Value
  imagePullSecrets : List Value
deriving Repr, Inhabited

namespace Spec

/-- The specification that injects nothing. -/
def empty : Spec := ⟨[], [], []⟩

/-- The specification of the given material, with defaults filled in. -/
def ofMaterial (containers volumes imagePullSecrets : List Value) : Spec :=
  ⟨containers.map Completion.container, volumes.map Completion.volume, imagePullSecrets⟩

/-- Whether a specification injects nothing. -/
def isEmpty (s : Spec) : Bool :=
  s.containers.isEmpty && s.volumes.isEmpty && s.imagePullSecrets.isEmpty

/-- The document of a specification. -/
def toJson (s : Spec) : Json :=
  Json.ofMembers [
    ("containers", .array (s.containers.map Value.toJson)),
    ("volumes", .array (s.volumes.map Value.toJson)),
    ("imagePullSecrets", .array (s.imagePullSecrets.map Value.toJson))]

end Spec

end SidecarAdmission.Sidecar
