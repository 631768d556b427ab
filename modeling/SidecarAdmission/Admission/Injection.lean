import SidecarAdmission.Json.Patch
import SidecarAdmission.Resource.Pod
import SidecarAdmission.Sidecar.Spec

/-!
The patch that injects sidecar material into a pod. Items are appended to a list one by one, or a
list that is empty or missing is added as a whole; annotations are set one after the other.
-/

set_option autoImplicit false
set_option relaxedAutoImplicit false

namespace SidecarAdmission.Admission.Injection

open SidecarAdmission.Resource

/-- The place of the containers of a pod. -/
def containersPlace : String := "/spec/containers"

/-- The place of the volumes of a pod. -/
def volumesPlace : String := "/spec/volumes"

/-- The place of the image pull secrets of a pod. -/
def imagePullSecretsPlace : String := "/spec/imagePullSecrets"

/-- The place of the annotations of a pod. -/
def annotationsPlace : String := "/metadata/annotations"

/-- The place of one annotation of a pod. -/
def annotationPlace (key : String) : String := annotationsPlace ++ "/" ++ Json.Pointer.escape key

/-- The operations that append items to the list at a path, given the items that it has. -/
def appendItems (target additions : List Value) (path : String) : List Json.Operation :=
  if additions.isEmpty then []
  else if target.isEmpty then [⟨.add, path, .array (additions.map Value.toJson)⟩]
  else additions.map fun item => ⟨.add, path ++ "/-", item.toJson⟩

/-- The operations that set annotations in order, given those of the target. An annotation that the
target lacks, or has empty, makes a new map of annotations, to which all later ones are added. -/
def setAnnotations (target : Option Annotations) (created : Bool) :
    List (String × String) → List Json.Operation
  | [] => []
  | (key, value) :: rest =>
    if created then
      ⟨.add, annotationPlace key, .string value⟩ :: setAnnotations target true rest
    else if ((target.bind (·.lookup key)).getD "") != "" then
      ⟨.replace, annotationPlace key, .string value⟩ :: setAnnotations target false rest
    else
      ⟨.add, annotationsPlace, Json.ofMembers [(key, .string value)]⟩
        :: setAnnotations target true rest

/-- The operations that set annotations in order. -/
def annotate (target : Option Annotations) (updates : List (String × String)) :
    List Json.Operation :=
  setAnnotations target false updates

/-- The patch that injects a specification into a pod and sets annotations. -/
def patch (pod : Value) (sidecar : Sidecar.Spec) (annotations : List (String × String)) :
    List Json.Operation :=
  appendItems ((Pod.containers? pod).getD []) sidecar.containers containersPlace
    ++ appendItems ((Pod.volumes? pod).getD []) sidecar.volumes volumesPlace
    ++ appendItems ((Pod.imagePullSecrets? pod).getD []) sidecar.imagePullSecrets
        imagePullSecretsPlace
    ++ annotate (Pod.metadata pod).annotations? annotations

end SidecarAdmission.Admission.Injection
