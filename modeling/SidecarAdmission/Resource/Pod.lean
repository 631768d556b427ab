import SidecarAdmission.Resource.Value

/-!
The parts of a pod that matter to injection: its name, its annotations and its lists of containers,
volumes and image pull secrets.
-/

set_option autoImplicit false
set_option relaxedAutoImplicit false

namespace SidecarAdmission.Resource

/-- Annotations, sorted by key. -/
abbrev Annotations := List (String × String)

namespace Value

/-- The entries of a map of texts. -/
def textEntries (v : Value) : List (String × String) :=
  v.entries.filterMap fun (k, v) => v.text?.map fun s => (k, s)

/-- The annotations in the metadata of an object, if it has such a map. -/
def annotations? (metadata : Value) : Option Annotations :=
  (metadata.get? "annotations").map textEntries

/-- The name of a container, a volume or a reference. -/
def name (v : Value) : String := v.textAt "name"

end Value

namespace Pod

/-- The metadata of a pod. -/
def metadata (pod : Value) : Value := (pod.get? "metadata").getD (Value.empty .objectMeta)

/-- The containers of a pod, if it has a specification. -/
def containers? (pod : Value) : Option (List Value) :=
  (pod.get? "spec").map (·.itemsAt "containers")

/-- The volumes of a pod, if it has such a list. -/
def volumes? (pod : Value) : Option (List Value) :=
  ((pod.get? "spec").bind (·.get? "volumes")).map Value.items

/-- The image pull secrets of a pod, if it has such a list. -/
def imagePullSecrets? (pod : Value) : Option (List Value) :=
  ((pod.get? "spec").bind (·.get? "imagePullSecrets")).map Value.items

end Pod

end SidecarAdmission.Resource
