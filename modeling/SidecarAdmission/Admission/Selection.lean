import SidecarAdmission.Resource.Pod
import SidecarAdmission.Text.Ascii

/-!
Whether a pod is to be injected, by its annotations. A pod asks for injection by one annotation;
another one, which injection sets, keeps it from being injected twice. Their values are compared
without regard to the case of ASCII letters.
-/

set_option autoImplicit false
set_option relaxedAutoImplicit false

namespace SidecarAdmission.Admission.Selection

open SidecarAdmission.Resource

/-- The annotation by which a pod asks for injection. -/
def requestKey : String := "sidecar-injector-mesher.io/inject"

/-- The annotation that tells whether a pod has been injected. -/
def statusKey : String := "sidecar-injector-mesher.io/status"

/-- The status of a pod that has been injected. -/
def injected : String := "injected"

/-- What matters in a resource. -/
structure Subject where
  namespaceName : String
  name : String
  annotations : Annotations
deriving DecidableEq, Repr, Inhabited

namespace Subject

/-- The part of the metadata of an object that matters; a pod that a controller makes may have only
the name from which its own is generated. -/
def ofMetadata (metadata : Value) : Subject where
  namespaceName := metadata.textAt "namespace"
  name := ((metadata.textAt? "name").or (metadata.textAt? "generateName")).getD ""
  annotations := (metadata.annotations?).getD []

/-- The value of an annotation. -/
def annotation? (m : Subject) (key : String) : Option String := m.annotations.lookup key

end Subject

/-- How a resource stands to injection. -/
inductive Standing where
  | done
  | wanted
  | unwanted
deriving DecidableEq, Repr, Inhabited

/-- How a resource stands. -/
def standing (m : Subject) : Standing :=
  if Text.Ascii.equalsIgnoringCase ((m.annotation? statusKey).getD "") injected then .done
  else
    match m.annotation? requestKey with
    | some value =>
      if Text.Ascii.equalsIgnoringCase value "y" || Text.Ascii.equalsIgnoringCase value "yes" then
        .wanted
      else .unwanted
    | none => .unwanted

/-- Whether a resource is to be changed. -/
def isSelected (m : Subject) : Bool := standing m == .wanted

end SidecarAdmission.Admission.Selection
