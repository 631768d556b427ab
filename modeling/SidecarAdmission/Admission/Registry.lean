import SidecarAdmission.Json.Record
import SidecarAdmission.Resource.Decode
import SidecarAdmission.Text.Quoted

/-!
The kinds of objects that are known, and the decoding of those that are expected. An object is first
asked for its version and kind, and refused if they are not known.
-/

set_option autoImplicit false
set_option relaxedAutoImplicit false

namespace SidecarAdmission.Admission

open SidecarAdmission.Text SidecarAdmission.Resource

/-- The first version of reviews. -/
def stableVersion : String := "admission.k8s.io/v1"

/-- The version of reviews before the first. -/
def betaVersion : String := "admission.k8s.io/v1beta1"

/-- The kind of reviews. -/
def reviewKind : String := "AdmissionReview"

/-- Why an object cannot be decoded. -/
inductive ReadError where
  | malformed
  | missingKind
  | unknownKind (apiVersion kind : String)
deriving DecidableEq, Repr, Inhabited

/-- The wording of a failure to decode. -/
def ReadError.message : ReadError → String
  | .malformed => "json parse error: "
  | .missingKind => "Object 'Kind' is missing in request body"
  | .unknownKind apiVersion kind =>
    "no kind " ++ Quoted.quote kind ++ " is registered for version " ++ Quoted.quote apiVersion

/-- The known pairs of version and kind. -/
structure Registry where
  known : List (String × String)
deriving DecidableEq, Repr, Inhabited

namespace Registry

/-- The kinds that take part in admission: two versions of the review, and pods. -/
def standard : Registry :=
  ⟨[(stableVersion, reviewKind), (betaVersion, reviewKind), ("v1", "Pod")]⟩

/-- Whether a version and kind are known. -/
def knows (s : Registry) (apiVersion kind : String) : Bool := s.known.contains (apiVersion, kind)

/-- Nothing, or an error if a version and kind are not known. -/
def check (s : Registry) (apiVersion kind : String) : Except ReadError Unit :=
  if s.knows apiVersion kind then .ok () else .error (.unknownKind apiVersion kind)

end Registry

/-- The version and kind that an object claims; what it does not claim is empty. -/
structure Claim where
  apiVersion : String
  kind : String
deriving DecidableEq, Repr, Inhabited

/-- What an object claims to be. -/
def Claim.ofSource? (s : Json.Source) : Option Claim := do
  let fields ← s.fields? ["apiVersion", "kind"]
  let apiVersion ← Json.Source.readOr? "" Json.Source.text? (Json.Source.fieldAt fields 0)
  let kind ← Json.Source.readOr? "" Json.Source.text? (Json.Source.fieldAt fields 1)
  some ⟨apiVersion, kind⟩

/-- The pod that a text gives. An object that claims a kind must claim a known one. -/
def Registry.readPod (s : Registry) (raw : Octets) : Except ReadError Value := do
  let some source := Json.Source.ofText? raw | .error .malformed
  let some claim := Claim.ofSource? source | .error .malformed
  if claim.kind != "" then s.check claim.apiVersion claim.kind
  match source.value?.bind (Value.decode? .pod) with
  | some pod => .ok pod
  | none => .error .malformed

end SidecarAdmission.Admission
