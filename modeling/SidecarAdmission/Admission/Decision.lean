import SidecarAdmission.Admission.Injection
import SidecarAdmission.Admission.Selection
import SidecarAdmission.Admission.Review
import SidecarAdmission.Telemetry.Metric

/-!
The decision on a review. Every review is answered, with a response that admits the object, admits
it with a patch, or refuses it with a message, and every review counts as exactly one outcome.
-/

set_option autoImplicit false
set_option relaxedAutoImplicit false

namespace SidecarAdmission.Admission

open SidecarAdmission.Text SidecarAdmission.Telemetry

/-- Why there is no decision on an object. -/
inductive DecisionError where
  | decode (cause : ReadError)
deriving DecidableEq, Repr, Inhabited

/-- The wording of a failure to decide. -/
def DecisionError.message : DecisionError → String
  | .decode cause => "could not decode target resource: " ++ cause.message

/-- The annotations that are set on every pod that is injected. -/
def marks : List (String × String) := [(Selection.statusKey, Selection.injected)]

namespace Decision

/-- The patch for an object, if it is to be changed. -/
def patchFor (registry : Registry) (raw : Octets) (sidecar : Sidecar.Spec) :
    Except DecisionError (Option (List Json.Operation)) :=
  match registry.readPod raw with
  | .error e => .error (.decode e)
  | .ok pod =>
    if Selection.isSelected (.ofMetadata (Resource.Pod.metadata pod)) then
      .ok (some (Injection.patch pod sidecar marks))
    else .ok none

/-- A patch as it is sent. -/
def patchText (patch : List Json.Operation) : Octets := (Json.ofOperations patch).print

/-- The response to a request that has an object or not, and its outcome; the uid is not yet set. -/
def answerObject (registry : Registry) (object : Option Octets) (sidecar : Sidecar.Spec) :
    Response × Outcome :=
  match object with
  | none => (.refused "admission request carries no object", .error)
  | some object =>
    match patchFor registry object sidecar with
    | .error e => (.refused e.message, .error)
    | .ok none => (.admitted, .skipped)
    | .ok (some patch) => (Response.admitted.attach (patchText patch), .patched)

/-- The response to a request, and its outcome. -/
def answerRequest (registry : Registry) (request : Request) (sidecar : Sidecar.Spec) :
    Response × Outcome :=
  let (response, outcome) := answerObject registry request.object sidecar
  (response.addressed request.uid, outcome)

/-- The reply to the body of a review, and its outcome. -/
def answerReview (registry : Registry) (body : Octets) (sidecar : Sidecar.Spec) :
    Review × Outcome :=
  match registry.readReview body with
  | .error e => (.reply stableVersion (.refused e.message), .invalid)
  | .ok review =>
    match review.request with
    | none => (.reply review.apiVersion (.refused "admission review carries no request"), .invalid)
    | some request =>
      let (response, outcome) := answerRequest registry request sidecar
      (.reply review.apiVersion response, outcome)

end Decision

end SidecarAdmission.Admission
