import SidecarAdmission.Admission.Decision
import SidecarAdmission.Http.Message

/-!
The one resource of the webhook. A request is turned away for its declared length, its path, its
method, the length of its body, an empty body or its content type, in this order; any other is a
review and is answered, whatever becomes of it.
-/

set_option autoImplicit false
set_option relaxedAutoImplicit false

namespace SidecarAdmission.Http.Webhook

open SidecarAdmission.Text SidecarAdmission.Telemetry

/-- The path of reviews. -/
def reviewPath : String := "/webhookmutation"

/-- The length of the longest body that is read, 3 MiB. -/
def bodyLimit : Nat := 3 * 1024 * 1024

/-- The content type of reviews. -/
def reviewType : String := "application/json"

/-- Why a request is turned away. -/
inductive Refusal where
  | declaredTooLong
  | unknownPath
  | wrongMethod
  | bodyTooLong
  | emptyBody
  | wrongType
deriving DecidableEq, Repr, Inhabited

/-- The reply to a request that is turned away. -/
def Refusal.reply : Refusal → Reply
  | .declaredTooLong => .plain .payloadTooLarge "length limit exceeded"
  | .unknownPath => .ofStatus .notFound
  | .wrongMethod => { Reply.ofStatus .methodNotAllowed with allow := some "POST" }
  | .bodyTooLong =>
    .plain .payloadTooLarge "Failed to buffer the request body: length limit exceeded"
  | .emptyBody => .ofStatus .badRequest
  | .wrongType => .ofStatus .unsupportedMediaType

/-- The greatest length of the body of a request: it is not longer than declared, either. -/
def limitOf (r : Request) : Nat := ((r.contentLength?).map (min bodyLimit)).getD bodyLimit

/-- The first reason to turn a request away. -/
def refusal? (r : Request) : Option Refusal :=
  if (r.contentLength?).any (bodyLimit < ·) then some .declaredTooLong
  else if r.path != reviewPath then some .unknownPath
  else if r.method != "POST" then some .wrongMethod
  else if limitOf r < r.body.length then some .bodyTooLong
  else if r.body.isEmpty then some .emptyBody
  else if r.header? "content-type" != some (octets reviewType) then some .wrongType
  else none

/-- The reply to a request, and the outcome of the review if the request is one. -/
def answer (registry : Admission.Registry) (sidecar : Sidecar.Spec) (r : Request) :
    Reply × Option Outcome :=
  match refusal? r with
  | some refusal => (refusal.reply, none)
  | none =>
    let (review, outcome) := Admission.Decision.answerReview registry r.body sidecar
    (⟨.ok, some reviewType, none, review.write⟩, some outcome)

end SidecarAdmission.Http.Webhook
