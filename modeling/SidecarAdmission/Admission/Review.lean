import SidecarAdmission.Admission.Registry
import SidecarAdmission.Json.Printer
import SidecarAdmission.Text.Base64

/-!
Admission reviews: the envelope in which the API server sends a request and expects a response. The
object under review is kept in its own spelling, so that an object which is no pod does not spoil
the envelope.
-/

set_option autoImplicit false
set_option relaxedAutoImplicit false

namespace SidecarAdmission.Admission

open SidecarAdmission.Text SidecarAdmission.Resource

/-- The group, version and kind of the object under review. -/
structure GroupVersionKind where
  group : String
  version : String
  kind : String
deriving DecidableEq, Repr, Inhabited

/-- What is about to happen to the object under review. -/
inductive Operation where
  | create
  | update
  | delete
  | connect
  | unknown
deriving DecidableEq, Repr, Inhabited

/-- The request of a review. -/
structure Request where
  uid : String
  kind : GroupVersionKind
  namespaceName : Option String
  name : Option String
  operation : Operation
  userInfo : Value
  dryRun : Option Bool
  object : Option Octets
deriving Repr, Inhabited

/-- The encodings of a patch. -/
inductive PatchType where
  | jsonPatch
deriving DecidableEq, Repr, Inhabited

/-- The response of a review. -/
structure Response where
  uid : String
  allowed : Bool
  status : Option Value
  patch : Option Octets
  patchType : Option PatchType
deriving Repr, Inhabited

/-- A review, with a request on its way to the webhook and with a response on its way back. -/
structure Review where
  apiVersion : String
  kind : String
  request : Option Request
  response : Option Response
deriving Repr, Inhabited

/-! ## Making responses -/

namespace Response

/-- The response that says nothing. -/
def blank : Response := ⟨"", false, none, none, none⟩

/-- The response that admits an object as it is. -/
def admitted : Response := { blank with allowed := true }

/-- The status of a refusal. -/
def refusal (message : String) : Value :=
  Value.fill "message" (.text message) (Value.empty .status)

/-- The response that refuses an object. -/
def refused (message : String) : Response := { blank with status := some (refusal message) }

/-- A response with a patch. -/
def attach (r : Response) (patch : Octets) : Response :=
  { r with patch := some patch, patchType := some .jsonPatch }

/-- A response to the request with a uid. -/
def addressed (r : Response) (uid : String) : Response := { r with uid := uid }

/-- The message of the status. -/
def message? (r : Response) : Option String := r.status.bind (·.textAt? "message")

end Response

/-- The review that carries a response. -/
def Review.reply (apiVersion : String) (response : Response) : Review :=
  ⟨apiVersion, reviewKind, none, some response⟩

/-! ## Reading -/

namespace GroupVersionKind

/-- The triple in which nothing is given. -/
def blank : GroupVersionKind := ⟨"", "", ""⟩

/-- The triple that a source spells. -/
def ofSource? (s : Json.Source) : Option GroupVersionKind := do
  let fields ← s.fields? ["group", "version", "kind"]
  let group ← Json.Source.readOr? "" Json.Source.text? (Json.Source.fieldAt fields 0)
  let version ← Json.Source.readOr? "" Json.Source.text? (Json.Source.fieldAt fields 1)
  let kind ← Json.Source.readOr? "" Json.Source.text? (Json.Source.fieldAt fields 2)
  some ⟨group, version, kind⟩

end GroupVersionKind

namespace Operation

/-- The name of an operation. -/
def text : Operation → String
  | .create => "CREATE"
  | .update => "UPDATE"
  | .delete => "DELETE"
  | .connect => "CONNECT"
  | .unknown => "UNKNOWN"

/-- The operation with a name; any other name is that of an operation not known here. -/
def ofText (s : String) : Operation :=
  if s = "CREATE" then .create
  else if s = "UPDATE" then .update
  else if s = "DELETE" then .delete
  else if s = "CONNECT" then .connect
  else .unknown

/-- The operation that a source spells: its name, or an object that has null under it. -/
def ofSource? (s : Json.Source) : Option Operation :=
  match s.members? with
  | some [(key, value)] => if value.isNull then key.text?.map ofText else none
  | some _ => none
  | none => s.text?.map ofText

end Operation

/-- The record of a kind that a source spells. -/
def recordOf? (kind : Kind) (s : Json.Source) : Option Value :=
  s.value?.bind (Value.decode? kind)

/-- The spelling of a source, if it is a text. -/
def spellingOf? (s : Json.Source) : Option Octets :=
  (ofOctets? s.spelling).map fun _ => s.spelling

namespace Request

/-- The names of the fields of a request. -/
def fieldNames : List String :=
  ["uid", "kind", "namespace", "name", "operation", "userInfo", "dryRun", "object"]

/-- The request that a source spells. -/
def ofSource? (s : Json.Source) : Option Request := do
  let fields ← s.fields? fieldNames
  let uid ← Json.Source.readOr? "" Json.Source.text? (Json.Source.fieldAt fields 0)
  let kind ← Json.Source.readOr? .blank GroupVersionKind.ofSource? (Json.Source.fieldAt fields 1)
  let namespaceName ← Json.Source.readOptional? Json.Source.text? (Json.Source.fieldAt fields 2)
  let name ← Json.Source.readOptional? Json.Source.text? (Json.Source.fieldAt fields 3)
  let operation ← Json.Source.readOr? .unknown Operation.ofSource? (Json.Source.fieldAt fields 4)
  let userInfo ←
    Json.Source.readOr? (Value.empty .userInfo) (recordOf? .userInfo) (Json.Source.fieldAt fields 5)
  let dryRun ← Json.Source.readOptional? Json.Source.bool? (Json.Source.fieldAt fields 6)
  let object ← Json.Source.readOptional? spellingOf? (Json.Source.fieldAt fields 7)
  some ⟨uid, kind, namespaceName, name, operation, userInfo, dryRun, object⟩

/-- The request that a text spells. -/
def ofText? (text : Octets) : Option Request := (Json.Source.ofText? text).bind ofSource?

end Request

namespace PatchType

/-- The name of an encoding. -/
def text : PatchType → String
  | .jsonPatch => "JSONPatch"

/-- The encoding that a source names. -/
def ofSource? (s : Json.Source) : Option PatchType :=
  match s.members? with
  | some [(key, value)] =>
    if value.isNull ∧ key.text? = some PatchType.jsonPatch.text then some .jsonPatch else none
  | some _ => none
  | none => s.text?.bind fun t => if t = PatchType.jsonPatch.text then some .jsonPatch else none

end PatchType

namespace Response

/-- The octets that a source spells in base64. -/
def base64Of? (s : Json.Source) : Option Octets := s.text?.bind fun t => Base64.decode? (octets t)

/-- The response that a source spells; uid and verdict must be given. -/
def ofSource? (s : Json.Source) : Option Response := do
  let fields ← s.fields? ["uid", "allowed", "status", "patch", "patchType"]
  let uid ← (Json.Source.fieldAt fields 0).bind Json.Source.text?
  let allowed ← (Json.Source.fieldAt fields 1).bind Json.Source.bool?
  let status ← Json.Source.readOptional? (recordOf? .status) (Json.Source.fieldAt fields 2)
  let patch ← Json.Source.readOptional? base64Of? (Json.Source.fieldAt fields 3)
  let patchType ← Json.Source.readOptional? PatchType.ofSource? (Json.Source.fieldAt fields 4)
  some ⟨uid, allowed, status, patch, patchType⟩

end Response

/-- The review that a source spells. -/
def Review.ofSource? (s : Json.Source) : Option Review := do
  let fields ← s.fields? ["apiVersion", "kind", "request", "response"]
  let apiVersion ← Json.Source.readOr? "" Json.Source.text? (Json.Source.fieldAt fields 0)
  let kind ← Json.Source.readOr? "" Json.Source.text? (Json.Source.fieldAt fields 1)
  let request ← Json.Source.readOptional? Request.ofSource? (Json.Source.fieldAt fields 2)
  let response ← Json.Source.readOptional? Response.ofSource? (Json.Source.fieldAt fields 3)
  some ⟨apiVersion, kind, request, response⟩

/-- The review that a text gives, if its kind is given and known. -/
def Registry.readReview (s : Registry) (body : Octets) : Except ReadError Review := do
  let some review := (Json.Source.ofText? body).bind Review.ofSource? | .error .malformed
  if review.kind = "" then .error .missingKind
  s.check review.apiVersion review.kind
  .ok review

/-! ## Writing -/

/-- A member whose value is a text. -/
def textMember (name value : String) : List (Json.Literal × Octets) :=
  [(.ofText name, (Json.string value).print)]

/-- A member that is left out if it has no value. -/
def optionalMember {α : Type} (name : String) (write : α → Octets) :
    Option α → List (Json.Literal × Octets)
  | none => []
  | some v => [(.ofText name, write v)]

/-- The spelling of a text. -/
def writeText (s : String) : Octets := (Json.string s).print

/-- The spelling of a truth value. -/
def writeBool (b : Bool) : Octets := (Json.bool b).print

/-- The spelling of a record. -/
def writeValue (v : Value) : Octets := v.toJson.print

/-- The spelling of a triple. -/
def GroupVersionKind.write (k : GroupVersionKind) : Octets :=
  Json.writeObject (textMember "group" k.group ++ textMember "version" k.version
    ++ textMember "kind" k.kind)

/-- The spelling of a request. -/
def Request.write (r : Request) : Octets :=
  Json.writeObject (textMember "uid" r.uid
    ++ [(.ofText "kind", r.kind.write)]
    ++ optionalMember "namespace" writeText r.namespaceName
    ++ optionalMember "name" writeText r.name
    ++ textMember "operation" r.operation.text
    ++ [(.ofText "userInfo", writeValue r.userInfo)]
    ++ optionalMember "dryRun" writeBool r.dryRun
    ++ optionalMember "object" id r.object)

/-- The spelling of a response; the patch is in base64. -/
def Response.write (r : Response) : Octets :=
  Json.writeObject (textMember "uid" r.uid
    ++ [(.ofText "allowed", writeBool r.allowed)]
    ++ optionalMember "status" writeValue r.status
    ++ optionalMember "patch" (fun p => 0x22 :: (Base64.encode p ++ [0x22])) r.patch
    ++ optionalMember "patchType" (fun t => writeText t.text) r.patchType)

/-- The spelling of a review. -/
def Review.write (r : Review) : Octets :=
  Json.writeObject (textMember "apiVersion" r.apiVersion
    ++ textMember "kind" r.kind
    ++ optionalMember "request" Request.write r.request
    ++ optionalMember "response" Response.write r.response)

end SidecarAdmission.Admission
