import SidecarAdmission.Text.Octets

/-!
JSON documents. A document keeps the spelling of its numbers and strings, because a reader that
skips a value checks no more than its spelling; a number or a text is made of them only where one is
asked for.
-/

set_option autoImplicit false
set_option relaxedAutoImplicit false

namespace SidecarAdmission

open SidecarAdmission.Text

namespace Json

/-- What stands between the quotes of a string, its escapes not yet resolved. -/
structure Literal where
  body : Octets
deriving DecidableEq, Repr, Inhabited

/-- The spelling of a number. -/
structure Numeral where
  spelling : Octets
deriving DecidableEq, Repr, Inhabited

/-- A value without parts. -/
inductive Scalar where
  | null
  | bool (value : Bool)
  | number (value : Numeral)
  | string (value : Literal)
deriving DecidableEq, Repr, Inhabited

end Json

/-- A JSON document; the members of an object stand in the order in which they are written. -/
inductive Json where
  | scalar (value : Json.Scalar)
  | array (items : List Json)
  | object (members : List (Json.Literal × Json))
deriving Repr, Inhabited

namespace Json

/-- The null document. -/
def null : Json := .scalar .null

/-- A truth value as a document. -/
def bool (value : Bool) : Json := .scalar (.bool value)

/-- Whether a document is null. -/
def isNull : Json → Bool
  | .scalar .null => true
  | _ => false

end Json

end SidecarAdmission
