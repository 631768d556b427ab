/-!
When to pull an image, by its reference. A digest fixes the image, and so does a tag other than
`latest`; a colon before the last slash belongs to a port and not to a tag.
-/

set_option autoImplicit false
set_option relaxedAutoImplicit false

namespace SidecarAdmission.Sidecar.Image

/-- When an image is pulled. -/
inductive PullPolicy where
  | always
  | ifNotPresent
deriving DecidableEq, Repr, Inhabited

/-- The name of a policy. -/
def PullPolicy.text : PullPolicy → String
  | .always => "Always"
  | .ifNotPresent => "IfNotPresent"

/-- What follows the last occurrence of a character, all of the text if there is none. -/
def afterLast (c : Char) (s : List Char) : List Char :=
  (s.reverse.takeWhile (· != c)).reverse

/-- The tag of a reference without a digest; it is empty if there is none. -/
def tag (reference : List Char) : List Char :=
  let name := afterLast '/' reference
  if name.contains ':' then afterLast ':' name else []

/-- The policy for a reference. -/
def pullPolicy (reference : String) : PullPolicy :=
  let s := reference.toList
  if s.contains '@' then .ifNotPresent
  else if tag s = [] ∨ tag s = "latest".toList then .always
  else .ifNotPresent

end SidecarAdmission.Sidecar.Image
