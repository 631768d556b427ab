import SidecarAdmission.Json.Token

/-!
Writing JSON, without white space. Objects and arrays are written from the spellings of their parts,
so a part may also be given in a spelling of its own.
-/

set_option autoImplicit false
set_option relaxedAutoImplicit false

namespace SidecarAdmission.Json

open SidecarAdmission.Text

/-- Spellings with commas between them. -/
def commaSeparated : List Octets → Octets
  | [] => []
  | [x] => x
  | x :: xs => x ++ 0x2c :: commaSeparated xs

/-- The spelling of an array, of those of its items. -/
def writeArray (items : List Octets) : Octets := 0x5b :: (commaSeparated items ++ [0x5d])

/-- The spelling of a member, of its key and the spelling of its value. -/
def writeMember (key : Literal) (value : Octets) : Octets :=
  (Scalar.string key).spell ++ 0x3a :: value

/-- The spelling of an object, of its keys and the spellings of its values. -/
def writeObject (members : List (Literal × Octets)) : Octets :=
  0x7b :: (commaSeparated (members.map fun (k, v) => writeMember k v) ++ [0x7d])

mutual

/-- The spelling of a document. -/
def print : Json → Octets
  | .scalar s => s.spell
  | .array items => writeArray (printItems items)
  | .object members => writeObject (printMembers members)

/-- The spellings of documents. -/
def printItems : List Json → List Octets
  | [] => []
  | v :: rest => print v :: printItems rest

/-- The spellings of the values of members. -/
def printMembers : List (Literal × Json) → List (Literal × Octets)
  | [] => []
  | (k, v) :: rest => (k, print v) :: printMembers rest

end

end SidecarAdmission.Json
