import SidecarAdmission.Json.Reader

/-!
Records in JSON with named fields. A record is written as an object, whose unknown members are
skipped and in which no known member may occur twice, or as an array with the fields in their order,
of which the last may be missing.
-/

set_option autoImplicit false
set_option relaxedAutoImplicit false

namespace SidecarAdmission.Json.Source

open SidecarAdmission.Text

/-- The members of an object by the texts of their keys. -/
def namedMembers? (members : List (Literal × Source)) : Option (List (String × Source)) :=
  members.mapM fun (k, s) => k.text?.map fun k => (k, s)

/-- The sources of the fields with the given names, for those that are given. -/
def fields? (names : List String) (s : Source) : Option (List (Option Source)) :=
  match s.members? with
  | some members => do
    let members ← namedMembers? members
    if names.all fun n => (members.filter (·.1 == n)).length ≤ 1 then
      some (names.map fun n => members.lookup n)
    else none
  | none => do
    let items ← s.items?
    if items.length ≤ names.length then
      some (items.map some ++ List.replicate (names.length - items.length) none)
    else none

/-- The field of a list of fields at a position. -/
def fieldAt (fields : List (Option Source)) (i : Nat) : Option Source := (fields[i]?).join

/-- The value of a field, read by a function, or a default if the field is not given. -/
def readOr? {α : Type} (default : α) (read : Source → Option α) : Option Source → Option α
  | none => some default
  | some s => read s

/-- The value of a field that null leaves out. -/
def readOptional? {α : Type} (read : Source → Option α) : Option Source → Option (Option α)
  | none => some none
  | some s => if s.isNull then some none else (read s).map some

/-- The text that a source spells. -/
def text? (s : Source) : Option String := s.value?.bind Json.text?

/-- The truth value that a source spells. -/
def bool? (s : Source) : Option Bool := s.value?.bind Json.bool?

end SidecarAdmission.Json.Source
