import SidecarAdmission.Json.Literal
import SidecarAdmission.Json.Pointer

/-!
JSON patches, as in RFC 6902, with the operations `add` and `replace`. An operation is applied at
the parent of the place that its pointer names: an object takes a member, an array an item before
the given position or, for `-`, at its end. It fails if the parent is missing or no container, or if
there is nothing to replace.
-/

set_option autoImplicit false
set_option relaxedAutoImplicit false

namespace SidecarAdmission.Json

/-- What an operation does with its value. -/
inductive Action where
  | add
  | replace
deriving DecidableEq, Repr, Inhabited

/-- One operation of a patch. -/
structure Operation where
  action : Action
  path : String
  value : Json
deriving Repr, Inhabited

namespace Operation

/-- The name of an action. -/
def actionName : Action → String
  | .add => "add"
  | .replace => "replace"

/-- The document of an operation. -/
def toJson (o : Operation) : Json :=
  ofMembers [("op", .string (actionName o.action)), ("path", .string o.path), ("value", o.value)]

end Operation

/-- The document of a patch. -/
def ofOperations (patch : List Operation) : Json := .array (patch.map Operation.toJson)

/-- The value of the last member with a name. -/
def member? (name : String) (members : List (Literal × Json)) : Option Json :=
  (members.reverse.find? fun (k, _) => k.text? == some name).map (·.2)

/-- Members with the value of the last one with a name changed; `members` stand reversed. -/
def setLast (name : String) (value : Json) : List (Literal × Json) → List (Literal × Json)
  | [] => []
  | (k, v) :: rest =>
    if k.text? == some name then (k, value) :: rest else (k, v) :: setLast name value rest

/-- Members with a value put in place of that of the last one with a name, or added at their end. -/
def setMember (name : String) (value : Json) (members : List (Literal × Json)) :
    List (Literal × Json) :=
  match member? name members with
  | some _ => (setLast name value members.reverse).reverse
  | none => members ++ [(.ofText name, value)]

/-- The position that a name of a pointer gives in an array. -/
def position? (name : String) : Option Nat :=
  match name.toList with
  | ['0'] => some 0
  | '0' :: _ => none
  | [] => none
  | ds =>
    if ds.all Char.isDigit then some (ds.foldl (fun n c => n * 10 + (c.toNat - '0'.toNat)) 0)
    else none

/-- A container with a value added or replaced at a name. -/
def put? (action : Action) (name : String) (value : Json) : Json → Option Json
  | .object members =>
    match action with
    | .add => some (.object (setMember name value members))
    | .replace => (member? name members).map fun _ => .object (setMember name value members)
  | .array items =>
    match action with
    | .add =>
      if name = "-" then some (.array (items ++ [value]))
      else (position? name).bind fun i =>
        if i ≤ items.length then some (.array (items.take i ++ value :: items.drop i)) else none
    | .replace =>
      (position? name).bind fun i =>
        if i < items.length then some (.array (items.set i value)) else none
  | .scalar _ => none

/-- A document with a value added or replaced at the place that names lead to. -/
def putAt? (action : Action) (value : Json) : List String → Json → Option Json
  | [], _ => some value
  | [name], v => put? action name value v
  | name :: names, .object members =>
    match member? name members with
    | some child =>
      (putAt? action value names child).map fun child => .object (setMember name child members)
    | none => none
  | name :: names, .array items =>
    match (position? name).bind fun i => (items[i]?).map fun child => (i, child) with
    | some (i, child) =>
      (putAt? action value names child).map fun child => .array (items.set i child)
    | none => none
  | _ :: _, .scalar _ => none

/-- A document after one operation. -/
def Operation.apply? (o : Operation) (v : Json) : Option Json := do
  let names ← Pointer.names? o.path
  putAt? o.action o.value names v

/-- A document after all operations of a patch, in order. -/
def applyPatch? (patch : List Operation) (v : Json) : Option Json :=
  patch.foldlM (fun v o => o.apply? v) v

end SidecarAdmission.Json
