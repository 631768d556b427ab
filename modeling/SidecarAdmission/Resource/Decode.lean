import SidecarAdmission.Resource.Timestamp
import SidecarAdmission.Resource.Value

/-!
Values from JSON documents. A record is an object; members with names that its kind lacks are
skipped, of several members with one name the last counts, though each must have the type of the
field, and null stands for a field that is not given. Elsewhere null is refused.
-/

set_option autoImplicit false
set_option relaxedAutoImplicit false

namespace SidecarAdmission.Resource

/-- The range of an integer of 32 bits. -/
def isInt32 (n : Int) : Bool := -Int.ofNat (Nat.pow 2 31) ≤ n && n < Int.ofNat (Nat.pow 2 31)

/-- The range of an integer of 64 bits. -/
def isInt64 (n : Int) : Bool := -Int.ofNat (Nat.pow 2 63) ≤ n && n < Int.ofNat (Nat.pow 2 63)

namespace Value

/-- The canonical text of a time. -/
def ofTime? (s : String) : Option Value := (Timestamp.parse? s).map fun t => .text t.text

/-- A value without parts. -/
def ofScalar? (ty : Ty) (v : Json) : Option Value :=
  match ty with
  | .text | .quantity => v.text?.map .text
  | .int32 => v.integer?.bind fun n => if isInt32 n then some (.int n) else none
  | .int64 => v.integer?.bind fun n => if isInt64 n then some (.int n) else none
  | .bool => v.bool?.map .bool
  | .intOrText =>
    match v.text? with
    | some s => some (.text s)
    | none => v.integer?.bind fun n => if isInt32 n then some (.int n) else none
  | .time => v.text?.bind ofTime?
  | .constant s => v.text?.bind fun t => if t = s then some (.text s) else none
  | _ => none

/-- The slots of a record, of the members read for its fields in order. -/
def slotsOf (kind : Kind) (read : List (String × Option Value)) : List (String × Option Value) :=
  kind.fields.map fun f =>
    (f.name, match ((read.reverse.lookup f.name).join) with
      | some v => some v
      | none => if f.isRequired then some (initial initialDepth f.type) else none)

mutual

/-- The value of a type that a document gives, with `depth` more levels that may be entered. -/
def ofJson? (depth : Nat) (ty : Ty) : Json → Option Value
  | .scalar s =>
    match ty with
    | .free => (Json.canonical? depth (.scalar s)).map .free
    | ty => ofScalar? ty (.scalar s)
  | .array vs =>
    match ty with
    | .free => (Json.canonical? depth (.array vs)).map .free
    | .list item => if depth ≤ 1 then none else (itemsOfJson? (depth - 1) item vs).map .list
    | _ => none
  | .object members =>
    match ty with
    | .free => (Json.canonical? depth (.object members)).map .free
    | .map value =>
      if depth ≤ 1 then none
      else (entriesOfJson? (depth - 1) value members).map fun es => .map (Json.sortMembers es)
    | .record kind =>
      if depth ≤ 1 then none
      else (membersOfJson? (depth - 1) kind members).map fun read => .record (slotsOf kind read)
    | _ => none

/-- The values of the items of an array. -/
def itemsOfJson? (depth : Nat) (item : Ty) : List Json → Option (List Value)
  | [] => some []
  | v :: rest =>
    match ofJson? depth item v with
    | some v => (itemsOfJson? depth item rest).map (v :: ·)
    | none => none

/-- The entries of a map. -/
def entriesOfJson? (depth : Nat) (value : Ty) :
    List (Json.Literal × Json) → Option (List (String × Value))
  | [] => some []
  | (k, v) :: rest =>
    match k.text?, ofJson? depth value v with
    | some k, some v => (entriesOfJson? depth value rest).map ((k, v) :: ·)
    | _, _ => none

/-- What the members of an object give for the fields of a record. -/
def membersOfJson? (depth : Nat) (kind : Kind) :
    List (Json.Literal × Json) → Option (List (String × Option Value))
  | [] => some []
  | (k, v) :: rest =>
    match k.text? with
    | none => none
    | some name =>
      match kind.field? name with
      | none => membersOfJson? depth kind rest
      | some f =>
        if v.isNull then
          match f.type with
          | .constant _ => none
          | _ => (membersOfJson? depth kind rest).map ((name, none) :: ·)
        else
          match ofJson? depth f.type v with
          | some v => (membersOfJson? depth kind rest).map ((name, some v) :: ·)
          | none => none

end

/-- The record of a kind that a document gives, if it gives one. -/
def decode? (kind : Kind) (v : Json) : Option Value := ofJson? Json.depthLimit (.record kind) v

end Value

end SidecarAdmission.Resource
