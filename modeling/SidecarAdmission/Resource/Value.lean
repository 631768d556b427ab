import SidecarAdmission.Json.Canonical
import SidecarAdmission.Resource.Kind

/-!
Values of the types of fields. A record has a slot for each field of its kind, in writing order, and
a slot without a value is not written. Values are read at a field by its name and changed by filling
slots that have no value.
-/

set_option autoImplicit false
set_option relaxedAutoImplicit false

namespace SidecarAdmission.Resource

/-- A value of a field; the keys of a map are sorted. -/
inductive Value where
  | text (value : String)
  | int (value : Int)
  | bool (value : Bool)
  | free (value : Json)
  | list (items : List Value)
  | map (entries : List (String × Value))
  | record (slots : List (String × Option Value))
deriving Repr, Inhabited

namespace Value

/-- The value of a field that is required and not given, with `depth` levels of records filled
in. -/
def initial (depth : Nat) : Ty → Value
  | .text | .quantity | .time => .text ""
  | .int32 | .int64 | .intOrText => .int 0
  | .bool => .bool false
  | .free => .free .null
  | .constant s => .text s
  | .list _ => .list []
  | .map _ => .map []
  | .record kind =>
    match depth with
    | 0 => .record []
    | depth + 1 =>
      .record (kind.fields.map fun f =>
        (f.name, if f.isRequired then some (initial depth f.type) else none))

/-- A required field leads through at most this many records that are not given. -/
def initialDepth : Nat := 3

/-- The record of a kind in which no field is given. -/
def empty (kind : Kind) : Value := initial initialDepth (.record kind)

mutual

/-- The document of a value. -/
def toJson : Value → Json
  | .text s => .string s
  | .int n => .integer n
  | .bool b => .bool b
  | .free v => v
  | .list items => .array (itemsToJson items)
  | .map entries => .object (entriesToJson entries)
  | .record slots => .object (slotsToJson slots)

/-- The documents of the items of a list. -/
def itemsToJson : List Value → List Json
  | [] => []
  | v :: rest => toJson v :: itemsToJson rest

/-- The members of a map. -/
def entriesToJson : List (String × Value) → List (Json.Literal × Json)
  | [] => []
  | (k, v) :: rest => (.ofText k, toJson v) :: entriesToJson rest

/-- The members of a record, for the slots that have a value. -/
def slotsToJson : List (String × Option Value) → List (Json.Literal × Json)
  | [] => []
  | (k, some v) :: rest => (.ofText k, toJson v) :: slotsToJson rest
  | (_, none) :: rest => slotsToJson rest

end

/-- The slots of a record. -/
def slots : Value → List (String × Option Value)
  | .record slots => slots
  | _ => []

/-- The value in the slot with a name. -/
def get? (v : Value) (name : String) : Option Value := (v.slots.lookup name).join

/-- The items of a list. -/
def items : Value → List Value
  | .list items => items
  | _ => []

/-- The entries of a map. -/
def entries : Value → List (String × Value)
  | .map entries => entries
  | _ => []

/-- The text of a text. -/
def text? : Value → Option String
  | .text s => some s
  | _ => none

/-- The items in the slot with a name, none if it has no value. -/
def itemsAt (v : Value) (name : String) : List Value := ((v.get? name).map items).getD []

/-- The text in the slot with a name. -/
def textAt? (v : Value) (name : String) : Option String := (v.get? name).bind text?

/-- The text in the slot with a name, empty if it has none. -/
def textAt (v : Value) (name : String) : String := (v.textAt? name).getD ""

/-- A record whose slot with a name is changed by a function. -/
def updateSlot (name : String) (f : Option Value → Option Value) : Value → Value
  | .record slots => .record (slots.map fun (n, v) => if n = name then (n, f v) else (n, v))
  | v => v

/-- A record with a value put into the slot with a name, if it has none. -/
def fill (name : String) (value : Value) (record : Value) : Value :=
  record.updateSlot name fun v => some (v.getD value)

/-- A record with the value in the slot with a name changed, if there is one. -/
def modify (name : String) (f : Value → Value) (record : Value) : Value :=
  record.updateSlot name fun v => v.map f

/-- A list with each of its items changed. -/
def each (f : Value → Value) : Value → Value
  | .list items => .list (items.map f)
  | v => v

/-- A record with the items in the slot with a name changed. -/
def modifyEach (name : String) (f : Value → Value) (record : Value) : Value :=
  record.modify name (each f)

end Value

end SidecarAdmission.Resource
