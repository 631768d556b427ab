import SidecarAdmission.Resource.Decode
import SidecarAdmission.Yaml.Document
import SidecarAdmission.Yaml.Meaning

/-!
Values from YAML documents. A text is whatever a scalar spells; a list, a map or a record may be an
empty plain scalar. Aliases are counted when they are followed, and a value may lie no deeper than
documents may nest; skipped members count for neither.
-/

set_option autoImplicit false
set_option relaxedAutoImplicit false

namespace SidecarAdmission.Resource

open SidecarAdmission.Text SidecarAdmission.Number

namespace FromYaml

/-- A reading of a document that counts the aliases it follows. -/
abbrev Reader (α : Type) := StateT Nat Option α

/-- The outcome of a step that follows no alias. -/
def ofOption {α : Type} (v : Option α) : Reader α := StateT.lift v

/-- The node itself, or the one that it is an alias of. -/
def follow (doc : Yaml.Document) : Yaml.Node → Reader Yaml.Node
  | .alias a => do
    let jumps := (← get) + 1
    if doc.aliasLimit < jumps then failure
    set jumps
    ofOption (doc.node? a)
  | n => return n

/-- The scalar that a node is. -/
def scalar? : Yaml.Node → Option Yaml.Scalar
  | .scalar _ s => some s
  | _ => none

/-- The text of a scalar at a node. -/
def text (doc : Yaml.Document) (n : Yaml.Node) : Reader String := do
  let s ← ofOption (scalar? (← follow doc n))
  return s.text

/-- A list in which each item is read in turn. -/
def each {α β : Type} (read : α → Reader β) : List α → Reader (List β)
  | [] => return []
  | x :: rest => do
    let y ← read x
    return y :: (← each read rest)

/-- The document of a floating point number; what has no text is null. -/
def ofFloat : Yaml.Meaning.Float → Json
  | .finite negative x =>
    .scalar (.number ⟨octets ((if negative then "-" else "") ++ Shortest.text x)⟩)
  | .unwritable => .null

/-- The document of a reading. -/
def ofReading : Yaml.Meaning.Reading → Json
  | .null => .null
  | .bool b => .bool b
  | .integer n => .integer n
  | .float x => ofFloat x
  | .text s => .string s

/-- A free-form document in its canonical form, of which `depth` more levels may be entered. -/
def free (doc : Yaml.Document) : Nat → Yaml.Node → Reader Json
  | depth, n => do
    match ← follow doc n, depth with
    | .scalar _ s, _ => return ofReading (← ofOption (Yaml.Meaning.ofScalar? s))
    | .sequence p items, depth + 1 =>
      if p.tag.any Yaml.Tag.isLocal then failure
      return .array (← each (free doc depth) items)
    | .mapping p entries, depth + 1 =>
      if p.tag.any Yaml.Tag.isLocal then failure
      let members ← each (fun (k, v) => do return (← text doc k, ← free doc depth v)) entries
      return .ofMembers (Json.sortMembers members)
    | _, _ => failure

/-- The integer that a scalar spells, in a range. -/
def int? (isIn : Int → Bool) (s : Yaml.Scalar) : Option Value :=
  if Yaml.Meaning.mayBe "int" s then
    (Yaml.Meaning.integer? s.text).bind fun n => if isIn n then some (.int n) else none
  else none

/-- A value without parts. -/
def ofScalar? (ty : Ty) (s : Yaml.Scalar) : Option Value :=
  match ty with
  | .text | .quantity => some (.text s.text)
  | .int32 => int? isInt32 s
  | .int64 => int? isInt64 s
  | .bool =>
    if Yaml.Meaning.mayBe "bool" s then (Yaml.Meaning.bool? s.text).map .bool else none
  | .intOrText =>
    match Yaml.Meaning.ofScalar? s with
    | some (.text t) => some (.text t)
    | some (.integer n) => if isInt32 n then some (.int n) else none
    | _ => none
  | .time => Value.ofTime? s.text
  | .constant t => if s.text = t then some (.text t) else none
  | .list _ => if Yaml.Meaning.isBlank s then some (.list []) else none
  | .map _ => if Yaml.Meaning.isBlank s then some (.map []) else none
  | .record kind =>
    if Yaml.Meaning.isBlank s then some (.record (Value.slotsOf kind [])) else none
  | .free => none

/-- Whether an optional value is left out at a node, and if it is not, the node itself; only an
alias that is looked at is followed. -/
def present (doc : Yaml.Document) (n : Yaml.Node) : Reader (Option Yaml.Node) := do
  let n ← follow doc n
  match n with
  | .scalar _ s => return if ← ofOption (Yaml.Meaning.leavesOut? s) then none else some n
  | n => return some n

/-- The slot that an entry of a document gives to a record, if its kind has such a field. -/
def slot? (doc : Yaml.Document) (kind : Kind) (read : Ty → Yaml.Node → Reader Value)
    (entry : Yaml.Node × Yaml.Node) : Reader (Option (String × Option Value)) := do
  let name ← text doc entry.1
  match kind.field? name with
  | none => return none
  | some f =>
    match f.type with
    | .constant _ => return some (name, some (← read f.type entry.2))
    | _ =>
      match ← present doc entry.2 with
      | none => return some (name, none)
      | some v => return some (name, some (← read f.type v))

/-- The value of a type that a node gives, with `depth` more levels that may be entered. -/
def value (doc : Yaml.Document) : Nat → Ty → Yaml.Node → Reader Value
  | 0, ty, n => do
    if ty = .free then return .free (← free doc 0 n)
    match ← follow doc n with
    | .scalar _ s => ofOption (ofScalar? ty s)
    | _ => failure
  | depth + 1, ty, n => do
    if ty = .free then return .free (← free doc depth n)
    match ← follow doc n, ty with
    | .scalar _ s, ty => ofOption (ofScalar? ty s)
    | .sequence _ items, .list item => return .list (← each (value doc depth item) items)
    | .mapping _ entries, .map item =>
      let entries ← each (fun (k, v) => do return (← text doc k, ← value doc depth item v)) entries
      return .map (Json.sortMembers entries)
    | .mapping _ entries, .record kind =>
      let read ← each (slot? doc kind (value doc depth)) entries
      return .record (Value.slotsOf kind (read.filterMap id))
    | _, _ => failure

end FromYaml

end SidecarAdmission.Resource
