import SidecarAdmission.Resource.FromYaml
import SidecarAdmission.Resource.Pod
import SidecarAdmission.Text.Class

/-!
Sidecar material as it is written down, before it is checked and its defaults are filled in. The
text is YAML, of which JSON is a part; each of the three lists may be left out, and a list must not
be declared twice.
-/

set_option autoImplicit false
set_option relaxedAutoImplicit false

namespace SidecarAdmission.Sidecar

open SidecarAdmission.Resource

/-- The lists of a configuration. -/
structure Material where
  containers : List Value
  volumes : List Value
  imagePullSecrets : List Value
deriving Repr, Inhabited

namespace Material

/-- The material of an empty text. -/
def empty : Material := ⟨[], [], []⟩

/-- The kind of the items of the list with a name. -/
def kind? (name : String) : Option Kind :=
  if name = "containers" then some .container
  else if name = "volumes" then some .volume
  else if name = "imagePullSecrets" then some .localObjectReference
  else none

/-- How deep a document may nest. -/
def depthLimit : Nat := 128

/-- The lists in the entries of a document, given those already read. -/
def lists (doc : Yaml.Document) (done : List (String × List Value)) :
    List (Yaml.Node × Yaml.Node) → FromYaml.Reader (List (String × List Value))
  | [] => return done
  | (k, v) :: rest => do
    let name ← FromYaml.text doc k
    match kind? name with
    | none => lists doc done rest
    | some kind =>
      if (done.lookup name).isSome then failure
      let items ← FromYaml.value doc (depthLimit - 1) (.list (.record kind)) v
      lists doc ((name, items.items) :: done) rest

/-- The list with a name, empty if it is not declared. -/
def listAt (lists : List (String × List Value)) (name : String) : List Value :=
  (lists.lookup name).getD []

/-- The material of a document. -/
def ofDocument? (doc : Yaml.Document) : Option Material :=
  match doc.root with
  | none => some empty
  | some (.scalar _ s) => if Yaml.Meaning.isBlank s then some empty else none
  | some (.mapping _ entries) => do
    let (lists, _) ← (lists doc [] entries).run 0
    some ⟨listAt lists "containers", listAt lists "volumes", listAt lists "imagePullSecrets"⟩
  | some _ => none

/-- The material of a text; a text without a visible character is empty. -/
def ofText? (text : String) : Option Material :=
  if text.toList.all Text.Class.isBlank then some empty
  else (Yaml.parse? text).bind ofDocument?

end Material

end SidecarAdmission.Sidecar
