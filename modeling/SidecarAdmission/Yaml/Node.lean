import SidecarAdmission.Yaml.Token

/-!
Nodes of a document. A node may have a number, by which an alias refers to it, and a tag.
-/

set_option autoImplicit false
set_option relaxedAutoImplicit false

namespace SidecarAdmission.Yaml

/-- What may stand before a node. -/
structure Properties where
  anchor : Option Nat
  tag : Option Tag
deriving DecidableEq, Repr, Inhabited

/-- A scalar: its tag, its style and its text. -/
structure Scalar where
  tag : Option Tag
  style : Style
  text : String
deriving DecidableEq, Repr, Inhabited

/-- A node of a document. -/
inductive Node where
  | alias (anchor : Nat)
  | scalar (anchor : Option Nat) (value : Scalar)
  | sequence (properties : Properties) (items : List Node)
  | mapping (properties : Properties) (entries : List (Node × Node))
deriving Repr, Inhabited

namespace Node

mutual

/-- The number of events that a node is made of. -/
def size : Node → Nat
  | .alias _ => 1
  | .scalar _ _ => 1
  | .sequence _ items => sizeOfItems items + 2
  | .mapping _ entries => sizeOfEntries entries + 2

/-- The number of events that nodes are made of. -/
def sizeOfItems : List Node → Nat
  | [] => 0
  | n :: rest => n.size + sizeOfItems rest

/-- The number of events that pairs of nodes are made of. -/
def sizeOfEntries : List (Node × Node) → Nat
  | [] => 0
  | (k, v) :: rest => k.size + v.size + sizeOfEntries rest

end

/-- A node under its number, if it has one. -/
def label (anchor : Option Nat) (n : Node) : List (Nat × Node) :=
  (anchor.map fun a => (a, n)).toList

mutual

/-- The nodes in a node that have numbers, in the order in which they begin. -/
def anchored : Node → List (Nat × Node)
  | .alias _ => []
  | .scalar anchor v => label anchor (.scalar anchor v)
  | .sequence p items => label p.anchor (.sequence p items) ++ anchoredInItems items
  | .mapping p entries => label p.anchor (.mapping p entries) ++ anchoredInEntries entries

/-- The nodes in nodes that have numbers. -/
def anchoredInItems : List Node → List (Nat × Node)
  | [] => []
  | n :: rest => n.anchored ++ anchoredInItems rest

/-- The nodes in pairs of nodes that have numbers. -/
def anchoredInEntries : List (Node × Node) → List (Nat × Node)
  | [] => []
  | (k, v) :: rest => k.anchored ++ v.anchored ++ anchoredInEntries rest

end

end Node

end SidecarAdmission.Yaml
