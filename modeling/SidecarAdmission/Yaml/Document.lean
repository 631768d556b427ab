import SidecarAdmission.Yaml.Node
import SidecarAdmission.Yaml.Token.Lexer

/-!
Documents, and their reading from tokens. A text holds one document or none. A node that is left
out, such as the value of a key without one, is an empty plain scalar. An alias stands for the node
with its number, wherever that lies; of several nodes with one number it is the one that begins
last.
-/

set_option autoImplicit false
set_option relaxedAutoImplicit false

namespace SidecarAdmission.Yaml

open SidecarAdmission.Text

/-- A text that has been read: its document, if it holds one. -/
structure Document where
  root : Option Node
deriving Repr, Inhabited

namespace Document

/-- The number of events that a document is made of; what is not there counts as one. -/
def size (d : Document) : Nat := (d.root.map Node.size).getD 1

/-- The nodes with numbers. -/
def anchored (d : Document) : List (Nat × Node) := (d.root.map Node.anchored).getD []

/-- How many aliases may be followed, so that a small document stands for no vast one. -/
def aliasLimit (d : Document) : Nat := 100 * d.size

/-- The node that an alias with a number stands for. -/
def node? (d : Document) (anchor : Nat) : Option Node := d.anchored.reverse.lookup anchor

end Document

namespace Reading

/-- What is left to read: the tokens, and the numbers of the anchors so far. -/
structure State where
  tokens : List Token
  anchors : List (List Char × Nat)
deriving Repr, Inhabited

/-- The reading of a part of a document, which may fail. -/
abbrev Reader (α : Type) := StateT State Option α

/-- The handles of tags and what they stand for. -/
abbrev Handles := List (Tag × Tag)

/-- The next token. -/
def peek : Reader (Option Token) := do return (← get).tokens.head?

/-- Passes over the next token. -/
def skip : Reader Unit := modify fun s => { s with tokens := s.tokens.tail }

/-- Passes over the next token if it is the given one, and tells whether it is. -/
def skipIf (t : Token) : Reader Bool := do
  if (← peek) = some t then
    skip
    return true
  else return false

/-- Whether the next token is one of the given ones. -/
def isAtOneOf (ts : List Token) : Reader Bool := do return (← peek).any ts.contains

/-- The number of a new anchor: the number of names before it, so that a name used again shares its
number with the next new name. -/
def declare (name : List Char) : Reader Nat := do
  let s ← get
  let number := s.anchors.length
  set { s with anchors := (name, number) :: s.anchors.filter (·.1 != name) }
  return number

/-- The number of the anchor that an alias names. -/
def numberOf (name : List Char) : Reader Nat := do
  match (← get).anchors.lookup name with
  | some number => return number
  | none => failure

/-- A tag with its handle replaced. -/
def resolveTag? (handles : Handles) (handle rest : Tag) : Option Tag :=
  if handle.isEmpty then some rest else (handles.lookup handle).map (· ++ rest)

/-- An anchor, if there is one here. -/
def anchor : Reader (Option (List Char)) := do
  match ← peek with
  | some (.anchor name) => skip; return some name
  | _ => return none

/-- A tag, if there is one here. -/
def tag (handles : Handles) : Reader (Option Tag) := do
  match ← peek with
  | some (.tag handle rest) =>
    skip
    match resolveTag? handles handle rest with
    | some t => return some t
    | none => failure
  | _ => return none

/-- The properties of a node, an anchor and a tag in either order. -/
def properties (handles : Handles) : Reader Properties := do
  let before ← anchor
  let tag ← tag handles
  let name ← if before.isSome then pure before else anchor
  match name with
  | some name => return ⟨some (← declare name), tag⟩
  | none => return ⟨none, tag⟩

/-- A node that is left out. -/
def blank : Node := .scalar none ⟨none, .plain, ""⟩

/-- The tag of a scalar; the tag that only says that there is one is none. -/
def scalarTag (tag : Option Tag) : Option Tag := if tag = some [0x21] then none else tag

/-- Which nodes may stand at a place: any, any but a list at the column of its key, or those between
brackets. -/
inductive Place where
  | item
  | entry
  | flow
deriving DecidableEq, Repr

/-- The tokens after which an item of a list is left out. -/
def afterItem : List Token := [.blockEntry, .blockEnd]

/-- The tokens after which a part of an entry is left out. -/
def afterEntry : List Token := [.key, .value, .blockEnd]

mutual

/-- A node. -/
def node (handles : Handles) (place : Place) : Nat → Reader Node
  | 0 => failure
  | fuel + 1 => do
    match ← peek with
    | some (.alias name) =>
      skip
      return .alias (← numberOf name)
    | _ =>
      let p ← properties handles
      match ← peek with
      | some .blockEntry =>
        if place = .entry then return .sequence p (← indentless handles fuel)
        else if p = ⟨none, none⟩ then failure
        else return .scalar p.anchor ⟨p.tag, .plain, ""⟩
      | some (.scalar style text) =>
        skip
        return .scalar p.anchor ⟨scalarTag p.tag, style, String.ofList text⟩
      | some .flowSequence =>
        skip
        return .sequence p (← flowItems handles true fuel)
      | some .flowMapping =>
        skip
        return .mapping p (← flowEntries handles true fuel)
      | some .blockSequence =>
        if place = .flow then failure
        skip
        return .sequence p (← blockItems handles fuel)
      | some .blockMapping =>
        if place = .flow then failure
        skip
        return .mapping p (← blockEntries handles fuel)
      | _ =>
        if p = ⟨none, none⟩ then failure
        else return .scalar p.anchor ⟨p.tag, .plain, ""⟩

/-- A node, or a blank one before some tokens. -/
def nodeUnless (ends : List Token) (handles : Handles) (place : Place) : Nat → Reader Node
  | 0 => failure
  | fuel + 1 => do
    if ← isAtOneOf ends then return blank else node handles place fuel

/-- The items of a list at a column of its own. -/
def blockItems (handles : Handles) : Nat → Reader (List Node)
  | 0 => failure
  | fuel + 1 => do
    if ← skipIf .blockEntry then
      let item ← nodeUnless afterItem handles .item fuel
      return item :: (← blockItems handles fuel)
    else if ← skipIf .blockEnd then return []
    else failure

/-- The items of a list at the column of its key. -/
def indentless (handles : Handles) : Nat → Reader (List Node)
  | 0 => failure
  | fuel + 1 => do
    if ← skipIf .blockEntry then
      let item ← nodeUnless (.blockEntry :: afterEntry) handles .item fuel
      return item :: (← indentless handles fuel)
    else return []

/-- The value of an entry, if it has one. -/
def valueUnless (ends : List Token) (handles : Handles) (place : Place) : Nat → Reader Node
  | 0 => failure
  | fuel + 1 => do
    if ← skipIf .value then nodeUnless ends handles place fuel else return blank

/-- The entries of a mapping at a column. -/
def blockEntries (handles : Handles) : Nat → Reader (List (Node × Node))
  | 0 => failure
  | fuel + 1 => do
    if ← skipIf .key then
      let key ← nodeUnless afterEntry handles .entry fuel
      let value ← valueUnless afterEntry handles .entry fuel
      return (key, value) :: (← blockEntries handles fuel)
    else if ← skipIf .blockEnd then return []
    else failure

/-- The items of a list between brackets. -/
def flowItems (handles : Handles) (isFirst : Bool) : Nat → Reader (List Node)
  | 0 => failure
  | fuel + 1 => do
    if ← skipIf .flowSequenceEnd then return []
    else
      if !isFirst then
        if !(← skipIf .flowEntry) then failure
      if ← skipIf .key then
        let key ← flowPairKey handles fuel
        let value ← valueUnless [.flowEntry, .flowSequenceEnd] handles .flow fuel
        return .mapping ⟨none, none⟩ [(key, value)] :: (← flowItems handles false fuel)
      else if ← skipIf .flowSequenceEnd then return []
      else
        let item ← node handles .flow fuel
        return item :: (← flowItems handles false fuel)

/-- The key of a pair that is an item of a list; a key that is left out takes the mark after it with
it. -/
def flowPairKey (handles : Handles) : Nat → Reader Node
  | 0 => failure
  | fuel + 1 => do
    if ← isAtOneOf [.value, .flowEntry, .flowSequenceEnd] then
      skip
      return blank
    else node handles .flow fuel

/-- The entries of a mapping between braces. -/
def flowEntries (handles : Handles) (isFirst : Bool) : Nat → Reader (List (Node × Node))
  | 0 => failure
  | fuel + 1 => do
    if ← skipIf .flowMappingEnd then return []
    else
      if !isFirst then
        if !(← skipIf .flowEntry) then failure
      if ← skipIf .key then
        let key ← nodeUnless [.value, .flowEntry, .flowMappingEnd] handles .flow fuel
        let value ← valueUnless [.flowEntry, .flowMappingEnd] handles .flow fuel
        return (key, value) :: (← flowEntries handles false fuel)
      else if ← skipIf .flowMappingEnd then return []
      else
        let key ← node handles .flow fuel
        return (key, blank) :: (← flowEntries handles false fuel)

end

/-- The handles that stand for something without a directive. -/
def defaultHandles : Handles :=
  [(Scan.ascii ['!'], Scan.ascii ['!']),
   (Scan.ascii ['!', '!'], Scan.ascii "tag:yaml.org,2002:".toList)]

/-- The directives before a document: whether there was a version, and the handles. -/
def directives (hasVersion : Bool) (handles : Handles) : Nat → Reader Handles
  | 0 => return handles
  | fuel + 1 => do
    match ← peek with
    | some (.version major minor) =>
      if hasVersion || major ≠ 1 || (minor ≠ 1 && minor ≠ 2) then failure
      skip
      directives true handles fuel
    | some (.handle name replacement) =>
      if (handles.lookup name).isSome then failure
      skip
      directives hasVersion ((name, replacement) :: handles) fuel
    | _ => return handles

/-- Passes over the marks at the end of a document, after which the text must end. -/
def theEnd : Reader Unit := do
  if (← get).tokens.any (· ≠ .documentEnd) then failure

/-- The document that the tokens of a text make, if they make one. -/
def document : Reader (Option Node) := do
  let s ← get
  let fuel := 4 * s.tokens.length + 8
  match s.tokens.head? with
  | none => return none
  | some t =>
    let isExplicit :=
      match t with
      | .version _ _ | .handle _ _ | .documentStart => true
      | _ => false
    if isExplicit then
      let declared ← directives false [] s.tokens.length
      if !(← skipIf .documentStart) then failure
      let root ←
        match ← peek with
        | none | some .documentStart | some .documentEnd | some (.version _ _)
        | some (.handle _ _) =>
          pure blank
        | some _ => node (declared ++ defaultHandles) .item fuel
      theEnd
      return some root
    else
      let root ← node defaultHandles .item fuel
      theEnd
      return some root

end Reading

/-- The document of a text, if that is well formed and holds no more than one. -/
def parse? (text : String) : Option Document := do
  let tokens ← tokens? text
  let (root, _) ← Reading.document.run ⟨tokens, []⟩
  some ⟨root⟩

end SidecarAdmission.Yaml
