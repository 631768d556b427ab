import SidecarAdmission.Yaml.Scalar

/-!
The tokens of a YAML text and the scanning of those that consist of more than an indicator and are
not scalars: directives, anchors and tags.
-/

set_option autoImplicit false
set_option relaxedAutoImplicit false

namespace SidecarAdmission.Yaml

open SidecarAdmission.Text

/-- A tag, or a part of one. -/
abbrev Tag := Octets

/-- A token; blocks have tokens of their own at their ends, which no character of the text shows. -/
inductive Token where
  | version (major minor : Nat)
  | handle (name replacement : Tag)
  | documentStart
  | documentEnd
  | blockSequence
  | blockMapping
  | blockEnd
  | flowSequence
  | flowSequenceEnd
  | flowMapping
  | flowMappingEnd
  | blockEntry
  | flowEntry
  | key
  | value
  | alias (name : List Char)
  | anchor (name : List Char)
  | tag (handle rest : Tag)
  | scalar (style : Style) (text : List Char)
deriving DecidableEq, Repr, Inhabited

namespace Scan

/-- A name, which is not empty, and the place after it. -/
def name? (c : Cursor) : Option (List Char × Cursor) :=
  let (name, d) := c.span isNameChar
  if name.isEmpty then none else some (name, d)

/-- Whether an anchor may end before a character. -/
def endsAnchor (c : Option Char) : Bool :=
  endsWord c || c.any fun x =>
    x == '?' || x == ':' || x == ',' || x == ']' || x == '}' || x == '%' || x == '@' || x == '\x60'

/-- The name of an anchor, after the indicator of it. -/
def anchorName? (c : Cursor) : Option (List Char × Cursor) := do
  let (name, d) ← name? c.next
  if endsAnchor d.char? then some (name, d) else none

/-- Whether a character may stand in a tag; some may only between angle brackets. -/
def isTagChar (verbatim : Bool) (c : Char) : Bool :=
  isNameChar c || ";/?:@&=+$.%!~*'()".toList.contains c
    || (verbatim && (c == ',' || c == '[' || c == ']'))

/-- The octet that an escape at the head of a text stands for, and what follows it. -/
def tagEscape? : List Char → Option (UInt8 × List Char)
  | '%' :: a :: b :: rest => (hexNumber? [a, b]).map fun n => (n.toUInt8, rest)
  | _ => none

/-- The number of octets of a character by its first octet. -/
def octetCount? (o : UInt8) : Option Nat :=
  if o < 0x80 then some 1
  else if 0xc0 ≤ o ∧ o < 0xe0 then some 2
  else if 0xe0 ≤ o ∧ o < 0xf0 then some 3
  else if 0xf0 ≤ o ∧ o < 0xf8 then some 4
  else none

/-- The octets that continue a character, each as an escape, and what follows them. -/
def tagEscapes? : Nat → List Char → Option (Octets × List Char)
  | 0, s => some ([], s)
  | n + 1, s => do
    let (o, s) ← tagEscape? s
    if 0x80 ≤ o ∧ o < 0xc0 then
      let (more, s) ← tagEscapes? n s
      some (o :: more, s)
    else none

/-- The octets of a tag and the length of its spelling. -/
def tagOctets? (verbatim : Bool) : Nat → List Char → Option (Octets × Nat)
  | 0, _ => some ([], 0)
  | fuel + 1, s =>
    match s with
    | [] => some ([], 0)
    | '%' :: _ => do
      let (o, after) ← tagEscape? s
      let count ← octetCount? o
      let (more, after) ← tagEscapes? (count - 1) after
      let (rest, length) ← tagOctets? verbatim fuel after
      some (o :: more ++ rest, 3 * count + length)
    | c :: after =>
      if isTagChar verbatim c then
        (tagOctets? verbatim fuel after).map fun (rest, length) => (c.toUInt8 :: rest, length + 1)
      else some ([], 0)

/-- A part of a tag and the place after it. -/
def tagPart? (verbatim : Bool) (c : Cursor) : Option (Tag × Cursor) :=
  (tagOctets? verbatim c.rest.length c.rest).map fun (os, length) => (os, c.skip length)

/-- The octets of ASCII characters. -/
def ascii (s : List Char) : Octets := s.map Char.toUInt8

/-- The handle at a place: an exclamation mark, a name, and perhaps another mark. -/
def handle? (c : Cursor) : Option (List Char × Cursor) :=
  if c.char? = some '!' then
    let (name, d) := c.next.span isNameChar
    if d.char? = some '!' then some ('!' :: name ++ ['!'], d.next) else some ('!' :: name, d)
  else none

/-- The handle and the rest of the tag at a place. -/
def tagParts? (c : Cursor) : Option (Tag × Tag × Cursor) :=
  if c.charAt? 1 = some '<' then do
    let (tag, d) ← tagPart? true (c.skip 2)
    if tag.isEmpty ∨ d.char? ≠ some '>' then none else some ([], tag, d.next)
  else do
    let (handle, d) ← handle? c
    let (rest, d) ← tagPart? false d
    if 1 < handle.length ∧ handle.getLast? = some '!' then
      if rest.isEmpty then none else some (ascii handle, rest, d)
    else
      let rest := ascii (handle.drop 1) ++ rest
      if rest.isEmpty then some ([], ascii ['!'], d) else some (ascii ['!'], rest, d)

/-- The tag at a place. -/
def tag? (inFlow : Bool) (c : Cursor) : Option (Token × Cursor) := do
  let (handle, rest, d) ← tagParts? c
  if endsWord d.char? || (inFlow && d.char? == some ',') then some (.tag handle rest, d) else none

/-- A number of at most nine digits. -/
def versionNumber? (c : Cursor) : Option (Nat × Cursor) :=
  let (ds, d) := c.span Char.isDigit
  if ds.isEmpty ∨ 9 < ds.length then none
  else some (ds.foldl (fun n d => n * 10 + (d.toNat - '0'.toNat)) 0, d)

/-- The version that a directive declares. -/
def version? (c : Cursor) : Option (Token × Cursor) := do
  let (major, d) ← versionNumber? (c.skipWhile isBlank)
  if d.char? ≠ some '.' then none
  let (minor, d) ← versionNumber? d.next
  some (.version major minor, d)

/-- The handle that a directive declares. -/
def handleDirective? (c : Cursor) : Option (Token × Cursor) := do
  let (handle, d) ← handle? (c.skipWhile isBlank)
  if handle ≠ ['!'] ∧ handle.getLast? ≠ some '!' then none
  if !d.char?.any isBlank then none
  let (replacement, d) ← tagPart? true (d.skipWhile isBlank)
  if replacement.isEmpty || !endsWord d.char? then none
  some (.handle (ascii handle) replacement, d)

/-- The directive at a place. -/
def directive? (c : Cursor) : Option (Token × Cursor) := do
  let (name, d) ← name? c.next
  if !endsWord d.char? then none
  let (token, d) ←
    if name = ['Y', 'A', 'M', 'L'] then version? d
    else if name = ['T', 'A', 'G'] then handleDirective? d
    else none
  (d.endOfLine?).map fun d => (token, d)

end Scan

end SidecarAdmission.Yaml
