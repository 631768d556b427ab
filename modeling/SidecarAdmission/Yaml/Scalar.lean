import SidecarAdmission.Text.Octets
import SidecarAdmission.Yaml.Cursor

/-!
The texts of scalars. A plain scalar ends at an indicator, a quoted one at its closing quote, and in
both the breaks between words are folded: one break becomes a space and of several the first is
dropped. A block scalar is cut by its indentation.
-/

set_option autoImplicit false
set_option relaxedAutoImplicit false

namespace SidecarAdmission.Yaml

open SidecarAdmission.Text

/-- How a scalar is written. -/
inductive Style where
  | plain
  | singleQuoted
  | doubleQuoted
  | literal
  | folded
deriving DecidableEq, Repr, Inhabited

namespace Scan

/-- What breaks between words stand for. -/
def foldBreaks : List Char → List Char
  | ['\n'] => [' ']
  | '\n' :: more => more
  | breaks => breaks

/-- What blanks and the breaks after them stand for. -/
def foldGap (blanks breaks : List Char) : List Char :=
  if breaks.isEmpty then blanks else foldBreaks breaks

/-- The breaks at a place, with the blanks after each of them skipped; before a column no tab may
stand among those. -/
def breaks? (indent : Nat) : Nat → Cursor → Option (List Char × Cursor)
  | 0, c => some ([], c)
  | fuel + 1, c =>
    match c.char? with
    | none => some ([], c)
    | some x =>
      if isBreak x then
        let (blanks, after) := c.next.span isBlank
        if (blanks.take indent).contains '\t' then none
        else (breaks? indent fuel after).map fun (more, after) => (x :: more, after)
      else some ([], c)

/-- Whether a character is a mark of its own between brackets. -/
def isFlowMark (c : Char) : Bool := c == ',' || c == '[' || c == ']' || c == '{' || c == '}'

/-- The word of a plain scalar at the head of a text, between brackets or not. -/
def word? (inFlow : Bool) : List Char → Option (List Char)
  | [] => some []
  | c :: rest =>
    let next := rest.head?
    if endsWord (some c) then some []
    else if inFlow && c == ':' && next.any (fun x => isFlowMark x || x == '?') then none
    else if (c == ':' && endsWord next) || (inFlow && isFlowMark c) then some []
    else (word? inFlow rest).map (c :: ·)

/-- What follows a word of a plain scalar: its further text, whether it ends after a break, and the
place where it ends. -/
def plainTail? (inFlow : Bool) (indent : Nat) : Nat → Cursor → Option (List Char × Bool × Cursor)
  | 0, c => some ([], false, c)
  | fuel + 1, c => do
    let (blanks, d) := c.span isBlank
    let (breaks, d) ← breaks? indent d.rest.length d
    if blanks.isEmpty && breaks.isEmpty then some ([], false, c)
    else if (!inFlow && d.column < indent) || d.isAtDocumentMark || d.char? == some '#' then
      some ([], !breaks.isEmpty, d)
    else
      let word ← word? inFlow d.rest
      if word.isEmpty then some ([], !breaks.isEmpty, d)
      else
        let (text, broken, e) ← plainTail? inFlow indent fuel (d.skip word.length)
        some (foldGap blanks breaks ++ word ++ text, broken, e)

/-- The plain scalar at a place, of which further lines stand at a column or after it. -/
def plain? (inFlow : Bool) (indent : Nat) (c : Cursor) : Option (List Char × Bool × Cursor) := do
  let word ← word? inFlow c.rest
  let (text, broken, d) ← plainTail? inFlow indent c.rest.length (c.skip word.length)
  some (word ++ text, broken, d)

/-- The number that hexadecimal digits spell. -/
def hexNumber? (ds : List Char) : Option Nat :=
  ds.foldlM (fun n d => if d.toNat < 128 then (hexValue? d.toUInt8).map (n * 16 + ·) else none) 0

/-- What an escape of one letter stands for. -/
def shortEscape? : Char → Option Char
  | '0' => some '\x00'
  | 'a' => some '\x07'
  | 'b' => some '\x08'
  | 't' => some '\t'
  | '\t' => some '\t'
  | 'n' => some '\n'
  | 'v' => some '\x0b'
  | 'f' => some '\x0c'
  | 'r' => some '\r'
  | 'e' => some '\x1b'
  | ' ' => some ' '
  | '"' => some '"'
  | '/' => some '/'
  | '\\' => some '\\'
  | 'N' => some '\x85'
  | '_' => some '\xa0'
  | 'L' => some '\u2028'
  | 'P' => some '\u2029'
  | _ => none

/-- The number of digits of an escape by code point. -/
def escapeWidth? : Char → Option Nat
  | 'x' => some 2
  | 'u' => some 4
  | 'U' => some 8
  | _ => none

/-- The character that an escape stands for, of what follows its backslash, and the length of
that. -/
def escape? : List Char → Option (Char × Nat)
  | [] => none
  | c :: rest =>
    match shortEscape? c with
    | some x => some (x, 1)
    | none => do
      let width ← escapeWidth? c
      if rest.length < width then none
      let n ← hexNumber? (rest.take width)
      if n.isValidChar then some (Char.ofNat n, width + 1) else none

/-- The text up to the closing quote, and the place after that. -/
def quotedTail? (double : Bool) : Nat → Cursor → Option (List Char × Cursor)
  | 0, _ => none
  | fuel + 1, c =>
    if c.isAtDocumentMark then none
    else
      match c.char? with
      | none => none
      | some x =>
        if endsWord (some x) then do
          let (blanks, d) := c.span isBlank
          let (breaks, d) ← breaks? 0 d.rest.length d
          let (text, d) ← quotedTail? double fuel d
          some (foldGap blanks breaks ++ text, d)
        else if double && x == '"' then some ([], c.next)
        else if !double && x == '\'' then
          if c.charAt? 1 = some '\'' then
            (quotedTail? double fuel (c.skip 2)).map fun (text, d) => ('\'' :: text, d)
          else some ([], c.next)
        else if double && x == '\\' then
          if (c.charAt? 1).any isBreak then do
            let (breaks, d) ← breaks? 0 c.rest.length ((c.skip 2).skipWhile isBlank)
            let (text, d) ← quotedTail? double fuel d
            some (breaks ++ text, d)
          else do
            let (y, length) ← escape? c.next.rest
            let (text, d) ← quotedTail? double fuel (c.next.skip length)
            some (y :: text, d)
        else (quotedTail? double fuel c.next).map fun (text, d) => (x :: text, d)

/-- The quoted scalar at a place. -/
def quoted? (double : Bool) (c : Cursor) : Option (List Char × Cursor) :=
  quotedTail? double c.rest.length c.next

/-- What becomes of the breaks at the end of a block scalar. -/
inductive Chomping where
  | strip
  | clip
  | keep
deriving DecidableEq, Repr, Inhabited

/-- The head of a block scalar: its chomping and its indentation, if that is given. -/
structure BlockHead where
  chomping : Chomping
  indent : Option Nat
deriving DecidableEq, Repr, Inhabited

/-- The chomping that a character indicates. -/
def chomping? : Option Char → Option Chomping
  | some '+' => some .keep
  | some '-' => some .strip
  | _ => none

/-- The indentation that a character indicates. -/
def indentation? (c : Option Char) : Option Nat :=
  c.bind fun c => if c.isDigit then some (c.toNat - '0'.toNat) else none

/-- The indicators of a block scalar, in either order, and the place after them. -/
def blockHead? (c : Cursor) : Option (BlockHead × Cursor) :=
  let (head, d) : BlockHead × Cursor :=
    match chomping? c.char?, indentation? c.char? with
    | some k, _ =>
      match indentation? (c.charAt? 1) with
      | some n => (⟨k, some n⟩, c.skip 2)
      | none => (⟨k, none⟩, c.next)
    | none, some n =>
      match chomping? (c.charAt? 1) with
      | some k => (⟨k, some n⟩, c.skip 2)
      | none => (⟨.clip, some n⟩, c.next)
    | none, none => (⟨.clip, none⟩, c)
  if head.indent = some 0 then none else some (head, d)

/-- The breaks before a line of a block scalar, the greatest column of the lines that they end, and
the place after the indentation of the line. -/
def blockBreaks? (indent : Option Nat) (widest : Nat) :
    Nat → Cursor → Option (List Char × Nat × Cursor)
  | 0, c => some ([], widest, c)
  | fuel + 1, c =>
    let spaces := c.rest.takeWhile (· == ' ')
    let width := (indent.map fun n => min (n - c.column) spaces.length).getD spaces.length
    let d := c.skip width
    let widest := max widest d.column
    if indent.all (d.column < ·) && d.char? == some '\t' then none
    else
      match d.char? with
      | none => some ([], widest, d)
      | some x =>
        if isBreak x then
          (blockBreaks? indent widest fuel d.next).map fun (more, widest, e) =>
            (x :: more, widest, e)
        else some ([], widest, d)

/-- The lines of a block scalar from a place on: their text without the last break, that break, the
breaks after it, and the place where the scalar ends. The arguments tell what stands before the
line: a break, further breaks, and whether the line before begins with a blank. -/
def blockLines? (folded : Bool) (indent : Nat) (lead more : List Char) (wasBlank : Bool) :
    Nat → Cursor → Option (List Char × List Char × List Char × Cursor)
  | 0, c => some ([], lead, more, c)
  | fuel + 1, c =>
    if c.column = indent ∧ c.char?.isSome then do
      let blank := c.char?.any isBlank
      let joint :=
        if folded && lead == ['\n'] && !wasBlank && !blank then if more.isEmpty then [' '] else []
        else lead
      let (line, d) := c.span (!isBreak ·)
      let newLead := d.char?.toList
      let (newMore, _, e) ← blockBreaks? (some indent) 0 d.rest.length d.next
      let (text, last, final, f) ← blockLines? folded indent newLead newMore blank fuel e
      some (joint ++ more ++ line ++ text, last, final, f)
    else some ([], lead, more, c)

/-- The block scalar at a place, inside a block whose content must stand at a column or after it. -/
def block? (folded : Bool) (floor : Nat) (c : Cursor) : Option (List Char × Cursor) := do
  let (head, d) ← blockHead? c.next
  let d ← d.endOfLine?
  let given := head.indent.map (· + (floor - 1))
  let (breaks, widest, d) ← blockBreaks? given 0 d.rest.length d
  let indent := given.getD (max widest (max floor 1))
  let (text, last, final, d) ← blockLines? folded indent [] breaks false d.rest.length d
  let tail :=
    match head.chomping with
    | .strip => []
    | .clip => last
    | .keep => last ++ final
  some (text ++ tail, d)

end Scan

end SidecarAdmission.Yaml
