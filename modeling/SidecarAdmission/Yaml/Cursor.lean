/-!
Characters of a YAML text and a place in it. Line breaks are made alike before a text is read, so
that a break is one character: a line feed, or one of the two separators that Unicode has for lines
and paragraphs.
-/

set_option autoImplicit false
set_option relaxedAutoImplicit false

namespace SidecarAdmission.Yaml

/-- Whether a character may stand in a text. -/
def isPermitted (c : Char) : Bool :=
  let n := c.toNat
  n == 0x09 || n == 0x0a || n == 0x0d || (0x20 ≤ n && n ≤ 0x7e) || n == 0x85
    || (0xa0 ≤ n && n ≤ 0xfffd)
    || 0x10000 ≤ n

/-- A text with a line feed for every carriage return, with or without a line feed after it, and for
every next-line character. -/
def unifyBreaks : List Char → List Char
  | '\r' :: '\n' :: rest => '\n' :: unifyBreaks rest
  | c :: rest => (if c = '\r' ∨ c = '\x85' then '\n' else c) :: unifyBreaks rest
  | [] => []

/-- Whether a character breaks a line. -/
def isBreak (c : Char) : Bool := c == '\n' || c == '\u2028' || c == '\u2029'

/-- Whether a character is a space or a tab. -/
def isBlank (c : Char) : Bool := c == ' ' || c == '\t'

/-- Whether a line ends at what may be a character. -/
def endsLine : Option Char → Bool
  | some c => isBreak c
  | none => true

/-- Whether a word ends at what may be a character. -/
def endsWord : Option Char → Bool
  | some c => isBlank c || isBreak c
  | none => true

/-- Whether a character may stand in a name. -/
def isNameChar (c : Char) : Bool :=
  ('a' ≤ c && c ≤ 'z') || ('A' ≤ c && c ≤ 'Z') || ('0' ≤ c && c ≤ '9') || c == '_' || c == '-'

/-- A place in a text: what follows it, and its line and column, counted from zero. -/
structure Cursor where
  rest : List Char
  line : Nat
  column : Nat
deriving DecidableEq, Repr, Inhabited

namespace Cursor

/-- The start of a text. -/
def start (text : List Char) : Cursor := ⟨text, 0, 0⟩

/-- The character at a place. -/
def char? (c : Cursor) : Option Char := c.rest.head?

/-- The character at a distance from a place. -/
def charAt? (c : Cursor) (n : Nat) : Option Char := c.rest[n]?

/-- The place after the character at a place. -/
def next (c : Cursor) : Cursor :=
  match c.rest with
  | [] => c
  | x :: rest => if isBreak x then ⟨rest, c.line + 1, 0⟩ else ⟨rest, c.line, c.column + 1⟩

/-- The place after a number of characters. -/
def skip : Nat → Cursor → Cursor
  | 0, c => c
  | n + 1, c => skip n c.next

/-- The characters from a place on for which a test holds, and the place after them. -/
def span (p : Char → Bool) (c : Cursor) : List Char × Cursor :=
  let taken := c.rest.takeWhile p
  (taken, c.skip taken.length)

/-- The place after the characters for which a test holds. -/
def skipWhile (p : Char → Bool) (c : Cursor) : Cursor := (c.span p).2

/-- The place at the end of a line. -/
def skipLine (c : Cursor) : Cursor := c.skipWhile (!isBreak ·)

/-- Whether a row of characters and the end of a word stand at a place. -/
def isAtMark (mark : List Char) (c : Cursor) : Bool :=
  c.rest.take mark.length == mark && endsWord (c.charAt? mark.length)

/-- Whether the start of a document is marked at a place. -/
def isAtDocumentStart (c : Cursor) : Bool := c.column == 0 && c.isAtMark ['-', '-', '-']

/-- Whether the end of a document is marked at a place. -/
def isAtDocumentEnd (c : Cursor) : Bool := c.column == 0 && c.isAtMark ['.', '.', '.']

/-- Whether a document starts or ends at a place. -/
def isAtDocumentMark (c : Cursor) : Bool := c.isAtDocumentStart || c.isAtDocumentEnd

/-- The place after blanks and a comment, if the line ends there. -/
def endOfLine? (c : Cursor) : Option Cursor :=
  let c := c.skipWhile isBlank
  let c := if c.char? = some '#' then c.skipLine else c
  if endsLine c.char? then some c.next else none

end Cursor

end SidecarAdmission.Yaml
