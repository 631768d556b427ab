import SidecarAdmission.Yaml.Token

/-!
The tokens of a whole text. Blocks are opened and closed by the columns at which their parts stand.
A key without an indicator is known only by the colon after it, so the place of every token that may
begin such a key is kept until it is too late for a colon.
-/

set_option autoImplicit false
set_option relaxedAutoImplicit false

namespace SidecarAdmission.Yaml

/-- A place at which a key may have begun, and the number of tokens before it. A key is required if
nothing else may stand at that column. -/
structure KeyCandidate where
  required : Bool
  number : Nat
  line : Nat
  column : Nat
deriving DecidableEq, Repr, Inhabited

/-- What has been read of a text: the place, the tokens, of which the last stands first, the columns
of the open blocks, a possible key for this bracket and for each one around it, and whether a key
may begin here. -/
structure Lexer where
  cursor : Cursor
  tokens : List Token
  count : Nat
  blocks : List Nat
  candidate : Option KeyCandidate
  outer : List (Option KeyCandidate)
  keyAllowed : Bool
deriving Repr, Inhabited

namespace Lexer

/-- The lexer at the start of a text. -/
def start (text : List Char) : Lexer := ⟨.start text, [], 0, [], none, [], true⟩

/-- Whether the place is between brackets. -/
def inFlow (s : Lexer) : Bool := !s.outer.isEmpty

/-- The least column at which the content of the innermost block may stand. -/
def floor (s : Lexer) : Nat :=
  match s.blocks with
  | [] => 0
  | column :: _ => column + 1

/-- A lexer that has read one more token. -/
def push (t : Token) (s : Lexer) : Lexer := { s with tokens := t :: s.tokens, count := s.count + 1 }

/-- A lexer with a token put after the given number of others. -/
def insertAt (number : Nat) (t : Token) (s : Lexer) : Lexer :=
  let later := s.count - number
  { s with tokens := s.tokens.take later ++ t :: s.tokens.drop later, count := s.count + 1 }

/-- A lexer at another place. -/
def moveTo (c : Cursor) (s : Lexer) : Lexer := { s with cursor := c }

/-- A lexer after which a key may begin or not. -/
def allow (keyAllowed : Bool) (s : Lexer) : Lexer := { s with keyAllowed }

/-- A lexer in which a block at a column is open, by a token put after the given number of others if
the block is new. -/
def openBlock (column number : Nat) (t : Token) (s : Lexer) : Lexer :=
  if !s.inFlow && s.floor ≤ column then
    insertAt number t { s with blocks := column :: s.blocks }
  else s

/-- A lexer in which every block is closed that lies deeper than a column. -/
def closeBlocks (isDeeper : Nat → Bool) (s : Lexer) : Lexer :=
  if s.inFlow then s
  else
    let closed := s.blocks.takeWhile isDeeper
    { s with
      tokens := closed.map (fun _ => .blockEnd) ++ s.tokens
      count := s.count + closed.length
      blocks := s.blocks.drop closed.length }

/-- A lexer without its candidate for a key, unless that is required. -/
def dropCandidate? (s : Lexer) : Option Lexer :=
  if s.candidate.any (·.required) then none else some { s with candidate := none }

/-- A lexer in which a key may have begun here. -/
def saveCandidate? (s : Lexer) : Option Lexer :=
  if s.keyAllowed then do
    let c := s.cursor
    let required := !s.inFlow && s.floor == c.column + 1
    let s ← s.dropCandidate?
    some { s with candidate := some ⟨required, s.count, c.line, c.column⟩ }
  else some s

/-- Whether it is too late for a colon after a candidate: a key stands on one line and is not longer
than 1024 characters. -/
def isLate (c : Cursor) (k : KeyCandidate) : Bool := k.line < c.line || k.column + 1024 < c.column

/-- What is left of a possible candidate; a required one must not be late. -/
def keepCandidate? (c : Cursor) : Option KeyCandidate → Option (Option KeyCandidate)
  | some k => if isLate c k then if k.required then none else some none else some (some k)
  | none => some none

/-- A lexer without the candidates for which it is too late. -/
def dropLate? (s : Lexer) : Option Lexer := do
  let candidate ← keepCandidate? s.cursor s.candidate
  let outer ← s.outer.mapM (keepCandidate? s.cursor)
  some { s with candidate, outer }

/-- The lexer at the next token: after blanks, breaks, comments and byte order marks. -/
def toToken : Nat → Lexer → Lexer
  | 0, s => s
  | fuel + 1, s =>
    let c := s.cursor
    let c := if c.column = 0 ∧ c.char? = some '\ufeff' then c.next else c
    let c := c.skipWhile fun x => x == ' ' || (x == '\t' && (s.inFlow || !s.keyAllowed))
    let c := if c.char? = some '#' then c.skipLine else c
    if c.char?.any isBreak then
      toToken fuel { s with cursor := c.next, keyAllowed := s.keyAllowed || !s.inFlow }
    else s.moveTo c

/-- The end of the text. -/
def finish? (s : Lexer) : Option (List Token) := do
  let s ← (s.closeBlocks fun _ => true).dropCandidate?
  some s.tokens.reverse

/-- A token at the margin that belongs to no block. -/
def margin? (t : Token) (c : Cursor) (s : Lexer) : Option Lexer := do
  let s ← (s.closeBlocks fun _ => true).dropCandidate?
  some ((s.allow false).push t |>.moveTo c)

/-- An opening bracket. -/
def openFlow? (t : Token) (s : Lexer) : Option Lexer := do
  let s ← s.saveCandidate?
  let s := { s with candidate := none, outer := s.candidate :: s.outer, keyAllowed := true }
  some (s.push t |>.moveTo s.cursor.next)

/-- A closing bracket. -/
def closeFlow? (t : Token) (s : Lexer) : Option Lexer := do
  let s ← s.dropCandidate?
  let s :=
    match s.outer with
    | [] => s
    | candidate :: outer => { s with candidate, outer }
  some ((s.allow false).push t |>.moveTo s.cursor.next)

/-- A comma between brackets. -/
def flowEntry? (s : Lexer) : Option Lexer := do
  let s ← s.dropCandidate?
  some ((s.allow true).push .flowEntry |>.moveTo s.cursor.next)

/-- A dash before an item, or a question mark before a key. -/
def indicator? (block entry : Token) (keyAllowed : Bool) (s : Lexer) : Option Lexer :=
  if !s.inFlow && !s.keyAllowed then none
  else do
    let s ← (s.openBlock s.cursor.column s.count block).dropCandidate?
    some ((s.allow keyAllowed).push entry |>.moveTo s.cursor.next)

/-- A colon before a value. -/
def value? (s : Lexer) : Option Lexer :=
  let read (s : Lexer) : Lexer := s.push .value |>.moveTo s.cursor.next
  match s.candidate with
  | some k =>
    let s := (s.insertAt k.number .key).openBlock k.column k.number .blockMapping
    some (read { s with candidate := none, keyAllowed := false })
  | none =>
    if !s.inFlow && !s.keyAllowed then none
    else some (read ((s.openBlock s.cursor.column s.count .blockMapping).allow (!s.inFlow)))

/-- An alias, anchor, tag or scalar, which may begin a key. -/
def content? (read : Lexer → Option (Token × Cursor)) (s : Lexer) : Option Lexer := do
  let s ← s.saveCandidate?
  let (t, c) ← read s
  some ((s.allow false).push t |>.moveTo c)

/-- A quoted scalar. -/
def quoted? (double : Bool) (style : Style) : Lexer → Option Lexer :=
  content? fun s => (Scan.quoted? double s.cursor).map fun (text, c) => (.scalar style text, c)

/-- A block scalar. -/
def block? (folded : Bool) (style : Style) (s : Lexer) : Option Lexer := do
  let s ← s.dropCandidate?
  let (text, c) ← Scan.block? folded s.floor s.cursor
  some ((s.allow true).push (.scalar style text) |>.moveTo c)

/-- A plain scalar; after a break at its end a key may begin. -/
def plain? (s : Lexer) : Option Lexer := do
  let s ← s.saveCandidate?
  let (text, broken, c) ← Scan.plain? s.inFlow s.floor s.cursor
  some ((s.allow broken).push (.scalar .plain text) |>.moveTo c)

/-- Whether a plain scalar may begin with a character, given the one after it. -/
def beginsPlain (inFlow : Bool) (c : Char) (next : Option Char) : Bool :=
  if c == '-' then !next.any isBlank
  else if c == '?' || c == ':' then !inFlow && !endsWord next
  else !endsWord (some c) && !",[]\x7b\x7d#&*!|>'\"%@\x60".toList.contains c

/-- The next token, at its place. -/
def token? (s : Lexer) : Option Lexer :=
  let c := s.cursor
  let next := c.charAt? 1
  if c.column = 0 ∧ c.char? = some '%' then do
    let (t, d) ← Scan.directive? c
    s.margin? t d
  else if c.isAtDocumentStart then s.margin? .documentStart (c.skip 3)
  else if c.isAtDocumentEnd then s.margin? .documentEnd (c.skip 3)
  else
    match c.char? with
    | none => none
    | some '[' => s.openFlow? .flowSequence
    | some '{' => s.openFlow? .flowMapping
    | some ']' => s.closeFlow? .flowSequenceEnd
    | some '}' => s.closeFlow? .flowMappingEnd
    | some ',' => s.flowEntry?
    | some '*' => s.content? fun s => (Scan.anchorName? s.cursor).map fun (n, d) => (.alias n, d)
    | some '&' => s.content? fun s => (Scan.anchorName? s.cursor).map fun (n, d) => (.anchor n, d)
    | some '!' => s.content? fun s => Scan.tag? s.inFlow s.cursor
    | some '\'' => s.quoted? false .singleQuoted
    | some '"' => s.quoted? true .doubleQuoted
    | some x =>
      if x == '-' && endsWord next then s.indicator? .blockSequence .blockEntry true
      else if x == '?' && (s.inFlow || endsWord next) then
        s.indicator? .blockMapping .key (!s.inFlow)
      else if x == ':' && (s.inFlow || endsWord next) then s.value?
      else if x == '|' && !s.inFlow then s.block? false .literal
      else if x == '>' && !s.inFlow then s.block? true .folded
      else if beginsPlain s.inFlow x next then s.plain?
      else none

/-- The tokens of the rest of the text. -/
def run? : Nat → Lexer → Option (List Token)
  | 0, _ => none
  | fuel + 1, s => do
    let s ← (s.toToken (s.cursor.rest.length + 1)).dropLate?
    let s := s.closeBlocks (s.cursor.column < ·)
    if s.cursor.rest.isEmpty then s.finish?
    else run? fuel (← s.token?)

end Lexer

/-- The tokens of a text, if it is made of tokens. -/
def tokens? (text : String) : Option (List Token) :=
  if text.toList.all isPermitted then
    let s := unifyBreaks text.toList
    Lexer.run? (s.length + 1) (.start s)
  else none

end SidecarAdmission.Yaml
