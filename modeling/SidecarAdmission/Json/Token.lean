import SidecarAdmission.Json.Literal

/-!
The tokens of a JSON text. A text is cut octet by octet into lexemes, each a token with the white
space before it, so that the lexemes of a text spell the text again up to white space at its end.
Strings are cut by their escapes and numbers by the grammar; neither is given a meaning here.
-/

set_option autoImplicit false
set_option relaxedAutoImplicit false

namespace SidecarAdmission.Json

open SidecarAdmission.Text

/-- A mark or a value without parts. -/
inductive Token where
  | beginObject
  | endObject
  | beginArray
  | endArray
  | colon
  | comma
  | scalar (value : Scalar)
deriving DecidableEq, Repr, Inhabited

/-- A token and the white space before it. -/
structure Lexeme where
  blank : Octets
  token : Token
deriving DecidableEq, Repr, Inhabited

/-- How a value without parts is written. -/
def Scalar.spell : Scalar → Octets
  | .null => [0x6e, 0x75, 0x6c, 0x6c]
  | .bool true => [0x74, 0x72, 0x75, 0x65]
  | .bool false => [0x66, 0x61, 0x6c, 0x73, 0x65]
  | .number n => n.spelling
  | .string l => 0x22 :: (l.body ++ [0x22])

/-- How a token is written. -/
def Token.spell : Token → Octets
  | .beginObject => [0x7b]
  | .endObject => [0x7d]
  | .beginArray => [0x5b]
  | .endArray => [0x5d]
  | .colon => [0x3a]
  | .comma => [0x2c]
  | .scalar s => s.spell

/-- How a lexeme is written. -/
def Lexeme.spell (l : Lexeme) : Octets := l.blank ++ l.token.spell

namespace Lexer

/-- Where in a string the reader stands: before a plain octet, after a backslash, or before the
given number of hexadecimal digits and one more. -/
inductive StringPhase where
  | plain
  | escape
  | digits (more : Nat)
deriving DecidableEq, Repr

/-- Where in a number the reader stands, named for what it has read last. -/
inductive NumberPhase where
  | sign
  | zero
  | whole
  | point
  | fraction
  | mark
  | markSign
  | exponent
deriving DecidableEq, Repr

/-- What the reader is in the midst of; octets that it keeps stand reversed. -/
inductive Mode where
  | blank (seen : Octets)
  | word (blank : Octets) (value : Scalar) (rest : Octets)
  | string (blank body : Octets) (phase : StringPhase)
  | number (blank spelling : Octets) (phase : NumberPhase)
deriving Repr

/-- Whether an octet is white space between tokens. -/
def isBlank (c : UInt8) : Bool := c == 0x20 || c == 0x0a || c == 0x09 || c == 0x0d

/-- The phase after an octet of a string that does not end it. -/
def StringPhase.next? (c : UInt8) : StringPhase → Option StringPhase
  | .plain => if c = 0x5c then some .escape else if c < 0x20 then none else some .plain
  | .escape =>
    if c = 0x75 then some (.digits 3)
    else if (Literal.shortEscape? c).isSome then some .plain else none
  | .digits more =>
    if (hexValue? c).isSome then
      match more with
      | 0 => some .plain
      | more + 1 => some (.digits more)
    else none

/-- The phase after an octet that continues a number. -/
def NumberPhase.next? (c : UInt8) : NumberPhase → Option NumberPhase
  | .sign => if c = 0x30 then some .zero else if Numeral.isDigit c then some .whole else none
  | .zero => if c = 0x2e then some .point else if c = 0x65 ∨ c = 0x45 then some .mark else none
  | .whole =>
    if Numeral.isDigit c then some .whole
    else if c = 0x2e then some .point else if c = 0x65 ∨ c = 0x45 then some .mark else none
  | .point => if Numeral.isDigit c then some .fraction else none
  | .fraction =>
    if Numeral.isDigit c then some .fraction
    else if c = 0x65 ∨ c = 0x45 then some .mark else none
  | .mark =>
    if c = 0x2b ∨ c = 0x2d then some .markSign
    else if Numeral.isDigit c then some .exponent else none
  | .markSign => if Numeral.isDigit c then some .exponent else none
  | .exponent => if Numeral.isDigit c then some .exponent else none

/-- Whether a number may end here. -/
def NumberPhase.isFinal : NumberPhase → Bool
  | .zero | .whole | .fraction | .exponent => true
  | .sign | .point | .mark | .markSign => false

/-- The mode after the first octet of a token, and the token if the octet is all of it. -/
def start? (blank : Octets) (c : UInt8) : Option (Mode × List Lexeme) :=
  let mark (t : Token) : Option (Mode × List Lexeme) := some (.blank [], [⟨blank.reverse, t⟩])
  if isBlank c then some (.blank (c :: blank), [])
  else if c = 0x7b then mark .beginObject
  else if c = 0x7d then mark .endObject
  else if c = 0x5b then mark .beginArray
  else if c = 0x5d then mark .endArray
  else if c = 0x3a then mark .colon
  else if c = 0x2c then mark .comma
  else if c = 0x22 then some (.string blank [] .plain, [])
  else if c = 0x6e then some (.word blank .null [0x75, 0x6c, 0x6c], [])
  else if c = 0x74 then some (.word blank (.bool true) [0x72, 0x75, 0x65], [])
  else if c = 0x66 then some (.word blank (.bool false) [0x61, 0x6c, 0x73, 0x65], [])
  else if c = 0x2d then some (.number blank [c] .sign, [])
  else if c = 0x30 then some (.number blank [c] .zero, [])
  else if Numeral.isDigit c then some (.number blank [c] .whole, [])
  else none

/-- One octet: the next mode and the lexemes that the octet completes, the last of them first. -/
def step? (mode : Mode) (c : UInt8) : Option (Mode × List Lexeme) :=
  match mode with
  | .blank seen => start? seen c
  | .word blank value rest =>
    match rest with
    | [] => none
    | [o] => if c = o then some (.blank [], [⟨blank.reverse, .scalar value⟩]) else none
    | o :: more => if c = o then some (.word blank value more, []) else none
  | .string blank body phase =>
    if phase = .plain ∧ c = 0x22 then
      some (.blank [], [⟨blank.reverse, .scalar (.string ⟨body.reverse⟩)⟩])
    else
      match phase.next? c with
      | some phase => some (.string blank (c :: body) phase, [])
      | none => none
  | .number blank spelling phase =>
    match phase.next? c with
    | some phase => some (.number blank (c :: spelling) phase, [])
    | none =>
      if phase.isFinal then
        match start? [] c with
        | some (mode, out) =>
          some (mode, out ++ [⟨blank.reverse, .scalar (.number ⟨spelling.reverse⟩)⟩])
        | none => none
      else none

/-- The lexemes that the end of the text completes. -/
def finish? : Mode → Option (List Lexeme)
  | .blank _ => some []
  | .number blank spelling phase =>
    if phase.isFinal then some [⟨blank.reverse, .scalar (.number ⟨spelling.reverse⟩)⟩] else none
  | .word _ _ _ => none
  | .string _ _ _ => none

/-- The lexemes of the rest of a text, read onto those already read, which stand reversed. -/
def runOnto (mode : Mode) (done : List Lexeme) : Octets → Option (List Lexeme)
  | [] => (finish? mode).map fun out => (out ++ done).reverse
  | c :: rest =>
    match step? mode c with
    | some (mode, out) => runOnto mode (out ++ done) rest
    | none => none

end Lexer

/-- The lexemes of a text, if it can be cut into tokens. -/
def lexemes? (text : Octets) : Option (List Lexeme) := Lexer.runOnto (.blank []) [] text

end SidecarAdmission.Json
