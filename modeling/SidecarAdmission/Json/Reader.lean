import SidecarAdmission.Json.Token

/-!
Reading JSON. The tokens of a text are put together by a machine with an explicit stack of open
arrays and objects, so no nesting of the text is too deep to be read. A source is a text cut into
lexemes whose tokens form a document; the sources of its parts can be taken from it, each with its
exact spelling.
-/

set_option autoImplicit false
set_option relaxedAutoImplicit false

namespace SidecarAdmission.Json

open SidecarAdmission.Text

namespace Builder

/-- An array or object that is still open, its parts reversed; a member waits for its value. -/
inductive Frame where
  | array (items : List Json)
  | object (members : List (Literal × Json))
  | member (members : List (Literal × Json)) (key : Literal)

/-- What may come next. -/
inductive Expect where
  | value
  | itemOrEnd
  | keyOrEnd
  | key
  | colon
  | commaOrEnd
  | nothing (document : Json)

/-- The open frames, innermost first, and what may come next. -/
structure State where
  frames : List Frame
  expect : Expect

/-- The state in which a document may begin. -/
def State.initial : State := ⟨[], .value⟩

/-- The state after a complete value. -/
def complete (v : Json) : List Frame → Option State
  | [] => some ⟨[], .nothing v⟩
  | .array items :: frames => some ⟨.array (v :: items) :: frames, .commaOrEnd⟩
  | .member members key :: frames => some ⟨.object ((key, v) :: members) :: frames, .commaOrEnd⟩
  | .object _ :: _ => none

/-- The state after a token that begins a value. -/
def begin? (frames : List Frame) : Token → Option State
  | .scalar s => complete (.scalar s) frames
  | .beginArray => some ⟨.array [] :: frames, .itemOrEnd⟩
  | .beginObject => some ⟨.object [] :: frames, .keyOrEnd⟩
  | _ => none

/-- The state after a token that closes the innermost frame. -/
def end? : List Frame → Token → Option State
  | .array items :: frames, .endArray => complete (.array items.reverse) frames
  | .object members :: frames, .endObject => complete (.object members.reverse) frames
  | _, _ => none

/-- The state after a token that is the key of a member. -/
def key? : List Frame → Token → Option State
  | .object members :: frames, .scalar (.string key) => some ⟨.member members key :: frames, .colon⟩
  | _, _ => none

/-- The state after one more token. -/
def step? (s : State) (t : Token) : Option State :=
  match s.expect with
  | .value => begin? s.frames t
  | .itemOrEnd => if t = .endArray then end? s.frames t else begin? s.frames t
  | .keyOrEnd => if t = .endObject then end? s.frames t else key? s.frames t
  | .key => key? s.frames t
  | .colon => if t = .colon then some ⟨s.frames, .value⟩ else none
  | .commaOrEnd =>
    if t = .comma then
      match s.frames with
      | .array _ :: _ => some ⟨s.frames, .value⟩
      | .object _ :: _ => some ⟨s.frames, .key⟩
      | _ => none
    else end? s.frames t
  | .nothing _ => none

/-- The document that the rest of the tokens completes. -/
def run? (s : State) : List Token → Option Json
  | [] =>
    match s.expect with
    | .nothing v => some v
    | _ => none
  | t :: rest =>
    match step? s t with
    | some s => run? s rest
    | none => none

end Builder

/-- The document that the tokens form, if they form one. -/
def ofTokens? (tokens : List Token) : Option Json := Builder.run? .initial tokens

/-- The document that a text spells, if it spells one. -/
def parse? (text : Octets) : Option Json :=
  (lexemes? text).bind fun ls => ofTokens? (ls.map (·.token))

/-- A document in its own spelling. -/
structure Source where
  lexemes : List Lexeme
deriving DecidableEq, Repr, Inhabited

namespace Source

/-- The document that a source spells. -/
def value? (s : Source) : Option Json := ofTokens? (s.lexemes.map (·.token))

/-- The source that a text is, if it spells a document. -/
def ofText? (text : Octets) : Option Source := do
  let ls ← lexemes? text
  let _ ← ofTokens? (ls.map (·.token))
  some ⟨ls⟩

/-- The spelling of a source, without white space around it. -/
def spelling (s : Source) : Octets :=
  match s.lexemes with
  | [] => []
  | l :: ls => l.token.spell ++ ls.flatMap Lexeme.spell

/-- The lexemes up to the end of the array or object that they stand in, cut at its commas. The
depth counts the arrays and objects opened on the way; a piece and the pieces stand reversed. -/
def cut (depth : Nat) (piece : List Lexeme) (done : List (List Lexeme)) :
    List Lexeme → List (List Lexeme)
  | [] => done.reverse
  | l :: rest =>
    match l.token, depth with
    | .beginObject, _ | .beginArray, _ => cut (depth + 1) (l :: piece) done rest
    | .endObject, 0 | .endArray, 0 =>
      (if piece.isEmpty then done else piece.reverse :: done).reverse
    | .endObject, depth + 1 | .endArray, depth + 1 => cut depth (l :: piece) done rest
    | .comma, 0 => cut 0 [] (piece.reverse :: done) rest
    | _, _ => cut depth (l :: piece) done rest

/-- The key and the source of a member, of its lexemes. -/
def member? : List Lexeme → Option (Literal × Source)
  | ⟨_, .scalar (.string key)⟩ :: ⟨_, .colon⟩ :: rest => some (key, ⟨rest⟩)
  | _ => none

/-- The sources of the items of an array. -/
def items? (s : Source) : Option (List Source) :=
  match s.lexemes with
  | ⟨_, .beginArray⟩ :: rest => some ((cut 0 [] [] rest).map Source.mk)
  | _ => none

/-- The keys and sources of the members of an object. -/
def members? (s : Source) : Option (List (Literal × Source)) :=
  match s.lexemes with
  | ⟨_, .beginObject⟩ :: rest => (cut 0 [] [] rest).mapM member?
  | _ => none

/-- Whether a source spells null. -/
def isNull (s : Source) : Bool :=
  match s.lexemes with
  | [⟨_, .scalar .null⟩] => true
  | _ => false

end Source

end SidecarAdmission.Json
