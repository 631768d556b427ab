/-!
Paths of files. A path is a text; what matters in it are its components, so that doubled slashes, a
slash at the end and points for the current directory, unless one stands first, tell nothing.
-/

set_option autoImplicit false
set_option relaxedAutoImplicit false

namespace SidecarAdmission.Storage

/-- A part of a path; their order is that of the constructors, and names are ordered as texts. -/
inductive Component where
  | root
  | current
  | parent
  | name (text : String)
deriving DecidableEq, Repr, Inhabited

namespace Component

/-- The place of a component among those of other kinds. -/
def rank : Component → Nat
  | .root => 0
  | .current => 1
  | .parent => 2
  | .name _ => 3

/-- The text of a name. -/
def text : Component → String
  | .name text => text
  | _ => ""

/-- Whether a component comes before another. -/
def isBefore (a b : Component) : Bool := a.rank < b.rank || (a.rank == b.rank && a.text < b.text)

end Component

namespace Path

/-- The parts of a text between slashes. -/
def pieces : List Char → List (List Char)
  | [] => [[]]
  | c :: rest =>
    if c = '/' then [] :: pieces rest
    else
      match pieces rest with
      | [] => [[c]]
      | p :: more => (c :: p) :: more

/-- The component that a part between slashes is, if it is one. -/
def component? (piece : List Char) : Option Component :=
  if piece = [] ∨ piece = ['.'] then none
  else if piece = ['.', '.'] then some .parent
  else some (.name (String.ofList piece))

/-- What a path begins with before its body: a slash, a point, or nothing. -/
def front : List Char → List Char
  | '/' :: _ => ['/']
  | ['.'] => ['.']
  | '.' :: '/' :: _ => ['.']
  | _ => []

/-- The components of a path. -/
def components (path : String) : List Component :=
  let s := path.toList
  let head : List Component :=
    if front s = ['/'] then [.root] else if front s = ['.'] then [.current] else []
  head ++ (pieces s).filterMap component?

/-- Whether a list of components comes before another. -/
def isBefore : List Component → List Component → Bool
  | _, [] => false
  | [], _ :: _ => true
  | a :: as, b :: bs => a.isBefore b || (a == b && isBefore as bs)

/-- A body without the parts at its end that are no components; the body is reversed. -/
def trimReversed : Nat → List Char → List Char
  | 0, s => s
  | fuel + 1, s =>
    let piece := s.takeWhile (· != '/')
    if s.isEmpty || (component? piece.reverse).isSome then s
    else trimReversed fuel (s.drop (piece.length + 1))

/-- The path of the directory that holds a file, none if there is no such directory. -/
def parent? (path : String) : Option String :=
  let s := path.toList
  let head := front s
  let body := (s.drop head.length).reverse
  let trimmed := trimReversed body.length body
  if trimmed.isEmpty then if head = ['.'] then some "" else none
  else
    let above := (trimmed.dropWhile (· != '/')).drop 1
    some (String.ofList (head ++ (trimReversed above.length above).reverse))

/-- The directory in which changes of a file show. -/
def directory (path : String) : String :=
  match parent? path with
  | none | some "" => "."
  | some d => d

/-- Paths in order, with a path put in its place; an equal one that is there gives way to it. -/
def insert (path : String) : List String → List String
  | [] => [path]
  | p :: rest =>
    if components path = components p then path :: rest
    else if isBefore (components path) (components p) then path :: p :: rest
    else p :: insert path rest

/-- The directories of files, in order and each once, as the last of its files spells it. -/
def directories (files : List String) : List String :=
  files.foldl (fun ds file => insert (directory file) ds) []

end Path

end SidecarAdmission.Storage
