import SidecarAdmission.Storage.Failure
import SidecarAdmission.Storage.Path
import SidecarAdmission.Text.Octets

/-!
The files of a machine as far as they matter, seen from a working directory. Every file lies in a
directory of the store, and what the store does not hold does not exist.
-/

set_option autoImplicit false
set_option relaxedAutoImplicit false

namespace SidecarAdmission.Storage

open SidecarAdmission.Text

/-- What lies at a place. -/
inductive Entry where
  | file (content : Octets)
  | directory
deriving DecidableEq, Repr, Inhabited

/-- A place: the names that lead to it from the root of all files. -/
abbrev Place := List String

/-- Files and directories by place, and the directory from which relative paths start. -/
structure FileStore where
  home : Place
  entries : List (Place × Entry)
deriving DecidableEq, Repr, Inhabited

namespace FileStore

/-- The store without files, seen from a directory. -/
def empty (home : Place) : FileStore := ⟨home, []⟩

/-- What lies at a place; the working directory and those above it are always there. -/
def at? (s : FileStore) (place : Place) : Option Entry :=
  if place.isPrefixOf s.home then some .directory else s.entries.lookup place

/-- A store with something put at a place. -/
def set (s : FileStore) (place : Place) (e : Entry) : FileStore :=
  { s with entries := s.entries.filter (·.1 != place) ++ [(place, e)] }

/-- The names in a path. -/
def names (path : String) : List String :=
  ((Path.pieces path.toList).filter fun p => !p.isEmpty).map String.ofList

/-- Whether a path starts at the root of all files. -/
def isAbsolute (path : String) : Bool := path.toList.head? == some '/'

/-- The place from which a path starts. -/
def origin (s : FileStore) (path : String) : Place := if isAbsolute path then [] else s.home

/-- Whether a path ends with a slash, which only a directory may. -/
def namesDirectory (path : String) : Bool := path.toList.getLast? == some '/'

/-- The greatest length of a name, in octets. -/
def nameLimit : Nat := 255

/-- The greatest length of a path, in octets. -/
def pathLimit : Nat := 4095

/-- The place to which a path leads, if something lies there. -/
def walk (s : FileStore) (place : Place) : List String → Except Failure Place
  | [] => .ok place
  | n :: rest =>
    match s.at? place with
    | none => .error .missing
    | some (.file _) => .error .notDirectory
    | some .directory =>
      if n = "." then walk s place rest
      else if n = ".." then walk s place.dropLast rest
      else if nameLimit < (octets n).length then .error .nameTooLong
      else if (s.at? (place ++ [n])).isSome then walk s (place ++ [n]) rest
      else .error .missing

/-- Nothing, or the reason why a path leads nowhere whatever the files are. -/
def check (path : String) : Except Failure Unit :=
  if path.toList.contains '\x00' then .error .nulInName
  else if path.isEmpty then .error .missing
  else if pathLimit < (octets path).length then .error .nameTooLong
  else .ok ()

/-- The place to which a path leads. -/
def locate (s : FileStore) (path : String) : Except Failure Place := do
  check path
  let place ← s.walk (s.origin path) (names path)
  match s.at? place with
  | some (.file _) => if namesDirectory path then .error .notDirectory else .ok place
  | _ => .ok place

/-- Whether something lies at a path. -/
def exists? (s : FileStore) (path : String) : Bool :=
  match s.locate path with
  | .ok _ => true
  | .error _ => false

/-- The content of a file. -/
def read (s : FileStore) (path : String) : Except Failure Octets := do
  let place ← s.locate path
  match s.at? place with
  | some (.file content) => .ok content
  | _ => .error .isDirectory

/-- The text in a file. -/
def readText (s : FileStore) (path : String) : Except Failure String := do
  let content ← s.read path
  match ofOctets? content with
  | some text => .ok text
  | none => .error .notText

/-- A store with a file written whole, in a directory that is there. -/
def write (s : FileStore) (path : String) (content : Octets) : Except Failure FileStore := do
  check path
  match (names path).getLast? with
  | none => .error .isDirectory
  | some n =>
    if n = "." ∨ n = ".." then
      let _ ← s.walk (s.origin path) (names path)
      .error .isDirectory
    else
      let above ← s.walk (s.origin path) (names path).dropLast
      match s.at? above, s.at? (above ++ [n]) with
      | some (.file _), _ => .error .notDirectory
      | _, some .directory => .error .isDirectory
      | _, some (.file _) =>
        if namesDirectory path then .error .notDirectory
        else .ok (s.set (above ++ [n]) (.file content))
      | _, none =>
        if nameLimit < (octets n).length then .error .nameTooLong
        else if namesDirectory path then .error .isDirectory
        else .ok (s.set (above ++ [n]) (.file content))

/-- The place that a path names, whether something lies there or not. -/
def placeOf (s : FileStore) (path : String) : Place :=
  (names path).foldl
    (fun place n => if n = "." then place else if n = ".." then place.dropLast else place ++ [n])
    (s.origin path)

/-- A store with a directory at a place and at every place above it. -/
def makeDirectories (s : FileStore) (place : Place) : FileStore :=
  (List.range place.length).foldl
    (fun s n =>
      if (s.at? (place.take (n + 1))).isSome then s else s.set (place.take (n + 1)) .directory) s

/-- A store with something put at a path, in directories that are made for it. -/
def put (s : FileStore) (path : String) (e : Entry) : FileStore :=
  let place := s.placeOf path
  match e with
  | .directory => s.makeDirectories place
  | .file _ => (s.makeDirectories place.dropLast).set place e

/-- A store without what lies at a path and below it. -/
def remove (s : FileStore) (path : String) : FileStore :=
  { s with entries := s.entries.filter fun e => !((s.placeOf path).isPrefixOf e.1) }

/-- A store with what lies at a path and below it moved to another path. -/
def rename (s : FileStore) (source target : String) : FileStore :=
  let before := s.placeOf source
  let after := s.placeOf target
  if (s.at? before).isNone then s
  else
    let moved := (s.entries.filter fun e => before.isPrefixOf e.1).map fun e =>
      (after ++ e.1.drop before.length, e.2)
    let kept := s.entries.filter fun e => !before.isPrefixOf e.1 && !after.isPrefixOf e.1
    { s with entries := kept ++ moved }

end FileStore

end SidecarAdmission.Storage
