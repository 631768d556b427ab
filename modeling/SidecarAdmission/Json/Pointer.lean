import SidecarAdmission.Json.Basic

/-!
Pointers into JSON documents, as in RFC 6901: member names and array positions behind slashes, with
a tilde written `~0` and a slash written `~1`.
-/

set_option autoImplicit false
set_option relaxedAutoImplicit false

namespace SidecarAdmission.Json.Pointer

/-- How a character of a name is written in a pointer. -/
def escapeChar (c : Char) : List Char :=
  if c = '~' then ['~', '0'] else if c = '/' then ['~', '1'] else [c]

/-- How a name is written in a pointer. -/
def escape (name : String) : String := String.ofList (name.toList.flatMap escapeChar)

/-- The name that was written; no other character than `0` or `1` may follow a tilde. -/
def unescape? : List Char → Option (List Char)
  | [] => some []
  | '~' :: '0' :: rest => (unescape? rest).map ('~' :: ·)
  | '~' :: '1' :: rest => (unescape? rest).map ('/' :: ·)
  | c :: rest => if c = '~' then none else (unescape? rest).map (c :: ·)

/-- The pointer through the given names. -/
def ofNames (names : List String) : String :=
  String.join (names.map fun n => "/" ++ escape n)

/-- The parts of a text between its slashes. -/
def splitSlash : List Char → List (List Char)
  | [] => [[]]
  | '/' :: rest => [] :: splitSlash rest
  | c :: rest =>
    match splitSlash rest with
    | [] => [[c]]
    | part :: parts => (c :: part) :: parts

/-- The names that a pointer leads through. -/
def names? (pointer : String) : Option (List String) :=
  match pointer.toList with
  | [] => some []
  | '/' :: rest => (splitSlash rest).mapM fun part => (unescape? part).map String.ofList
  | _ => none

end SidecarAdmission.Json.Pointer
