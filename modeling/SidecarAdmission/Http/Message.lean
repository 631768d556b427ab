import SidecarAdmission.Text.Ascii
import SidecarAdmission.Text.Octets

/-!
Requests and replies of the hypertext protocol, as far as they matter to a webhook: methods,
targets, headers and bodies.
-/

set_option autoImplicit false
set_option relaxedAutoImplicit false

namespace SidecarAdmission.Http

open SidecarAdmission.Text

/-- A request. -/
structure Request where
  method : String
  target : String
  headers : List (String × Octets)
  body : Octets
deriving DecidableEq, Repr, Inhabited

/-- The outcomes of a request that are told by a status. -/
inductive Status where
  | ok
  | badRequest
  | notFound
  | methodNotAllowed
  | payloadTooLarge
  | unsupportedMediaType
deriving DecidableEq, Repr, Inhabited

/-- The number of a status. -/
def Status.code : Status → Nat
  | .ok => 200
  | .badRequest => 400
  | .notFound => 404
  | .methodNotAllowed => 405
  | .payloadTooLarge => 413
  | .unsupportedMediaType => 415

/-- A reply, with the headers that it may have. -/
structure Reply where
  status : Status
  contentType : Option String
  allow : Option String
  body : Octets
deriving DecidableEq, Repr, Inhabited

/-- A reply that is no more than its status. -/
def Reply.ofStatus (status : Status) : Reply := ⟨status, none, none, []⟩

/-- A reply in plain text. -/
def Reply.plain (status : Status) (text : String) : Reply :=
  ⟨status, some "text/plain; charset=utf-8", none, octets text⟩

namespace Request

/-- The first value of a header, whose name is given in small letters. -/
def header? (r : Request) (name : String) : Option Octets :=
  (r.headers.find? fun h => Ascii.lower h.1 == name).map (·.2)

/-- What follows the authority of an absolute target. -/
def afterAuthority : List Char → List Char
  | [] => ['/']
  | '/' :: rest => '/' :: rest
  | '?' :: rest => '/' :: '?' :: rest
  | '#' :: rest => '/' :: '#' :: rest
  | _ :: rest => afterAuthority rest

/-- What follows the scheme and the authority of a target, if it has them. -/
def afterScheme : List Char → Option (List Char)
  | ':' :: '/' :: '/' :: rest => some (afterAuthority rest)
  | [] => none
  | '/' :: _ => none
  | _ :: rest => afterScheme rest

/-- The path of the target: the part before a query or a fragment. -/
def path (r : Request) : String :=
  let target := r.target.toList
  String.ofList (((afterScheme target).getD target).takeWhile fun c => c != '?' && c != '#')

/-- The number that a header value of digits tells, with or without a plus sign, if it is of 64
bits. -/
def ofDigits? (value : Octets) : Option Nat :=
  let ds :=
    match value with
    | 0x2b :: ds => ds
    | ds => ds
  if ds.isEmpty || !ds.all (fun c => 0x30 ≤ c && c ≤ 0x39) then none
  else
    let n := ds.foldl (fun n c => n * 10 + (c.toNat - 0x30)) 0
    if n < Nat.pow 2 64 then some n else none

/-- The length of the body that the request declares. -/
def contentLength? (r : Request) : Option Nat := (r.header? "content-length").bind ofDigits?

end Request

end SidecarAdmission.Http
