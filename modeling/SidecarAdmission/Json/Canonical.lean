import SidecarAdmission.Json.Literal
import SidecarAdmission.Number.Shortest

/-!
The canonical form of a free-form document: strings in their shortest spelling, the members of an
object sorted by key with the last of several equal keys kept, integers of 64 bits as they are, and
every other number as the shortest text of a binary floating point number. A document has no
canonical form if a string spells no text, a number is too large, or arrays and objects nest too
deep.
-/

set_option autoImplicit false
set_option relaxedAutoImplicit false

namespace SidecarAdmission.Json

open SidecarAdmission.Text SidecarAdmission.Number

/-- How many arrays and objects may stand inside each other, and one more. -/
def depthLimit : Nat := 128

/-- The members of an object with a member put in its place among the sorted keys, or in place of
the member with that key. -/
def insertSorted {α : Type} (key : String) (value : α) : List (String × α) → List (String × α)
  | [] => [(key, value)]
  | (k, v) :: rest =>
    if key = k then (key, value) :: rest
    else if key < k then (key, value) :: (k, v) :: rest
    else (k, v) :: insertSorted key value rest

/-- Members sorted by key, of several equal keys the last. -/
def sortMembers {α : Type} (members : List (String × α)) : List (String × α) :=
  members.foldl (fun sorted (k, v) => insertSorted k v sorted) []

namespace Numeral

/-- A number in parts: its sign, the digits before and after the point, and the exponent. -/
structure Parts where
  negative : Bool
  whole : List Nat
  fraction : List Nat
  exponent : Int
  isInteger : Bool
deriving Repr

/-- The digits that a spelling begins with, and the rest of it. -/
def spanDigits (spelling : Octets) : List Nat × Octets :=
  ((spelling.takeWhile isDigit).map fun c => c.toNat - 0x30, spelling.dropWhile isDigit)

/-- The exponent that a spelling ends with. -/
def exponentOf : Octets → Int
  | 0x2d :: ds => -(digitsValue ds : Int)
  | 0x2b :: ds => digitsValue ds
  | ds => digitsValue ds

/-- The parts of a number. -/
def parts (n : Numeral) : Parts :=
  let (negative, spelling) :=
    match n.spelling with
    | 0x2d :: rest => (true, rest)
    | rest => (false, rest)
  let (whole, rest) := spanDigits spelling
  let (fraction, afterFraction) :=
    match rest with
    | 0x2e :: rest => spanDigits rest
    | rest => ([], rest)
  let exponent :=
    match afterFraction with
    | _ :: ds => exponentOf ds
    | [] => 0
  ⟨negative, whole, fraction, exponent, rest.isEmpty⟩

/-- The greatest significand that is kept; further digits only shift the exponent. -/
def greatestSignificand : Nat := Nat.pow 2 64 - 1

/-- A significand extended by digits for as long as it stays in range, and the digits left over. -/
def extend (significand : Nat) : List Nat → Nat × List Nat
  | [] => (significand, [])
  | d :: rest =>
    if significand * 10 + d ≤ greatestSignificand then extend (significand * 10 + d) rest
    else (significand, d :: rest)

/-- A number times a power of ten, in steps of at most `10 ^ 308`. -/
def scale? (x : Binary64) (exponent : Int) : Nat → Option Binary64
  | 0 => some x
  | steps + 1 =>
    if exponent.natAbs ≤ 308 then do
      let power ← Binary64.ofDecimal? 1 exponent.natAbs
      if 0 ≤ exponent then x.mul? power else x.div? power
    else if x.mantissa = 0 then some x
    else if 0 ≤ exponent then none
    else do
      let power ← Binary64.ofDecimal? 1 308
      let x ← x.div? power
      scale? x (exponent + 308) steps

/-- The floating point number that a number in parts is read as, without its sign. -/
def Parts.magnitude? (p : Parts) : Option Binary64 := do
  let (significand, surplus) := extend 0 p.whole
  let (significand, dropped) := extend significand p.fraction
  let exponent := p.exponent + surplus.length - ((p.fraction.length : Int) - dropped.length)
  let x ← Binary64.ofRatio? significand 1
  scale? x exponent 8

/-- The canonical text of a number. -/
def canonicalText? (n : Numeral) : Option String :=
  let p := n.parts
  let value := p.whole.foldl (fun v d => v * 10 + d) 0
  let sign := if p.negative then "-" else ""
  if p.isInteger && !p.negative && value ≤ greatestSignificand then some (toString value)
  else if p.isInteger && p.negative && 0 < value && value ≤ Nat.pow 2 63 then
    some ("-" ++ toString value)
  else p.magnitude?.map fun x => sign ++ Shortest.text x

end Numeral

/-- The canonical form of a value without parts. -/
def Scalar.canonical? : Scalar → Option Scalar
  | .number n => n.canonicalText?.map fun s => .number ⟨octets s⟩
  | .string l => l.text?.map fun s => .string (.ofText s)
  | s => some s

mutual

/-- The canonical form of a document of which `depth` more levels may be entered. -/
def canonical? (depth : Nat) : Json → Option Json
  | .scalar s => s.canonical?.map .scalar
  | .array items =>
    match depth with
    | 0 => none
    | depth + 1 => if depth = 0 then none else (canonicalItems? depth items).map .array
  | .object members =>
    match depth with
    | 0 => none
    | depth + 1 =>
      if depth = 0 then none
      else (canonicalMembers? depth members).map fun ms => ofMembers (sortMembers ms)

/-- The canonical forms of documents. -/
def canonicalItems? (depth : Nat) : List Json → Option (List Json)
  | [] => some []
  | v :: rest =>
    match canonical? depth v with
    | some v => (canonicalItems? depth rest).map (v :: ·)
    | none => none

/-- The texts of the keys of members and the canonical forms of their values. -/
def canonicalMembers? (depth : Nat) : List (Literal × Json) → Option (List (String × Json))
  | [] => some []
  | (k, v) :: rest =>
    match k.text?, canonical? depth v with
    | some k, some v => (canonicalMembers? depth rest).map ((k, v) :: ·)
    | _, _ => none

end

end SidecarAdmission.Json
