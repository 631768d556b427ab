import SidecarAdmission.Number.Binary64
import SidecarAdmission.Yaml.Node

/-!
The meaning of scalars. Null, truth values and numbers are known by their spelling where a plain
scalar has no tag; a number with needless leading zeros is a text.
-/

set_option autoImplicit false
set_option relaxedAutoImplicit false

namespace SidecarAdmission.Yaml

open SidecarAdmission.Number

namespace Tag

/-- A tag of the core schema. -/
def core (name : String) : Tag := Scan.ascii ("tag:yaml.org,2002:" ++ name).toList

/-- Whether a tag is of no schema. -/
def isLocal (t : Tag) : Bool := t.head? == some 0x21

end Tag

namespace Meaning

/-- Whether a text spells null. -/
def isNull (s : String) : Bool := s == "~" || s == "null" || s == "Null" || s == "NULL"

/-- The truth value that a text spells. -/
def bool? (s : String) : Option Bool :=
  if s == "true" || s == "True" || s == "TRUE" then some true
  else if s == "false" || s == "False" || s == "FALSE" then some false
  else none

/-- The value of a digit. -/
def digitValue? (c : Char) : Option Nat :=
  if '0' ≤ c ∧ c ≤ '9' then some (c.toNat - '0'.toNat)
  else if 'a' ≤ c ∧ c ≤ 'f' then some (c.toNat - 'a'.toNat + 10)
  else if 'A' ≤ c ∧ c ≤ 'F' then some (c.toNat - 'A'.toNat + 10)
  else none

/-- The number that digits of a base spell, of which there is at least one. -/
def digits? (base : Nat) (ds : List Char) : Option Nat :=
  if ds.isEmpty then none
  else
    ds.foldlM
      (fun n d => (digitValue? d).bind fun v => if v < base then some (n * base + v) else none) 0

/-- Whether digits begin with a needless zero. -/
def isPadded (ds : List Char) : Bool := ds.head? == some '0' && 1 < ds.length && ds.all Char.isDigit

/-- The number that a text without a sign spells. -/
def magnitude? : List Char → Option Nat
  | '0' :: 'x' :: ds => digits? 16 ds
  | '0' :: 'o' :: ds => digits? 8 ds
  | '0' :: 'b' :: ds => digits? 2 ds
  | ds => if isPadded ds then none else digits? 10 ds

/-- The integer that a text spells. -/
def integer? (s : String) : Option Int :=
  match s.toList with
  | '+' :: ds => (magnitude? ds).map fun n => (n : Int)
  | '-' :: ds => (magnitude? ds).map fun n => -(n : Int)
  | ds => (magnitude? ds).map fun n => (n : Int)

/-- Whether a text spells digits with needless zeros, with or without a sign. -/
def isPaddedText (s : String) : Bool :=
  match s.toList with
  | '+' :: ds => isPadded ds
  | '-' :: ds => isPadded ds
  | ds => isPadded ds

/-- A floating point number; neither infinity nor what is not a number has a text. -/
inductive Float where
  | finite (negative : Bool) (magnitude : Binary64)
  | unwritable
deriving DecidableEq, Repr, Inhabited

/-- The exponent that a text ends with, none if it ends otherwise. -/
def exponent? : List Char → Option Int
  | [] => some 0
  | c :: ds =>
    if c = 'e' ∨ c = 'E' then
      match ds with
      | '-' :: ds => if ds.all Char.isDigit then (digits? 10 ds).map fun n => -(n : Int) else none
      | '+' :: ds => if ds.all Char.isDigit then (digits? 10 ds).map fun n => (n : Int) else none
      | ds => if ds.all Char.isDigit then (digits? 10 ds).map fun n => (n : Int) else none
    else none

/-- The number nearest to a decimal fraction, whose size is first told by its digits alone. -/
def nearest? (digits : List Char) (exponent : Int) : Option Binary64 := do
  let n ← digits? 10 digits
  let length : Int := (Nat.toDigits 10 n).length
  if n = 0 ∨ exponent + length < -400 then some ⟨0, Binary64.leastExponent⟩
  else if 400 < exponent + length then none
  else Binary64.ofDecimal? n exponent

/-- The number that a decimal text without a sign spells. -/
def decimal? (s : List Char) : Option Binary64 := do
  let whole := s.takeWhile Char.isDigit
  let rest := s.dropWhile Char.isDigit
  let (fraction, rest) :=
    match rest with
    | '.' :: rest => (rest.takeWhile Char.isDigit, rest.dropWhile Char.isDigit)
    | rest => ([], rest)
  let exponent ← exponent? rest
  nearest? (whole ++ fraction) (exponent - fraction.length)

/-- Whether a text spells infinity. -/
def isInfinity (s : List Char) : Bool :=
  s == ".inf".toList || s == ".Inf".toList || s == ".INF".toList

/-- Whether a text spells what is not a number. -/
def isNotNumber (s : List Char) : Bool :=
  s == ".nan".toList || s == ".NaN".toList || s == ".NAN".toList

/-- The floating point number that a text spells. -/
def float? (s : String) : Option Float :=
  match s.toList with
  | '+' :: s => if isInfinity s then some .unwritable else (decimal? s).map (.finite false)
  | '-' :: s => if isInfinity s then some .unwritable else (decimal? s).map (.finite true)
  | s =>
    if isInfinity s || isNotNumber s then some .unwritable else (decimal? s).map (.finite false)

/-- What a scalar means. -/
inductive Reading where
  | null
  | bool (value : Bool)
  | integer (value : Int)
  | float (value : Float)
  | text (value : String)
deriving DecidableEq, Repr, Inhabited

/-- Whether an integer is of 64 bits, with a sign or without. -/
def isOf64Bits (n : Int) : Bool := -Int.ofNat (Nat.pow 2 63) ≤ n && n < Int.ofNat (Nat.pow 2 64)

/-- Whether an integer is of 128 bits, with a sign or without. -/
def isOf128Bits (n : Int) : Bool := -Int.ofNat (Nat.pow 2 127) ≤ n && n < Int.ofNat (Nat.pow 2 128)

/-- The integer that a text spells: none inside if it spells none of 128 bits, none at all if it is
one that takes more than 64. -/
def bounded? (s : String) : Option (Option Int) :=
  match integer? s with
  | none => some none
  | some n => if isOf64Bits n then some (some n) else if isOf128Bits n then none else some none

/-- The reading of a plain text without a tag. -/
def ofPlain? (s : String) : Option Reading :=
  if s.isEmpty || isNull s then some .null
  else
    match bool? s with
    | some b => some (.bool b)
    | none => do
      match ← bounded? s with
      | some n => some (.integer n)
      | none => some (((if isPaddedText s then none else float? s).map .float).getD (.text s))

/-- The reading of a scalar, if it has one. -/
def ofScalar? (s : Scalar) : Option Reading :=
  match s.tag with
  | none => if s.style = .plain then ofPlain? s.text else some (.text s.text)
  | some t =>
    if t.isLocal then none
    else if t = Tag.core "bool" then (bool? s.text).map .bool
    else if t = Tag.core "int" then
      match bounded? s.text with
      | some (some n) => some (.integer n)
      | _ => none
    else if t = Tag.core "float" then (float? s.text).map .float
    else if t = Tag.core "null" then if isNull s.text then some .null else none
    else some (.text s.text)

/-- Whether a scalar is plain and empty, which stands for whatever is empty. -/
def isBlank (s : Scalar) : Bool := s.style == .plain && s.text.isEmpty

/-- Whether a scalar leaves out an optional value; none if it claims to be null and is not. -/
def leavesOut? (s : Scalar) : Option Bool :=
  if s.style ≠ .plain then some false
  else
    match s.tag with
    | none => some (s.text.isEmpty || isNull s.text)
    | some t =>
      if t = Tag.core "null" then if isNull s.text then some true else none else some false

/-- Whether a scalar may be read as a value that is known by a tag. -/
def mayBe (name : String) (s : Scalar) : Bool :=
  s.style == .plain || (s.style == .literal && s.tag == some (Tag.core name))

end Meaning

end SidecarAdmission.Yaml
