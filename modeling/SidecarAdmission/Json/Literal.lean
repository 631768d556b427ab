import SidecarAdmission.Json.Basic

/-!
The spelling of texts and integers. A text is written with the short escapes where there is one and
with `\u00xx` for the other control characters; every escape of the grammar is understood, and a
surrogate only as half of a pair.
-/

set_option autoImplicit false
set_option relaxedAutoImplicit false

namespace SidecarAdmission.Json

open SidecarAdmission.Text

namespace Literal

/-- How an octet of a text is written between quotes. -/
def escape (c : UInt8) : Octets :=
  if c = 0x22 then [0x5c, 0x22]
  else if c = 0x5c then [0x5c, 0x5c]
  else if c = 0x08 then [0x5c, 0x62]
  else if c = 0x0c then [0x5c, 0x66]
  else if c = 0x0a then [0x5c, 0x6e]
  else if c = 0x0d then [0x5c, 0x72]
  else if c = 0x09 then [0x5c, 0x74]
  else if c < 0x20 then
    [0x5c, 0x75, 0x30, 0x30, (hexDigit (c.toNat / 16)).toUInt8, (hexDigit (c.toNat % 16)).toUInt8]
  else [c]

/-- The literal that spells a text. -/
def ofText (s : String) : Literal := ⟨(octets s).flatMap escape⟩

/-- The octet that a short escape stands for. -/
def shortEscape? (c : UInt8) : Option UInt8 :=
  if c = 0x22 then some 0x22
  else if c = 0x5c then some 0x5c
  else if c = 0x2f then some 0x2f
  else if c = 0x62 then some 0x08
  else if c = 0x66 then some 0x0c
  else if c = 0x6e then some 0x0a
  else if c = 0x72 then some 0x0d
  else if c = 0x74 then some 0x09
  else none

/-- The number that four hexadecimal digits spell. -/
def fourDigits? (a b c d : UInt8) : Option Nat := do
  let a ← hexValue? a
  let b ← hexValue? b
  let c ← hexValue? c
  let d ← hexValue? d
  some (((a * 16 + b) * 16 + c) * 16 + d)

/-- Whether a code unit opens a surrogate pair. -/
def isHighSurrogate (n : Nat) : Bool := 0xd800 ≤ n && n < 0xdc00

/-- Whether a code unit closes a surrogate pair. -/
def isLowSurrogate (n : Nat) : Bool := 0xdc00 ≤ n && n < 0xe000

/-- The octets of the character with a code point. -/
def encodeCode (n : Nat) : Octets := String.utf8EncodeChar (Char.ofNat n)

/-- The octets that a literal stands for, read onto those already read, which stand reversed. -/
def unescapeOnto (done : Octets) : Octets → Option Octets
  | [] => some done.reverse
  | 0x5c :: 0x75 :: a :: b :: c :: d :: rest =>
    match fourDigits? a b c d with
    | none => none
    | some n =>
      if isHighSurrogate n then
        match rest with
        | 0x5c :: 0x75 :: e :: f :: g :: h :: rest =>
          match fourDigits? e f g h with
          | none => none
          | some m =>
            if isLowSurrogate m then
              unescapeOnto
                ((encodeCode (0x10000 + (n - 0xd800) * 0x400 + (m - 0xdc00))).reverse ++ done) rest
            else none
        | _ => none
      else if isLowSurrogate n then none
      else unescapeOnto ((encodeCode n).reverse ++ done) rest
  | 0x5c :: c :: rest =>
    match shortEscape? c with
    | some o => unescapeOnto (o :: done) rest
    | none => none
  | [0x5c] => none
  | c :: rest => unescapeOnto (c :: done) rest

/-- The text that a literal spells, if it spells one. -/
def text? (l : Literal) : Option String := (unescapeOnto [] l.body).bind ofOctets?

end Literal

namespace Numeral

/-- The numeral that spells an integer. -/
def ofInt (n : Int) : Numeral := ⟨octets (toString n)⟩

/-- The value of a string of decimal digits. -/
def digitsValue (ds : Octets) : Nat := ds.foldl (fun n c => n * 10 + (c.toNat - 0x30)) 0

/-- Whether an octet is a decimal digit. -/
def isDigit (c : UInt8) : Bool := 0x30 ≤ c && c ≤ 0x39

/-- The integer that a numeral spells, if it is written as one; minus zero is not. -/
def integer? (n : Numeral) : Option Int :=
  match n.spelling with
  | [] => none
  | 0x2d :: ds =>
    if ds.all isDigit && !ds.isEmpty && digitsValue ds != 0 then some (-(digitsValue ds : Int))
    else none
  | ds => if ds.all isDigit then some (digitsValue ds) else none

end Numeral

/-- A text as a document. -/
def string (s : String) : Json := .scalar (.string (.ofText s))

/-- An integer as a document. -/
def integer (n : Int) : Json := .scalar (.number (.ofInt n))

/-- The text that a document holds, if it is a string that spells one. -/
def text? : Json → Option String
  | .scalar (.string l) => l.text?
  | _ => none

/-- The integer that a document holds, if it is one. -/
def integer? : Json → Option Int
  | .scalar (.number n) => n.integer?
  | _ => none

/-- The truth value that a document holds, if it is one. -/
def bool? : Json → Option Bool
  | .scalar (.bool b) => some b
  | _ => none

/-- An object with the given members, in order. -/
def ofMembers (members : List (String × Json)) : Json :=
  .object (members.map fun (k, v) => (.ofText k, v))

end SidecarAdmission.Json
