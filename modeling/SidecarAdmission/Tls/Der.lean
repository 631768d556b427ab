import SidecarAdmission.Text.Octets

/-!
Values in the distinguished encoding: a tag, a length and a content, one after the other.
-/

set_option autoImplicit false
set_option relaxedAutoImplicit false

namespace SidecarAdmission.Tls.Der

open SidecarAdmission.Text

/-- An encoded value. -/
structure Element where
  tag : UInt8
  content : Octets
deriving DecidableEq, Repr, Inhabited

/-- The tag of an integer. -/
def integerTag : UInt8 := 0x02

/-- The tag of a string of octets. -/
def octetsTag : UInt8 := 0x04

/-- The tag of an object identifier. -/
def identifierTag : UInt8 := 0x06

/-- The tag of a sequence. -/
def sequenceTag : UInt8 := 0x30

/-- The number that octets write out, the highest first. -/
def number (bs : Octets) : Nat := bs.foldl (fun n b => n * 256 + b.toNat) 0

/-- The number of an integer, if it is in its shortest form and not below zero. -/
def natural? (e : Element) : Option Nat :=
  match e.content with
  | [] => none
  | b :: rest =>
    let isPadded : Bool := b == 0 && rest.head?.any (· < 0x80)
    if e.tag ≠ integerTag ∨ 0x80 ≤ b ∨ isPadded then none else some (number e.content)

/-- The length at the head of a text, in its shortest form, and what follows it. -/
def length? : Octets → Option (Nat × Octets)
  | [] => none
  | n :: rest =>
    if n < 0x80 then some (n.toNat, rest)
    else
      let count := n.toNat - 0x80
      let ds := rest.take count
      let value := number ds
      if count = 0 ∨ 4 < count ∨ ds.length < count ∨ ds.head? = some 0 ∨ value < 0x80 then none
      else some (value, rest.drop count)

/-- The value at the head of a text, and what follows it. -/
def element? : Octets → Option (Element × Octets)
  | [] => none
  | tag :: rest => do
    let (length, rest) ← length? rest
    if rest.length < length then none else some (⟨tag, rest.take length⟩, rest.drop length)

/-- The values of which a text consists. -/
def elements? : Nat → Octets → Option (List Element)
  | 0, bs => if bs.isEmpty then some [] else none
  | fuel + 1, bs =>
    if bs.isEmpty then some []
    else do
      let (e, rest) ← element? bs
      let more ← elements? fuel rest
      some (e :: more)

/-- The parts of a sequence that is all of a text. -/
def sequence? (bs : Octets) : Option (List Element) := do
  let (e, rest) ← element? bs
  if e.tag = sequenceTag ∧ rest.isEmpty then elements? e.content.length e.content else none

end SidecarAdmission.Tls.Der
