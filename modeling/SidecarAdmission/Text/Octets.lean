/-!
Octet strings and their reading as text. Reading back the octets of a text gives that text.
-/

set_option autoImplicit false
set_option relaxedAutoImplicit false

namespace SidecarAdmission.Text

/-- A string of octets, as it travels on the wire or lies in a file. -/
abbrev Octets := List UInt8

/-- The octets that encode a text. -/
def octets (s : String) : Octets := s.toUTF8.data.toList

/-- The text that the octets encode, if they encode one. -/
def ofOctets? (bs : Octets) : Option String := String.fromUTF8? ⟨bs.toArray⟩

theorem ofOctets?_octets (s : String) : ofOctets? (octets s) = some s := by
  simp only [ofOctets?, octets, String.fromUTF8?, String.toUTF8_eq_toByteArray,
    Array.toArray_toList, dif_pos s.isValidUTF8]
  rfl

/-- The four bits that a hexadecimal digit stands for. -/
def hexValue? (c : UInt8) : Option Nat :=
  if 0x30 ≤ c ∧ c ≤ 0x39 then some (c.toNat - 0x30)
  else if 0x61 ≤ c ∧ c ≤ 0x66 then some (c.toNat - 0x61 + 10)
  else if 0x41 ≤ c ∧ c ≤ 0x46 then some (c.toNat - 0x41 + 10)
  else none

/-- The hexadecimal digit, in lower case, of a number below sixteen. -/
def hexDigit (n : Nat) : Char :=
  if n < 10 then Char.ofNat (0x30 + n) else Char.ofNat (0x61 + (n - 10))

/-- A number in hexadecimal, in lower case and without leading zeros. -/
def hex (n : Nat) : String := String.ofList ((Nat.toDigits 16 n))

end SidecarAdmission.Text
