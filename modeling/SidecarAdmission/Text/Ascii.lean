/-!
ASCII letters without regard to their case. Other letters have no case here.
-/

set_option autoImplicit false
set_option relaxedAutoImplicit false

namespace SidecarAdmission.Text.Ascii

/-- A character with an ASCII capital made small. -/
def lowerChar (c : Char) : Char := if 'A' ≤ c ∧ c ≤ 'Z' then Char.ofNat (c.toNat + 32) else c

/-- A text with its ASCII capitals made small. -/
def lower (s : String) : String := String.ofList (s.toList.map lowerChar)

/-- Whether two texts are equal up to the case of ASCII letters. -/
def equalsIgnoringCase (a b : String) : Bool := a.toList.map lowerChar == b.toList.map lowerChar

end SidecarAdmission.Text.Ascii
