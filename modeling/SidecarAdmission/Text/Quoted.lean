import SidecarAdmission.Text.Octets
import SidecarAdmission.Text.Class

/-!
Texts as messages quote them: between double quotes, with a backslash before a quote or a backslash,
and with every character that has no visible form of its own spelled out.
-/

set_option autoImplicit false
set_option relaxedAutoImplicit false

namespace SidecarAdmission.Text.Quoted

open SidecarAdmission.Text

/-- The spelling of a character inside quotes. -/
def spell (c : Char) : String :=
  if c = '"' then "\\\""
  else if c = '\\' then "\\\\"
  else if c = '\n' then "\\n"
  else if c = '\r' then "\\r"
  else if c = '\t' then "\\t"
  else if c = '\x00' then "\\0"
  else if Class.isVisible c && !Class.isExtending c then c.toString
  else "\\u\x7b" ++ hex c.toNat ++ "\x7d"

/-- A text between quotes. -/
def quote (s : String) : String :=
  "\"" ++ String.join (s.toList.map spell) ++ "\""

end SidecarAdmission.Text.Quoted
