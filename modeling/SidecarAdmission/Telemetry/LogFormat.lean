import SidecarAdmission.Text.Ascii
import SidecarAdmission.Text.Quoted

/-!
The formats in which a log is written.
-/

set_option autoImplicit false
set_option relaxedAutoImplicit false

namespace SidecarAdmission.Telemetry

open SidecarAdmission.Text

/-- A format of a log: for people or for programs. -/
inductive LogFormat where
  | pretty
  | json
deriving DecidableEq, Repr, Inhabited

/-- The format that a text names, or the complaint that it names none. -/
def LogFormat.ofText (s : String) : Except String LogFormat :=
  let name := Ascii.lower s
  if name = "pretty" ∨ name = "text" then .ok .pretty
  else if name = "json" then .ok .json
  else .error ("unknown log format " ++ Quoted.quote name ++ ", expected pretty or json")

end SidecarAdmission.Telemetry
