import SidecarAdmission.Json.Literal
import SidecarAdmission.Json.Printer
import SidecarAdmission.Telemetry.LogFormat

/-!
Records of a log, and the lines that they are written as.
-/

set_option autoImplicit false
set_option relaxedAutoImplicit false

namespace SidecarAdmission.Telemetry

open SidecarAdmission.Text

/-- How grave a record is. -/
inductive Level where
  | info
  | error
deriving DecidableEq, Repr, Inhabited

/-- The name of a level. -/
def Level.name : Level → String
  | .info => "INFO"
  | .error => "ERROR"

/-- A record: its level, what it says, and the particulars. -/
structure Record where
  level : Level
  message : String
  fields : List (String × Json)
deriving Repr, Inhabited

namespace Record

/-- A record of something that went well. -/
def info (message : String) (fields : List (String × Json)) : Record := ⟨.info, message, fields⟩

/-- A record of something that went wrong. -/
def error (message : String) (fields : List (String × Json)) : Record := ⟨.error, message, fields⟩

/-- A record as a document. -/
def toJson (r : Record) : Json :=
  .ofMembers
    [("level", .string r.level.name),
     ("fields", .ofMembers (("message", .string r.message) :: r.fields))]

/-- The line for people: the level, the message, and each particular behind its name. -/
def prettyLine (r : Record) : Octets :=
  octets (r.level.name ++ " " ++ r.message)
    ++ (r.fields.map fun f => octets (" " ++ f.1 ++ "=") ++ f.2.print).flatten

/-- The line of a record in a format. -/
def line (format : LogFormat) (r : Record) : Octets :=
  match format with
  | .pretty => r.prettyLine
  | .json => r.toJson.print

end Record

end SidecarAdmission.Telemetry
