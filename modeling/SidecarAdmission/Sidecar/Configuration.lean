import SidecarAdmission.Sidecar.Spec
import SidecarAdmission.Sidecar.Defect
import SidecarAdmission.Storage.FileStore

/-!
The specification that a configuration gives, as a text or as a file: its material, if that has no
defect, with defaults filled in.
-/

set_option autoImplicit false
set_option relaxedAutoImplicit false

namespace SidecarAdmission.Sidecar

/-- Why a text gives no specification. -/
inductive TextError where
  | malformed
  | invalid (defects : List Defect)
deriving DecidableEq, Repr, Inhabited

/-- The wording of a failure to read a text; what is wrong with its syntax is left out. -/
def TextError.message : TextError → String
  | .malformed => "Parse error: "
  | .invalid defects => "Validation failed: " ++ ", ".intercalate (defects.map Defect.message)

/-- The specification that a text gives. -/
def Spec.ofText (text : String) : Except TextError Spec :=
  match Material.ofText? text with
  | none => .error .malformed
  | some m =>
    match m.defects with
    | [] => .ok (.ofMaterial m.containers m.volumes m.imagePullSecrets)
    | defects => .error (.invalid defects)

/-- Why a configuration gives no specification. -/
inductive ConfigurationError where
  | unreadable (cause : Storage.Failure)
  | text (cause : TextError)
deriving DecidableEq, Repr, Inhabited

/-- The wording of a failure to load a configuration. -/
def ConfigurationError.message : ConfigurationError → String
  | .unreadable cause => "IO error: " ++ cause.message
  | .text cause => cause.message

/-- The specification in a file. -/
def Spec.ofFile (files : Storage.FileStore) (path : String) : Except ConfigurationError Spec :=
  match files.readText path with
  | .error e => .error (.unreadable e)
  | .ok text =>
    match ofText text with
    | .ok spec => .ok spec
    | .error e => .error (.text e)

end SidecarAdmission.Sidecar
