/-!
Why a file cannot be read or written.
-/

set_option autoImplicit false
set_option relaxedAutoImplicit false

namespace SidecarAdmission.Storage

/-- A failure of a file operation. -/
inductive Failure where
  | missing
  | notDirectory
  | isDirectory
  | nameTooLong
  | nulInName
  | notText
deriving DecidableEq, Repr, Inhabited

namespace Failure

/-- The number of a failure that the operating system reports. -/
def code? : Failure → Option Nat
  | .missing => some 2
  | .notDirectory => some 20
  | .isDirectory => some 21
  | .nameTooLong => some 36
  | .nulInName => none
  | .notText => none

/-- The kind of a failure. -/
def kind : Failure → String
  | .missing => "NotFound"
  | .notDirectory => "NotADirectory"
  | .isDirectory => "IsADirectory"
  | .nameTooLong => "InvalidFilename"
  | .nulInName => "InvalidInput"
  | .notText => "InvalidData"

/-- A failure in words. -/
def text : Failure → String
  | .missing => "No such file or directory"
  | .notDirectory => "Not a directory"
  | .isDirectory => "Is a directory"
  | .nameTooLong => "File name too long"
  | .nulInName => "file name contained an unexpected NUL byte"
  | .notText => "stream did not contain valid UTF-8"

/-- The message of a failure. -/
def message (f : Failure) : String :=
  match f.code? with
  | some code => f.text ++ " (os error " ++ toString code ++ ")"
  | none => f.text

/-- A failure in all its parts. -/
def details (f : Failure) : String :=
  match f.code? with
  | some code =>
    "Os \x7b code: " ++ toString code ++ ", kind: " ++ f.kind ++ ", message: \"" ++ f.text
      ++ "\" \x7d"
  | none => "Error \x7b kind: " ++ f.kind ++ ", message: \"" ++ f.text ++ "\" \x7d"

end Failure

end SidecarAdmission.Storage
