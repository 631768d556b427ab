import SidecarAdmission.Lifecycle.Launch
import SidecarAdmission.Text.Quoted

/-!
How the program tells of a failure to start: with all causes, each inside the name of the next.
-/

set_option autoImplicit false
set_option relaxedAutoImplicit false

namespace SidecarAdmission.CommandLine.Report

open SidecarAdmission.Lifecycle SidecarAdmission.Network SidecarAdmission.Text

/-- A name with what stands inside it. -/
def within (name inner : String) : String := name ++ "(" ++ inner ++ ")"

/-- A name with fields. -/
def withFields (name : String) (fields : List (String × String)) : String :=
  name ++ " \x7b " ++ ", ".intercalate (fields.map fun f => f.1 ++ ": " ++ f.2) ++ " \x7d"

/-- A defect of a configuration. -/
def defect : Sidecar.Defect → String
  | .emptyContainerName i => withFields "EmptyContainerName" [("index", toString i)]
  | .missingImage c => withFields "MissingImage" [("container", Quoted.quote c)]
  | .duplicateContainer n => withFields "DuplicateContainer" [("name", Quoted.quote n)]
  | .emptyVolumeName i => withFields "EmptyVolumeName" [("index", toString i)]
  | .duplicateVolume n => withFields "DuplicateVolume" [("name", Quoted.quote n)]
  | .emptyPullSecretName i => withFields "EmptyPullSecretName" [("index", toString i)]

/-- A failure to load a configuration. -/
def config : Sidecar.ConfigurationError → String
  | .unreadable cause => within "Io" cause.details
  | .text .malformed => within "Parse" ""
  | .text (.invalid defects) =>
    within "Validation" ("[" ++ ", ".intercalate (defects.map defect) ++ "]")

/-- A failure to load credentials. -/
def credentials : Tls.CredentialsError → String
  | .unreadable path cause =>
    let source :=
      match cause with
      | .file cause => cause.details
      | .block => ""
    withFields "Io" [("path", Quoted.quote path), ("source", source)]
  | .noCertificates path => within "NoCertificates" (Quoted.quote path)
  | .noPrivateKey path => within "NoPrivateKey" (Quoted.quote path)
  | .unusableKey =>
    within "Rustls" (within "General" (Quoted.quote Tls.unusableKeyText))

/-- An address of all hosts, or of one. -/
def address (a : Address) : String :=
  match a.host with
  | .v4 b c d e => ".".intercalate ([b, c, d, e].map toString) ++ ":" ++ toString a.port
  | .v6 groups => "[" ++ ":".intercalate (groups.map Text.hex) ++ "]:" ++ toString a.port

/-- A failure to start. -/
def start : LaunchError → String
  | .load (.config cause) => within "Load" (within "Config" (config cause))
  | .load (.credentials cause) => within "Load" (within "Tls" (credentials cause))
  | .listen a cause =>
    within "Server" (withFields "Bind" [("addr", address a), ("source", cause.details)])
  | .watch => within "Watch" ""

end SidecarAdmission.CommandLine.Report
