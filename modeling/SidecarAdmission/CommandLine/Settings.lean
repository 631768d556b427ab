import SidecarAdmission.Lifecycle.Parameters
import SidecarAdmission.Network.Address
import SidecarAdmission.Telemetry.LogFormat

/-!
The options of the program and the settings that they make. Every option takes one value, from the
command line or else from the environment.
-/

set_option autoImplicit false
set_option relaxedAutoImplicit false

namespace SidecarAdmission.CommandLine

open SidecarAdmission.Lifecycle SidecarAdmission.Network SidecarAdmission.Telemetry

/-- What the program is told: its parameters, where counters are to be had, and the format of the
log. -/
structure Settings where
  parameters : Parameters
  metricsAddress : Option Address
  logFormat : LogFormat
deriving DecidableEq, Repr, Inhabited

/-- The settings of a program that is told nothing. -/
def Settings.standard : Settings := ⟨.standard, none, .pretty⟩

/-- An option. -/
inductive Switch where
  | port
  | certFile
  | keyFile
  | sidecarConfigFile
  | healthCheckIntervalSecs
  | healthCheckFile
  | debounceMs
  | metricsAddress
  | logFormat
deriving DecidableEq, Repr, Inhabited

namespace Switch

/-- The options, in the order in which the environment is looked at. -/
def all : List Switch :=
  [.port, .certFile, .keyFile, .sidecarConfigFile, .healthCheckIntervalSecs, .healthCheckFile,
   .debounceMs, .metricsAddress, .logFormat]

/-- The words of the name of an option. -/
def words : Switch → List String
  | .port => ["port"]
  | .certFile => ["cert", "file"]
  | .keyFile => ["key", "file"]
  | .sidecarConfigFile => ["sidecar", "config", "file"]
  | .healthCheckIntervalSecs => ["health", "check", "interval", "secs"]
  | .healthCheckFile => ["health", "check", "file"]
  | .debounceMs => ["debounce", "ms"]
  | .metricsAddress => ["metrics", "address"]
  | .logFormat => ["log", "format"]

/-- The name of an option on the command line. -/
def name (o : Switch) : String := "-".intercalate o.words

/-- The name of an option in capitals. -/
def capitals (o : Switch) : String := "_".intercalate (o.words.map String.toUpper)

/-- The name of an option in the environment. -/
def environmentName (o : Switch) : String := "WEBHOOK_" ++ o.capitals

/-- An option with its value. -/
def usage (o : Switch) : String := "--" ++ o.name ++ " <" ++ o.capitals ++ ">"

/-- What an option is for. -/
def help : Switch → String
  | .port => "Webhook server port"
  | .certFile => "File containing the x509 certificate for HTTPS"
  | .keyFile => "File containing the x509 private key for the certificate"
  | .sidecarConfigFile => "File containing the mutation configuration"
  | .healthCheckIntervalSecs => "Seconds between heartbeat writes. 0 disables the heartbeat"
  | .healthCheckFile => "File the heartbeat writes to"
  | .debounceMs => "Quiet period after the last file event before reloading"
  | .metricsAddress => "Address for the Prometheus scrape endpoint. Disabled when unset"
  | .logFormat => "Log output format: pretty or json"

/-- The value that an option has if it is not given. -/
def standard? : Switch → Option String
  | .port => some "8443"
  | .certFile => some "/etc/webhook/certs/cert.pem"
  | .keyFile => some "/etc/webhook/certs/key.pem"
  | .sidecarConfigFile => some "/etc/webhook/config/sidecarconfig.yaml"
  | .healthCheckIntervalSecs => some "0"
  | .healthCheckFile => none
  | .debounceMs => some "200"
  | .metricsAddress => none
  | .logFormat => some "pretty"

end Switch

/-- What is wrong with a value: it is missing, or there is a complaint. -/
inductive Complaint where
  | missing
  | invalid (reason : String)
deriving DecidableEq, Repr, Inhabited

namespace Value

/-- The digits of a number, whether it is negative, and the complaint if there are none. -/
def digits (signed : Bool) (s : String) : Except Complaint (Bool × Nat) :=
  let (negative, ds) : Bool × List Char :=
    match s.toList with
    | '+' :: ds => (false, ds)
    | '-' :: ds => if signed then (true, ds) else (false, '-' :: ds)
    | ds => (false, ds)
  if s.isEmpty then .error (.invalid "cannot parse integer from empty string")
  else if ds.isEmpty || !ds.all Char.isDigit then .error (.invalid "invalid digit found in string")
  else .ok (negative, ds.foldl (fun n d => n * 10 + (d.toNat - '0'.toNat)) 0)

/-- The complaint about a number that is too large. -/
def tooLarge : Complaint := .invalid "number too large to fit in target type"

/-- A number of 64 bits. -/
def count (s : String) : Except Complaint Nat := do
  let (_, n) ← digits false s
  if n < Nat.pow 2 64 then .ok n else .error tooLarge

/-- A number of a port. -/
def port (s : String) : Except Complaint Nat := do
  let (negative, n) ← digits true s
  if negative then
    if Nat.pow 2 63 < n then .error (.invalid "number too small to fit in target type")
    else if n = 0 then .ok 0
    else .error (.invalid ("-" ++ toString n ++ " is not in 0..=65535"))
  else if Nat.pow 2 63 ≤ n then .error tooLarge
  else if 65535 < n then .error (.invalid (toString n ++ " is not in 0..=65535"))
  else .ok n

/-- A path of a file. -/
def path (s : String) : Except Complaint String := if s.isEmpty then .error .missing else .ok s

/-- An address of a socket. -/
def address (s : String) : Except Complaint Address :=
  match Address.parse? s with
  | some a => .ok a
  | none => .error (.invalid "invalid socket address syntax")

/-- A format of a log. -/
def logFormat (s : String) : Except Complaint LogFormat := (LogFormat.ofText s).mapError .invalid

end Value

/-- Settings with the value of an option, read from a text. -/
def Settings.set (s : Settings) (o : Switch) (value : String) : Except Complaint Settings :=
  let p := s.parameters
  match o with
  | .port => do return { s with parameters := { p with port := ← Value.port value } }
  | .certFile => do return { s with parameters := { p with certificateFile := ← Value.path value } }
  | .keyFile => do return { s with parameters := { p with keyFile := ← Value.path value } }
  | .sidecarConfigFile => do
    return { s with parameters := { p with configFile := ← Value.path value } }
  | .healthCheckIntervalSecs => do
    return { s with parameters := { p with heartbeatInterval := 1000 * (← Value.count value) } }
  | .healthCheckFile => do
    return { s with parameters := { p with heartbeatFile := some (← Value.path value) } }
  | .debounceMs => do return { s with parameters := { p with debounce := ← Value.count value } }
  | .metricsAddress => do return { s with metricsAddress := some (← Value.address value) }
  | .logFormat => do return { s with logFormat := ← Value.logFormat value }

end SidecarAdmission.CommandLine
