import SidecarAdmission.CommandLine.Settings

/-!
The reading of the command line. An option is taken in when the next one begins or the line ends, so
of two faults it may be the later one that is told; an argument that is unknown is told at once. The
environment is looked at last, and only for options that are not given.
-/

set_option autoImplicit false
set_option relaxedAutoImplicit false

namespace SidecarAdmission.CommandLine

/-- Why a command line is refused. -/
inductive Refusal where
  | unexpectedArgument (text : String)
  | unexpectedValue (value flag : String)
  | missingValue (option : Switch)
  | repeated (option : Switch)
  | invalidValue (option : Switch) (value reason : String)
deriving DecidableEq, Repr, Inhabited

/-- The wording of a refusal. -/
def Refusal.message : Refusal → String
  | .unexpectedArgument text => "error: unexpected argument '" ++ text ++ "' found"
  | .unexpectedValue value flag =>
    "error: unexpected value '" ++ value ++ "' for '" ++ flag ++ "' found; no more were expected"
  | .missingValue o => "error: a value is required for '" ++ o.usage ++ "' but none was supplied"
  | .repeated o => "error: the argument '" ++ o.usage ++ "' cannot be used multiple times"
  | .invalidValue o value reason =>
    "error: invalid value '" ++ value ++ "' for '" ++ o.usage ++ "': " ++ reason

/-- What a command line asks for. -/
inductive Invocation where
  | run (settings : Settings)
  | showVersion
  | showHelp
  | refused (cause : Refusal)
deriving DecidableEq, Repr, Inhabited

namespace Reading

/-- What has been read: the settings, the options taken in, and the last option with its value,
which has yet to be taken in. -/
structure State where
  settings : Settings
  given : List Switch
  pending : Option (Switch × Option String)
deriving DecidableEq, Repr, Inhabited

/-- What stops the reading. -/
inductive Stop where
  | refuse (cause : Refusal)
  | version
  | help
deriving DecidableEq, Repr, Inhabited

/-- A state in which an option with a value is taken in. -/
def take (s : State) (o : Switch) (value : String) : Except Stop State :=
  if s.given.contains o then .error (.refuse (.repeated o))
  else
    match s.settings.set o value with
    | .ok settings => .ok { s with settings, given := o :: s.given }
    | .error .missing => .error (.refuse (.missingValue o))
    | .error (.invalid reason) => .error (.refuse (.invalidValue o value reason))

/-- A state in which the last option is taken in. -/
def settle (s : State) : Except Stop State :=
  match s.pending with
  | none => .ok s
  | some (o, none) => .error (.refuse (.missingValue o))
  | some (o, some value) => take { s with pending := none } o value

/-- Whether an option has yet to get its value. -/
def awaitsValue? (s : State) : Option Switch :=
  match s.pending with
  | some (o, none) => some o
  | _ => none

/-- A name and the value after an equals sign, if there is one. -/
def splitValue (s : List Char) : String × Option String :=
  let name := s.takeWhile (· != '=')
  match s.drop name.length with
  | [] => (String.ofList name, none)
  | _ :: value => (String.ofList name, some (String.ofList value))

/-- A flag without a value. -/
def flag (s : State) (name : String) (value : Option String) (stop : Stop) : Except Stop State :=
  match value with
  | some v => .error (.refuse (.unexpectedValue v ("--" ++ name)))
  | none => do
    let _ ← settle s
    .error stop

/-- An argument that begins with two dashes. -/
def long (s : State) (text : List Char) : Except Stop State :=
  let (name, value) := splitValue text
  match Switch.all.find? (·.name == name) with
  | some o => do
    let s ← settle s
    match value with
    | some v => take s o v
    | none => .ok { s with pending := some (o, none) }
  | none =>
    if name = "version" then flag s name value .version
    else if name = "help" then flag s name value .help
    else .error (.refuse (.unexpectedArgument ("--" ++ name)))

/-- An argument that begins with one dash, by its first letter. -/
def short (s : State) (c : Char) : Except Stop State :=
  if c = 'V' then flag s "version" none .version
  else if c = 'h' then flag s "help" none .help
  else .error (.refuse (.unexpectedArgument (String.ofList ['-', c])))

/-- Any other argument: a value, if one is awaited. -/
def word (s : State) (text : String) : Except Stop State :=
  match awaitsValue? s with
  | some o => .ok { s with pending := some (o, some text) }
  | none => .error (.refuse (.unexpectedArgument text))

/-- One argument. -/
def argument (s : State) (text : String) : Except Stop State :=
  match text.toList with
  | '-' :: '-' :: rest => long s rest
  | '-' :: c :: _ => short s c
  | _ => word s text

/-- The rest of the arguments; after two dashes alone no options follow. -/
def arguments (s : State) : List String → Except Stop State
  | [] => settle s
  | text :: rest =>
    if text = "--" then
      match rest with
      | [] => settle s
      | text :: _ => .error (.refuse (.unexpectedArgument text))
    else do
      let s ← argument s text
      arguments s rest

/-- The environment, for the options that are not given. -/
def environment (env : List (String × String)) (s : State) : List Switch → Except Stop State
  | [] => .ok s
  | o :: rest =>
    match env.lookup o.environmentName with
    | some value =>
      if s.given.contains o then environment env s rest
      else do
        let s ← take s o value
        environment env s rest
    | none => environment env s rest

end Reading

/-- What a command line asks for in an environment. -/
def Invocation.read (args : List String) (env : List (String × String)) : Invocation :=
  let read := do
    let s ← Reading.arguments ⟨.standard, [], none⟩ args
    Reading.environment env s Switch.all
  match read with
  | .ok s => .run s.settings
  | .error .version => .showVersion
  | .error .help => .showHelp
  | .error (.refuse cause) => .refused cause

/-- The name of the program. -/
def programName : String := "sidecar-injector"

/-- The version of the program. -/
def version : String := "0.1.0"

/-- The text that tells the version. -/
def versionText : String := programName ++ " " ++ version ++ "\n"

/-- The lines that tell of an option in an environment. -/
def optionHelp (env : List (String × String)) (o : Switch) : String :=
  "      " ++ o.usage ++ "\n          " ++ o.help ++ " [env: " ++ o.environmentName ++ "="
    ++ (env.lookup o.environmentName).getD "" ++ "]"
    ++ (match o.standard? with
        | some value => " [default: " ++ value ++ "]"
        | none => "")
    ++ "\n"

/-- The text that tells of all options. -/
def helpText (env : List (String × String)) : String :=
  "Kubernetes mutating admission webhook that injects sidecars\n\nUsage: " ++ programName
    ++ " [OPTIONS]\n\nOptions:\n" ++ String.join (Switch.all.map (optionHelp env))
    ++ "  -h, --help\n          Print help\n  -V, --version\n          Print version\n"

end SidecarAdmission.CommandLine
