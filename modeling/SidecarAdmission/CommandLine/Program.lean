import SidecarAdmission.CommandLine.Invocation
import SidecarAdmission.CommandLine.Report
import SidecarAdmission.Lifecycle.Journal

/-!
The program as a whole: what becomes of a command line, and what a run that is served, reloaded and
stopped writes into its log.
-/

set_option autoImplicit false
set_option relaxedAutoImplicit false

namespace SidecarAdmission.CommandLine

open SidecarAdmission.Lifecycle SidecarAdmission.Network SidecarAdmission.Storage
  SidecarAdmission.Telemetry SidecarAdmission.Text

/-- How a program ends: its code, what it has written, and what it has complained of. -/
structure Exit where
  code : Nat
  output : String
  complaint : String
deriving DecidableEq, Repr, Inhabited

/-- What becomes of a command line: the program ends at once, or it has started a webhook. -/
inductive Beginning where
  | ended (exit : Exit)
  | serving (settings : Settings) (launch : Launch)
deriving Repr, Inhabited

/-- What becomes of a command line in an environment and among files. -/
def invoke (args : List String) (env : List (String × String)) (files : FileStore)
    (privilege : Privilege := .ordinary) : Beginning :=
  match Invocation.read args env with
  | .showVersion => .ended ⟨0, versionText, ""⟩
  | .showHelp => .ended ⟨0, helpText env, ""⟩
  | .refused cause =>
    .ended ⟨2, "", cause.message ++ "\n\nFor more information, try '--help'.\n"⟩
  | .run settings =>
    match launch files settings.parameters privilege with
    | .error e => .ended ⟨1, "", "Error: " ++ Report.start e ++ "\n"⟩
    | .ok l => .serving settings l

/-- The records of a start. -/
def startRecords (s : Settings) (l : Launch) : List Record :=
  [Journal.began version, Journal.configured s.parameters]
    ++ (s.metricsAddress.map (Journal.exporter l.privilege)).toList
    ++ Journal.launched s.parameters l

/-- A world after files have been written at once and the reload that follows is over, and the
record of that reload. -/
def writeAndWait (w : World) (writes : List FileAction) : World × Option Record :=
  let before := w.attempts.length
  let w := (writes.foldl World.act w).wait (2 * w.parameters.debounce + 1)
  (w, (w.attempts.drop before).getLast?.map fun attempt => Journal.reloaded attempt.2)

/-- A world after one group of writes after the other, and the records of the reloads. -/
def writeAll (w : World) : List (List FileAction) → World × List Record
  | [] => (w, [])
  | writes :: rest =>
    let (w, record) := writeAndWait w writes
    let (w, records) := writeAll w rest
    (w, record.toList ++ records)

/-- What is known of a run that is over. -/
structure Run where
  startup : List Record
  reloads : List Record
  ending : List Record
  files : FileStore
deriving Repr, Inhabited

/-- A run in which files are written and the webhook is stopped in the end. -/
def run (s : Settings) (l : Launch) (writes : List (List FileAction)) (signal : StopSignal) : Run :=
  let (w, reloads) := writeAll (l.world.wait 0) writes
  { startup := startRecords s l
    reloads := reloads
    ending := Journal.ended signal w.loop.summary
    files := w.files }

end SidecarAdmission.CommandLine
