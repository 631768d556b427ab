import SidecarAdmission.CommandLine.Program

/-!
The program at the command line. Reviews are read from the standard input, one to a line, and their
replies are written to the standard output; the log goes to the standard error. Files that have
changed since the last review are taken in before the next one.
-/

set_option autoImplicit false
set_option relaxedAutoImplicit false

namespace SidecarAdmission.Main

open SidecarAdmission.CommandLine SidecarAdmission.Lifecycle SidecarAdmission.Storage
open SidecarAdmission.Telemetry SidecarAdmission.Text

/-- The variables of the environment that matter, with their values. -/
def readEnvironment : IO (List (String × String)) :=
  Switch.all.filterMapM fun o => do
    let value ← IO.getEnv o.environmentName
    return value.map fun value => (o.environmentName, value)

/-- What lies at a path, if it can be read. -/
def readEntry? (path : String) : IO (Option Entry) := do
  let place := (← IO.currentDir) / path
  if ← place.isDir then return some .directory
  try
    let content ← IO.FS.readBinFile place
    return some (.file content.toList)
  catch _ => return none

/-- A store that holds what lies at some paths. -/
def readFiles (paths : List String) : IO FileStore := do
  let home ← IO.currentDir
  let mut files := FileStore.empty (FileStore.names home.toString)
  for path in paths do
    match ← readEntry? path with
    | some entry => files := files.put path entry
    | none => files := files.remove path
  return files

/-- The paths that a command line asks to read. -/
def pathsOf (args : List String) (env : List (String × String)) : List String :=
  match Invocation.read args env with
  | .run settings => settings.parameters.inputFiles
  | _ => []

/-- A world in which the files are as they are now, after the reload that this leads to. -/
def refresh (w : World) : IO World := do
  let mut actions := #[]
  for path in w.parameters.inputFiles do
    let before := (w.files.read path).toOption
    match ← readEntry? path with
    | some (.file content) =>
      if before != some content then actions := actions.push (.write path content)
    | _ => if before.isSome then actions := actions.push (.remove path)
  if actions.isEmpty then return w
  else return (actions.foldl World.act w).wait (w.parameters.debounce + 1)

/-- A line of octets. -/
def putLine (stream : IO.FS.Stream) (line : Octets) : IO Unit := do
  stream.write ⟨(line ++ [0x0a]).toArray⟩
  stream.flush

/-- The records of the reloads that one world has seen and an earlier one has not. -/
def newReloads (before after : World) : List Record :=
  (after.attempts.drop before.attempts.length).map fun attempt => Journal.reloaded attempt.2

/-- The replies to the reviews that follow, and the world after the last of them. -/
partial def answer (settings : Settings) (w : World) : IO World := do
  let line ← (← IO.getStdin).getLine
  if line.isEmpty then return w
  let refreshed ← refresh w
  for record in newReloads w refreshed do
    putLine (← IO.getStderr) (record.line settings.logFormat)
  let headers := [("content-type", octets Http.Webhook.reviewType)]
  let body := (octets line).filter (· != 0x0a)
  let (reply, w) := refreshed.request ⟨"POST", Http.Webhook.reviewPath, headers, body⟩
  putLine (← IO.getStdout) reply.body
  answer settings w

end SidecarAdmission.Main

open SidecarAdmission.CommandLine SidecarAdmission.Lifecycle in
/-- The program: it ends at once, or answers reviews until there are no more. -/
def main (args : List String) : IO UInt32 := do
  let env ← SidecarAdmission.Main.readEnvironment
  let files ← SidecarAdmission.Main.readFiles (SidecarAdmission.Main.pathsOf args env)
  match invoke args env files with
  | .ended e =>
    IO.print e.output
    IO.eprint e.complaint
    return e.code.toUInt32
  | .serving settings l =>
    for record in startRecords settings l do
      SidecarAdmission.Main.putLine (← IO.getStderr) (record.line settings.logFormat)
    let w ← SidecarAdmission.Main.answer settings (l.world.wait 0)
    for record in Journal.ended .terminate w.loop.summary do
      SidecarAdmission.Main.putLine (← IO.getStderr) (record.line settings.logFormat)
    return 0
