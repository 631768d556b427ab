import SidecarAdmission.Http.Webhook
import SidecarAdmission.Lifecycle.ReloadLoop

/-!
A webhook among its files, on a clock that only moves when it is told to. Events wait in a queue
until the loop is run; time passes from one thing that is due to the next.
-/

set_option autoImplicit false
set_option relaxedAutoImplicit false

namespace SidecarAdmission.Lifecycle

open SidecarAdmission.Text SidecarAdmission.Storage SidecarAdmission.Telemetry

/-- The content of a health file. -/
def healthMark : Octets := octets "ok"

/-- A store after a beat of the heartbeat. -/
def writeHealth (files : FileStore) (path : String) : Except Failure FileStore :=
  files.write path healthMark

/-- Something that is done to the files. -/
inductive FileAction where
  | write (path : String) (content : Octets)
  | makeDirectory (path : String)
  | changeMode (path : String)
  | remove (path : String)
  | rename (source target : String)
  | read (path : String)
deriving DecidableEq, Repr, Inhabited

namespace FileAction

/-- The store after something has been done to it. -/
def apply (a : FileAction) (files : FileStore) : FileStore :=
  match a with
  | .write path content => files.put path (.file content)
  | .makeDirectory path => files.put path .directory
  | .changeMode _ => files
  | .remove path => files.remove path
  | .rename source target => files.rename source target
  | .read _ => files

/-- The directories above a place that are not there. -/
def missingAbove (files : FileStore) (place : Place) : List Place :=
  ((List.range place.length).map place.take).filter fun above => (files.at? above).isNone

/-- The changes that the operating system reports, with the places at which they happen. -/
def changes (a : FileAction) (files : FileStore) : List (ChangeKind × Place) :=
  let isThere (path : String) : Bool := (files.at? (files.placeOf path)).isSome
  let made (path : String) : List (ChangeKind × Place) :=
    (missingAbove files (files.placeOf path)).map fun above => (.create, above)
  match a with
  | .write path _ =>
    made path ++ [(if isThere path then .changeOther else .create, files.placeOf path)]
  | .makeDirectory path =>
    if isThere path then [] else made path ++ [(.create, files.placeOf path)]
  | .changeMode path => if isThere path then [(.changeOther, files.placeOf path)] else []
  | .remove path => [(.remove, files.placeOf path)]
  | .rename source target =>
    [(.changeName, files.placeOf source), (.changeName, files.placeOf target)]
  | .read path => [(.access, files.placeOf path)]

end FileAction

/-- A webhook and what it stands in. -/
structure World where
  files : FileStore
  parameters : Parameters
  watched : List Place
  now : Nat
  queue : List FileEvent
  hasSender : Bool
  loopReceives : Bool
  stopRequested : Bool
  loaderAborts : Bool
  attempts : List (Nat × LoadResult)
  reviews : List Counter
  loop : ReloadLoop
deriving Repr, Inhabited

namespace World

/-- A world in which a webhook has just been started; `listens` tells whether its loop is given the
events. -/
def start (files : FileStore) (p : Parameters) (watched : List Place) (state : Active)
    (listens : Bool) :
    World where
  files := files
  parameters := p
  watched := watched
  now := 0
  queue := []
  hasSender := true
  loopReceives := listens
  stopRequested := false
  loaderAborts := false
  attempts := []
  reviews := []
  loop := .start state p listens 0

/-- Whether changes at a place are seen: those of what lies directly in a watched directory. -/
def sees (w : World) (place : Place) : Bool := w.watched.contains place.dropLast

/-- Whether an event that is sent now is accepted; the loop takes its end of the channel with it. -/
def accepts (w : World) : Bool := w.hasSender && !(w.loopReceives && w.loop.isStopped)

/-- A world in which an event has been sent. -/
def send (w : World) (e : FileEvent) : World := { w with queue := w.queue ++ [e] }

/-- The events that the watcher tells of changes. -/
def events (w : World) (changes : List (ChangeKind × Place)) : List FileEvent :=
  (changes.filter fun c => w.sees c.2).map fun c => .ofChange c.1 ["/".intercalate c.2]

/-- A world in which something has been done to the files, and the watcher has told of it. -/
def act (w : World) (a : FileAction) : World :=
  { w with files := a.apply w.files, queue := w.queue ++ w.events (a.changes w.files) }

/-- How a load comes out now. -/
def loadNow (w : World) : LoadResult :=
  if w.loaderAborts then .aborted else .ofExcept (Active.ofFiles w.files w.parameters)

/-- A world after a signal. -/
def signal (w : World) (s : Signal) : World := { w with loop := w.loop.step w.now s }

/-- A world after its deadline. -/
def passDeadline (w : World) : World :=
  let result := w.loadNow
  { w with attempts := w.attempts ++ [(w.now, result)] }.signal (.deadline result)

/-- A world after a beat of the heartbeat to a file; the watcher tells of that change like of any
other. -/
def passBeat (w : World) (path : String) : World :=
  match writeHealth w.files path with
  | .ok files =>
    let changes := (FileAction.write path healthMark).changes w.files
    { w with files, queue := w.queue ++ w.events changes }.signal (.beat true)
  | .error _ => w.signal (.beat false)

/-- A world after the next thing that is due up to a time, if anything is. -/
def nextDue? (w : World) (limit : Nat) : Option World :=
  let deadline := w.loop.deadline
  let beat :=
    match w.loop.nextBeat, w.loop.heartbeat with
    | some due, some (_, path) => some (due, path)
    | _, _ => none
  match deadline, beat with
  | some d, some (b, path) =>
    if limit < min d b then none
    else if d ≤ b then some { w with now := d }.passDeadline
    else some ({ w with now := b }.passBeat path)
  | some d, none => if limit < d then none else some { w with now := d }.passDeadline
  | none, some (b, path) => if limit < b then none else some ({ w with now := b }.passBeat path)
  | none, none => none

/-- A world after the next thing that happens up to a time, if anything does. -/
def next? (w : World) (limit : Nat) : Option World :=
  if w.loop.isStopped then none
  else if w.stopRequested then some (w.signal .stop)
  else if w.loop.listens then
    match w.queue with
    | e :: rest => some ({ w with queue := rest }.signal (.event e))
    | [] => if w.hasSender then w.nextDue? limit else some (w.signal .eventsEnd)
  else w.nextDue? limit

/-- A world in which everything has happened up to a time. -/
def runTo (limit : Nat) : Nat → World → World
  | 0, w => w
  | fuel + 1, w =>
    match w.next? limit with
    | some w => runTo limit fuel w
    | none => { w with now := limit }

/-- A world after some time has passed. -/
def wait (w : World) (duration : Nat) : World :=
  runTo (w.now + duration) (2 * w.queue.length + 8 * duration + 16) w

/-- The reply to a request, and the world in which it has been counted. -/
def request (w : World) (r : Http.Request) : Http.Reply × World :=
  let (reply, outcome) := Http.Webhook.answer .standard w.loop.state.spec r
  (reply, { w with reviews := (outcome.map Counter.admission).toList ++ w.reviews })

/-- All that has been counted. -/
def counters (w : World) : List Counter := w.loop.counters ++ w.reviews

end World

end SidecarAdmission.Lifecycle
