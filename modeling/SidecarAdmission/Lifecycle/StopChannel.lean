/-!
The request to stop, which goes to all who listen. Only the newest request is kept: whoever has
missed others is told how many before it gets that one, and a request without listeners is not kept
at all.
-/

set_option autoImplicit false
set_option relaxedAutoImplicit false

namespace SidecarAdmission.Lifecycle

/-- What a listener finds. -/
inductive Reception where
  | stop
  | lagged (missed : Nat)
  | empty
  | closed
deriving DecidableEq, Repr, Inhabited

/-- A channel for requests to stop: the number of requests kept so far, whether there is still a
sender, and for every listener how many of the requests it has passed. -/
structure StopChannel where
  sent : Nat
  isOpen : Bool
  listeners : List (String × Nat)
deriving DecidableEq, Repr, Inhabited

namespace StopChannel

/-- A channel without listeners. -/
def empty : StopChannel := ⟨0, true, []⟩

/-- The channel without a listener. -/
def leave (s : StopChannel) (name : String) : StopChannel :=
  { s with listeners := s.listeners.filter (·.1 != name) }

/-- The channel with a listener that has passed what was sent before. -/
def join (s : StopChannel) (name : String) : StopChannel :=
  { s with listeners := (name, s.sent) :: (s.leave name).listeners }

/-- The channel after a request to stop. -/
def request (s : StopChannel) : StopChannel :=
  if s.listeners.isEmpty then s else { s with sent := s.sent + 1 }

/-- The channel after its sender is gone. -/
def close (s : StopChannel) : StopChannel := { s with isOpen := false }

/-- The number of listeners. -/
def listenerCount (s : StopChannel) : Nat := s.listeners.length

/-- What a listener that has passed some requests finds, and how many it has passed then. -/
def receiveAt (s : StopChannel) (passed : Nat) : Reception × Nat :=
  if s.sent ≤ passed then (if s.isOpen then .empty else .closed, passed)
  else if s.sent = passed + 1 then (.stop, s.sent)
  else (.lagged (s.sent - 1 - passed), s.sent - 1)

/-- What a listener finds, if there is one of that name, and the channel afterwards. -/
def receive? (s : StopChannel) (name : String) : Option (Reception × StopChannel) :=
  (s.listeners.lookup name).map fun passed =>
    let (found, passed) := s.receiveAt passed
    let listeners := s.listeners.map fun l => if l.1 = name then (name, passed) else l
    (found, { s with listeners })

end StopChannel

end SidecarAdmission.Lifecycle
