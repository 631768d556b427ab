import SidecarAdmission.Network.Address

/-!
Which addresses a program may listen on: those of the machine itself, on a port that is not kept
from it.
-/

set_option autoImplicit false
set_option relaxedAutoImplicit false

namespace SidecarAdmission.Network

/-- Why an address cannot be listened on. -/
inductive ListenFailure where
  | notPermitted
  | notAvailable
deriving DecidableEq, Repr, Inhabited

namespace ListenFailure

/-- The number of a failure that the operating system reports. -/
def code : ListenFailure → Nat
  | .notPermitted => 13
  | .notAvailable => 99

/-- The kind of a failure. -/
def kind : ListenFailure → String
  | .notPermitted => "PermissionDenied"
  | .notAvailable => "AddrNotAvailable"

/-- A failure in words. -/
def text : ListenFailure → String
  | .notPermitted => "Permission denied"
  | .notAvailable => "Cannot assign requested address"

/-- The message of a failure. -/
def message (f : ListenFailure) : String := f.text ++ " (os error " ++ toString f.code ++ ")"

/-- A failure in all its parts. -/
def details (f : ListenFailure) : String :=
  "Os \x7b code: " ++ toString f.code ++ ", kind: " ++ f.kind ++ ", message: \"" ++ f.text
    ++ "\" \x7d"

end ListenFailure

/-- Whether a host is the machine itself, or stands for all its addresses. -/
def Host.isLocal : Host → Bool
  | .v4 a b c d => a = 127 || (a, b, c, d) = (0, 0, 0, 0)
  | .v6 [0, 0, 0, 0, 0, 0, 0, n] => n ≤ 1
  | .v6 [0, 0, 0, 0, 0, 65535, m, n] => m / 256 = 127 || (m, n) = (0, 0)
  | .v6 _ => false

/-- What a program may listen on: the ports below its lowest one are kept from it. -/
structure Privilege where
  lowestPort : Nat
deriving DecidableEq, Repr, Inhabited

namespace Privilege

/-- The privilege of most programs. -/
def ordinary : Privilege := ⟨1024⟩

/-- Whether a program may listen on a port; port 0 stands for any that is free. -/
def covers (privilege : Privilege) (port : Nat) : Bool := port == 0 || privilege.lowestPort ≤ port

end Privilege

/-- Why an address cannot be listened on, if it cannot. -/
def Address.listenFailure? (a : Address) (privilege : Privilege) : Option ListenFailure :=
  if !privilege.covers a.port then some .notPermitted
  else if a.host.isLocal then none
  else some .notAvailable

end SidecarAdmission.Network
