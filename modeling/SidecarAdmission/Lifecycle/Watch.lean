import SidecarAdmission.Storage.FileStore

/-!
What is seen of changes to files. Directories are watched and not the files themselves, because
mounted files are changed by swapping a directory.
-/

set_option autoImplicit false
set_option relaxedAutoImplicit false

namespace SidecarAdmission.Lifecycle

open SidecarAdmission.Storage

/-- The kinds of changes that the operating system reports. -/
inductive ChangeKind where
  | create
  | changeName
  | changeOther
  | remove
  | access
  | unknown
deriving DecidableEq, Repr, Inhabited

/-- A change as it matters to a reload. -/
inductive FileEvent where
  | modified (paths : List String)
  | created (paths : List String)
  | removed (paths : List String)
  | renamed (paths : List String)
  | other
  | error (text : String)
deriving DecidableEq, Repr, Inhabited

namespace FileEvent

/-- The event of a change of some paths. -/
def ofChange (kind : ChangeKind) (paths : List String) : FileEvent :=
  match kind with
  | .create => .created paths
  | .changeName => .renamed paths
  | .changeOther => .modified paths
  | .remove => .removed paths
  | .access | .unknown => .other

/-- Whether an event calls for a reload. -/
def callsForReload : FileEvent → Bool
  | .modified _ | .created _ => true
  | _ => false

end FileEvent

/-- The directories in which changes of files show, if all of them are there. -/
def watchedDirectories? (files : FileStore) (paths : List String) : Option (List String) :=
  let directories := Path.directories paths
  if directories.all files.exists? then some directories else none

end SidecarAdmission.Lifecycle
