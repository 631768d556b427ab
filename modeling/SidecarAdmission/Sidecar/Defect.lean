import SidecarAdmission.Sidecar.Material
import SidecarAdmission.Text.Quoted

/-!
What makes sidecar material unfit: items without a name, names that are used twice and containers
without an image. All that is wrong is told at once, in the order of the lists.
-/

set_option autoImplicit false
set_option relaxedAutoImplicit false

namespace SidecarAdmission.Sidecar

open SidecarAdmission.Resource SidecarAdmission.Text

/-- One thing that is wrong with sidecar material. -/
inductive Defect where
  | emptyContainerName (index : Nat)
  | missingImage (container : String)
  | duplicateContainer (name : String)
  | emptyVolumeName (index : Nat)
  | duplicateVolume (name : String)
  | emptyPullSecretName (index : Nat)
deriving DecidableEq, Repr, Inhabited

/-- The wording of a defect. -/
def Defect.message : Defect → String
  | .emptyContainerName i => "containers[" ++ toString i ++ "] has no name"
  | .missingImage c => "container " ++ Quoted.quote c ++ " has no image"
  | .duplicateContainer n => "container " ++ Quoted.quote n ++ " is declared more than once"
  | .emptyVolumeName i => "volumes[" ++ toString i ++ "] has no name"
  | .duplicateVolume n => "volume " ++ Quoted.quote n ++ " is declared more than once"
  | .emptyPullSecretName i => "imagePullSecrets[" ++ toString i ++ "] has no name"

namespace Defect

/-- What is wrong with the name of an item at an index, given the names before it. -/
def ofName (empty : Nat → Defect) (duplicate : String → Defect) (seen : List String) (index : Nat)
    (name : String) : List Defect :=
  if name = "" then [empty index] else if seen.contains name then [duplicate name] else []

/-- What is wrong with the image of a container. -/
def ofImage (c : Value) : List Defect :=
  if (c.textAt? "image").getD "" = "" then [.missingImage c.name] else []

/-- What is wrong with containers that follow others. -/
def ofContainers (seen : List String) (index : Nat) : List Value → List Defect
  | [] => []
  | c :: rest =>
    ofName .emptyContainerName .duplicateContainer seen index c.name ++ ofImage c
      ++ ofContainers (c.name :: seen) (index + 1) rest

/-- What is wrong with volumes that follow others. -/
def ofVolumes (seen : List String) (index : Nat) : List Value → List Defect
  | [] => []
  | v :: rest =>
    ofName .emptyVolumeName .duplicateVolume seen index v.name
      ++ ofVolumes (v.name :: seen) (index + 1) rest

/-- What is wrong with image pull secrets that follow others. -/
def ofSecrets (index : Nat) : List Value → List Defect
  | [] => []
  | s :: rest =>
    (if s.name = "" then [.emptyPullSecretName index] else []) ++ ofSecrets (index + 1) rest

end Defect

/-- All that is wrong with sidecar material. -/
def Material.defects (m : Material) : List Defect :=
  Defect.ofContainers [] 0 m.containers ++ Defect.ofVolumes [] 0 m.volumes
    ++ Defect.ofSecrets 0 m.imagePullSecrets

end SidecarAdmission.Sidecar
