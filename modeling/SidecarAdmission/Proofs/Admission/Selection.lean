import SidecarAdmission.Proofs.Admission.Annotations
import SidecarAdmission.Proofs.Admission.PatchedPod
import SidecarAdmission.Proofs.Text.Ascii

/-!
Which pods are injected, and what is sent for them. The decision fails only if the pod cannot be
read. It depends on two annotations alone, compared without regard to the case of ASCII letters, and
a patch always sets the status, behind what it appends to the lists of the pod.
-/

set_option autoImplicit false
set_option relaxedAutoImplicit false

namespace SidecarAdmission.Admission

open SidecarAdmission.Text SidecarAdmission.Text.Ascii SidecarAdmission.Json
open SidecarAdmission.Resource

namespace Selection

/-- Whether a resource asks for injection. -/
def Subject.Asks (m : Subject) : Prop :=
  ∃ value, m.annotation? requestKey = some value ∧
    (SameLetters value "y" ∨ SameLetters value "yes")

/-- Whether a resource has the status of one that has been injected. -/
def Subject.IsMarked (m : Subject) : Prop :=
  ∃ value, m.annotation? statusKey = some value ∧ SameLetters value injected

theorem not_sameLetters_empty : ¬ SameLetters "" injected := by
  intro h
  have hlength := List.Forall₂.length_eq h
  revert hlength
  decide

theorem isMarked_iff (m : Subject) :
    m.IsMarked ↔ equalsIgnoringCase ((m.annotation? statusKey).getD "") injected = true := by
  rw [equalsIgnoringCase_iff, Subject.IsMarked]
  cases m.annotation? statusKey with
  | none => simp [not_sameLetters_empty]
  | some value => simp

theorem asks_iff (m : Subject) :
    m.Asks ↔ ∃ value, m.annotation? requestKey = some value ∧
      (equalsIgnoringCase value "y" || equalsIgnoringCase value "yes") = true := by
  simp only [Subject.Asks, Bool.or_eq_true, equalsIgnoringCase_iff]

theorem standing_eq_wanted_iff (m : Subject) : standing m = .wanted ↔ m.Asks ∧ ¬ m.IsMarked := by
  rw [isMarked_iff, asks_iff, standing]
  split
  next hmarked => simp [hmarked]
  next hmarked =>
    cases m.annotation? requestKey with
    | none => simp
    | some value =>
      dsimp only
      split
      next hasks => exact iff_of_true rfl ⟨⟨value, rfl, hasks⟩, hmarked⟩
      next hasks =>
        refine iff_of_false (by simp) ?_
        rintro ⟨⟨other, hother, h⟩, -⟩
        obtain rfl := Option.some.inj hother
        exact hasks h

/-- A resource is changed exactly if it asks for it and has not been injected. -/
theorem isSelected_iff (m : Subject) : isSelected m = true ↔ m.Asks ∧ ¬ m.IsMarked := by
  rw [isSelected, beq_iff_eq]
  exact standing_eq_wanted_iff m

end Selection

namespace Injection

/-- Whether operations bring items to the list at a place: none if there are none, else one that
adds them as a list, or one for each that appends it. -/
inductive Appends (place : String) : List Value → List Json.Operation → Prop
  | nothing : Appends place [] []
  | whole {items : List Value} : items ≠ [] →
      Appends place items [⟨.add, place, .array (items.map Value.toJson)⟩]
  | each {items : List Value} : items ≠ [] →
      Appends place items (items.map fun item => ⟨.add, place ++ "/-", item.toJson⟩)

theorem appends_appendItems (target additions : List Value) (place : String) :
    Appends place additions (appendItems target additions place) := by
  unfold appendItems
  split
  next hempty =>
    obtain rfl := List.isEmpty_iff.mp hempty
    exact .nothing
  next hadditions =>
    have hne : additions ≠ [] := fun h => hadditions (List.isEmpty_iff.mpr h)
    split
    · exact .whole hne
    · exact .each hne

/-- The parts that a patch consists of, in order. -/
theorem patch_parts (pod : Value) (sidecar : Sidecar.Spec) (annotations : List (String × String)) :
    ∃ containers volumes secrets updates,
      patch pod sidecar annotations = containers ++ volumes ++ secrets ++ updates ∧
      Appends containersPlace sidecar.containers containers ∧
      Appends volumesPlace sidecar.volumes volumes ∧
      Appends imagePullSecretsPlace sidecar.imagePullSecrets secrets ∧
      List.Forall₂ Sets annotations updates :=
  ⟨_, _, _, _, rfl, appends_appendItems _ _ _, appends_appendItems _ _ _,
    appends_appendItems _ _ _, forall₂_sets _ false annotations⟩

end Injection

namespace Decision

open SidecarAdmission.Admission.Selection SidecarAdmission.Admission.Injection

/-- Whether a patch is made of what brings sidecar material, and one operation that sets the
status. -/
def Marks (sidecar : Sidecar.Spec) (patch : List Json.Operation) : Prop :=
  ∃ containers volumes secrets mark,
    patch = containers ++ volumes ++ secrets ++ [mark] ∧
    Appends containersPlace sidecar.containers containers ∧
    Appends volumesPlace sidecar.volumes volumes ∧
    Appends imagePullSecretsPlace sidecar.imagePullSecrets secrets ∧
    Sets (statusKey, injected) mark

theorem marks_patch (pod : Value) (sidecar : Sidecar.Spec) :
    Marks sidecar (Injection.patch pod sidecar marks) := by
  obtain ⟨containers, volumes, secrets, updates, hpatch, hcontainers, hvolumes, hsecrets, hupdates⟩
    := patch_parts pod sidecar marks
  obtain ⟨mark, rest, hmark, hrest, rfl⟩ := List.forall₂_cons_left_iff.mp hupdates
  obtain rfl := List.forall₂_nil_left_iff.mp hrest
  exact ⟨containers, volumes, secrets, mark, hpatch, hcontainers, hvolumes, hsecrets, hmark⟩

theorem Marks.ne_nil {sidecar : Sidecar.Spec} {patch : List Json.Operation}
    (h : Marks sidecar patch) : patch ≠ [] := by
  obtain ⟨containers, volumes, secrets, mark, rfl, -⟩ := h
  simp

section

variable {registry : Registry} {raw : Octets} {sidecar : Sidecar.Spec}

theorem patchFor_of_error {cause : ReadError} (h : registry.readPod raw = .error cause) :
    patchFor registry raw sidecar = .error (.decode cause) := by
  rw [patchFor, h]

theorem patchFor_of_ok {pod : Value} (h : registry.readPod raw = .ok pod) :
    patchFor registry raw sidecar =
      .ok (if isSelected (.ofMetadata (Pod.metadata pod)) then
        some (Injection.patch pod sidecar marks) else none) := by
  rw [patchFor, h]
  dsimp only
  split <;> rfl

theorem patchFor_eq_error_iff {e : DecisionError} :
    patchFor registry raw sidecar = .error e ↔
      ∃ cause, registry.readPod raw = .error cause ∧ e = .decode cause := by
  cases hread : registry.readPod raw with
  | error cause => simp [patchFor_of_error hread, eq_comm]
  | ok pod => simp [patchFor_of_ok hread]

end

/-- A decision fails exactly if the pod cannot be read, and for the same reason. Else a patch is
sent if and only if the pod asks for injection and does not have the status of one that has been
injected, as told by these annotations of its text. A patch is never empty: it brings containers,
volumes and image pull secrets, in this order, and sets the status by one last operation. -/
theorem patchFor_decides (registry : Registry) (raw : Octets) (sidecar : Sidecar.Spec) :
    (∀ e, patchFor registry raw sidecar = .error e ↔
      ∃ cause, registry.readPod raw = .error cause ∧ e = .decode cause) ∧
    (∀ pod, registry.readPod raw = .ok pod →
      let subject := Subject.ofMetadata (Pod.metadata pod)
      (∃ doc, parse? raw = some doc ∧ ∀ key, subject.annotation? key = annotation? doc key) ∧
      ∃ decided, patchFor registry raw sidecar = .ok decided ∧
        (decided.isSome = true ↔ subject.Asks ∧ ¬ subject.IsMarked) ∧
        ∀ patch, decided = some patch → patch ≠ [] ∧ Marks sidecar patch) ∧
    ∀ word ∈ ["y", "yes", injected], ∀ value, SameLetters value word →
      ∀ c ∈ value.toList, c.toNat < 128 := by
  refine ⟨fun e => patchFor_eq_error_iff, fun pod hread => ⟨?_, ?_⟩,
    fun word hword value hsame => ?_⟩
  · obtain ⟨doc, hdoc, hpod⟩ := Registry.readPod_eq_ok hread
    refine ⟨doc, hdoc, fun key => ?_⟩
    have hlookup := Pod.lookup_annotations hpod key
    rw [Subject.annotation?, annotation?]
    cases hat : doc.at? (Pod.annotationPath key) with
    | none =>
      rw [hat] at hlookup
      exact Option.map_eq_none_iff.mp hlookup.symm
    | some child =>
      rw [hat] at hlookup
      obtain ⟨text, htext, hchild⟩ := Option.map_eq_some_iff.mp hlookup.symm
      rw [Option.bind_some, ← hchild]
      exact htext
  · refine ⟨_, patchFor_of_ok hread, ?_, fun patch hpatch => ?_⟩
    · rw [← isSelected_iff]
      split
      next h => simp [h]
      next h => simp [h]
    · obtain ⟨-, hpatch⟩ := Option.ite_none_right_eq_some.mp hpatch
      obtain rfl := Option.some.inj hpatch
      have hmarks := marks_patch pod sidecar
      exact ⟨hmarks.ne_nil, hmarks⟩
  · have hwords : ∀ word ∈ ["y", "yes", injected], ∀ d ∈ word.toList, d.toNat < 128 := by
      simp [injected]
    exact hsame.isAscii (hwords word hword)

/-- A pod that asks for injection, and has a status that is not that of an injected one. -/
theorem patchFor_decides_pending :
    ∃ pod patch, Registry.standard.readPod pendingPod.print = .ok pod ∧
      (Subject.ofMetadata (Pod.metadata pod)).Asks ∧
      ¬ (Subject.ofMetadata (Pod.metadata pod)).IsMarked ∧
      patchFor .standard pendingPod.print proxySidecar = .ok (some patch) ∧
      patch ≠ [] ∧ Marks proxySidecar patch := by
  obtain ⟨patch, hpatch⟩ :=
    exists_patch .standard pendingPod.print proxySidecar (by decide +kernel)
  obtain ⟨pod, hread, -, -⟩ := patchFor_eq_some hpatch
  obtain ⟨-, hok, -⟩ := patchFor_decides .standard pendingPod.print proxySidecar
  obtain ⟨-, decided, hdecided, hiff, hparts⟩ := hok pod hread
  obtain rfl : decided = some patch := Except.ok.inj (hdecided.symm.trans hpatch)
  obtain ⟨hasks, hmarked⟩ := hiff.mp rfl
  exact ⟨pod, patch, hread, hasks, hmarked, hpatch, hparts patch rfl⟩

end Decision

end SidecarAdmission.Admission
