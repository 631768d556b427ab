import SidecarAdmission.Proofs.Admission.Decision

/-!
The object that a patch makes. Its annotations are those of the object that it was made for with the
status set, provided that the object had a status that is not empty; without one the status stands
alone. Its lists are those of the object with the sidecar material behind, and all else is kept. The
patch applies exactly if there is nothing to inject or the object has a specification.
-/

set_option autoImplicit false
set_option relaxedAutoImplicit false

namespace SidecarAdmission.Admission.Decision

open SidecarAdmission.Text SidecarAdmission.Json SidecarAdmission.Resource
open SidecarAdmission.Admission.Injection

/-- Whether a document has the members of another one, with one of them set. -/
def IsUpdate (before after : Json) (key : String) (value : Json) : Prop :=
  ∀ other, after.get? other = if other = key then some value else before.get? other

/-! ### Annotations -/

/-- The annotations of the patched object are those of the object with the status set exactly if
the object has a status that is not empty; else the status is the only one. -/
theorem annotations_of_patched {registry : Registry} {raw : Octets} {sidecar : Sidecar.Spec}
    {patch : List Json.Operation} {doc patched : Json} (hdoc : parse? raw = some doc)
    (h : patchFor registry raw sidecar = .ok (some patch))
    (happly : applyPatch? patch doc = some patched) :
    ∃ before after, doc.at? ["metadata", "annotations"] = some before ∧
      patched.at? ["metadata", "annotations"] = some after ∧
      before.isObject = true ∧ after.isObject = true ∧
      (∀ key, after.get? key =
        if key = Selection.statusKey then some (.string Selection.injected)
        else if annotationText doc Selection.statusKey = "" then none else before.get? key) ∧
      (IsUpdate before after Selection.statusKey (.string Selection.injected) ↔
        annotationText doc Selection.statusKey ≠ "") := by
  obtain ⟨pod, before, -, hbefore, ⟨request, hrequest⟩, rfl⟩ := eq_injectedInto hdoc h happly
  have hobject : before.isObject = true := isObject_of_get? hrequest
  obtain ⟨after, hafter, hobject', hget⟩ := get?_annotations_injectedInto hbefore hobject pod
    sidecar Selection.statusKey Selection.injected
  refine ⟨before, after, hbefore, hafter, hobject, hobject', hget, ?_⟩
  constructor
  · -- The annotation by which the pod asks for injection is the one that would be lost.
    intro hupdate hempty
    have hne : Selection.requestKey ≠ Selection.statusKey := by decide
    have hkept := hupdate Selection.requestKey
    rw [hget, if_neg hne, if_neg hne, if_pos hempty, hrequest] at hkept
    contradiction
  · intro hnonempty other
    rw [hget, if_neg hnonempty]

/-- One container, with its defaults. -/
def proxySidecar : Sidecar.Spec :=
  .ofMaterial [(Value.empty .container).modify "name" fun _ => .text "proxy"] [] []

/-- A pod that asks for injection, with a status that is not that of an injected pod. -/
def pendingPod : Json :=
  ofMembers [
    ("metadata", ofMembers [
      ("annotations", ofMembers [
        (Selection.requestKey, .string "yes"), (Selection.statusKey, .string "pending"),
        ("owner", .string "team")])]),
    ("spec", ofMembers [("hostNetwork", .bool true)])]

theorem patched_pendingPod :
    ∃ doc patch patched spec, parse? pendingPod.print = some doc ∧
      patchFor .standard pendingPod.print proxySidecar = .ok (some patch) ∧
      applyPatch? patch doc = some patched ∧
      annotationText doc Selection.statusKey = "pending" ∧
      doc.get? "spec" = some spec ∧ spec.isObject = true := by
  obtain ⟨doc, patch, patched, hdoc, hpatch, happly⟩ :=
    exists_patched .standard pendingPod.print proxySidecar
      (by decide +kernel) (.inr (by decide +kernel))
  have hstatus : (parse? pendingPod.print).map (annotationText · Selection.statusKey) =
      some "pending" := by decide +kernel
  have hspec : ((parse? pendingPod.print).bind (·.get? "spec")).any isObject = true := by
    decide +kernel
  rw [hdoc, Option.map_some] at hstatus
  rw [hdoc, Option.bind_some, Option.any_eq_true] at hspec
  obtain ⟨spec, hget, hobject⟩ := hspec
  exact ⟨doc, patch, patched, spec, hdoc, hpatch, happly, Option.some.inj hstatus, hget, hobject⟩

/-- A status that is not empty is replaced, and the other annotations are kept. -/
theorem annotations_of_patched_pending :
    ∃ doc patch patched before after, parse? pendingPod.print = some doc ∧
      patchFor .standard pendingPod.print proxySidecar = .ok (some patch) ∧
      applyPatch? patch doc = some patched ∧
      doc.at? ["metadata", "annotations"] = some before ∧
      patched.at? ["metadata", "annotations"] = some after ∧
      IsUpdate before after Selection.statusKey (.string Selection.injected) := by
  obtain ⟨doc, patch, patched, _, hdoc, hpatch, happly, hstatus, -, -⟩ := patched_pendingPod
  obtain ⟨before, after, hbefore, hafter, -, -, -, hupdate⟩ :=
    annotations_of_patched hdoc hpatch happly
  refine ⟨doc, patch, patched, before, after, hdoc, hpatch, happly, hbefore, hafter, ?_⟩
  rw [hupdate, hstatus]
  decide

/-- A pod that asks for injection, with an empty specification. -/
def askingPod : Json :=
  ofMembers [
    ("metadata", ofMembers [
      ("annotations", ofMembers [(Selection.requestKey, .string "y")])]),
    ("spec", ofMembers [])]

/-- Where there is no status the annotation by which the pod asks for injection is lost. -/
theorem annotations_lost :
    ∃ doc patch patched before after, parse? askingPod.print = some doc ∧
      patchFor .standard askingPod.print .empty = .ok (some patch) ∧
      applyPatch? patch doc = some patched ∧
      doc.at? ["metadata", "annotations"] = some before ∧
      patched.at? ["metadata", "annotations"] = some after ∧
      before.get? Selection.requestKey ≠ none ∧ after.get? Selection.requestKey = none ∧
      ¬ IsUpdate before after Selection.statusKey (.string Selection.injected) := by
  obtain ⟨doc, patch, patched, hdoc, hpatch, happly⟩ :=
    exists_patched .standard askingPod.print .empty
      (by decide +kernel) (.inl rfl)
  have hstatus : (parse? askingPod.print).map (annotationText · Selection.statusKey) = some "" := by
    decide +kernel
  rw [hdoc, Option.map_some] at hstatus
  have hne : Selection.requestKey ≠ Selection.statusKey := by decide
  obtain ⟨pod, before, -, hbefore, ⟨request, hrequest⟩, rfl⟩ := eq_injectedInto hdoc hpatch happly
  obtain ⟨after, hafter, -, hget⟩ := get?_annotations_injectedInto hbefore
    (isObject_of_get? hrequest) pod .empty Selection.statusKey Selection.injected
  have hlost : after.get? Selection.requestKey = none := by
    rw [hget, if_neg hne, if_pos (Option.some.inj hstatus)]
  refine ⟨doc, patch, _, before, after, hdoc, hpatch, happly, hbefore, hafter, ?_, hlost, ?_⟩
  · simp [hrequest]
  · intro hupdate
    have hkept := hupdate Selection.requestKey
    rw [hlost, if_neg hne, hrequest] at hkept
    contradiction

/-! ### Applicability -/

/-- A patch applies to the document of its object exactly if there is nothing to inject or the
document has a specification that is an object. -/
theorem exists_patched_iff {registry : Registry} {raw : Octets} {sidecar : Sidecar.Spec}
    {patch : List Json.Operation} {doc : Json} (hdoc : parse? raw = some doc)
    (h : patchFor registry raw sidecar = .ok (some patch)) :
    (∃ patched, applyPatch? patch doc = some patched) ↔
      sidecar.isEmpty = true ∨ ∃ spec, doc.get? "spec" = some spec ∧ spec.isObject = true := by
  obtain ⟨pod, hpod, -, hresult⟩ := applyPatch?_patchFor hdoc h
  have hspec : (doc.given? "spec").isSome = true ↔
      ∃ spec, doc.get? "spec" = some spec ∧ spec.isObject = true := by
    constructor
    · intro hgiven
      obtain ⟨spec, hgiven⟩ := Option.isSome_iff_exists.mp hgiven
      exact ⟨spec, (get?_of_given? hgiven).1, Pod.isObject_of_given?_spec hpod hgiven⟩
    · rintro ⟨spec, hget, hobject⟩
      rw [given?_of_isObject hget hobject]
      rfl
  rw [hresult, ← hspec]
  split
  next happlies => exact ⟨fun _ => happlies, fun _ => ⟨_, rfl⟩⟩
  next hfails => exact ⟨fun ⟨_, hsome⟩ => absurd hsome (by simp), fun hcond => absurd hcond hfails⟩

/-- The patch for a pod with a specification applies. -/
theorem exists_patched_iff_pending :
    ∃ doc patch patched, parse? pendingPod.print = some doc ∧
      patchFor .standard pendingPod.print proxySidecar = .ok (some patch) ∧
      applyPatch? patch doc = some patched := by
  obtain ⟨doc, patch, _, spec, hdoc, hpatch, -, -, hspec, hobject⟩ := patched_pendingPod
  obtain ⟨patched, happly⟩ := (exists_patched_iff hdoc hpatch).mpr (.inr ⟨spec, hspec, hobject⟩)
  exact ⟨doc, patch, patched, hdoc, hpatch, happly⟩

/-- A pod that asks for injection and has no specification. -/
def barePod : Json :=
  ofMembers [
    ("metadata", ofMembers [
      ("annotations", ofMembers [(Selection.requestKey, .string "y")])])]

/-- Where there is no specification the patch adds a member to what is not there. -/
theorem not_exists_patched_bare :
    ∃ doc patch, parse? barePod.print = some doc ∧
      patchFor .standard barePod.print proxySidecar = .ok (some patch) ∧
      ¬ ∃ patched, applyPatch? patch doc = some patched := by
  obtain ⟨patch, hpatch⟩ := exists_patch .standard barePod.print proxySidecar
    (by decide +kernel)
  obtain ⟨_, hread, -, -⟩ := patchFor_eq_some hpatch
  obtain ⟨doc, hdoc, -⟩ := Registry.readPod_eq_ok hread
  obtain ⟨_, -, -, hresult⟩ := applyPatch?_patchFor hdoc hpatch
  have hspec : ((parse? barePod.print).bind (·.given? "spec")).isSome = false := by decide +kernel
  have hempty : proxySidecar.isEmpty = false := by decide +kernel
  rw [hdoc, Option.bind_some] at hspec
  rw [hspec, hempty, if_neg (by decide)] at hresult
  refine ⟨doc, patch, hdoc, hpatch, ?_⟩
  rintro ⟨patched, happly⟩
  rw [hresult] at happly
  contradiction

/-! ### Lists, and what is neither list nor annotation -/

/-- If the document has a specification that is an object, the patch applies. Each list of the
specification then has the items that it had, followed by those of the sidecar material, and stays
as it was if there are none; every place apart from the lists and the annotations keeps its value. -/
theorem lists_of_patched {registry : Registry} {raw : Octets} {sidecar : Sidecar.Spec}
    {patch : List Json.Operation} {doc spec : Json} (hdoc : parse? raw = some doc)
    (hspec : doc.get? "spec" = some spec) (hobject : spec.isObject = true)
    (h : patchFor registry raw sidecar = .ok (some patch)) :
    ∃ patched, applyPatch? patch doc = some patched ∧
      (∀ name additions, (name, additions) ∈ lists sidecar →
        ∃ items, doc.listAt? ["spec", name] = some items ∧
          patched.at? ["spec", name] =
            if additions = [] then doc.at? ["spec", name]
            else some (.array (items ++ additions.map Value.toJson))) ∧
      (∃ after, patched.get? "spec" = some after ∧ after.isObject = true) ∧
      (∃ after, patched.get? "metadata" = some after ∧ after.isObject = true) ∧
      ∀ names, (∀ list ∈ lists sidecar, Apart ["spec", list.1] names) →
        Apart ["metadata", "annotations"] names → patched.at? names = doc.at? names := by
  obtain ⟨pod, hpod, hselected, hresult⟩ := applyPatch?_patchFor hdoc h
  have hgiven : (doc.given? "spec").isSome = true := by
    rw [given?_of_isObject hspec hobject]
    rfl
  rw [if_pos (.inr hgiven)] at hresult
  obtain ⟨before, request, hbefore, hrequest⟩ := annotations_of_isSelected hpod hselected
  obtain ⟨annotations, hannotations, -, -⟩ := get?_annotations_injectedInto hbefore
    (isObject_of_get? hrequest) pod sidecar Selection.statusKey Selection.injected
  refine ⟨_, hresult, ?_, ?_, ?_, ?_⟩
  · exact fun name additions hlist => at?_list_injectedInto hpod hspec hobject hlist _ _
  · exact isObject_spec_injectedInto hspec hobject pod sidecar _ _
  · obtain ⟨metadata, hmetadata, hget⟩ := Option.bind_eq_some_iff.mp hannotations
    obtain ⟨child, hchild, -⟩ := Option.bind_eq_some_iff.mp hget
    exact ⟨metadata, hmetadata, isObject_of_get? hchild⟩
  · exact fun names hlists hapart => at?_injectedInto_of_apart hlists hapart doc pod _ _

/-- A specification without lists gets the one that the sidecar material fills, and keeps the rest;
what is no annotation is kept as well. -/
theorem lists_of_patched_pending :
    ∃ doc patch patched items, parse? pendingPod.print = some doc ∧
      patchFor .standard pendingPod.print proxySidecar = .ok (some patch) ∧
      applyPatch? patch doc = some patched ∧
      doc.listAt? ["spec", "containers"] = some items ∧
      patched.at? ["spec", "containers"] =
        some (.array (items ++ proxySidecar.containers.map Value.toJson)) ∧
      patched.at? ["spec", "volumes"] = doc.at? ["spec", "volumes"] ∧
      patched.at? ["spec", "hostNetwork"] = doc.at? ["spec", "hostNetwork"] := by
  obtain ⟨doc, patch, _, spec, hdoc, hpatch, -, -, hspec, hobject⟩ := patched_pendingPod
  obtain ⟨patched, happly, hlists, -, -, hkept⟩ := lists_of_patched hdoc hspec hobject hpatch
  obtain ⟨items, hitems, hcontainers⟩ := hlists "containers" _ (.head _)
  obtain ⟨_, -, hvolumes⟩ := hlists "volumes" _ (.tail _ (.head _))
  refine ⟨doc, patch, patched, items, hdoc, hpatch, happly, hitems, hcontainers, hvolumes, ?_⟩
  apply hkept
  · decide
  · decide

end SidecarAdmission.Admission.Decision
