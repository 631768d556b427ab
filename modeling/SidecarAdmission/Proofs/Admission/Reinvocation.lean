import SidecarAdmission.Proofs.Admission.PatchedPod
import SidecarAdmission.Proofs.Resource.Value

/-!
Deciding on a patched object again. However the patch has set the status, it is found at the place
where a decision looks for it, also after the object has been written and read back. So there is
never a second patch, whatever the material is by then.
-/

set_option autoImplicit false
set_option relaxedAutoImplicit false

namespace SidecarAdmission.Admission.Decision

open SidecarAdmission.Text SidecarAdmission.Json SidecarAdmission.Resource
open SidecarAdmission.Resource.Pod (annotationPath)
open SidecarAdmission.Admission.Injection

/-- Whether two documents have the same texts at all places. -/
def SameTexts (v w : Json) : Prop :=
  ∀ names, (v.at? names).bind Json.text? = (w.at? names).bind Json.text?

/-- Whether each document that sidecar material holds as it is has a spelling. -/
def IsSpelled (sidecar : Sidecar.Spec) : Prop :=
  ∀ list ∈ lists sidecar, ∀ v ∈ list.2, ∀ free ∈ v.frees, ∃ text, parse? text = some free

/-- A pod with the status of an injected pod is done with. -/
theorem standing_eq_done {doc : Json} {pod : Value} (h : Value.decode? .pod doc = some pod)
    (hstatus : (doc.at? (annotationPath Selection.statusKey)).bind Json.text? =
      some Selection.injected) :
    Selection.standing (.ofMetadata (Pod.metadata pod)) = .done := by
  have htext := Pod.lookup_annotations h Selection.statusKey
  obtain ⟨status, hat, hinjected⟩ := Option.bind_eq_some_iff.mp hstatus
  rw [hat, Option.map_some, hinjected] at htext
  obtain ⟨value, hlookup, hvalue⟩ := Option.map_eq_some_iff.mp htext.symm
  obtain rfl : value = Selection.injected := Option.some.inj hvalue
  have hannotation : (Selection.Subject.ofMetadata (Pod.metadata pod)).annotation?
      Selection.statusKey = some Selection.injected := hlookup
  have hequal : Ascii.equalsIgnoringCase Selection.injected Selection.injected = true := by
    decide
  simp [Selection.standing, hannotation, hequal]

/-- A pod that is done with gets no patch. -/
theorem patchFor_of_standing {registry : Registry} {raw : Octets} {pod : Value}
    (hread : registry.readPod raw = .ok pod)
    (hdone : Selection.standing (.ofMetadata (Pod.metadata pod)) = .done)
    (sidecar : Sidecar.Spec) : patchFor registry raw sidecar = .ok none := by
  have hselected : Selection.isSelected (.ofMetadata (Pod.metadata pod)) = false := by
    simp [Selection.isSelected, hdone]
  simp [patchFor, hread, hselected]

/-- The status stands in a patched document where a decision looks for it. -/
theorem status_of_applyPatch? {registry : Registry} {raw : Octets} {sidecar : Sidecar.Spec}
    {patch : List Json.Operation} {doc patched : Json} (hdoc : parse? raw = some doc)
    (h : patchFor registry raw sidecar = .ok (some patch))
    (happly : applyPatch? patch doc = some patched) :
    (patched.at? (annotationPath Selection.statusKey)).bind Json.text? =
      some Selection.injected := by
  obtain ⟨pod, before, -, hbefore, ⟨request, hrequest⟩, rfl⟩ := eq_injectedInto hdoc h happly
  obtain ⟨after, hafter, -, hget⟩ := get?_annotations_injectedInto hbefore
    (isObject_of_get? hrequest) pod sidecar Selection.statusKey Selection.injected
  rw [Pod.annotationPath_eq, at?_concat, hafter, Option.bind_some, hget, if_pos rfl, Option.bind_some]
  exact Literal.text?_ofText Selection.injected

/-- A patched document is well spelled if the sidecar material is. -/
theorem wellSpelled_patched {registry : Registry} {raw : Octets} {sidecar : Sidecar.Spec}
    {patch : List Json.Operation} {doc patched : Json} (hdoc : parse? raw = some doc)
    (h : patchFor registry raw sidecar = .ok (some patch))
    (happly : applyPatch? patch doc = some patched) (hsidecar : IsSpelled sidecar) :
    patched.WellSpelled := by
  obtain ⟨pod, -, -, -, -, rfl⟩ := eq_injectedInto hdoc h happly
  refine wellSpelled_injectedInto (exists_parse?_iff.mp ⟨raw, hdoc⟩) ?_ pod _ _
  intro list hlist v hv
  apply Value.wellSpelled_toJson
  exact fun free hfree => exists_parse?_iff.mp (hsidecar list hlist v hv free hfree)

/-- Once a patch has been applied, a decision on what the object is written as makes no second one,
with whatever material: if that is a pod it is done with, and stays as it is. What is written for
the patched document itself is such a text. -/
theorem no_second_patch {registry : Registry} {raw : Octets} {first : Sidecar.Spec}
    {patch : List Json.Operation} {doc patched : Json} (hdoc : parse? raw = some doc)
    (h : patchFor registry raw first = .ok (some patch))
    (happly : applyPatch? patch doc = some patched) :
    (∀ text written, parse? text = some written → SameTexts written patched → ∀ second,
      (∀ again, patchFor registry text second ≠ .ok (some again)) ∧
        ∀ pod, registry.readPod text = .ok pod →
          Selection.standing (.ofMetadata (Pod.metadata pod)) = .done ∧
            patchFor registry text second = .ok none) ∧
      (IsSpelled first → parse? patched.print = some patched) := by
  have hstatus := status_of_applyPatch? hdoc h happly
  refine ⟨?_, fun hfirst => parse?_print (wellSpelled_patched hdoc h happly hfirst)⟩
  intro text written hwritten hsame second
  have hdone : ∀ pod, registry.readPod text = .ok pod →
      Selection.standing (.ofMetadata (Pod.metadata pod)) = .done := by
    intro pod hread
    obtain ⟨read, hparse, hpod⟩ := Registry.readPod_eq_ok hread
    obtain rfl : written = read := Option.some.inj (hwritten.symm.trans hparse)
    exact standing_eq_done hpod ((hsame _).trans hstatus)
  have hnone : ∀ pod, registry.readPod text = .ok pod →
      patchFor registry text second = .ok none :=
    fun pod hread => patchFor_of_standing hread (hdone pod hread) second
  refine ⟨?_, fun pod hread => ⟨hdone pod hread, hnone pod hread⟩⟩
  intro again hagain
  obtain ⟨pod, hread, -, -⟩ := patchFor_eq_some hagain
  rw [hnone pod hread] at hagain
  simp at hagain

/-- The patched pod is written, read back and left as it is. -/
theorem no_second_patch_pending :
    ∃ doc patch patched, parse? pendingPod.print = some doc ∧
      patchFor .standard pendingPod.print proxySidecar = .ok (some patch) ∧
      applyPatch? patch doc = some patched ∧ parse? patched.print = some patched ∧
      patchFor .standard patched.print proxySidecar = .ok none := by
  obtain ⟨doc, patch, patched, _, hdoc, hpatch, happly, -, -, -⟩ := patched_pendingPod
  have hfree : ∀ list ∈ lists proxySidecar, ∀ v ∈ list.2, v.frees.isEmpty = true := by
    decide +kernel
  have hspelled : IsSpelled proxySidecar := by
    intro list hlist v hv free hmem
    rw [List.isEmpty_iff.mp (hfree list hlist v hv)] at hmem
    contradiction
  obtain ⟨hagain, hwritten⟩ := no_second_patch hdoc hpatch happly
  have hread : ((patchFor .standard pendingPod.print proxySidecar).toOption.join.bind
      fun patch => (parse? pendingPod.print).bind fun doc => applyPatch? patch doc).any
        (fun patched => (Registry.standard.readPod patched.print).toOption.isSome) = true := by
    decide +kernel
  rw [hpatch, hdoc] at hread
  simp only [Except.toOption, Option.join_some, Option.bind_some, happly, Option.any_some] at hread
  cases hpod : Registry.standard.readPod patched.print with
  | error e => simp [hpod] at hread
  | ok pod =>
    obtain ⟨-, hnone⟩ := hagain patched.print patched (hwritten hspelled) (fun _ => rfl)
      proxySidecar
    exact ⟨doc, patch, patched, hdoc, hpatch, happly, hwritten hspelled, (hnone pod hpod).2⟩

end SidecarAdmission.Admission.Decision
