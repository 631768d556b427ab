import SidecarAdmission.Admission.Decision
import SidecarAdmission.Proofs.Admission.Injection

/-!
What a patch that is decided on does to the object it was made for. The object is the document that
its text spells. The patch extends the lists of the specification by the whole sidecar material and
sets the status; the other annotations are kept only if the status was there and not empty, and the
patch applies only if there is nothing to inject or the object has a specification.
-/

set_option autoImplicit false
set_option relaxedAutoImplicit false

namespace SidecarAdmission.Admission

open SidecarAdmission.Text SidecarAdmission.Json SidecarAdmission.Resource
open SidecarAdmission.Admission.Injection

/-- The source that a text is spells the document that the text spells. -/
theorem value?_of_ofText? {raw : Octets} {source : Source} (h : Source.ofText? raw = some source) :
    source.value? = parse? raw := by
  obtain ⟨lexemes, hlexemes, hrest⟩ := Option.bind_eq_some_iff.mp h
  obtain ⟨doc, hdoc, hsource⟩ := Option.bind_eq_some_iff.mp hrest
  obtain rfl : ⟨lexemes⟩ = source := Option.some.inj hsource
  simp only [parse?, hlexemes, Option.bind_some]
  rfl

namespace Registry

variable {registry : Registry} {raw : Octets} {source : Source} {claim : Claim}

theorem readPod_of_known (hsource : Source.ofText? raw = some source)
    (hclaim : Claim.ofSource? source = some claim)
    (hknown : claim.kind ≠ "" → registry.knows claim.apiVersion claim.kind = true) :
    registry.readPod raw =
      (source.value?.bind (Value.decode? .pod)).elim (.error .malformed) .ok := by
  unfold readPod
  by_cases hkind : claim.kind = ""
  · simp only [hsource, hclaim, hkind]
    cases source.value?.bind (Value.decode? .pod) <;> rfl
  · simp only [hsource, hclaim, check, hknown hkind, bne_iff_ne.mpr hkind, if_true]
    cases source.value?.bind (Value.decode? .pod) <;> rfl

theorem readPod_of_unknown (hsource : Source.ofText? raw = some source)
    (hclaim : Claim.ofSource? source = some claim) (hkind : claim.kind ≠ "")
    (hunknown : registry.knows claim.apiVersion claim.kind = false) :
    registry.readPod raw = .error (.unknownKind claim.apiVersion claim.kind) := by
  unfold readPod
  simp [hsource, hclaim, hkind, check, hunknown, bind, Except.bind]

/-- A text is read as a pod if its claim is known, or is none of a kind, and its document decodes to
the pod. -/
theorem readPod_eq_ok_iff {pod : Value} :
    registry.readPod raw = .ok pod ↔
      ∃ source claim, Source.ofText? raw = some source ∧ Claim.ofSource? source = some claim ∧
        (claim.kind ≠ "" → registry.knows claim.apiVersion claim.kind = true) ∧
        source.value?.bind (Value.decode? .pod) = some pod := by
  constructor
  · intro h
    cases hsource : Source.ofText? raw with
    | none => simp [readPod, hsource] at h
    | some source =>
      cases hclaim : Claim.ofSource? source with
      | none => simp [readPod, hsource, hclaim] at h
      | some claim =>
        refine ⟨source, claim, rfl, hclaim, ?_⟩
        by_cases hknown : claim.kind ≠ "" → registry.knows claim.apiVersion claim.kind = true
        · rw [readPod_of_known hsource hclaim hknown] at h
          cases hdecode : source.value?.bind (Value.decode? .pod) with
          | none =>
            rw [hdecode] at h
            contradiction
          | some found =>
            rw [hdecode] at h
            exact ⟨hknown, congrArg some (Except.ok.inj h)⟩
        · obtain ⟨hkind, hunknown⟩ := Classical.not_imp.mp hknown
          rw [readPod_of_unknown hsource hclaim hkind (by simpa using hunknown)] at h
          contradiction
  · rintro ⟨source, claim, hsource, hclaim, hknown, hpod⟩
    rw [readPod_of_known hsource hclaim hknown, hpod, Option.elim_some]

/-- A pod that is read is decoded from the document that its text spells. -/
theorem readPod_eq_ok {pod : Value} (h : registry.readPod raw = .ok pod) :
    ∃ doc, parse? raw = some doc ∧ Value.decode? .pod doc = some pod := by
  obtain ⟨source, claim, hsource, -, -, hpod⟩ := readPod_eq_ok_iff.mp h
  rw [value?_of_ofText? hsource] at hpod
  exact Option.bind_eq_some_iff.mp hpod

end Registry

namespace Decision

/-- A patch is decided on for a pod that is selected. -/
theorem patchFor_eq_some {registry : Registry} {raw : Octets} {sidecar : Sidecar.Spec}
    {patch : List Json.Operation} (h : patchFor registry raw sidecar = .ok (some patch)) :
    ∃ pod, registry.readPod raw = .ok pod ∧
      Selection.isSelected (.ofMetadata (Pod.metadata pod)) = true ∧
      patch = Injection.patch pod sidecar marks := by
  unfold patchFor at h
  split at h
  next => contradiction
  next pod hpod =>
    split at h
    next selected =>
      have hpatch : Injection.patch pod sidecar marks = patch :=
        Option.some.inj (Except.ok.inj h)
      exact ⟨pod, hpod, selected, hpatch.symm⟩
    next => simp at h

/-- A pod that is selected has an annotation that asks for it, so its document has annotations. -/
theorem annotations_of_isSelected {doc : Json} {pod : Value}
    (h : Value.decode? .pod doc = some pod)
    (hselected : Selection.isSelected (.ofMetadata (Pod.metadata pod)) = true) :
    ∃ annotations request, doc.at? ["metadata", "annotations"] = some annotations ∧
      annotations.get? Selection.requestKey = some request := by
  have hstanding : Selection.standing (.ofMetadata (Pod.metadata pod)) = .wanted := by
    simpa [Selection.isSelected] using hselected
  have hrequest : ∃ value, ((Pod.metadata pod).annotations?.getD []).lookup Selection.requestKey =
      some value := by
    unfold Selection.standing at hstanding
    split at hstanding
    · contradiction
    · split at hstanding
      next value hvalue => exact ⟨value, hvalue⟩
      next => contradiction
  obtain ⟨value, hvalue⟩ := hrequest
  have htext := Pod.lookup_annotations h Selection.requestKey
  rw [hvalue, Option.map_some] at htext
  obtain ⟨request, hat, -⟩ := Option.map_eq_some_iff.mp htext
  rw [Pod.annotationPath_eq, at?_concat] at hat
  obtain ⟨annotations, hannotations, hget⟩ := Option.bind_eq_some_iff.mp hat
  exact ⟨annotations, request, hannotations, hget⟩

/-- A patch that is decided on applies to the document of its object if there is nothing to inject
or the document has a specification, and to no other; it then makes the document that it aims at. -/
theorem applyPatch?_patchFor {registry : Registry} {raw : Octets} {sidecar : Sidecar.Spec}
    {patch : List Json.Operation} {doc : Json} (hdoc : parse? raw = some doc)
    (h : patchFor registry raw sidecar = .ok (some patch)) :
    ∃ pod, Value.decode? .pod doc = some pod ∧
      Selection.isSelected (.ofMetadata (Pod.metadata pod)) = true ∧
      applyPatch? patch doc =
        if sidecar.isEmpty = true ∨ (doc.given? "spec").isSome = true then
          some (injectedInto doc pod sidecar Selection.statusKey Selection.injected)
        else none := by
  obtain ⟨pod, hread, hselected, rfl⟩ := patchFor_eq_some h
  obtain ⟨doc', hdoc', hpod⟩ := Registry.readPod_eq_ok hread
  obtain rfl : doc = doc' := Option.some.inj (hdoc.symm.trans hdoc')
  obtain ⟨annotations, -, hannotations, -⟩ := annotations_of_isSelected hpod hselected
  exact ⟨pod, hpod, hselected, applyPatch?_patch hpod hannotations sidecar _ _⟩

/-- If the patch applies, the document that it makes is the one that it aims at. -/
theorem eq_injectedInto {registry : Registry} {raw : Octets} {sidecar : Sidecar.Spec}
    {patch : List Json.Operation} {doc patched : Json} (hdoc : parse? raw = some doc)
    (h : patchFor registry raw sidecar = .ok (some patch))
    (happly : applyPatch? patch doc = some patched) :
    ∃ pod annotations, Value.decode? .pod doc = some pod ∧
      doc.at? ["metadata", "annotations"] = some annotations ∧
      (∃ request, annotations.get? Selection.requestKey = some request) ∧
      patched = injectedInto doc pod sidecar Selection.statusKey Selection.injected := by
  obtain ⟨pod, hpod, hselected, hresult⟩ := applyPatch?_patchFor hdoc h
  obtain ⟨annotations, request, hannotations, hrequest⟩ := annotations_of_isSelected hpod hselected
  refine ⟨pod, annotations, hpod, hannotations, ⟨request, hrequest⟩, ?_⟩
  rw [happly] at hresult
  split at hresult
  · exact Option.some.inj hresult
  · contradiction

/-! ### Decisions that are computed -/

theorem exists_patch (registry : Registry) (raw : Octets) (sidecar : Sidecar.Spec)
    (h : (patchFor registry raw sidecar).toOption.join.isSome = true) :
    ∃ patch, patchFor registry raw sidecar = .ok (some patch) := by
  cases hdecided : patchFor registry raw sidecar with
  | error e => simp [hdecided, Except.toOption] at h
  | ok patch? =>
    rw [hdecided] at h
    obtain ⟨patch, rfl⟩ : ∃ patch, patch? = some patch := Option.isSome_iff_exists.mp h
    exact ⟨patch, rfl⟩

theorem exists_patched (registry : Registry) (raw : Octets) (sidecar : Sidecar.Spec)
    (h : (patchFor registry raw sidecar).toOption.join.isSome = true)
    (happly : sidecar.isEmpty = true ∨ ((parse? raw).bind (·.given? "spec")).isSome = true) :
    ∃ doc patch patched, parse? raw = some doc ∧
      patchFor registry raw sidecar = .ok (some patch) ∧ applyPatch? patch doc = some patched := by
  obtain ⟨patch, hpatch⟩ := exists_patch registry raw sidecar h
  obtain ⟨_, hread, -, -⟩ := patchFor_eq_some hpatch
  obtain ⟨doc, hdoc, -⟩ := Registry.readPod_eq_ok hread
  obtain ⟨_, -, -, hresult⟩ := applyPatch?_patchFor hdoc hpatch
  rw [hdoc, Option.bind_some] at happly
  rw [if_pos happly] at hresult
  exact ⟨doc, patch, _, hdoc, hpatch, hresult⟩

end Decision

end SidecarAdmission.Admission
