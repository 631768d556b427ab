import SidecarAdmission.Proofs.Admission.Answer
import SidecarAdmission.Proofs.Admission.Selection

/-!
What a reply tells of the request. For a pod that can be read, it is determined by the version of
the review, the uid of the request and how the pod stands to injection and, if it is to be injected,
by which of its lists are empty and whether it has a status: two bodies that agree on these have the
same reply, octet by octet, however they differ in everything else.
-/

set_option autoImplicit false
set_option relaxedAutoImplicit false

namespace SidecarAdmission.Admission

open SidecarAdmission.Text SidecarAdmission.Json SidecarAdmission.Resource

namespace Injection

/-- What a patch depends on in a pod: which lists are empty, and whether it has a status that is not
empty. -/
structure Gaps where
  noContainers : Bool
  noVolumes : Bool
  noImagePullSecrets : Bool
  hasStatus : Bool
deriving DecidableEq, Repr, Inhabited

/-- What a patch depends on in a pod. -/
def gaps (pod : Value) : Gaps where
  noContainers := (Pod.listNamed pod "containers").isEmpty
  noVolumes := (Pod.listNamed pod "volumes").isEmpty
  noImagePullSecrets := (Pod.listNamed pod "imagePullSecrets").isEmpty
  hasStatus := isSet (Pod.metadata pod).annotations? Selection.statusKey

theorem appendItems_congr {target other : List Value} (h : target.isEmpty = other.isEmpty)
    (additions : List Value) (place : String) :
    appendItems target additions place = appendItems other additions place := by
  simp only [appendItems, h]

/-- Setting annotations depends on the target only through which of them are set there. -/
theorem setAnnotations_congr {target other : Option Annotations} (created : Bool)
    {updates : List (String × String)} (h : ∀ u ∈ updates, isSet target u.1 = isSet other u.1) :
    setAnnotations target created updates = setAnnotations other created updates := by
  -- Once there are annotations by an earlier update, the target is not looked at any more.
  induction updates generalizing created with
  | nil => rfl
  | cons u rest ih =>
    obtain ⟨hfirst, hrest⟩ := List.forall_mem_cons.mp h
    cases created with
    | true => rw [setAnnotations_created, setAnnotations_created, ih true hrest]
    | false =>
      cases hu : isSet target u.1 with
      | true =>
        rw [setAnnotations_of_isSet hu, setAnnotations_of_isSet (hfirst.symm.trans hu),
          ih false hrest]
      | false =>
        rw [setAnnotations_of_not_isSet hu, setAnnotations_of_not_isSet (hfirst.symm.trans hu),
          ih true hrest]

/-- Pods that agree on what a patch depends on have the same patch. -/
theorem patch_congr {pod other : Value} (h : gaps pod = gaps other) (sidecar : Sidecar.Spec) :
    patch pod sidecar marks = patch other sidecar marks := by
  obtain ⟨hcontainers, hvolumes, hsecrets, hstatus⟩ := Gaps.mk.inj h
  have hmarks : annotate (Pod.metadata pod).annotations? marks =
      annotate (Pod.metadata other).annotations? marks := by
    refine setAnnotations_congr false fun u hu => ?_
    obtain rfl := List.mem_singleton.mp hu
    exact hstatus
  simp only [patch, Pod.containers?_getD, Pod.volumes?_getD, Pod.imagePullSecrets?_getD, hmarks,
    appendItems_congr hcontainers, appendItems_congr hvolumes, appendItems_congr hsecrets]

end Injection

/-- The version of the review in a body, the uid of its request and the pod under review, if all of
them can be read. -/
def Registry.delivered? (registry : Registry) (body : Octets) :
    Option (String × String × Value) := do
  let review ← (registry.readReview body).toOption
  let request ← review.request
  let object ← request.object
  let pod ← (registry.readPod object).toOption
  some (review.apiVersion, request.uid, pod)

theorem Registry.delivered?_eq_some_iff {registry : Registry} {body : Octets}
    {apiVersion uid : String} {pod : Value} :
    registry.delivered? body = some (apiVersion, uid, pod) ↔
      ∃ review request object, registry.readReview body = .ok review ∧
        review.apiVersion = apiVersion ∧ review.request = some request ∧ request.uid = uid ∧
        request.object = some object ∧ registry.readPod object = .ok pod := by
  have hok : ∀ {ε α : Type} {x : Except ε α} {a : α}, x.toOption = some a ↔ x = .ok a := by
    intro ε α x a
    cases x <;> simp [Except.toOption]
  constructor
  · intro h
    obtain ⟨review, hreview, h⟩ := Option.bind_eq_some_iff.mp h
    obtain ⟨request, hrequest, h⟩ := Option.bind_eq_some_iff.mp h
    obtain ⟨object, hobject, h⟩ := Option.bind_eq_some_iff.mp h
    obtain ⟨found, hpod, h⟩ := Option.bind_eq_some_iff.mp h
    obtain ⟨rfl, rfl, rfl⟩ : review.apiVersion = apiVersion ∧ request.uid = uid ∧ found = pod := by
      simpa using h
    exact ⟨review, request, object, hok.mp hreview, rfl, hrequest, rfl, hobject, hok.mp hpod⟩
  · rintro ⟨review, request, object, hreview, rfl, hrequest, rfl, hobject, hpod⟩
    simp only [delivered?, hok.mpr hreview, hrequest, hobject, hok.mpr hpod, Option.bind_eq_bind,
      Option.bind_some]

namespace Decision

open SidecarAdmission.Admission.Selection SidecarAdmission.Admission.Injection

section

variable (registry : Registry) (sidecar : Sidecar.Spec)

/-- The response for a pod, and the outcome that is counted. -/
theorem answerObject_of_readPod {object : Octets} {pod : Value}
    (h : registry.readPod object = .ok pod) :
    answerObject registry (some object) sidecar =
      if isSelected (.ofMetadata (Pod.metadata pod)) then
        (Response.admitted.attach (patchText (Injection.patch pod sidecar marks)), .patched)
      else (.admitted, .skipped) := by
  simp only [answerObject, patchFor_of_ok h]
  by_cases hselected : isSelected (.ofMetadata (Pod.metadata pod)) = true
  · simp only [hselected, if_true]
  · simp only [hselected, if_false, Bool.false_eq_true]

/-- The answer to a body of which all can be read. -/
theorem answerReview_of_delivered? {body : Octets} {apiVersion uid : String} {pod : Value}
    (h : registry.delivered? body = some (apiVersion, uid, pod)) :
    answerReview registry body sidecar =
      if isSelected (.ofMetadata (Pod.metadata pod)) then
        (.reply apiVersion
          ((Response.admitted.attach
            (patchText (Injection.patch pod sidecar marks))).addressed uid), .patched)
      else (.reply apiVersion (Response.admitted.addressed uid), .skipped) := by
  obtain ⟨review, request, object, hreview, rfl, hrequest, rfl, hobject, hpod⟩ :=
    Registry.delivered?_eq_some_iff.mp h
  rw [answerReview_of_request registry sidecar hreview hrequest, hobject,
    answerObject_of_readPod registry sidecar hpod]
  split <;> rfl

/-- Two bodies with one version, one uid and pods that stand alike to injection have the same reply,
octet by octet, and the same outcome, provided that the pods, if they are to be injected, agree on
which lists are empty and on whether there is a status. -/
theorem reply_eq_of_agree {body other : Octets} {apiVersion uid : String} {pod pod' : Value}
    (hbody : registry.delivered? body = some (apiVersion, uid, pod))
    (hother : registry.delivered? other = some (apiVersion, uid, pod'))
    (hstanding : standing (.ofMetadata (Pod.metadata pod)) =
      standing (.ofMetadata (Pod.metadata pod')))
    (hgaps : standing (.ofMetadata (Pod.metadata pod)) = .wanted → gaps pod = gaps pod') :
    (answerReview registry body sidecar).1.write = (answerReview registry other sidecar).1.write ∧
      (answerReview registry body sidecar).2 = (answerReview registry other sidecar).2 := by
  suffices h : answerReview registry body sidecar = answerReview registry other sidecar by
    rw [h]
    exact ⟨rfl, rfl⟩
  have hselected : isSelected (.ofMetadata (Pod.metadata pod)) =
      isSelected (.ofMetadata (Pod.metadata pod')) := by
    rw [isSelected, isSelected, hstanding]
  rw [answerReview_of_delivered? registry sidecar hbody,
    answerReview_of_delivered? registry sidecar hother, ← hselected]
  split
  next hwanted => rw [patch_congr (hgaps (beq_iff_eq.mp hwanted)) sidecar]
  next => rfl

end

/-- Another review of a pod that asks for injection, with members in another order, blanks around
them, and all that the first one leaves out. -/
def verboseReview : Octets :=
  0x20 :: (Json.ofMembers [
    ("request", Json.ofMembers [
      ("oldObject", Json.ofMembers [("secret", .string "s3cr3t")]),
      ("object", Json.ofMembers [
        ("spec", Json.ofMembers [
          ("nodeName", .string "worker"), ("containers", .array []), ("volumes", .null)]),
        ("metadata", Json.ofMembers [
          ("name", .string "web"),
          ("annotations", Json.ofMembers [
            (Selection.statusKey, .string ""), (Selection.requestKey, .string "Y"),
            ("owner", .string "team")])])]),
      ("dryRun", .bool true), ("operation", .string "UPDATE"), ("namespace", .string "other"),
      ("name", .string "web"), ("userInfo", Json.ofMembers [("username", .string "admin")]),
      ("uid", .string "705ab4f5")]),
    ("kind", .string reviewKind), ("apiVersion", .string betaVersion)]).print ++ [0x0A]

/-- The two reviews of pods that ask for injection agree on all that a reply tells. -/
theorem reply_eq_of_agree_verbose :
    ∃ pod pod' : Value,
      Registry.standard.delivered? askingReview = some (betaVersion, "705ab4f5", pod) ∧
      Registry.standard.delivered? verboseReview = some (betaVersion, "705ab4f5", pod') ∧
      (answerReview .standard askingReview proxySidecar).1.write =
        (answerReview .standard verboseReview proxySidecar).1.write ∧
      (answerReview .standard askingReview proxySidecar).2 =
        (answerReview .standard verboseReview proxySidecar).2 := by
  let view (told : String × String × Value) : String × String × Standing × Gaps :=
    (told.1, told.2.1, standing (.ofMetadata (Pod.metadata told.2.2)), gaps told.2.2)
  have hview : ∀ body ∈ [askingReview, verboseReview],
      (Registry.standard.delivered? body).map view =
        some (betaVersion, "705ab4f5", .wanted, ⟨true, true, true, false⟩) := by
    decide +kernel
  obtain ⟨⟨apiVersion, uid, pod⟩, hbody, hpod⟩ :=
    Option.map_eq_some_iff.mp (hview askingReview (by simp))
  obtain ⟨⟨apiVersion', uid', pod'⟩, hother, hpod'⟩ :=
    Option.map_eq_some_iff.mp (hview verboseReview (by simp))
  obtain ⟨rfl, rfl, hstanding, hgaps⟩ := by simpa [view] using hpod
  obtain ⟨rfl, rfl, hstanding', hgaps'⟩ := by simpa [view] using hpod'
  exact ⟨pod, pod', hbody, hother,
    reply_eq_of_agree .standard proxySidecar hbody hother (hstanding.trans hstanding'.symm)
      fun _ => hgaps.trans hgaps'.symm⟩

end Decision

end SidecarAdmission.Admission
