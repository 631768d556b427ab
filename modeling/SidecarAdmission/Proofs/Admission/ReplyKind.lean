import SidecarAdmission.Proofs.Admission.Answer
import SidecarAdmission.Proofs.Admission.Envelope

/-!
The version and kind of a reply. The kind is always that of a review, and the version that of the
body. As a body is accepted under every known pair of version and kind, that of pods included, one
that says it is a pod is answered by an envelope of a pair that is not known.
-/

set_option autoImplicit false
set_option relaxedAutoImplicit false

namespace SidecarAdmission.Admission

open SidecarAdmission.Text SidecarAdmission.Json SidecarAdmission.Telemetry

/-- Whether the version and kind of a review are those of an admission review. -/
def Review.IsAdmission (review : Review) : Prop :=
  review.kind = "AdmissionReview" ∧
    (review.apiVersion = "admission.k8s.io/v1" ∨ review.apiVersion = "admission.k8s.io/v1beta1")

/-- Whether the version and kind of a review are those of a pod. -/
def Review.IsPod (review : Review) : Prop := review.kind = "Pod" ∧ review.apiVersion = "v1"

/-- Whether a body is accepted as a review although it says that it is a pod. -/
def PassesAsPod (body : Octets) : Prop :=
  ∃ review, Registry.standard.readReview body = .ok review ∧ review.IsPod

theorem Registry.knows_standard_iff (apiVersion kind : String) :
    Registry.standard.knows apiVersion kind = true ↔
      (kind = "AdmissionReview" ∧
          (apiVersion = "admission.k8s.io/v1" ∨ apiVersion = "admission.k8s.io/v1beta1")) ∨
        (kind = "Pod" ∧ apiVersion = "v1") := by
  simp only [knows, standard, stableVersion, betaVersion, reviewKind, List.contains_iff_mem,
    List.mem_cons, List.not_mem_nil, Prod.mk.injEq, or_false]
  constructor
  · rintro (⟨hversion, hkind⟩ | ⟨hversion, hkind⟩ | ⟨hversion, hkind⟩)
    · exact .inl ⟨hkind, .inl hversion⟩
    · exact .inl ⟨hkind, .inr hversion⟩
    · exact .inr ⟨hkind, hversion⟩
  · rintro (⟨hkind, hversion | hversion⟩ | ⟨hkind, hversion⟩)
    · exact .inl ⟨hversion, hkind⟩
    · exact .inr (.inl ⟨hversion, hkind⟩)
    · exact .inr (.inr ⟨hversion, hkind⟩)

theorem Review.isAdmission_or_isPod {body : Octets} {review : Review}
    (h : Registry.standard.readReview body = .ok review) : review.IsAdmission ∨ review.IsPod := by
  obtain ⟨-, -, hknown⟩ := Registry.readReview_eq_ok_iff.mp h
  exact (Registry.knows_standard_iff review.apiVersion review.kind).mp hknown

/-- A response that is made here has the status of a refusal, or none. -/
theorem Response.Suits.hasOwnStatus {r : Response} {o : Outcome} (h : r.Suits o) :
    r.HasOwnStatus := by
  intro status hsome
  cases o with
  | skipped =>
    obtain ⟨-, -, -, hnone⟩ := h
    rw [hnone] at hsome
    contradiction
  | patched =>
    obtain ⟨patch, -, -, -, hnone⟩ := h
    rw [hnone] at hsome
    contradiction
  | error | invalid =>
    obtain ⟨-, -, -, message, -, hrefusal, -⟩ := h
    exact ⟨message, Option.some.inj (hsome.symm.trans hrefusal)⟩

namespace Decision

/-- The version of a reply is one of reviews unless its body says that it is a pod. -/
theorem version_of_reply {body : Octets} {apiVersion : String}
    (h : ((∃ e, Registry.standard.readReview body = .error e) ∧ apiVersion = stableVersion) ∨
      ∃ review, Registry.standard.readReview body = .ok review ∧ apiVersion = review.apiVersion) :
    (¬ PassesAsPod body ∧ (apiVersion = stableVersion ∨ apiVersion = betaVersion)) ∨
      (PassesAsPod body ∧ apiVersion = "v1") := by
  rcases h with ⟨⟨e, herror⟩, rfl⟩ | ⟨review, hread, rfl⟩
  · refine .inl ⟨?_, .inl rfl⟩
    rintro ⟨review, hread, -⟩
    rw [herror] at hread
    contradiction
  · rcases Review.isAdmission_or_isPod hread with ⟨hkind, hversion⟩ | hpod
    · refine .inl ⟨?_, hversion⟩
      rintro ⟨other, hother, hpod, -⟩
      obtain rfl : review = other := Except.ok.inj (hread.symm.trans hother)
      rw [hkind] at hpod
      contradiction
    · exact .inr ⟨⟨review, hread, hpod⟩, hpod.2⟩

/-- A body is accepted as a review only if its version and kind are those of an admission review or
those of a pod. The reply is itself accepted, as what it is, unless the body says that it is a pod;
then its version and kind are not known and it is refused for them. -/
theorem readReview_reply_iff (body : Octets) (sidecar : Sidecar.Spec) :
    (∀ review, Registry.standard.readReview body = .ok review →
        review.IsAdmission ∨ review.IsPod) ∧
      (Registry.standard.knows (answerReview .standard body sidecar).1.apiVersion
          (answerReview .standard body sidecar).1.kind = true ↔ ¬ PassesAsPod body) ∧
      (Registry.standard.readReview (answerReview .standard body sidecar).1.write =
          .ok (answerReview .standard body sidecar).1 ↔ ¬ PassesAsPod body) ∧
      (PassesAsPod body →
        Registry.standard.readReview (answerReview .standard body sidecar).1.write =
          .error (.unknownKind "v1" "AdmissionReview")) := by
  obtain ⟨apiVersion, response, hreply, hsuits, hversion⟩ := exists_reply .standard sidecar body
  have hread := Registry.readReview_write_reply .standard apiVersion hsuits.hasOwnStatus
  refine ⟨fun review h => Review.isAdmission_or_isPod h, ?_⟩
  rw [hreply, hread]
  rcases version_of_reply hversion with ⟨hpass, hreview⟩ | ⟨hpass, rfl⟩
  · have hknown : Registry.standard.knows apiVersion reviewKind = true := by
      rcases hreview with rfl | rfl <;> decide
    have hcheck : Registry.standard.check apiVersion reviewKind = .ok () := if_pos hknown
    refine ⟨iff_of_true hknown hpass, iff_of_true ?_ hpass, fun h => absurd h hpass⟩
    rw [hcheck]
    rfl
  · have hunknown : ¬ Registry.standard.knows "v1" reviewKind = true := by decide
    have hcheck : Registry.standard.check "v1" reviewKind =
        .error (.unknownKind "v1" reviewKind) := if_neg hunknown
    have hrefused : (Registry.standard.check "v1" reviewKind).map
        (fun _ => Review.reply "v1" response) = .error (.unknownKind "v1" "AdmissionReview") := by
      rw [hcheck]
      rfl
    refine ⟨iff_of_false hunknown (not_not_intro hpass), iff_of_false ?_ (not_not_intro hpass),
      fun _ => hrefused⟩
    rw [hrefused]
    intro h
    contradiction

/-- A document that says that it is a pod, and nothing else. -/
def podBody : Octets := (ofMembers [("apiVersion", .string "v1"), ("kind", .string "Pod")]).print

theorem passesAsPod_podBody : PassesAsPod podBody := by
  have hread : ((Registry.standard.readReview podBody).toOption.map fun review =>
      (review.kind, review.apiVersion)) = some ("Pod", "v1") := by decide +kernel
  cases hbody : Registry.standard.readReview podBody with
  | error e =>
    rw [hbody] at hread
    contradiction
  | ok review =>
    rw [hbody] at hread
    obtain ⟨hkind, hversion⟩ := Prod.mk.inj (Option.some.inj hread)
    exact ⟨review, hbody, hkind, hversion⟩

theorem readReview_reply_podBody :
    PassesAsPod podBody ∧
      Registry.standard.readReview (answerReview .standard podBody .empty).1.write =
        .error (.unknownKind "v1" "AdmissionReview") := by
  obtain ⟨-, -, -, hrefused⟩ := readReview_reply_iff podBody .empty
  exact ⟨passesAsPod_podBody, hrefused passesAsPod_podBody⟩

/-- What says that it is a pod is accepted as a review, and the reply to it is not. -/
theorem not_isAdmission_podBody :
    ∃ review, Registry.standard.readReview podBody = .ok review ∧ ¬ review.IsAdmission ∧
      Registry.standard.knows (answerReview .standard podBody .empty).1.apiVersion
        (answerReview .standard podBody .empty).1.kind = false ∧
      ∀ reply, Registry.standard.readReview (answerReview .standard podBody .empty).1.write ≠
        .ok reply := by
  obtain ⟨review, hread, hkind, hversion⟩ := passesAsPod_podBody
  have hunknown : Registry.standard.knows (answerReview .standard podBody .empty).1.apiVersion
      (answerReview .standard podBody .empty).1.kind = false := by decide +kernel
  have hreply : (Registry.standard.readReview
      (answerReview .standard podBody .empty).1.write).toOption.isNone = true := by decide +kernel
  refine ⟨review, hread, ?_, hunknown, ?_⟩
  · rintro ⟨hadmission, -⟩
    rw [hkind] at hadmission
    contradiction
  · intro reply h
    rw [h] at hreply
    contradiction

end Decision

end SidecarAdmission.Admission
