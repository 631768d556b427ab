import SidecarAdmission.Admission.Decision
import SidecarAdmission.Proofs.Admission.Review

/-!
The answer to a review. Every body is answered by an envelope with one response, which admits the
object as it is, admits it with a patch, or refuses it and says why; the outcome that is counted
tells which.
-/

set_option autoImplicit false
set_option relaxedAutoImplicit false

namespace SidecarAdmission.Admission

open SidecarAdmission.Text SidecarAdmission.Resource SidecarAdmission.Telemetry

/-! ### The shapes of responses -/

namespace Response

/-- Whether a response admits the object as it is. -/
def IsPlain (r : Response) : Prop :=
  r.allowed = true ∧ r.patch = none ∧ r.patchType = none ∧ r.status = none

/-- Whether a response admits the object with a patch. -/
def Carries (r : Response) (patch : Octets) : Prop :=
  r.allowed = true ∧ r.patch = some patch ∧ r.patchType = some .jsonPatch ∧ r.status = none

/-- Whether a response refuses the object and says why. -/
def Refuses (r : Response) : Prop :=
  r.allowed = false ∧ r.patch = none ∧ r.patchType = none ∧
    ∃ message, message ≠ "" ∧ r.status = some (refusal message) ∧ r.message? = some message

/-- Whether a response has the shape that goes with an outcome. -/
def Suits (r : Response) : Outcome → Prop
  | .skipped => r.IsPlain
  | .patched => ∃ patch, r.Carries patch
  | .error | .invalid => r.Refuses

variable {r : Response}

theorem IsPlain.not_carries (h : r.IsPlain) (patch : Octets) : ¬ r.Carries patch := by
  rintro ⟨-, hpatch, -, -⟩
  rw [h.2.1] at hpatch
  contradiction

theorem IsPlain.not_refuses (h : r.IsPlain) : ¬ r.Refuses := by
  rintro ⟨hallowed, -, -, -⟩
  rw [h.1] at hallowed
  contradiction

theorem Carries.not_refuses {patch : Octets} (h : r.Carries patch) : ¬ r.Refuses := by
  rintro ⟨hallowed, -, -, -⟩
  rw [h.1] at hallowed
  contradiction

/-- The outcome is told from the shape of the response. -/
theorem Suits.shapes {o : Outcome} (h : r.Suits o) :
    (r.IsPlain ↔ o = .skipped) ∧ ((∃ patch, r.Carries patch) ↔ o = .patched) ∧
      (r.Refuses ↔ o = .error ∨ o = .invalid) := by
  cases o with
  | patched =>
    obtain ⟨patch, hpatch⟩ := h
    have hplain : ¬ r.IsPlain := fun hplain => hplain.not_carries patch hpatch
    simp [hplain, hpatch.not_refuses, show ∃ patch, r.Carries patch from ⟨patch, hpatch⟩]
  | skipped =>
    have hplain : r.IsPlain := h
    simp [hplain, hplain.not_carries, hplain.not_refuses]
  | error | invalid =>
    have hrefuses : r.Refuses := h
    have hplain : ¬ r.IsPlain := fun hplain => hplain.not_refuses hrefuses
    have hcarries : ∀ patch, ¬ r.Carries patch := fun _ hpatch => hpatch.not_refuses hrefuses
    simp [hplain, hcarries, hrefuses]

@[simp] theorem suits_addressed (uid : String) (o : Outcome) :
    (r.addressed uid).Suits o ↔ r.Suits o := by
  cases o <;> rfl

theorem isPlain_admitted : admitted.IsPlain := ⟨rfl, rfl, rfl, rfl⟩

theorem carries_attach (patch : Octets) : (admitted.attach patch).Carries patch :=
  ⟨rfl, rfl, rfl, rfl⟩

theorem refuses_refused {message : String} (h : message ≠ "") : (refused message).Refuses := by
  refine ⟨rfl, rfl, rfl, message, h, rfl, ?_⟩
  exact message?_refused message

end Response

theorem ReadError.message_ne_empty (e : ReadError) : e.message ≠ "" := by
  cases e with
  | malformed => decide
  | missingKind => decide
  | unknownKind apiVersion kind => simp [ReadError.message, String.append_eq_empty_iff]

theorem DecisionError.message_ne_empty (e : DecisionError) : e.message ≠ "" := by
  obtain ⟨cause⟩ := e
  have hfront : "could not decode target resource: " ≠ "" := by simp
  intro h
  exact hfront (String.append_eq_empty_iff.mp h).1

/-! ### What leads to an outcome -/

/-- Whether a body is a review that carries a request. -/
def Registry.Asks (registry : Registry) (body : Octets) (request : Request) : Prop :=
  ∃ review, registry.readReview body = .ok review ∧ review.request = some request

namespace Decision

/-- What a request, with an object or without one, must be for an outcome. -/
def Decides (registry : Registry) (sidecar : Sidecar.Spec) (object : Option Octets) :
    Outcome → Prop
  | .skipped => ∃ text, object = some text ∧ patchFor registry text sidecar = .ok none
  | .patched => ∃ text patch, object = some text ∧ patchFor registry text sidecar = .ok (some patch)
  | .error =>
    object = none ∨ ∃ text e, object = some text ∧ patchFor registry text sidecar = .error e
  | .invalid => False

/-- What a body must be for an outcome. -/
def Leads (registry : Registry) (sidecar : Sidecar.Spec) (body : Octets) : Outcome → Prop
  | .invalid =>
    (∃ e, registry.readReview body = .error e) ∨
      ∃ review, registry.readReview body = .ok review ∧ review.request = none
  | o => ∃ request, registry.Asks body request ∧ Decides registry sidecar request.object o

variable (registry : Registry) (sidecar : Sidecar.Spec)

theorem outcome_answerObject_iff (object : Option Octets) (o : Outcome) :
    (answerObject registry object sidecar).2 = o ↔ Decides registry sidecar object o := by
  cases object with
  | none => cases o <;> simp [answerObject, Decides]
  | some text =>
    simp only [answerObject]
    cases hdecided : patchFor registry text sidecar with
    | error e => cases o <;> simp [Decides, hdecided]
    | ok patch =>
      cases patch with
      | none => cases o <;> simp [Decides, hdecided]
      | some patch => cases o <;> simp [Decides, hdecided]

theorem suits_answerObject (object : Option Octets) :
    (answerObject registry object sidecar).1.Suits (answerObject registry object sidecar).2 := by
  cases object with
  | none => exact Response.refuses_refused (by decide)
  | some text =>
    simp only [answerObject]
    cases patchFor registry text sidecar with
    | error e => exact Response.refuses_refused e.message_ne_empty
    | ok patch =>
      cases patch with
      | none => exact Response.isPlain_admitted
      | some patch => exact ⟨patchText patch, Response.carries_attach _⟩

theorem answerReview_of_error {body : Octets} {e : ReadError}
    (h : registry.readReview body = .error e) :
    answerReview registry body sidecar =
      (.reply stableVersion (.refused e.message), .invalid) := by
  simp only [answerReview, h]

theorem answerReview_of_no_request {body : Octets} {review : Review}
    (h : registry.readReview body = .ok review) (hrequest : review.request = none) :
    answerReview registry body sidecar =
      (.reply review.apiVersion (.refused "admission review carries no request"), .invalid) := by
  simp only [answerReview, h, hrequest]

theorem answerReview_of_request {body : Octets} {review : Review} {request : Request}
    (h : registry.readReview body = .ok review) (hrequest : review.request = some request) :
    answerReview registry body sidecar =
      (.reply review.apiVersion
        ((answerObject registry request.object sidecar).1.addressed request.uid),
        (answerObject registry request.object sidecar).2) := by
  simp only [answerReview, h, hrequest, answerRequest]

theorem outcome_answerReview_iff (body : Octets) (o : Outcome) :
    (answerReview registry body sidecar).2 = o ↔ Leads registry sidecar body o := by
  cases hread : registry.readReview body with
  | error e =>
    rw [answerReview_of_error registry sidecar hread]
    cases o <;> simp [Leads, Registry.Asks, hread]
  | ok review =>
    cases hrequest : review.request with
    | none =>
      rw [answerReview_of_no_request registry sidecar hread hrequest]
      cases o <;> simp [Leads, Registry.Asks, hread, hrequest]
    | some request =>
      rw [answerReview_of_request registry sidecar hread hrequest]
      have hobject := outcome_answerObject_iff registry sidecar request.object o
      rw [hobject]
      cases o <;> simp [Leads, Registry.Asks, Decides, hread, hrequest]

/-- The reply carries one response, of the shape that goes with the outcome; it has the version of
the review, and the first version if there is none. -/
theorem exists_reply (body : Octets) :
    ∃ apiVersion response, (answerReview registry body sidecar).1 = .reply apiVersion response ∧
      response.Suits (answerReview registry body sidecar).2 ∧
      (((∃ e, registry.readReview body = .error e) ∧ apiVersion = stableVersion) ∨
        ∃ review, registry.readReview body = .ok review ∧ apiVersion = review.apiVersion) := by
  cases hread : registry.readReview body with
  | error e =>
    rw [answerReview_of_error registry sidecar hread]
    exact ⟨_, _, rfl, Response.refuses_refused e.message_ne_empty, .inl ⟨⟨e, rfl⟩, rfl⟩⟩
  | ok review =>
    cases hrequest : review.request with
    | none =>
      rw [answerReview_of_no_request registry sidecar hread hrequest]
      exact ⟨_, _, rfl, Response.refuses_refused (by decide), .inr ⟨review, rfl, rfl⟩⟩
    | some request =>
      rw [answerReview_of_request registry sidecar hread hrequest]
      refine ⟨_, _, rfl, ?_, .inr ⟨review, rfl, rfl⟩⟩
      rw [Response.suits_addressed]
      exact suits_answerObject registry sidecar request.object

/-- Every body is answered by an envelope that has no request and one response. The response admits
the object as it is, admits it with the patch that is decided on for its own text, or refuses it and
says why, and the one outcome that is counted tells which; the envelope has the version of the
review, and the response the uid of its request. -/
theorem answer_of_review (body : Octets) :
    ∃ apiVersion response outcome,
      answerReview registry body sidecar =
          (⟨apiVersion, "AdmissionReview", none, some response⟩, outcome) ∧
        (∀ o, outcome = o ↔ Leads registry sidecar body o) ∧
        (response.IsPlain ↔ outcome = .skipped) ∧
        ((∃ patch, response.Carries patch) ↔ outcome = .patched) ∧
        (response.Refuses ↔ outcome = .error ∨ outcome = .invalid) ∧
        (∀ review, registry.readReview body = .ok review →
          apiVersion = review.apiVersion ∧
          ∀ request, review.request = some request →
            response.uid = request.uid ∧
            ∀ object, request.object = some object →
              object <:+: body ∧
              ∀ operations, patchFor registry object sidecar = .ok (some operations) →
                response.Carries (patchText operations)) := by
  obtain ⟨apiVersion, response, hreply, hsuits, -⟩ := exists_reply registry sidecar body
  obtain ⟨hplain, hcarries, hrefuses⟩ := hsuits.shapes
  refine ⟨apiVersion, response, _, Prod.ext hreply rfl,
    outcome_answerReview_iff registry sidecar body, hplain, hcarries, hrefuses, ?_⟩
  intro review hread
  cases hrequest : review.request with
  | none =>
    rw [answerReview_of_no_request registry sidecar hread hrequest] at hreply
    obtain ⟨rfl, -, -, -⟩ := Review.mk.inj hreply
    refine ⟨rfl, ?_⟩
    intro request h
    contradiction
  | some request =>
    rw [answerReview_of_request registry sidecar hread hrequest] at hreply
    obtain ⟨rfl, -, -, hresponse⟩ := Review.mk.inj hreply
    obtain rfl := Option.some.inj hresponse
    refine ⟨rfl, ?_⟩
    rintro _ ⟨⟩
    refine ⟨rfl, ?_⟩
    intro object hobject
    refine ⟨Registry.object_infix_of_readReview hread hrequest hobject, ?_⟩
    intro operations hdecided
    simp only [hobject, answerObject, hdecided]
    exact Response.carries_attach _

/-- The review of a pod that asks for injection. -/
def askingReview : Octets :=
  (Json.ofMembers [
    ("apiVersion", .string betaVersion), ("kind", .string reviewKind),
    ("request", Json.ofMembers [
      ("uid", .string "705ab4f5"),
      ("object", Json.ofMembers [
        ("metadata", Json.ofMembers [
          ("annotations", Json.ofMembers [(Selection.requestKey, .string "yes")])])])])]).print

theorem answer_of_askingReview :
    ∃ review request object operations response,
      Registry.standard.readReview askingReview = .ok review ∧ review.request = some request ∧
      request.object = some object ∧ object <:+: askingReview ∧
      patchFor .standard object .empty = .ok (some operations) ∧
      answerReview .standard askingReview .empty =
        (⟨review.apiVersion, "AdmissionReview", none, some response⟩, .patched) ∧
      response.uid = request.uid ∧ response.Carries (patchText operations) := by
  obtain ⟨apiVersion, response, outcome, hanswer, hcause, -, -, -, hreply⟩ :=
    answer_of_review .standard .empty askingReview
  have hpatched : (answerReview .standard askingReview .empty).2 = .patched := by decide +kernel
  obtain rfl : outcome = .patched := by rw [← hpatched, hanswer]
  obtain ⟨request, ⟨review, hread, hrequest⟩, object, operations, hobject, hdecided⟩ :=
    (hcause .patched).mp rfl
  obtain ⟨rfl, hmore⟩ := hreply review hread
  obtain ⟨huid, hobjects⟩ := hmore request hrequest
  obtain ⟨hwithin, hcarries⟩ := hobjects object hobject
  exact ⟨review, request, object, operations, response, hread, hrequest, hobject, hwithin, hdecided,
    hanswer, huid, hcarries operations hdecided⟩

end Decision

end SidecarAdmission.Admission
