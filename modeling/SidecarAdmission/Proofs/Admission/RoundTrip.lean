import SidecarAdmission.Proofs.Admission.Envelope

/-!
Reviews that come back. A review that has been read from a body, however it was spelled there, is
read again from what is written for it, with its object octet for octet; so is a reply with a
response that has been made here, if its version is known for reviews.
-/

set_option autoImplicit false
set_option relaxedAutoImplicit false

namespace SidecarAdmission.Admission

open SidecarAdmission.Text SidecarAdmission.Json SidecarAdmission.Resource

/-! ### What has been read -/

theorem isSound_of_fieldAt {s part : Source} (hs : s.IsSound) {names : List String}
    {fields : List (Option Source)} (hfields : s.fields? names = some fields) {i : Nat}
    (h : Source.fieldAt fields i = some part) : part.IsSound :=
  hs.ofPart (Source.hasPart_of_mem_fields? hfields (mem_of_fieldAt h))

/-- An object comes back in its own spelling, without the white space that stood before it. -/
theorem returns_spelling {s : Source} (hs : s.IsSound) (hnull : s.isNull = false) {raw : Octets}
    (h : spellingOf? s = some raw) : Returns spellingOf? raw raw := by
  obtain ⟨v, hv⟩ := hs.document
  obtain ⟨_, htext, rfl⟩ := Option.map_eq_some_iff.mp h
  have htrimmed : s.trimmed.isNull = false := by
    rw [Source.isNull_of_value? ((Source.value?_trimmed s).trans hv), ← Source.isNull_of_value? hv,
      hnull]
  refine ⟨s.trimmed, hs.trimmed, htrimmed, Source.written_trimmed s, ?_⟩
  rw [spellingOf?, Source.spelling_trimmed]
  exact h

theorem Request.isFaithful_of_ofSource? {s : Source} (hs : s.IsSound) {r : Request}
    (h : Request.ofSource? s = some r) : r.IsFaithful := by
  simp only [Request.ofSource?, Option.bind_eq_bind, Option.bind_eq_some_iff] at h
  obtain ⟨fields, hfields, _, -, _, -, _, -, _, -, _, -, userInfo, huser, _, -, object, hobject,
    hrequest⟩ := h
  obtain rfl := Option.some.inj hrequest
  refine ⟨?_, fun raw hraw => ?_⟩
  · rcases eq_or_exists_of_readOr? huser with rfl | ⟨part, -, hread⟩
    · exact Value.isFaithful_empty_userInfo
    · obtain ⟨v, -, hdecoded⟩ := Option.bind_eq_some_iff.mp hread
      exact Value.isFaithful_userInfo hdecoded
  · obtain rfl : object = some raw := hraw
    obtain ⟨part, hpart, hnull, hspelling⟩ := exists_of_readOptional? hobject
    exact returns_spelling (isSound_of_fieldAt hs hfields hpart) hnull hspelling

theorem Response.isFaithful_of_ofSource? {s : Source} {r : Response}
    (h : Response.ofSource? s = some r) : r.IsFaithful := by
  simp only [Response.ofSource?, Option.bind_eq_bind, Option.bind_eq_some_iff] at h
  obtain ⟨fields, -, _, -, _, -, found, hfound, _, -, _, -, hresponse⟩ := h
  obtain rfl := Option.some.inj hresponse
  intro status hstatus
  obtain rfl : found = some status := hstatus
  obtain ⟨part, -, -, hread⟩ := exists_of_readOptional? hfound
  obtain ⟨v, -, hdecoded⟩ := Option.bind_eq_some_iff.mp hread
  exact Value.isFaithful_status hdecoded

theorem Review.isFaithful_of_ofSource? {s : Source} (hs : s.IsSound) {r : Review}
    (h : Review.ofSource? s = some r) : r.IsFaithful := by
  simp only [Review.ofSource?, Option.bind_eq_bind, Option.bind_eq_some_iff] at h
  obtain ⟨fields, hfields, _, -, _, -, request, hrequest, response, hresponse, hreview⟩ := h
  obtain rfl := Option.some.inj hreview
  refine ⟨fun found hfound => ?_, fun found hfound => ?_⟩
  · obtain rfl : request = some found := hfound
    obtain ⟨part, hpart, -, hread⟩ := exists_of_readOptional? hrequest
    exact Request.isFaithful_of_ofSource? (isSound_of_fieldAt hs hfields hpart) hread
  · obtain rfl : response = some found := hfound
    obtain ⟨part, -, -, hread⟩ := exists_of_readOptional? hresponse
    exact Response.isFaithful_of_ofSource? hread

/-! ### What has been made -/

/-- The responses that can be made. -/
inductive Response.IsMade : Response → Prop where
  | admitted : IsMade .admitted
  | refused (message : String) : IsMade (.refused message)
  | attach {r : Response} (made : IsMade r) (patch : Octets) : IsMade (r.attach patch)
  | addressed {r : Response} (made : IsMade r) (uid : String) : IsMade (r.addressed uid)

theorem Response.IsMade.hasOwnStatus {r : Response} (h : r.IsMade) : r.HasOwnStatus := by
  induction h with
  | admitted =>
    intro status hstatus
    contradiction
  | refused message =>
    intro status hstatus
    exact ⟨message, (Option.some.inj hstatus).symm⟩
  | attach made patch ih => exact ih
  | addressed made uid ih => exact ih

namespace Registry

/-- A review that has been read is read again, the same in every field, from what is written for it;
and so is a reply with any response that can be made, under a version that is known. -/
theorem readReview_write_eq_ok (registry : Registry) :
    (∀ body review, registry.readReview body = .ok review →
        registry.readReview review.write = .ok review) ∧
      ∀ apiVersion response, registry.knows apiVersion reviewKind = true → response.IsMade →
        registry.readReview (Review.reply apiVersion response).write =
          .ok (.reply apiVersion response) := by
  refine ⟨fun body review h => ?_, fun apiVersion response hknown hmade => ?_⟩
  · obtain ⟨⟨source, hsource, hread⟩, hkind, hknown⟩ := readReview_eq_ok_iff.mp h
    have hfaithful := Review.isFaithful_of_ofSource? (Source.isSound_of_ofText? hsource) hread
    have hcheck : registry.check review.apiVersion review.kind = .ok () := if_pos hknown
    rw [readReview_write hfaithful, if_neg hkind, hcheck]
    rfl
  · have hcheck : registry.check apiVersion reviewKind = .ok () := if_pos hknown
    rw [readReview_write_reply registry apiVersion hmade.hasOwnStatus, hcheck]
    rfl

/-- A review as an array, with an escape in its kind, an operation that is not known, a group of the
user given twice, and an object between white space. -/
def spacedBody : Octets := octets (
  "[\"admission.k8s.io/v1\",\"Admission\\u0052eview\",\x7b\"uid\":\"u\",\"operation\":\"PROXY\","
  ++ "\"userInfo\":\x7b\"uid\":\"a\",\"uid\":null,\"extra\":\x7b\"b\":[],\"a\":[\"1\"]\x7d\x7d,"
  ++ "\"object\": \x7b \"n\" : 1.0 \x7d \x7d]")

theorem readReview_write_spacedBody :
    (∃ review, Registry.standard.readReview spacedBody = .ok review ∧ review.write ≠ spacedBody ∧
      review.request.map (fun r => (r.operation, r.object)) =
        some (.unknown, some (octets "\x7b \"n\" : 1.0 \x7d")) ∧
      Registry.standard.readReview review.write = .ok review) ∧
    Registry.standard.readReview
        (Review.reply stableVersion ((Response.admitted.attach [0x00, 0xff]).addressed "u")).write =
      .ok (.reply stableVersion ((Response.admitted.attach [0x00, 0xff]).addressed "u")) := by
  obtain ⟨hreviews, hreplies⟩ := readReview_write_eq_ok .standard
  have hread : (Registry.standard.readReview spacedBody).toOption.map (fun review =>
      (review.request.map (fun r => (r.operation, r.object)),
        decide (review.write = spacedBody))) =
      some (some (.unknown, some (octets "\x7b \"n\" : 1.0 \x7d")), false) := by decide +kernel
  refine ⟨?_, hreplies stableVersion _ (by decide) (.addressed (.attach .admitted _) _)⟩
  cases hbody : Registry.standard.readReview spacedBody with
  | error e =>
    rw [hbody] at hread
    contradiction
  | ok review =>
    rw [hbody] at hread
    obtain ⟨hrequest, hwritten⟩ := Prod.mk.inj (Option.some.inj hread)
    exact ⟨review, rfl, of_decide_eq_false hwritten, hrequest, hreviews spacedBody review hbody⟩

end Registry

end SidecarAdmission.Admission
