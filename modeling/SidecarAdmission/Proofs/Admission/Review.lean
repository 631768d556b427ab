import SidecarAdmission.Admission.Review
import SidecarAdmission.Proofs.Json.Record

/-!
What is read from the body of a review, and what a refusal says. A body is accepted if it spells an
envelope whose version and kind are known, and an object that it carries is kept in the very octets
of the body.
-/

set_option autoImplicit false
set_option relaxedAutoImplicit false

namespace SidecarAdmission.Admission

open SidecarAdmission.Text SidecarAdmission.Json SidecarAdmission.Resource

/-! ### Refusals -/

namespace Response

private theorem empty_status : Value.empty .status =
    .record [("apiVersion", some (.text "v1")), ("kind", some (.text "Status")), ("code", none),
      ("details", none), ("message", none),
      ("metadata", some (.record [("continue", none), ("remainingItemCount", none),
        ("resourceVersion", none), ("selfLink", none)])),
      ("reason", none), ("status", none)] := rfl

theorem refusal_eq (message : String) : refusal message =
    .record [("apiVersion", some (.text "v1")), ("kind", some (.text "Status")), ("code", none),
      ("details", none), ("message", some (.text message)),
      ("metadata", some (.record [("continue", none), ("remainingItemCount", none),
        ("resourceVersion", none), ("selfLink", none)])),
      ("reason", none), ("status", none)] := by
  rw [refusal, empty_status, Value.fill, Value.updateSlot]
  simp

theorem message?_refused (message : String) : (refused message).message? = some message := by
  rw [message?, refused, refusal_eq]
  rfl

end Response

/-! ### Reading -/

theorem mem_of_fieldAt {fields : List (Option Source)} {i : Nat} {part : Source}
    (h : Source.fieldAt fields i = some part) : some part ∈ fields :=
  List.mem_of_getElem? (Option.join_eq_some_iff.mp h)

theorem exists_of_readOptional? {α : Type} {read : Source → Option α} {field : Option Source}
    {value : α} (h : Source.readOptional? read field = some (some value)) :
    ∃ part, field = some part ∧ part.isNull = false ∧ read part = some value := by
  cases field with
  | none => simp [Source.readOptional?] at h
  | some part =>
    rw [Source.readOptional?] at h
    split at h
    next => simp at h
    next hnull =>
      obtain ⟨found, hfound, hvalue⟩ := Option.map_eq_some_iff.mp h
      obtain rfl : found = value := Option.some.inj hvalue
      exact ⟨part, rfl, by simpa using hnull, hfound⟩

theorem eq_or_exists_of_readOr? {α : Type} {default : α} {read : Source → Option α}
    {field : Option Source} {value : α} (h : Source.readOr? default read field = some value) :
    value = default ∨ ∃ part, field = some part ∧ read part = some value := by
  cases field with
  | none => exact .inl (Option.some.inj h).symm
  | some part => exact .inr ⟨part, rfl, h⟩

/-- The object of a request is the spelling of a part of it. -/
theorem Request.object_of_ofSource? {s : Source} {request : Request}
    (h : Request.ofSource? s = some request) {object : Octets}
    (hobject : request.object = some object) :
    ∃ part : Source, part.lexemes <:+: s.lexemes ∧ part.spelling = object := by
  simp only [Request.ofSource?, Option.bind_eq_bind, Option.bind_eq_some_iff] at h
  obtain ⟨fields, hfields, _, -, _, -, _, -, _, -, _, -, _, -, _, -, found, hfound, hrequest⟩ := h
  obtain rfl := Option.some.inj hrequest
  obtain rfl : found = some object := hobject
  obtain ⟨part, hpart, -, hspelling⟩ := exists_of_readOptional? hfound
  obtain ⟨_, -, rfl⟩ := Option.map_eq_some_iff.mp hspelling
  exact ⟨part, (Source.hasPart_of_mem_fields? hfields (mem_of_fieldAt hpart)).isInfix, rfl⟩

/-- The request of a review is read from a part of it. -/
theorem Review.request_of_ofSource? {s : Source} {review : Review}
    (h : Review.ofSource? s = some review) {request : Request}
    (hrequest : review.request = some request) :
    ∃ part : Source, part.lexemes <:+: s.lexemes ∧ Request.ofSource? part = some request := by
  simp only [Review.ofSource?, Option.bind_eq_bind, Option.bind_eq_some_iff] at h
  obtain ⟨fields, hfields, _, -, _, -, found, hfound, _, -, hreview⟩ := h
  obtain rfl := Option.some.inj hreview
  obtain rfl : found = some request := hrequest
  obtain ⟨part, hpart, -, hread⟩ := exists_of_readOptional? hfound
  exact ⟨part, (Source.hasPart_of_mem_fields? hfields (mem_of_fieldAt hpart)).isInfix, hread⟩

namespace Registry

/-- A body is read as a review if it spells one of a version and kind that are known. -/
theorem readReview_eq_ok_iff {registry : Registry} {body : Octets} {review : Review} :
    registry.readReview body = .ok review ↔
      (∃ source, Source.ofText? body = some source ∧ Review.ofSource? source = some review) ∧
        review.kind ≠ "" ∧ registry.knows review.apiVersion review.kind = true := by
  rw [← Option.bind_eq_some_iff]
  unfold readReview
  cases hread : (Source.ofText? body).bind Review.ofSource? with
  | none => simp
  | some found =>
    by_cases hkind : found.kind = ""
    · simp only [hkind, if_true, Option.some.injEq]
      constructor
      · intro h
        contradiction
      · rintro ⟨rfl, hne, -⟩
        contradiction
    · by_cases hknown : registry.knows found.apiVersion found.kind = true
      · simp only [check, hkind, hknown, if_true, if_false, Option.some.injEq]
        constructor
        · intro h
          obtain rfl : found = review := Except.ok.inj h
          exact ⟨rfl, hkind, hknown⟩
        · rintro ⟨rfl, -, -⟩
          rfl
      · simp only [check, hkind, hknown, if_false, Option.some.injEq]
        constructor
        · intro h
          contradiction
        · rintro ⟨rfl, -, h⟩
          contradiction

/-- The object of a request stands in the body, octet for octet. -/
theorem object_infix_of_readReview {registry : Registry} {body : Octets} {review : Review}
    (h : registry.readReview body = .ok review) {request : Request}
    (hrequest : review.request = some request) {object : Octets}
    (hobject : request.object = some object) : object <:+: body := by
  obtain ⟨⟨source, hsource, hreview⟩, -, -⟩ := readReview_eq_ok_iff.mp h
  obtain ⟨whole, hwhole, hread⟩ := Review.request_of_ofSource? hreview hrequest
  obtain ⟨part, hpart, rfl⟩ := Request.object_of_ofSource? hread hobject
  exact Source.spelling_infix hsource (hpart.trans hwhole)

end Registry

end SidecarAdmission.Admission
