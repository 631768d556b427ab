import SidecarAdmission.Lifecycle.World

/-!
Which requests are reviews. A request is answered as a review exactly if its path, its method, the
length of its body and its content type are those of one, whatever its body says; any other is
turned away by a reply that does not depend on what is served, and nothing is counted.
-/

set_option autoImplicit false
set_option relaxedAutoImplicit false

namespace SidecarAdmission.Http

open SidecarAdmission.Text SidecarAdmission.Telemetry

/-- Whether a request that declares the length of its body declares the real one. -/
def Request.IsHonest (r : Request) : Prop := ∀ n, r.contentLength? = some n → n = r.body.length

/-- Whether a request is for the path of reviews, by their method, with a body that is not too
long. -/
def Request.IsPosted (r : Request) : Prop :=
  r.path = "/webhookmutation" ∧ r.method = "POST" ∧ r.body.length ≤ 3145728

/-- Whether a request has the content type of reviews and no other spelling of it. -/
def Request.IsJson (r : Request) : Prop :=
  r.header? "content-type" = some (octets "application/json")

/-- Whether a request is a review. -/
def Request.IsReview (r : Request) : Prop := r.IsPosted ∧ r.body ≠ [] ∧ r.IsJson

namespace Webhook

variable {r : Request}

/-- A body is longer than the declared length and the limit allow if it is longer than the limit. -/
theorem limitOf_lt_iff (h : r.IsHonest) :
    limitOf r < r.body.length ↔ 3145728 < r.body.length := by
  have hlimit : bodyLimit = 3145728 := rfl
  cases hdeclared : r.contentLength? with
  | none => simp [limitOf, hdeclared, hlimit]
  | some n =>
    obtain rfl : n = r.body.length := h n hdeclared
    have hmin : limitOf r = min 3145728 r.body.length := by simp [limitOf, hdeclared, hlimit]
    omega

/-- A request that declares too much has a body that is too long. -/
theorem lt_of_declared (h : r.IsHonest) (hdeclared : (r.contentLength?).any (bodyLimit < ·) = true) :
    3145728 < r.body.length := by
  obtain ⟨n, hn, hlong⟩ := (Option.any_eq_true _ _).mp hdeclared
  obtain rfl : n = r.body.length := h n hn
  exact of_decide_eq_true hlong

/-- A request that is posted is turned away only for an empty body, and then for its content
type. -/
theorem refusal?_of_isPosted (h : r.IsHonest) (hposted : r.IsPosted) :
    refusal? r =
      if r.body.isEmpty then some .emptyBody
      else if r.header? "content-type" != some (octets reviewType) then some .wrongType
      else none := by
  obtain ⟨hpath, hmethod, hlength⟩ := hposted
  have hdeclared : ¬ (r.contentLength?).any (bodyLimit < ·) = true := by
    intro hlong
    have hlt := lt_of_declared h hlong
    omega
  have hshort : ¬ limitOf r < r.body.length := by
    rw [limitOf_lt_iff h]
    omega
  have hplace : ¬ (r.path != reviewPath) = true := by simp [hpath, reviewPath]
  have hpost : ¬ (r.method != "POST") = true := by simp [hmethod]
  rw [refusal?, if_neg hdeclared, if_neg hplace, if_neg hpost, if_neg hshort]

/-- A request that is not posted is turned away before its body is looked into. -/
theorem exists_refusal_of_not_isPosted (h : r.IsHonest) (hposted : ¬ r.IsPosted) :
    ∃ refusal, refusal? r = some refusal := by
  unfold refusal?
  split
  · exact ⟨_, rfl⟩
  split
  · exact ⟨_, rfl⟩
  split
  · exact ⟨_, rfl⟩
  split
  · exact ⟨_, rfl⟩
  next hplace hpost hshort =>
    refine absurd ⟨?_, ?_, ?_⟩ hposted
    · simpa [reviewPath] using hplace
    · simpa using hpost
    · rw [limitOf_lt_iff h] at hshort
      omega

/-- Only reviews are not turned away. -/
theorem refusal?_eq_none_iff (h : r.IsHonest) : refusal? r = none ↔ r.IsReview := by
  by_cases hposted : r.IsPosted
  · rw [refusal?_of_isPosted h hposted]
    by_cases hempty : r.body = []
    · simp [Request.IsReview, hempty]
    · by_cases htype : r.header? "content-type" = some (octets reviewType)
      · have hjson : r.IsJson := htype
        simp [Request.IsReview, hposted, hempty, htype, hjson]
      · have hjson : ¬ r.IsJson := htype
        simp [Request.IsReview, hempty, htype, hjson]
  · obtain ⟨refusal, hrefusal⟩ := exists_refusal_of_not_isPosted h hposted
    have hreview : ¬ r.IsReview := fun hreview => hposted hreview.1
    simp [hrefusal, hreview]

theorem code_reply_mem (refusal : Refusal) :
    refusal.reply.status.code ∈ [400, 404, 405, 413, 415] := by
  cases refusal <;> decide

end Webhook

end SidecarAdmission.Http

namespace SidecarAdmission.Lifecycle.World

open SidecarAdmission.Http SidecarAdmission.Telemetry SidecarAdmission.Text

variable {r : Request}

/-- A review is answered by what is decided on its body with the specification in force, and its
outcome is counted; nothing else changes. -/
theorem request_of_isReview (h : r.IsHonest) (hreview : r.IsReview) (w : World) :
    w.request r =
      (⟨.ok, some "application/json", none,
        (Admission.Decision.answerReview .standard r.body w.loop.state.spec).1.write⟩,
        { w with
          reviews :=
            .admission (Admission.Decision.answerReview .standard r.body w.loop.state.spec).2
              :: w.reviews }) := by
  have hnone := (Webhook.refusal?_eq_none_iff h).mpr hreview
  simp only [request, Webhook.answer, hnone]
  rfl

/-- What is turned away leaves everything as it is. -/
theorem request_of_refusal {refusal : Webhook.Refusal} (h : Webhook.refusal? r = some refusal)
    (w : World) : w.request r = (refusal.reply, w) := by
  simp only [request, Webhook.answer, h]
  rfl

theorem code_of_isReview (h : r.IsHonest) (hreview : r.IsReview) (w : World) :
    (w.request r).1.status.code = 200 := by
  rw [request_of_isReview h hreview]
  rfl

/-- What is no review is turned away by a reply that is the same in every world. -/
theorem exists_reply_of_not_isReview (h : r.IsHonest) (hreview : ¬ r.IsReview) :
    ∃ reply, reply.status.code ∈ [400, 404, 405, 413, 415] ∧
      ∀ w : World, w.request r = (reply, w) := by
  cases hrefusal : Webhook.refusal? r with
  | none => exact absurd ((Webhook.refusal?_eq_none_iff h).mp hrefusal) hreview
  | some refusal =>
    exact ⟨refusal.reply, Webhook.code_reply_mem refusal, request_of_refusal hrefusal⟩

theorem isReview_of_code (h : r.IsHonest) {w : World} (hcode : (w.request r).1.status.code = 200) :
    r.IsReview := by
  refine Classical.byContradiction fun hreview => ?_
  obtain ⟨reply, hmem, hreply⟩ := exists_reply_of_not_isReview h hreview
  rw [hreply w] at hcode
  simp [hcode] at hmem

/-- A request is answered with 200 exactly if its path is that of reviews, its method POST, its body
neither empty nor longer than the limit and its content type the one of reviews. The reply is then
what is decided on the body, which need not be JSON, with the specification in force, and one
outcome is counted. Any other request is turned away by a reply that is the same whatever is served,
and everything stays as it is; a posted one for its empty body first, then for its content type. -/
theorem reply_of_request (r : Request) (h : r.IsHonest) (w : World) :
    ((w.request r).1.status.code = 200 ↔
      r.path = "/webhookmutation" ∧ r.method = "POST" ∧
        1 ≤ r.body.length ∧ r.body.length ≤ 3145728 ∧
        r.header? "content-type" = some (octets "application/json")) ∧
      ((w.request r).1.status.code = 200 →
        ∃ review outcome,
          Admission.Decision.answerReview .standard r.body w.loop.state.spec = (review, outcome) ∧
          w.request r = (⟨.ok, some "application/json", none, review.write⟩,
            { w with reviews := .admission outcome :: w.reviews })) ∧
      ((w.request r).1.status.code ≠ 200 →
        ∃ reply, reply.status.code ∈ [400, 404, 405, 413, 415] ∧
          w.request r = (reply, w) ∧ ∀ other : World, other.request r = (reply, other)) ∧
      (r.path = "/webhookmutation" → r.method = "POST" → r.body.length ≤ 3145728 →
        (r.body = [] → (w.request r).1.status.code = 400) ∧
        (r.body ≠ [] → r.header? "content-type" ≠ some (octets "application/json") →
          (w.request r).1.status.code = 415)) := by
  have hcode : (w.request r).1.status.code = 200 ↔ r.IsReview :=
    ⟨isReview_of_code h, fun hreview => code_of_isReview h hreview w⟩
  refine ⟨?_, ?_, ?_, ?_⟩
  · rw [hcode]
    have hbody : r.body ≠ [] ↔ 1 ≤ r.body.length := List.length_pos_iff.symm
    simp only [Request.IsReview, Request.IsPosted, Request.IsJson, hbody]
    constructor
    · rintro ⟨⟨hpath, hmethod, hlimit⟩, hpos, htype⟩
      exact ⟨hpath, hmethod, hpos, hlimit, htype⟩
    · rintro ⟨hpath, hmethod, hpos, hlimit, htype⟩
      exact ⟨⟨hpath, hmethod, hlimit⟩, hpos, htype⟩
  · intro hok
    exact ⟨_, _, rfl, request_of_isReview h (hcode.mp hok) w⟩
  · intro hother
    obtain ⟨reply, hmem, hreply⟩ := exists_reply_of_not_isReview h fun hr => hother (hcode.mpr hr)
    exact ⟨reply, hmem, hreply w, hreply⟩
  · intro hpath hmethod hlength
    have hrefusal := Webhook.refusal?_of_isPosted h ⟨hpath, hmethod, hlength⟩
    constructor
    · intro hempty
      have hfirst : Webhook.refusal? r = some .emptyBody := by simp [hrefusal, hempty]
      rw [request_of_refusal hfirst]
      rfl
    · intro hne htype
      have hlast : Webhook.refusal? r = some .wrongType := by
        simp [hrefusal, hne, htype, Webhook.reviewType]
      rw [request_of_refusal hlast]
      rfl

/-- A posted request whose body is no JSON, with its length. -/
def notJson : Request :=
  ⟨"POST", "/webhookmutation?timeout=10s",
    [("Content-Length", octets "2"), ("Content-Type", octets "application/json"),
      ("content-type", octets "text/plain")], octets "no"⟩

theorem reply_of_notJson :
    notJson.IsHonest ∧ ∃ review outcome, ∃ w' : World,
      Admission.Decision.answerReview .standard (octets "no") Sidecar.Spec.empty =
        (review, outcome) ∧
      (start (.empty []) .standard [] ⟨.empty, default⟩ true).request notJson =
        (⟨.ok, some "application/json", none, review.write⟩, w') ∧
      w'.counters = [.admission outcome] := by
  have hhonest : notJson.IsHonest := by
    intro n hn
    have hdeclared : notJson.contentLength? = some 2 := by decide
    exact Option.some.inj (hn.symm.trans hdeclared)
  obtain ⟨hok, hanswer, -, -⟩ :=
    reply_of_request notJson hhonest (start (.empty []) .standard [] ⟨.empty, default⟩ true)
  obtain ⟨review, outcome, hdecided, hreply⟩ := hanswer (hok.mpr (by decide))
  exact ⟨hhonest, review, outcome, _, hdecided, hreply, rfl⟩

end SidecarAdmission.Lifecycle.World
