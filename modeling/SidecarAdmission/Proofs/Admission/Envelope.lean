import SidecarAdmission.Proofs.Admission.Review
import SidecarAdmission.Proofs.Resource.Faithful
import SidecarAdmission.Proofs.Text.Base64

/-!
Envelopes that are written and read back. Each part of an envelope is written as a source that is
read as it again, and so is a record of such parts; the envelope comes back if its records do and
if the object in it is a source of its own.
-/

set_option autoImplicit false
set_option relaxedAutoImplicit false

namespace SidecarAdmission.Admission

open SidecarAdmission.Text SidecarAdmission.Json SidecarAdmission.Resource

/-! ### Fields -/

section Fields

variable {α : Type}

/-- Whether a value is written as a source that is read as it, and that is not null. -/
def Returns (read : Source → Option α) (written : Octets) (value : α) : Prop :=
  ∃ s : Source, s.IsSound ∧ s.isNull = false ∧ s.written = written ∧ read s = some value

/-- Whether a field of a record is written as members, at most one, and read as a value. -/
structure Restores (field : Option Source) (name : String) (members : List (Literal × Octets))
    (read : Option Source → Option α) (value : α) : Prop where
  sound : ∀ s, field = some s → s.IsSound
  written : (field.toList.map fun s => (Literal.ofText name, s.written)) = members
  read : read field = some value

variable {read : Source → Option α} {written : Octets} {value : α}

theorem Returns.restores (h : Returns read written value) (name : String) :
    ∃ field, Restores field name [(.ofText name, written)] (·.bind read) value ∧
      ∀ default, Source.readOr? default read field = some value := by
  obtain ⟨s, hsound, -, rfl, hread⟩ := h
  refine ⟨some s, ⟨?_, rfl, hread⟩, fun _ => hread⟩
  rintro s' ⟨⟩
  exact hsound

theorem Returns.required (h : Returns read written value) (name : String) (default : α) :
    ∃ field, Restores field name [(.ofText name, written)] (Source.readOr? default read) value := by
  obtain ⟨field, ⟨hsound, hwritten, -⟩, hread⟩ := h.restores name
  exact ⟨field, hsound, hwritten, hread default⟩

theorem exists_restores_optional {write : α → Octets} {value : Option α}
    (h : ∀ v, value = some v → Returns read (write v) v) (name : String) :
    ∃ field, Restores field name (optionalMember name write value) (Source.readOptional? read)
      value := by
  cases value with
  | none =>
    refine ⟨none, ?_, rfl, rfl⟩
    intro s hs
    contradiction
  | some v =>
    obtain ⟨s, hsound, hnull, hwritten, hread⟩ := h v rfl
    refine ⟨some s, ?_, ?_, ?_⟩
    · rintro s' ⟨⟩
      exact hsound
    · simp [optionalMember, hwritten]
    · simp [Source.readOptional?, hnull, hread]

theorem returns_ofJson {v : Json} (hv : v.WellSpelled) (hnull : v.isNull = false)
    (hread : read (.ofJson v) = some value) : Returns read v.print value :=
  ⟨.ofJson v, Source.isSound_ofJson hv, by rw [Source.isNull_ofJson, hnull],
    Source.written_ofJson v, hread⟩

end Fields

theorem returns_text (s : String) : Returns Source.text? (writeText s) s := by
  refine returns_ofJson (wellSpelled_string s) rfl ?_
  rw [Source.text?_ofJson, Json.string, Json.text?, Literal.text?_ofText]

theorem returns_bool (b : Bool) : Returns Source.bool? (writeBool b) b :=
  returns_ofJson (wellSpelled_scalar.mpr rfl) rfl (Source.bool?_ofJson (.bool b))

theorem returns_record {kind : Kind} {w : Value} (h : w.IsFaithful depthLimit (.record kind)) :
    Returns (recordOf? kind) (writeValue w) w := by
  refine returns_ofJson (Value.wellSpelled_toJson w ?_) h.given ?_
  · simp [h.frees]
  · rw [recordOf?, Source.value?_ofJson, Option.bind_some]
    exact h.decoded

/-! ### Requests -/

theorem GroupVersionKind.returns (k : GroupVersionKind) :
    Returns GroupVersionKind.ofSource? k.write k := by
  obtain ⟨group, hgroup⟩ := (returns_text k.group).required "group" ""
  obtain ⟨version, hversion⟩ := (returns_text k.version).required "version" ""
  obtain ⟨kind, hkind⟩ := (returns_text k.kind).required "kind" ""
  obtain ⟨s, hsound, hnull, hwritten, hfields⟩ :=
    Source.exists_record ["group", "version", "kind"]
      [("group", group), ("version", version), ("kind", kind)] rfl (by decide)
      (by simpa using ⟨hgroup.sound, hversion.sound, hkind.sound⟩)
  refine ⟨s, hsound, hnull, ?_, ?_⟩
  · rw [hwritten, write]
    simp [hgroup.written, hversion.written, hkind.written, textMember, writeText]
  · rw [ofSource?, hfields]
    simp [Source.fieldAt, hgroup.read, hversion.read, hkind.read]

theorem Operation.ofText_text (o : Operation) : ofText o.text = o := by
  cases o <;> decide

theorem Operation.returns (o : Operation) :
    Returns Operation.ofSource? (writeText o.text) o := by
  refine returns_ofJson (wellSpelled_string o.text) rfl ?_
  have hmembers : (Source.ofJson (.string o.text)).members? = none := rfl
  rw [ofSource?, hmembers]
  simp [Json.string, Json.text?, ofText_text]

namespace Request

/-- Whether the user and the object of a request come back from what is written for them. -/
structure IsFaithful (r : Request) : Prop where
  userInfo : r.userInfo.IsFaithful depthLimit (.record .userInfo)
  object : ∀ raw, r.object = some raw → Returns spellingOf? raw raw

theorem returns {r : Request} (h : r.IsFaithful) : Returns Request.ofSource? r.write r := by
  obtain ⟨uid, huid⟩ := (returns_text r.uid).required "uid" ""
  obtain ⟨kind, hkind⟩ := r.kind.returns.required "kind" .blank
  obtain ⟨namespaceName, hnamespace⟩ :=
    exists_restores_optional (fun s (_ : r.namespaceName = some s) => returns_text s) "namespace"
  obtain ⟨name, hname⟩ :=
    exists_restores_optional (fun s (_ : r.name = some s) => returns_text s) "name"
  obtain ⟨operation, hoperation⟩ := r.operation.returns.required "operation" .unknown
  obtain ⟨userInfo, huser⟩ := (returns_record h.userInfo).required "userInfo" (.empty .userInfo)
  obtain ⟨dryRun, hdryRun⟩ :=
    exists_restores_optional (fun b (_ : r.dryRun = some b) => returns_bool b) "dryRun"
  have hraw : ∀ raw, r.object = some raw → Returns spellingOf? (id raw) raw := h.object
  obtain ⟨object, hobject⟩ := exists_restores_optional hraw "object"
  obtain ⟨s, hsound, hnull, hwritten, hfields⟩ :=
    Source.exists_record fieldNames
      [("uid", uid), ("kind", kind), ("namespace", namespaceName), ("name", name),
        ("operation", operation), ("userInfo", userInfo), ("dryRun", dryRun), ("object", object)]
      rfl (by decide)
      (by simpa using ⟨huid.sound, hkind.sound, hnamespace.sound, hname.sound, hoperation.sound,
        huser.sound, hdryRun.sound, hobject.sound⟩)
  refine ⟨s, hsound, hnull, ?_, ?_⟩
  · rw [hwritten, write]
    simp [huid.written, hkind.written, hnamespace.written, hname.written, hoperation.written,
      huser.written, hdryRun.written, hobject.written, textMember, writeText]
  · rw [ofSource?, hfields]
    simp [Source.fieldAt, huid.read, hkind.read, hnamespace.read, hname.read, hoperation.read,
      huser.read, hdryRun.read, hobject.read]

end Request

/-! ### Responses -/

namespace Response

/-- The text of a patch in base64. -/
def patchLetters (patch : Octets) : String := ofCodes (Base64.encode patch)

theorem octets_patchLetters (patch : Octets) :
    octets (patchLetters patch) = Base64.encode patch := by
  have hletter : ∀ n < 64, Base64.letter n < 0x80 := by decide
  refine octets_ofCodes ?_
  intro c hc
  rcases Base64.mem_encode hc with rfl | ⟨n, hn, rfl⟩
  · decide
  · exact hletter n hn

theorem print_patchLetters (patch : Octets) :
    (Json.string (patchLetters patch)).print = 0x22 :: (Base64.encode patch ++ [0x22]) := by
  have hletter : ∀ n < 64, Literal.escape (Base64.letter n) = [Base64.letter n] := by decide
  have hescape : ∀ c ∈ Base64.encode patch, Literal.escape c = [c] := by
    intro c hc
    rcases Base64.mem_encode hc with rfl | ⟨n, hn, rfl⟩
    · decide
    · exact hletter n hn
  have hbody : (Base64.encode patch).flatMap Literal.escape = Base64.encode patch := by
    calc (Base64.encode patch).flatMap Literal.escape
        = ((Base64.encode patch).map Literal.escape).flatten := List.flatMap_def
      _ = ((Base64.encode patch).map fun c => [c]).flatten := by rw [List.map_congr_left hescape]
      _ = Base64.encode patch := List.flatMap_singleton' _
  rw [Json.string, print, Scalar.spell, Literal.ofText, octets_patchLetters, hbody]

theorem returns_patch (patch : Octets) :
    Returns base64Of? (0x22 :: (Base64.encode patch ++ [0x22])) patch := by
  rw [← print_patchLetters]
  refine returns_ofJson (wellSpelled_string _) rfl ?_
  rw [base64Of?, Source.text?_ofJson, Json.string, Json.text?, Literal.text?_ofText,
    Option.bind_some, octets_patchLetters, Base64.decode?_encode]

theorem returns_patchType (t : PatchType) : Returns PatchType.ofSource? (writeText t.text) t := by
  refine returns_ofJson (wellSpelled_string t.text) rfl ?_
  cases t
  decide

/-- Whether the status of a response comes back from what is written for it. -/
def IsFaithful (r : Response) : Prop :=
  ∀ status, r.status = some status → status.IsFaithful depthLimit (.record .status)

theorem returns {r : Response} (h : r.IsFaithful) : Returns Response.ofSource? r.write r := by
  obtain ⟨uid, huid, -⟩ := (returns_text r.uid).restores "uid"
  obtain ⟨allowed, hallowed, -⟩ := (returns_bool r.allowed).restores "allowed"
  obtain ⟨status, hstatus⟩ := exists_restores_optional
    (fun w (hw : r.status = some w) => returns_record (h w hw)) "status"
  obtain ⟨patch, hpatch⟩ :=
    exists_restores_optional (fun p (_ : r.patch = some p) => returns_patch p) "patch"
  obtain ⟨patchType, htype⟩ :=
    exists_restores_optional (fun t (_ : r.patchType = some t) => returns_patchType t) "patchType"
  obtain ⟨s, hsound, hnull, hwritten, hfields⟩ :=
    Source.exists_record ["uid", "allowed", "status", "patch", "patchType"]
      [("uid", uid), ("allowed", allowed), ("status", status), ("patch", patch),
        ("patchType", patchType)] rfl (by decide)
      (by simpa using
        ⟨huid.sound, hallowed.sound, hstatus.sound, hpatch.sound, htype.sound⟩)
  refine ⟨s, hsound, hnull, ?_, ?_⟩
  · rw [hwritten, write]
    simp [huid.written, hallowed.written, hstatus.written, hpatch.written, htype.written,
      textMember, writeText]
  · rw [ofSource?, hfields]
    simp [Source.fieldAt, huid.read, hallowed.read, hstatus.read, hpatch.read, htype.read]

/-- Whether the status of a response, if it has one, is that of a refusal. -/
def HasOwnStatus (r : Response) : Prop :=
  ∀ status, r.status = some status → ∃ message, status = refusal message

theorem decode?_refusal (message : String) :
    Value.decode? .status (refusal message).toJson = some (refusal message) := by
  have hversion : Kind.status.field? "apiVersion" = some ⟨"apiVersion", .constant "v1", true⟩ := rfl
  have hkind : Kind.status.field? "kind" = some ⟨"kind", .constant "Status", true⟩ := rfl
  have hmessage : Kind.status.field? "message" = some ⟨"message", .text, false⟩ := rfl
  have hmetadata : Kind.status.field? "metadata" = some ⟨"metadata", .record .listMeta, true⟩ := rfl
  have hvalue : Value.ofJson? 127 .text (.string message) = some (.text message) := by
    simp [Value.ofJson?, Json.string, Value.ofScalar?, Json.text?]
  have hread : Value.membersOfJson? 127 .status
      [(.ofText "apiVersion", .string "v1"), (.ofText "kind", .string "Status"),
        (.ofText "message", .string message), (.ofText "metadata", .object [])] =
      some [("apiVersion", some (.text "v1")), ("kind", some (.text "Status")),
        ("message", some (.text message)),
        ("metadata", some (.record (Value.slotsOf .listMeta [])))] := by
    rw [Value.membersOfJson?_ofText hversion rfl (w := .text "v1") (by rfl),
      Value.membersOfJson?_ofText hkind rfl (w := .text "Status") (by rfl),
      Value.membersOfJson?_ofText hmessage rfl hvalue,
      Value.membersOfJson?_ofText hmetadata rfl (by rfl)]
    rfl
  have hdocument : (refusal message).toJson =
      .object [(.ofText "apiVersion", .string "v1"), (.ofText "kind", .string "Status"),
        (.ofText "message", .string message), (.ofText "metadata", .object [])] := by
    rw [refusal_eq]
    simp only [Value.toJson, Value.slotsToJson]
  have hdepth : ¬ depthLimit ≤ 1 := by decide
  have hbelow : depthLimit - 1 = 127 := rfl
  rw [hdocument, Value.decode?, Value.ofJson?, if_neg hdepth, hbelow, hread, refusal_eq]
  rfl

/-- The status of a refusal comes back. -/
theorem HasOwnStatus.isFaithful {r : Response} (h : r.HasOwnStatus) : r.IsFaithful := by
  intro status hstatus
  obtain ⟨message, rfl⟩ := h status hstatus
  refine ⟨decode?_refusal message, ?_, ?_⟩
  · rw [refusal_eq]
    rfl
  · rw [refusal_eq]
    simp [Value.frees, Value.slotFrees]

end Response

/-! ### Envelopes -/

/-- Whether the request and the response of a review come back. -/
structure Review.IsFaithful (r : Review) : Prop where
  request : ∀ request, r.request = some request → request.IsFaithful
  response : ∀ response, r.response = some response → response.IsFaithful

theorem Review.returns {r : Review} (h : r.IsFaithful) : Returns Review.ofSource? r.write r := by
  obtain ⟨apiVersion, hversion⟩ := (returns_text r.apiVersion).required "apiVersion" ""
  obtain ⟨kind, hkind⟩ := (returns_text r.kind).required "kind" ""
  obtain ⟨request, hrequest⟩ := exists_restores_optional
    (fun q hq => Request.returns (h.request q hq)) "request"
  obtain ⟨response, hresponse⟩ := exists_restores_optional
    (fun q hq => Response.returns (h.response q hq)) "response"
  obtain ⟨s, hsound, hnull, hwritten, hfields⟩ :=
    Source.exists_record ["apiVersion", "kind", "request", "response"]
      [("apiVersion", apiVersion), ("kind", kind), ("request", request), ("response", response)]
      rfl (by decide)
      (by simpa using ⟨hversion.sound, hkind.sound, hrequest.sound, hresponse.sound⟩)
  refine ⟨s, hsound, hnull, ?_, ?_⟩
  · rw [hwritten, write]
    simp [hversion.written, hkind.written, hrequest.written, hresponse.written, textMember,
      writeText]
  · rw [ofSource?, hfields]
    simp [Source.fieldAt, hversion.read, hkind.read, hrequest.read, hresponse.read]

/-- A review that is written is read back if its kind is given and known. -/
theorem Registry.readReview_write {r : Review} (h : r.IsFaithful) (registry : Registry) :
    registry.readReview r.write =
      if r.kind = "" then .error .missingKind
      else (registry.check r.apiVersion r.kind).map fun _ => r := by
  obtain ⟨s, hsound, -, hwritten, hread⟩ := Review.returns h
  have hreview : (Source.ofText? r.write).bind Review.ofSource? = some r := by
    rw [← hwritten, Source.ofText?_written hsound, Option.bind_some, hread]
  rw [readReview, hreview]
  by_cases hkind : r.kind = ""
  · simp [hkind]
    rfl
  · simp only [hkind, if_false]
    cases registry.check r.apiVersion r.kind <;> rfl

/-- A reply that is written is read back if its version and kind are known, and refused for them
otherwise. -/
theorem Registry.readReview_write_reply (registry : Registry) (apiVersion : String) {r : Response}
    (h : r.HasOwnStatus) :
    registry.readReview (Review.reply apiVersion r).write =
      (registry.check apiVersion reviewKind).map fun _ => .reply apiVersion r := by
  have hreply : (Review.reply apiVersion r).IsFaithful := by
    refine ⟨fun request hrequest => ?_, fun response hresponse => ?_⟩
    · contradiction
    · obtain rfl : r = response := Option.some.inj hresponse
      exact h.isFaithful
  have hkind : (Review.reply apiVersion r).kind ≠ "" := by
    simp [Review.reply, reviewKind]
  rw [readReview_write hreply, if_neg hkind]
  rfl

end SidecarAdmission.Admission
