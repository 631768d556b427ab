import SidecarAdmission.Proofs.Json.Whole
import SidecarAdmission.Proofs.Resource.Decode
import SidecarAdmission.Proofs.Resource.Timestamp
import SidecarAdmission.Proofs.Resource.Value

/-!
Values that are decoded from their own documents. A value without parts is, if it is one of its
type, and a list, a map or a record is if its parts are, as long as it may be entered. A slot that
is null would be taken for one without a value.
-/

set_option autoImplicit false
set_option relaxedAutoImplicit false

namespace SidecarAdmission.Resource

open SidecarAdmission.Json

/-- The types of texts, integers and truth values. -/
def Ty.isScalar : Ty → Bool
  | .text | .quantity | .int32 | .int64 | .bool | .intOrText | .constant _ => true
  | .time | .free | .list _ | .map _ | .record _ => false

/-- Whether a value without parts is one of a type. -/
def Ty.allows : Ty → Value → Bool
  | .text, .text _ | .quantity, .text _ | .time, .text _ | .intOrText, .text _ => true
  | .constant s, .text t => s == t
  | .int32, .int n | .intOrText, .int n => isInt32 n
  | .int64, .int n => isInt64 n
  | .bool, .bool _ | .free, .free _ => true
  | _, _ => false

namespace Value

/-- Whether a value of a type is decoded from its document again, which can be written and is not
null. -/
structure IsReadBack (depth : Nat) (ty : Ty) (w : Value) : Prop where
  decoded : ofJson? depth ty w.toJson = some w
  given : w.toJson.isNull = false
  spelled : w.toJson.WellSpelled

variable {depth : Nat}

/-! ### Values without parts -/

theorem ofJson?_of_isScalar {ty : Ty} (hty : ty.isScalar = true) (v : Json) :
    ofJson? depth ty v = ofScalar? ty v := by
  cases ty with
  | time => contradiction
  | free => contradiction
  | list item => contradiction
  | map value => contradiction
  | record kind => contradiction
  | text | quantity | int32 | int64 | bool | intOrText | constant => cases v <;> rfl

theorem exists_int_of_bind {inRange : Int → Bool} {v : Json} {w : Value}
    (h : (v.integer?.bind fun n => if inRange n then some (int n) else none) = some w) :
    ∃ n, inRange n = true ∧ w = int n := by
  obtain ⟨n, -, hn⟩ := Option.bind_eq_some_iff.mp h
  split at hn
  next hrange => exact ⟨n, hrange, (Option.some.inj hn).symm⟩
  next => contradiction

private theorem allows_of_bind {ty : Ty} {inRange : Int → Bool}
    (hallows : ∀ n, ty.allows (int n) = inRange n) {v : Json} {w : Value}
    (h : (v.integer?.bind fun n => if inRange n then some (int n) else none) = some w) :
    ty.allows w = true := by
  obtain ⟨n, hrange, rfl⟩ := exists_int_of_bind h
  rw [hallows, hrange]

theorem allows_of_ofScalar? {ty : Ty} {v : Json} {w : Value} (h : ofScalar? ty v = some w) :
    ty.allows w = true := by
  cases ty with
  | text | quantity | bool =>
    obtain ⟨_, -, rfl⟩ := Option.map_eq_some_iff.mp h
    rfl
  | time =>
    obtain ⟨s, -, htime⟩ := Option.bind_eq_some_iff.mp h
    obtain ⟨_, -, rfl⟩ := Option.map_eq_some_iff.mp htime
    rfl
  | constant s =>
    obtain ⟨t, -, hconstant⟩ := Option.bind_eq_some_iff.mp h
    split at hconstant
    next =>
      obtain rfl := Option.some.inj hconstant
      simp [Ty.allows]
    next => contradiction
  | int32 => exact allows_of_bind (fun _ => rfl) h
  | int64 => exact allows_of_bind (fun _ => rfl) h
  | intOrText =>
    rw [ofScalar?] at h
    split at h
    next =>
      obtain rfl := Option.some.inj h
      rfl
    next => exact allows_of_bind (fun _ => rfl) h
  | free | list | map | record => contradiction

/-- A text, an integer or a truth value holds no document as it is. -/
theorem frees_of_isScalar {ty : Ty} (hty : ty.isScalar = true) {w : Value}
    (h : ty.allows w = true) : w.frees = [] := by
  cases w with
  | text s => rfl
  | int n => rfl
  | bool b => rfl
  | free v => cases ty <;> contradiction
  | list items => cases ty <;> contradiction
  | map entries => cases ty <;> contradiction
  | record slots => cases ty <;> contradiction

theorem isReadBack_of_isScalar {ty : Ty} (hty : ty.isScalar = true) {w : Value}
    (h : ty.allows w = true) : w.IsReadBack depth ty := by
  have hspelled : w.toJson.WellSpelled :=
    wellSpelled_toJson w (by simp [frees_of_isScalar hty h])
  have hdecoded : ofScalar? ty w.toJson = some w ∧ w.toJson.isNull = false := by
    cases w with
    | text s =>
      cases ty with
      | text | quantity | intOrText =>
        exact ⟨by simp [toJson, Json.string, ofScalar?, Json.text?], rfl⟩
      | constant t =>
        obtain rfl : t = s := by simpa [Ty.allows] using h
        exact ⟨by simp [toJson, Json.string, ofScalar?, Json.text?], rfl⟩
      | _ => contradiction
    | int n =>
      cases ty with
      | int32 | int64 | intOrText =>
        have hrange := h
        simp only [Ty.allows] at hrange
        exact ⟨by simp [toJson, Json.integer, ofScalar?, Json.text?, Json.integer?, hrange], rfl⟩
      | _ => contradiction
    | bool b =>
      cases ty with
      | bool => exact ⟨rfl, rfl⟩
      | _ => contradiction
    | free v => cases ty <;> contradiction
    | list items => cases ty <;> contradiction
    | map entries => cases ty <;> contradiction
    | record slots => cases ty <;> contradiction
  exact ⟨(ofJson?_of_isScalar hty _).trans hdecoded.1, hdecoded.2, hspelled⟩

theorem isReadBack_time {s : String} {w : Value} (h : ofTime? s = some w) :
    w.IsReadBack depth .time := by
  obtain ⟨t, ht, rfl⟩ := Option.map_eq_some_iff.mp h
  have hparse := Timestamp.parse?_text (Timestamp.isValid_of_parse? ht)
  refine ⟨?_, rfl, wellSpelled_string t.text⟩
  simp [toJson, Json.string, ofJson?, ofScalar?, Json.text?, ofTime?, hparse]

theorem isReadBack_free {v : Json} (hcanonical : canonical? depth v = some v)
    (hgiven : v.isNull = false) (hspelled : v.WellSpelled) :
    (free v).IsReadBack depth .free := by
  refine ⟨?_, hgiven, hspelled⟩
  cases v <;> rw [toJson, ofJson?, hcanonical, Option.map_some]

/-! ### Lists and maps -/

theorem isReadBack_list {item : Ty} (hdepth : ¬ depth ≤ 1) {ws : List Value}
    (h : ∀ w ∈ ws, w.IsReadBack (depth - 1) item) : (list ws).IsReadBack depth (.list item) := by
  have hitems : itemsOfJson? (depth - 1) item (itemsToJson ws) = some ws ∧
      ∀ v ∈ itemsToJson ws, v.WellSpelled := by
    induction ws with
    | nil => exact ⟨rfl, by simp [itemsToJson]⟩
    | cons w rest ih =>
      obtain ⟨hw, hrest⟩ := List.forall_mem_cons.mp h
      obtain ⟨hread, hspelled⟩ := ih hrest
      refine ⟨?_, List.forall_mem_cons.mpr ⟨hw.spelled, hspelled⟩⟩
      simp only [itemsToJson, itemsOfJson?, hw.decoded, hread, Option.map_some]
  refine ⟨?_, rfl, wellSpelled_array.mpr hitems.2⟩
  rw [toJson, ofJson?, if_neg hdepth, hitems.1, Option.map_some]

theorem isReadBack_map {value : Ty} (hdepth : ¬ depth ≤ 1) {es : List (String × Value)}
    (hkeys : KeysAscend es) (h : ∀ e ∈ es, e.2.IsReadBack (depth - 1) value) :
    (map es).IsReadBack depth (.map value) := by
  have hentries : entriesOfJson? (depth - 1) value (entriesToJson es) = some es ∧
      ∀ m ∈ entriesToJson es, m.1.isWellSpelled = true ∧ m.2.WellSpelled := by
    clear hkeys
    induction es with
    | nil => exact ⟨rfl, by simp [entriesToJson]⟩
    | cons e rest ih =>
      obtain ⟨key, w⟩ := e
      obtain ⟨hw, hrest⟩ := List.forall_mem_cons.mp h
      obtain ⟨hread, hspelled⟩ := ih hrest
      refine ⟨?_, List.forall_mem_cons.mpr
        ⟨⟨Literal.isWellSpelled_ofText key, hw.spelled⟩, hspelled⟩⟩
      simp only [entriesToJson, entriesOfJson?, Literal.text?_ofText, hw.decoded, hread,
        Option.map_some]
  refine ⟨?_, rfl, wellSpelled_object.mpr hentries.2⟩
  rw [toJson, ofJson?, if_neg hdepth, hentries.1, Option.map_some, sortMembers_of_keysAscend hkeys]

/-! ### Records -/

/-- The slots that have a value. -/
private def filled (slot : Field → Option Value) (fields : List Field) :
    List (String × Option Value) :=
  fields.filterMap fun f => (slot f).map fun x => (f.name, some x)

private theorem lookup_filled {slot : Field → Option Value} {fields : List Field}
    (hnames : (fields.map (·.name)).Nodup) {f : Field} (hf : f ∈ fields) :
    ((filled slot fields).reverse.lookup f.name).join = slot f := by
  have hreverse : (filled slot fields).reverse = fields.reverse.filterMap fun f =>
      ((slot f).map some).map fun x => (f.name, x) := by
    simp [filled, List.filterMap_reverse, Function.comp_def]
  have hlast : (fields.reverse.map (·.name)).Nodup := by
    rw [List.map_reverse]
    exact List.pairwise_reverse.mpr (hnames.imp Ne.symm)
  rw [hreverse, lookup_filterMap hlast (List.mem_reverse.mpr hf)]
  cases slot f <;> rfl

theorem isReadBack_record {kind : Kind} (hdepth : ¬ depth ≤ 1)
    (hnames : (kind.fields.map (·.name)).Nodup) {slot : Field → Option Value}
    (hslot : ∀ f ∈ kind.fields, ∀ x, slot f = some x → x.IsReadBack (depth - 1) f.type)
    (hrequired : ∀ f ∈ kind.fields, slot f = none → f.isRequired = false) :
    (record (kind.fields.map fun f => (f.name, slot f))).IsReadBack depth (.record kind) := by
  -- The members are read in order, each for the field whose slot it is the document of.
  have hmembers : ∀ fields : List Field, (∀ f ∈ fields, f ∈ kind.fields) →
      membersOfJson? (depth - 1) kind (slotsToJson (fields.map fun f => (f.name, slot f))) =
          some (filled slot fields) ∧
        ∀ m ∈ slotsToJson (fields.map fun f => (f.name, slot f)),
          m.1.isWellSpelled = true ∧ m.2.WellSpelled := by
    intro fields
    induction fields with
    | nil => exact fun _ => ⟨rfl, by simp [slotsToJson]⟩
    | cons f rest ih =>
      intro hall
      obtain ⟨hf, hrest⟩ := List.forall_mem_cons.mp hall
      obtain ⟨hread, hspelled⟩ := ih hrest
      rw [List.map_cons]
      cases hvalue : slot f with
      | none =>
        rw [slotsToJson]
        exact ⟨by simpa [filled, hvalue] using hread, hspelled⟩
      | some x =>
        have hx := hslot f hf x hvalue
        have hfield := kind.field?_of_mem hnames hf
        constructor
        · rw [slotsToJson, membersOfJson?_ofText hfield hx.given hx.decoded, hread]
          simp [filled, hvalue]
        · exact List.forall_mem_cons.mpr
            ⟨⟨Literal.isWellSpelled_ofText f.name, hx.spelled⟩, hspelled⟩
  obtain ⟨hread, hspelled⟩ := hmembers kind.fields fun _ hf => hf
  refine ⟨?_, rfl, wellSpelled_object.mpr hspelled⟩
  rw [toJson, ofJson?, if_neg hdepth, hread, Option.map_some, slotsOf]
  refine congrArg (fun slots => some (record slots)) (List.map_congr_left fun f hf => ?_)
  rw [lookup_filled hnames hf]
  cases hvalue : slot f with
  | none => simp [hrequired f hf hvalue]
  | some x => rfl

end Value

end SidecarAdmission.Resource
