import SidecarAdmission.Proofs.Resource.Typed

/-!
Values that fit into the levels that may be entered. Where a type has neither times nor free-form
parts, its values are decoded from their own documents again; and a record that is decoded from its
document again may be changed in all slots of such types.
-/

set_option autoImplicit false
set_option relaxedAutoImplicit false

namespace SidecarAdmission.Resource

open SidecarAdmission.Json

/-- Whether the values of a type need no more than a number of levels that may be entered and,
unless they are loose, have neither times nor free-form parts. What a required field holds is never
loose. -/
def Ty.fits : Nat → Bool → Ty → Bool
  | _, loose, .time | _, loose, .free => loose
  | depth + 2, loose, .list item => item.fits (depth + 1) loose
  | depth + 2, loose, .map value => value.fits (depth + 1) loose
  | depth + 2, loose, .record kind =>
    kind.fields.all fun f => f.type.fits (depth + 1) (loose && !f.isRequired)
  | _, _, .list _ | _, _, .map _ | _, _, .record _ => false
  | _, _, _ => true

section Fits

variable {depth : Nat} {loose : Bool}

theorem Ty.fits_list {item : Ty} (h : (Ty.list item).fits depth loose = true) :
    ¬ depth ≤ 1 ∧ item.fits (depth - 1) loose = true := by
  match depth, h with
  | depth + 2, h => exact ⟨by omega, h⟩

theorem Ty.fits_map {value : Ty} (h : (Ty.map value).fits depth loose = true) :
    ¬ depth ≤ 1 ∧ value.fits (depth - 1) loose = true := by
  match depth, h with
  | depth + 2, h => exact ⟨by omega, h⟩

theorem Ty.fits_record {kind : Kind} (h : (Ty.record kind).fits depth loose = true) :
    ¬ depth ≤ 1 ∧
      ∀ f ∈ kind.fields, f.type.fits (depth - 1) (loose && !f.isRequired) = true := by
  match depth, h with
  | depth + 2, h => exact ⟨by omega, List.all_eq_true.mp h⟩

theorem Ty.isScalar_of_allows {ty : Ty} {v : Value} (hfits : ty.fits depth false = true)
    (h : ty.allows v = true) : ty.isScalar = true := by
  cases ty with
  | time => simp [Ty.fits] at hfits
  | free => simp [Ty.fits] at hfits
  | list item => simp [Ty.allows] at h
  | map value => simp [Ty.allows] at h
  | record kind => simp [Ty.allows] at h
  | _ => rfl

end Fits

namespace Value

/-- A value without times and free-form parts is decoded from its document again. -/
theorem IsOf.isReadBack {depth : Nat} {ty : Ty} {v : Value} (h : v.IsOf ty)
    (hfits : ty.fits depth false = true) : v.IsReadBack depth ty := by
  induction h generalizing depth with
  | scalar allowed => exact isReadBack_of_isScalar (Ty.isScalar_of_allows hfits allowed) allowed
  | list typed ih =>
    obtain ⟨hdepth, hitem⟩ := Ty.fits_list hfits
    exact isReadBack_list hdepth fun w hw => ih w hw hitem
  | map ascend typed ih =>
    obtain ⟨hdepth, hvalue⟩ := Ty.fits_map hfits
    exact isReadBack_map hdepth ascend fun e he => ih e he hvalue
  | @record kind slot typed given ih =>
    obtain ⟨hdepth, hfields⟩ := Ty.fits_record hfits
    refine isReadBack_record hdepth kind.nodup_names (fun f hf x hx => ?_) fun f hf hnone => ?_
    · exact ih f hf x hx (by simpa using hfields f hf)
    · cases hrequired : f.isRequired with
      | false => rfl
      | true =>
        have hsome := given f hf hrequired
        rw [hnone] at hsome
        contradiction

theorem IsOf.frees_eq_nil {depth : Nat} {ty : Ty} {v : Value} (h : v.IsOf ty)
    (hfits : ty.fits depth false = true) : v.frees = [] := by
  induction h generalizing depth with
  | scalar allowed => exact frees_of_isScalar (Ty.isScalar_of_allows hfits allowed) allowed
  | list typed ih =>
    rw [frees, itemFrees_eq, List.flatMap_eq_nil_iff]
    exact fun w hw => ih w hw (Ty.fits_list hfits).2
  | map ascend typed ih =>
    rw [frees, entryFrees_eq, List.flatMap_eq_nil_iff]
    exact fun e he => ih e he (Ty.fits_map hfits).2
  | @record kind slot typed given ih =>
    obtain ⟨-, hfields⟩ := Ty.fits_record hfits
    rw [frees, slotFrees_eq, List.flatMap_eq_nil_iff, List.forall_mem_map]
    intro f hf
    cases hx : slot f with
    | none => rfl
    | some x => exact ih f hf x hx (by simpa using hfields f hf)

/-- Whether the documents that a value holds as they are have no numbers but integers of 64 bits,
and are not null. -/
def HasWholeFrees (v : Value) : Prop := ∀ w ∈ v.frees, w.IsWhole ∧ w.isNull = false

instance (v : Value) : Decidable v.HasWholeFrees :=
  inferInstanceAs (Decidable (∀ w ∈ v.frees, w.IsWhole ∧ w.isNull = false))

section WholeFrees

theorem HasWholeFrees.item {items : List Value} (h : (list items).HasWholeFrees) {v : Value}
    (hv : v ∈ items) : v.HasWholeFrees := by
  intro w hw
  refine h w ?_
  rw [frees, itemFrees_eq]
  exact List.mem_flatMap.mpr ⟨v, hv, hw⟩

theorem HasWholeFrees.entry {entries : List (String × Value)} (h : (map entries).HasWholeFrees)
    {e : String × Value} (he : e ∈ entries) : e.2.HasWholeFrees := by
  intro w hw
  refine h w ?_
  rw [frees, entryFrees_eq]
  exact List.mem_flatMap.mpr ⟨e, he, hw⟩

theorem HasWholeFrees.slot {slots : List (String × Option Value)} (h : (record slots).HasWholeFrees)
    {name : String} {v : Value} (hv : (name, some v) ∈ slots) : v.HasWholeFrees := by
  intro w hw
  refine h w ?_
  rw [frees, slotFrees_eq]
  exact List.mem_flatMap.mpr ⟨(name, some v), hv, hw⟩

end WholeFrees

/-- A record is decoded from its document again if the values that are given for its fields are, and
those that stand for what is not given. -/
theorem isReadBack_slotsOf {depth : Nat} {kind : Kind} {read : List (String × Option Value)}
    (hdepth : ¬ depth ≤ 1)
    (hread : ∀ f ∈ kind.fields, ∀ x, (read.reverse.lookup f.name).join = some x →
      x.IsReadBack (depth - 1) f.type)
    (hinitial : ∀ f ∈ kind.fields, f.isRequired = true →
      (initial initialDepth f.type).IsReadBack (depth - 1) f.type) :
    (record (slotsOf kind read)).IsReadBack depth (.record kind) := by
  refine isReadBack_record hdepth kind.nodup_names (fun f hf x hx => ?_) fun f hf hnone => ?_
  · split at hx
    next y hy =>
      obtain rfl := Option.some.inj hx
      exact hread f hf y hy
    next =>
      obtain ⟨hrequired, rfl⟩ : f.isRequired = true ∧ initial initialDepth f.type = x := by
        simpa using hx
      exact hinitial f hf hrequired
  · split at hnone
    next => contradiction
    next => simpa using hnone

/-! ### Slots of records -/

/-- The member of the document of a record under a name is the document of what its slot has. -/
theorem get?_toJson {slots : List (String × Option Value)} (hnames : (slots.map Prod.fst).Nodup)
    (name : String) :
    (record slots).toJson.get? name = ((record slots).get? name).map toJson := by
  rw [toJson, get?_object, get?, Value.slots]
  induction slots with
  | nil => rfl
  | cons s rest ih =>
    obtain ⟨k, value⟩ := s
    obtain ⟨hfirst, hrest⟩ := List.nodup_cons.mp hnames
    have hfresh : name = k → rest.lookup name = none := by
      rintro rfl
      refine List.lookup_eq_none_iff.mpr fun s hs => bne_iff_ne.mpr ?_
      rintro rfl
      exact hfirst (List.mem_map.mpr ⟨s, hs, rfl⟩)
    rw [lookup_cons_ite]
    cases value with
    | none =>
      rw [slotsToJson, ih hrest]
      by_cases hname : name = k
      · rw [hfresh hname]
        simp [hname]
      · simp [hname]
    | some v =>
      rw [slotsToJson, member?_cons, ih hrest, Literal.text?_ofText]
      by_cases hname : name = k
      · rw [hfresh hname]
        simp [hname]
      · simp [hname, Ne.symm hname]

theorem IsOf.get?_toJson {kind : Kind} {v : Value} (h : v.IsOf (.record kind)) (name : String) :
    v.toJson.get? name = (v.get? name).map toJson := by
  obtain ⟨slot, rfl, -, -⟩ := h.exists_slots
  exact Value.get?_toJson (h.names_slots ▸ kind.nodup_names) name

/-- The text in a slot of a record is the text of the member of its document. -/
theorem IsOf.textAt?_eq {kind : Kind} {v : Value} (h : v.IsOf (.record kind)) {name : String}
    {required : Bool} (hf : kind.field? name = some ⟨name, .text, required⟩) :
    v.textAt? name = (v.toJson.get? name).bind Json.text? := by
  rw [textAt?, h.get?_toJson name]
  cases hx : v.get? name with
  | none => rfl
  | some x =>
    cases h.get? hf hx with
    | scalar allowed =>
      cases x with
      | text s => exact (text?_string s).symm
      | _ => contradiction

theorem HasWholeFrees.isNull_toJson {v : Value} (h : v.HasWholeFrees) :
    v.toJson.isNull = false := by
  cases v with
  | free w => exact (h w (by simp [frees])).2
  | _ => rfl

section Slots

variable {depth : Nat} {kind : Kind} {v w : Value}

theorem HasWholeFrees.get? (h : v.HasWholeFrees) {name : String} {x : Value}
    (hx : v.get? name = some x) : x.HasWholeFrees := by
  cases v with
  | record slots =>
    obtain ⟨front, back, hslots, -⟩ := List.lookup_eq_some_iff.mp (Option.join_eq_some_iff.mp hx)
    have hmem : (name, some x) ∈ slots := by
      change slots = front ++ (name, some x) :: back at hslots
      simp [hslots]
    exact h.slot hmem
  | _ => contradiction

/-- What a slot of a record has is decoded from its own document again if the record is. -/
theorem IsReadBack.get? (h : v.IsReadBack depth (.record kind)) (hwhole : v.HasWholeFrees)
    {name : String} {f : Field} (hf : kind.field? name = some f) {x : Value}
    (hx : v.get? name = some x) : x.IsReadBack (depth - 1) f.type := by
  have hnull := (hwhole.get? hx).isNull_toJson
  have hmember : v.toJson.get? name = some x.toJson := by
    rw [(isOf_of_ofJson? h.decoded).get?_toJson name, hx, Option.map_some]
  have hgiven : v.toJson.given? name = some x.toJson := by
    rw [given?, hmember, Option.filter_some]
    simp [hnull]
  obtain ⟨y, hy, hget⟩ := get?_of_given? h.decoded hf hgiven
  obtain rfl : x = y := Option.some.inj (hx.symm.trans hget)
  exact ⟨hy, hnull, h.spelled.get? hmember⟩

/-- Whether a record has in all slots but those whose types have neither times nor free-form parts
what another one has. -/
def SameLooseSlots (depth : Nat) (kind : Kind) (v w : Value) : Prop :=
  ∀ f ∈ kind.fields, f.type.fits depth false = true ∨ w.get? f.name = v.get? f.name

/-- Records with the same loose slots hold the same documents as they are. -/
theorem SameLooseSlots.hasWholeFrees (h : SameLooseSlots depth kind v w)
    (hv : v.IsOf (.record kind)) (hwhole : w.HasWholeFrees) : v.HasWholeFrees := by
  obtain ⟨slot, rfl, htyped, -⟩ := hv.exists_slots
  intro u hu
  rw [frees, slotFrees_eq, List.mem_flatMap] at hu
  obtain ⟨_, hmem, hu⟩ := hu
  obtain ⟨f, hf, rfl⟩ := List.mem_map.mp hmem
  cases hx : slot f with
  | none => simp [hx] at hu
  | some x =>
    have hu : u ∈ x.frees := by simpa [hx] using hu
    have hfield := kind.field?_of_mem kind.nodup_names hf
    have hget := (get?_map_field slot hfield).trans hx
    rcases h f hf with hclosed | hsame
    · rw [(htyped f hf x hx).frees_eq_nil hclosed] at hu
      contradiction
    · exact hwhole.get? (hsame.trans hget) u hu

/-- A record is decoded from its document again if one with the same loose slots is. -/
theorem SameLooseSlots.isReadBack (h : SameLooseSlots (depth - 1) kind v w)
    (hv : v.IsReadBack depth (.record kind)) (hwhole : v.HasWholeFrees)
    (hw : w.IsOf (.record kind)) : w.IsReadBack depth (.record kind) := by
  have hdepth := (eq_record_of_ofJson? kind.nodup_names hv.decoded).1
  obtain ⟨slot, rfl, htyped, hgiven⟩ := hw.exists_slots
  refine isReadBack_record hdepth kind.nodup_names (fun f hf x hx => ?_) fun f hf hnone => ?_
  · have hfield := kind.field?_of_mem kind.nodup_names hf
    have hget := (get?_map_field slot hfield).trans hx
    rcases h f hf with hclosed | hsame
    · exact (htyped f hf x hx).isReadBack hclosed
    · exact hv.get? hwhole hfield (hsame.symm.trans hget)
  · cases hrequired : f.isRequired with
    | false => rfl
    | true =>
      have hsome := hgiven f hf hrequired
      rw [hnone] at hsome
      contradiction

end Slots

end Value

end SidecarAdmission.Resource
