import SidecarAdmission.Proofs.Json.Reader
import SidecarAdmission.Proofs.Resource.Faithful
import SidecarAdmission.Proofs.Resource.Slots

/-!
Values of a type. A record of a kind has a slot for each field of the kind, in order, with a value of
the type of the field or, where the field is not required, with none. What a document is decoded to
is of the type that was asked for, and a change of a slot that keeps the type of the slot keeps that
of the record.
-/

set_option autoImplicit false
set_option relaxedAutoImplicit false

namespace SidecarAdmission.Resource

open SidecarAdmission.Json

/-- Whether what stands for a value that is not given is a value, with `depth` levels of records
filled in. -/
def Ty.hasInitial : Nat → Ty → Bool
  | 0, .record _ => false
  | depth + 1, .record kind => kind.fields.all fun f => !f.isRequired || f.type.hasInitial depth
  | _, _ => true

/-- No two fields of a kind have one name. -/
theorem Kind.nodup_names (kind : Kind) : (kind.fields.map (·.name)).Nodup := by
  cases kind <;> decide

/-- The records that required fields lead through are filled in completely. -/
theorem Kind.hasInitial_of_mem {kind : Kind} {f : Field} (hf : f ∈ kind.fields)
    (h : f.isRequired = true) : f.type.hasInitial Value.initialDepth = true := by
  have hall : (Ty.record kind).hasInitial (Value.initialDepth + 1) = true := by
    cases kind <;> decide
  have hf := List.all_eq_true.mp hall f hf
  rwa [h, Bool.not_true, Bool.false_or] at hf

namespace Value

/-- The values of a type. -/
inductive IsOf : Ty → Value → Prop where
  | scalar {ty : Ty} {v : Value} (allowed : ty.allows v = true) : IsOf ty v
  | list {item : Ty} {items : List Value} (typed : ∀ v ∈ items, IsOf item v) :
      IsOf (.list item) (.list items)
  | map {value : Ty} {entries : List (String × Value)} (ascend : KeysAscend entries)
      (typed : ∀ e ∈ entries, IsOf value e.2) : IsOf (.map value) (.map entries)
  | record {kind : Kind} {slot : Field → Option Value}
      (typed : ∀ f ∈ kind.fields, ∀ x, slot f = some x → IsOf f.type x)
      (given : ∀ f ∈ kind.fields, f.isRequired = true → (slot f).isSome = true) :
      IsOf (.record kind) (.record (kind.fields.map fun f => (f.name, slot f)))

/-! ### Parts of values -/

section Parts

variable {v : Value}

theorem IsOf.exists_items {item : Ty} (h : v.IsOf (.list item)) :
    ∃ items, v = .list items ∧ ∀ x ∈ items, x.IsOf item := by
  cases h with
  | scalar allowed => simp [Ty.allows] at allowed
  | list typed => exact ⟨_, rfl, typed⟩

theorem IsOf.exists_entries {value : Ty} (h : v.IsOf (.map value)) :
    ∃ entries, v = .map entries ∧ KeysAscend entries ∧ ∀ e ∈ entries, e.2.IsOf value := by
  cases h with
  | scalar allowed => simp [Ty.allows] at allowed
  | map ascend typed => exact ⟨_, rfl, ascend, typed⟩

theorem IsOf.exists_slots {kind : Kind} (h : v.IsOf (.record kind)) :
    ∃ slot : Field → Option Value, v = .record (kind.fields.map fun f => (f.name, slot f)) ∧
      (∀ f ∈ kind.fields, ∀ x, slot f = some x → x.IsOf f.type) ∧
      ∀ f ∈ kind.fields, f.isRequired = true → (slot f).isSome = true := by
  cases h with
  | scalar allowed => simp [Ty.allows] at allowed
  | record typed given => exact ⟨_, rfl, typed, given⟩

theorem IsOf.names_slots {kind : Kind} (h : v.IsOf (.record kind)) :
    v.slots.map Prod.fst = kind.fields.map (·.name) := by
  obtain ⟨slot, rfl, -, -⟩ := h.exists_slots
  simp [slots]

/-- The value in a slot is of the type of its field. -/
theorem IsOf.get? {kind : Kind} (h : v.IsOf (.record kind)) {name : String} {f : Field}
    (hf : kind.field? name = some f) {x : Value} (hx : v.get? name = some x) : x.IsOf f.type := by
  obtain ⟨slot, rfl, htyped, -⟩ := h.exists_slots
  rw [get?_map_field slot hf] at hx
  exact htyped f (List.mem_of_find?_eq_some hf) x hx

theorem IsOf.itemsAt {kind : Kind} (h : v.IsOf (.record kind)) {name : String} {item : Ty}
    {required : Bool} (hf : kind.field? name = some ⟨name, .list item, required⟩) :
    ∀ x ∈ v.itemsAt name, x.IsOf item := by
  intro x hx
  unfold Value.itemsAt at hx
  cases hlist : v.get? name with
  | none => simp [hlist] at hx
  | some l =>
    obtain ⟨items, rfl, htyped⟩ := (h.get? hf hlist).exists_items
    rw [hlist] at hx
    exact htyped x hx

end Parts

/-! ### Changes that keep a type -/

/-- Whether a function gives values of a type for values of the type. -/
def Preserves (ty : Ty) (f : Value → Value) : Prop := ∀ v, v.IsOf ty → (f v).IsOf ty

/-- Whether a change of a slot leaves in it a value of a type, or none where it had none. -/
structure PreservesSlot (ty : Ty) (f : Option Value → Option Value) : Prop where
  typed : ∀ slot, (∀ x, slot = some x → x.IsOf ty) → ∀ y, f slot = some y → y.IsOf ty
  given : ∀ x, (f (some x)).isSome = true

theorem preservesSlot_filledWith {ty : Ty} {value : Value} (h : value.IsOf ty) :
    PreservesSlot ty (filledWith value) := by
  refine ⟨fun slot hslot y hy => ?_, fun _ => rfl⟩
  obtain rfl := Option.some.inj hy
  cases slot with
  | none => exact h
  | some x => exact hslot x rfl

theorem preservesSlot_map {ty : Ty} {f : Value → Value} (h : Preserves ty f) :
    PreservesSlot ty (Option.map f) := by
  refine ⟨fun slot hslot y hy => ?_, fun _ => rfl⟩
  obtain ⟨x, hx, rfl⟩ := Option.map_eq_some_iff.mp hy
  exact h x (hslot x hx)

theorem preserves_updateSlot {kind : Kind} {name : String} {f : Field}
    (hf : kind.field? name = some f) {g : Option Value → Option Value}
    (h : PreservesSlot f.type g) : Preserves (.record kind) (updateSlot name g) := by
  intro v hv
  obtain ⟨slot, rfl, htyped, hgiven⟩ := hv.exists_slots
  have hname : f.name = name := by simpa using List.find?_some hf
  have hsame : ∀ f' ∈ kind.fields, f'.name = name → f' = f := by
    intro f' hf' hname'
    have hfound := kind.field?_of_mem kind.nodup_names hf'
    rw [hname', hf] at hfound
    exact (Option.some.inj hfound).symm
  have hslots : updateSlot name g (.record (kind.fields.map fun f => (f.name, slot f))) =
      .record (kind.fields.map fun f => (f.name, if f.name = name then g (slot f) else slot f)) := by
    simp only [updateSlot, List.map_map]
    congr 1
    refine List.map_congr_left fun f' _ => ?_
    by_cases hf' : f'.name = name <;> simp [hf']
  rw [hslots]
  refine .record (fun f' hf' y hy => ?_) fun f' hf' hrequired => ?_
  · by_cases hname' : f'.name = name
    · obtain rfl := hsame f' hf' hname'
      rw [if_pos hname'] at hy
      exact h.typed (slot f') (htyped f' hf') y hy
    · rw [if_neg hname'] at hy
      exact htyped f' hf' y hy
  · obtain ⟨x, hx⟩ := Option.isSome_iff_exists.mp (hgiven f' hf' hrequired)
    by_cases hname' : f'.name = name
    · rw [if_pos hname', hx]
      exact h.given x
    · rw [if_neg hname', hx]
      rfl

theorem preserves_each {item : Ty} {f : Value → Value} (h : Preserves item f) :
    Preserves (.list item) (each f) := by
  intro v hv
  obtain ⟨items, rfl, htyped⟩ := hv.exists_items
  exact .list (List.forall_mem_map.mpr fun x hx => h x (htyped x hx))

/-! ### Decoded values -/

theorem isOf_initial : (depth : Nat) → (ty : Ty) → ty.hasInitial depth = true →
    (initial depth ty).IsOf ty
  | _, .text, _ | _, .quantity, _ | _, .time, _ | _, .int32, _ | _, .int64, _ | _, .intOrText, _
  | _, .bool, _ | _, .free, _ => .scalar (by simp [initial, Ty.allows, isInt32, isInt64])
  | _, .constant s, _ => .scalar (by simp [initial, Ty.allows])
  | _, .list _, _ => by
    rw [initial]
    exact .list (by simp)
  | _, .map _, _ => by
    rw [initial]
    exact .map List.Pairwise.nil (by simp)
  | 0, .record _, h => by contradiction
  | depth + 1, .record kind, h => by
    rw [initial]
    have hall := List.all_eq_true.mp h
    refine .record (fun f hf x hx => ?_) fun f _ hrequired => by rw [if_pos hrequired]; rfl
    split at hx
    next hrequired =>
      obtain rfl := Option.some.inj hx
      exact isOf_initial depth f.type (by simpa [hrequired] using hall f hf)
    next => contradiction

/-- A decoded record is of its kind if what its given members decode to is of the types of their
fields. -/
theorem isOf_record_of_ofJson? {depth : Nat} {kind : Kind} {v : Json} {w : Value}
    (h : ofJson? depth (.record kind) v = some w)
    (hgiven : ∀ f ∈ kind.fields, ∀ child x, v.given? f.name = some child →
      ofJson? (depth - 1) f.type child = some x → x.IsOf f.type) : w.IsOf (.record kind) := by
  obtain ⟨-, hw⟩ := eq_record_of_ofJson? kind.nodup_names h
  have hslot : ∀ f ∈ kind.fields, (∃ x, w.get? f.name = some x ∧ x.IsOf f.type) ∨
      w.get? f.name = if f.isRequired then some (initial initialDepth f.type) else none := by
    intro f hf
    have hfield := kind.field?_of_mem kind.nodup_names hf
    cases hchild : v.given? f.name with
    | none => exact .inr (get?_of_given?_eq_none h hfield hchild)
    | some child =>
      obtain ⟨x, hx, hget⟩ := get?_of_given? h hfield hchild
      exact .inl ⟨x, hget, hgiven f hf child x hchild hx⟩
  rw [hw]
  refine .record (fun f hf x hx => ?_) fun f hf hrequired => ?_
  · rcases hslot f hf with ⟨x', hget, hx'⟩ | hfill
    · obtain rfl : x' = x := Option.some.inj (hget.symm.trans hx)
      exact hx'
    · rw [hfill] at hx
      split at hx
      next hrequired =>
        obtain rfl := Option.some.inj hx
        exact isOf_initial _ _ (Kind.hasInitial_of_mem hf hrequired)
      next => contradiction
  · rcases hslot f hf with ⟨x, hget, -⟩ | hfill
    · simp [hget]
    · simp [hfill, hrequired]

/-- What a document is decoded to is of the type that was asked for. -/
theorem isOf_of_ofJson? {depth : Nat} {ty : Ty} {v : Json} {w : Value}
    (h : ofJson? depth ty v = some w) : w.IsOf ty := by
  induction v using Json.induct generalizing depth ty w with
  | scalar s =>
    cases ty with
    | free =>
      obtain ⟨_, -, rfl⟩ := Option.map_eq_some_iff.mp h
      exact .scalar rfl
    | _ => exact .scalar (@allows_of_ofScalar? _ (.scalar s) w h)
  | array vs ih =>
    cases ty with
    | free =>
      obtain ⟨_, -, rfl⟩ := Option.map_eq_some_iff.mp h
      exact .scalar rfl
    | list item =>
      rw [ofJson?] at h
      split at h
      next => contradiction
      next =>
        obtain ⟨ws, hws, rfl⟩ := Option.map_eq_some_iff.mp h
        refine .list fun w hw => ?_
        obtain ⟨v, hv, hread⟩ := exists_of_mem_itemsOfJson? hws w hw
        exact ih v hv hread
    | _ => simp [ofJson?] at h
  | object members ih =>
    cases ty with
    | free =>
      obtain ⟨_, -, rfl⟩ := Option.map_eq_some_iff.mp h
      exact .scalar rfl
    | map value =>
      rw [ofJson?] at h
      split at h
      next => contradiction
      next =>
        obtain ⟨es, hes, rfl⟩ := Option.map_eq_some_iff.mp h
        refine .map (keysAscend_sortMembers es) fun e he => ?_
        obtain ⟨m, hm, hread⟩ := exists_of_mem_entriesOfJson? hes e (mem_of_mem_sortMembers he)
        exact ih m hm hread
    | record kind =>
      refine isOf_record_of_ofJson? h fun f hf child x hchild hx => ?_
      obtain ⟨key, hmem⟩ := exists_mem_of_member? (Json.get?_of_given? hchild).1
      exact ih _ hmem hx
    | _ => simp [ofJson?] at h

end Value

end SidecarAdmission.Resource
