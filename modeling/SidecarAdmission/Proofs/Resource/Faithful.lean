import SidecarAdmission.Proofs.Resource.ReadBack

/-!
Values that come back from their own documents. Where a type is made of texts, integers and truth
values, a decoded value is written as a document that decodes to it again: of members with one key
only the last has been kept, the members of a map stand sorted, and what was null is left out.
-/

set_option autoImplicit false
set_option relaxedAutoImplicit false

namespace SidecarAdmission.Resource

open SidecarAdmission.Json

/-- The types of lists, maps and records of them, where a record fills in nothing. -/
inductive Ty.IsPlain : Ty → Prop where
  | scalar {ty : Ty} (scalar : ty.isScalar = true) : IsPlain ty
  | list {item : Ty} (plain : IsPlain item) : IsPlain (.list item)
  | map {value : Ty} (plain : IsPlain value) : IsPlain (.map value)
  | record {kind : Kind} (names : (kind.fields.map (·.name)).Nodup)
      (optional : ∀ f ∈ kind.fields, f.isRequired = false)
      (plain : ∀ f ∈ kind.fields, IsPlain f.type) : IsPlain (.record kind)

namespace Value

/-- Whether a value of a type is decoded from its document again. -/
structure IsFaithful (depth : Nat) (ty : Ty) (w : Value) : Prop where
  decoded : ofJson? depth ty w.toJson = some w
  given : w.toJson.isNull = false
  frees : w.frees = []

variable {depth : Nat}

theorem IsFaithful.isReadBack {ty : Ty} {w : Value} (h : w.IsFaithful depth ty) :
    w.IsReadBack depth ty :=
  ⟨h.decoded, h.given, wellSpelled_toJson w (by simp [h.frees])⟩

theorem IsReadBack.isFaithful {ty : Ty} {w : Value} (h : w.IsReadBack depth ty)
    (hfrees : w.frees = []) : w.IsFaithful depth ty := ⟨h.decoded, h.given, hfrees⟩

theorem isFaithful_of_isScalar {ty : Ty} (hty : ty.isScalar = true) {v : Json} {w : Value}
    (h : ofScalar? ty v = some w) : w.IsFaithful depth ty :=
  (isReadBack_of_isScalar hty (allows_of_ofScalar? h)).isFaithful
    (frees_of_isScalar hty (allows_of_ofScalar? h))

/-! ### Lists and maps -/

theorem exists_of_mem_itemsOfJson? {item : Ty} {vs : List Json} {ws : List Value}
    (h : itemsOfJson? depth item vs = some ws) :
    ∀ w ∈ ws, ∃ v ∈ vs, ofJson? depth item v = some w := by
  induction vs generalizing ws with
  | nil =>
    obtain rfl : [] = ws := by simpa [itemsOfJson?] using h
    simp
  | cons v rest ih =>
    rw [itemsOfJson?] at h
    split at h
    next x hx =>
      obtain ⟨more, hmore, rfl⟩ := Option.map_eq_some_iff.mp h
      refine List.forall_mem_cons.mpr ⟨⟨v, List.mem_cons_self, hx⟩, fun w hw => ?_⟩
      obtain ⟨v', hv', hread⟩ := ih hmore w hw
      exact ⟨v', List.mem_cons_of_mem v hv', hread⟩
    next => contradiction

theorem isFaithful_list {item : Ty} (hdepth : ¬ depth ≤ 1) {ws : List Value}
    (h : ∀ w ∈ ws, w.IsFaithful (depth - 1) item) : (list ws).IsFaithful depth (.list item) := by
  refine (isReadBack_list hdepth fun w hw => (h w hw).isReadBack).isFaithful ?_
  rw [frees, itemFrees_eq, List.flatMap_eq_nil_iff]
  exact fun w hw => (h w hw).frees

theorem exists_of_mem_entriesOfJson? {value : Ty} {members : List (Literal × Json)}
    {es : List (String × Value)} (h : entriesOfJson? depth value members = some es) :
    ∀ e ∈ es, ∃ m ∈ members, ofJson? depth value m.2 = some e.2 := by
  induction members generalizing es with
  | nil =>
    obtain rfl : [] = es := by simpa [entriesOfJson?] using h
    simp
  | cons m rest ih =>
    obtain ⟨k, v⟩ := m
    rw [entriesOfJson?] at h
    split at h
    next key x _ hx =>
      obtain ⟨more, hmore, rfl⟩ := Option.map_eq_some_iff.mp h
      refine List.forall_mem_cons.mpr ⟨⟨(k, v), List.mem_cons_self, hx⟩, fun e he => ?_⟩
      obtain ⟨m, hm, hread⟩ := ih hmore e he
      exact ⟨m, List.mem_cons_of_mem (k, v) hm, hread⟩
    next => contradiction

theorem isFaithful_map {value : Ty} (hdepth : ¬ depth ≤ 1) {es : List (String × Value)}
    (hkeys : KeysAscend es) (h : ∀ e ∈ es, e.2.IsFaithful (depth - 1) value) :
    (map es).IsFaithful depth (.map value) := by
  refine (isReadBack_map hdepth hkeys fun e he => (h e he).isReadBack).isFaithful ?_
  rw [frees, entryFrees_eq, List.flatMap_eq_nil_iff]
  exact fun e he => (h e he).frees

/-! ### Records -/

theorem isFaithful_record {kind : Kind} (hdepth : ¬ depth ≤ 1)
    (hnames : (kind.fields.map (·.name)).Nodup) {slot : Field → Option Value}
    (hslot : ∀ f ∈ kind.fields, ∀ x, slot f = some x → x.IsFaithful (depth - 1) f.type)
    (hrequired : ∀ f ∈ kind.fields, slot f = none → f.isRequired = false) :
    (record (kind.fields.map fun f => (f.name, slot f))).IsFaithful depth (.record kind) := by
  refine (isReadBack_record hdepth hnames (fun f hf x hx => (hslot f hf x hx).isReadBack)
    hrequired).isFaithful ?_
  rw [frees, slotFrees_eq, List.flatMap_eq_nil_iff, List.forall_mem_map]
  intro f hf
  cases hvalue : slot f with
  | none => rfl
  | some x => exact (hslot f hf x hvalue).frees

/-! ### Decoded values -/

/-- A decoded record is decoded from its document again if its values are, and what it fills in. -/
theorem isFaithful_of_record {kind : Kind} (hnames : (kind.fields.map (·.name)).Nodup) {v : Json}
    {w : Value} (h : ofJson? depth (.record kind) v = some w)
    (hvalues : ∀ f ∈ kind.fields, ∀ child x, ofJson? (depth - 1) f.type child = some x →
      x.IsFaithful (depth - 1) f.type)
    (hfilled : ∀ f ∈ kind.fields, f.isRequired = true →
      (initial initialDepth f.type).IsFaithful (depth - 1) f.type) :
    w.IsFaithful depth (.record kind) := by
  obtain ⟨hdepth, hw⟩ := eq_record_of_ofJson? hnames h
  have hslot : ∀ f ∈ kind.fields, (∃ child x, w.get? f.name = some x ∧
      ofJson? (depth - 1) f.type child = some x) ∨
        w.get? f.name = if f.isRequired then some (initial initialDepth f.type) else none := by
    intro f hf
    have hfield := kind.field?_of_mem hnames hf
    cases hgiven : v.given? f.name with
    | none => exact .inr (get?_of_given?_eq_none h hfield hgiven)
    | some child =>
      obtain ⟨x, hx, hget⟩ := get?_of_given? h hfield hgiven
      exact .inl ⟨child, x, hget, hx⟩
  rw [hw]
  refine isFaithful_record hdepth hnames (fun f hf x hx => ?_) fun f hf hnone => ?_
  · rcases hslot f hf with ⟨child, x', hget, hchild⟩ | hfill
    · obtain rfl : x' = x := Option.some.inj (hget.symm.trans hx)
      exact hvalues f hf child x' hchild
    · rw [hfill] at hx
      split at hx
      next hrequired =>
        obtain rfl := Option.some.inj hx
        exact hfilled f hf hrequired
      next => contradiction
  · rcases hslot f hf with ⟨child, x, hget, -⟩ | hfill
    · rw [hnone] at hget
      contradiction
    · rw [hnone] at hfill
      split at hfill
      next => contradiction
      next hoptional => simpa using hoptional

/-- A decoded value of a plain type is decoded from its document again. -/
theorem isFaithful_of_ofJson? {ty : Ty} (hty : ty.IsPlain) {v : Json} {w : Value}
    (h : ofJson? depth ty v = some w) : w.IsFaithful depth ty := by
  induction hty generalizing depth v w with
  | scalar scalar =>
    rw [ofJson?_of_isScalar scalar] at h
    exact isFaithful_of_isScalar scalar h
  | list plain ih =>
    cases v with
    | scalar s => simp [ofJson?, ofScalar?] at h
    | object members => simp [ofJson?] at h
    | array vs =>
      rw [ofJson?] at h
      split at h
      next => contradiction
      next hdepth =>
        obtain ⟨ws, hws, rfl⟩ := Option.map_eq_some_iff.mp h
        refine isFaithful_list hdepth fun w hw => ?_
        obtain ⟨v, -, hv⟩ := exists_of_mem_itemsOfJson? hws w hw
        exact ih hv
  | map plain ih =>
    cases v with
    | scalar s => simp [ofJson?, ofScalar?] at h
    | array vs => simp [ofJson?] at h
    | object members =>
      rw [ofJson?] at h
      split at h
      next => contradiction
      next hdepth =>
        obtain ⟨es, hes, rfl⟩ := Option.map_eq_some_iff.mp h
        refine isFaithful_map hdepth (keysAscend_sortMembers es) fun e he => ?_
        obtain ⟨m, -, hv⟩ := exists_of_mem_entriesOfJson? hes e (mem_of_mem_sortMembers he)
        exact ih hv
  | record names optional plain ih =>
    refine isFaithful_of_record names h (fun f hf child x hx => ih f hf hx) fun f hf hrequired => ?_
    rw [optional f hf] at hrequired
    contradiction

end Value

/-! ### Users and statuses -/

theorem Ty.isPlain_userInfo : (Ty.record .userInfo).IsPlain := by
  refine .record (by decide) (by decide) ?_
  refine List.forall_mem_cons.mpr ⟨.map (.list (.scalar rfl)), ?_⟩
  refine List.forall_mem_cons.mpr ⟨.list (.scalar rfl), ?_⟩
  refine List.forall_mem_cons.mpr ⟨.scalar rfl, ?_⟩
  exact List.forall_mem_singleton.mpr (.scalar rfl)

theorem Ty.isPlain_listMeta : (Ty.record .listMeta).IsPlain := by
  refine .record (by decide) (by decide) ?_
  have hscalar : ∀ f ∈ Kind.listMeta.fields, f.type.isScalar = true := by decide
  exact fun f hf => .scalar (hscalar f hf)

theorem Ty.isPlain_statusCause : (Ty.record .statusCause).IsPlain := by
  refine .record (by decide) (by decide) ?_
  have hscalar : ∀ f ∈ Kind.statusCause.fields, f.type.isScalar = true := by decide
  exact fun f hf => .scalar (hscalar f hf)

theorem Ty.isPlain_statusDetails : (Ty.record .statusDetails).IsPlain := by
  refine .record (by decide) (by decide) ?_
  have hscalar : ∀ f ∈ Kind.statusDetails.fields.tail, f.type.isScalar = true := by decide
  exact List.forall_mem_cons.mpr
    ⟨.list isPlain_statusCause, fun f hf => .scalar (hscalar f hf)⟩

namespace Value

theorem isFaithful_userInfo {v : Json} {w : Value} (h : decode? .userInfo v = some w) :
    w.IsFaithful depthLimit (.record .userInfo) :=
  isFaithful_of_ofJson? Ty.isPlain_userInfo h

theorem isFaithful_empty_userInfo :
    (empty .userInfo).IsFaithful depthLimit (.record .userInfo) := ⟨rfl, rfl, rfl⟩

/-- A status fills in its version and kind and, where none are given, metadata without a value. -/
theorem isFaithful_status {v : Json} {w : Value} (h : decode? .status v = some w) :
    w.IsFaithful depthLimit (.record .status) := by
  have hfields : ∀ f ∈ Kind.status.fields, f.type.isScalar = true ∨
      f.type = .record .statusDetails ∨ f.type = .record .listMeta := by decide
  have hplain : ∀ f ∈ Kind.status.fields, f.type.IsPlain := by
    intro f hf
    rcases hfields f hf with hscalar | hdetails | hmeta
    · exact .scalar hscalar
    · exact hdetails ▸ Ty.isPlain_statusDetails
    · exact hmeta ▸ Ty.isPlain_listMeta
  have hrequired : ∀ f ∈ Kind.status.fields, f.isRequired = true →
      f.type = .constant "v1" ∨ f.type = .constant "Status" ∨ f.type = .record .listMeta := by
    decide
  refine isFaithful_of_record (by decide) h
    (fun f hf child x hx => isFaithful_of_ofJson? (hplain f hf) hx) fun f hf hfilled => ?_
  rcases hrequired f hf hfilled with htype | htype | htype
  · rw [htype]
    exact ⟨rfl, rfl, rfl⟩
  · rw [htype]
    exact ⟨rfl, rfl, rfl⟩
  · rw [htype]
    exact ⟨rfl, rfl, rfl⟩

end Value

end SidecarAdmission.Resource
