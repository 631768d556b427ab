import SidecarAdmission.Proofs.Json.Canonical
import SidecarAdmission.Proofs.Json.Place
import SidecarAdmission.Resource.Pod
import SidecarAdmission.Resource.Decode

/-!
What the fields of a decoded record come from. A field has the value that the last member with its
name decodes to, and its default if there is no such member or that member is null. Lists keep their
number of items, and maps of texts hold under each key the text of the last member with it.
-/

set_option autoImplicit false
set_option relaxedAutoImplicit false

namespace SidecarAdmission

namespace Json

/-! ### Members that are given -/

/-- The value of the member of an object with a name, unless it is null. -/
def given? (v : Json) (name : String) : Option Json := (v.get? name).filter fun w => !w.isNull

/-- The items of the list at a place; a list that is missing or null has none. -/
def listAt? (v : Json) (names : List String) : Option (List Json) :=
  match v.at? names with
  | none => some []
  | some (.array items) => some items
  | some w => if w.isNull then some [] else none

theorem get?_of_given? {v w : Json} {name : String} (h : v.given? name = some w) :
    v.get? name = some w ∧ w.isNull = false := by
  obtain ⟨hget, hnull⟩ := Option.filter_eq_some_iff.mp h
  exact ⟨hget, by simpa using hnull⟩

/-- A member that is not given is missing or null. -/
theorem get?_of_not_given {v : Json} {name : String} (h : v.given? name = none) :
    v.get? name = none ∨ v.get? name = some null := by
  cases hget : v.get? name with
  | none => exact .inl rfl
  | some child =>
    have hnull : child.isNull = true := by simpa [given?, hget] using h
    right
    unfold isNull at hnull
    split at hnull
    · rfl
    · contradiction

theorem given?_of_isObject {v w : Json} {name : String} (h : v.get? name = some w)
    (hw : w.isObject = true) : v.given? name = some w := by
  obtain ⟨members, rfl⟩ := isObject_iff.mp hw
  rw [given?, h]
  rfl

end Json

/-- A field is found by its name if no two have one name. -/
theorem Resource.Kind.field?_of_mem {kind : Kind} (hnames : (kind.fields.map (·.name)).Nodup)
    {f : Field} (hf : f ∈ kind.fields) : kind.field? f.name = some f := by
  unfold field?
  generalize kind.fields = fields at hnames hf
  induction fields with
  | nil => contradiction
  | cons g rest ih =>
    obtain ⟨hfirst, hrest⟩ := List.nodup_cons.mp hnames
    rcases List.mem_cons.mp hf with rfl | hf
    · simp
    · have hne : g.name ≠ f.name := fun heq =>
        hfirst (List.mem_map.mpr ⟨f, hf, heq.symm⟩)
      simpa [hne] using ih hrest hf

namespace Resource.Value

open SidecarAdmission.Json

/-! ### Records -/

theorem membersOfJson?_ofText {depth : Nat} {kind : Kind} {name : String} {f : Field}
    (hf : kind.field? name = some f) {v : Json} (hv : v.isNull = false) {w : Value}
    (hw : ofJson? depth f.type v = some w) (rest : List (Literal × Json)) :
    membersOfJson? depth kind ((.ofText name, v) :: rest) =
      (membersOfJson? depth kind rest).map ((name, some w) :: ·) := by
  simp only [membersOfJson?, Literal.text?_ofText, hf, hv, hw, Bool.false_eq_true, if_false]

/-- What one member of an object gives to a record: nothing for a name that the kind lacks, else a
value or, for null, the absence of one; a constant may not be null. -/
theorem membersOfJson?_cons {depth : Nat} {kind : Kind} {k : Literal} {v : Json}
    {rest : List (Literal × Json)} {read : List (String × Option Value)}
    (h : membersOfJson? depth kind ((k, v) :: rest) = some read) :
    ∃ name more, k.text? = some name ∧ membersOfJson? depth kind rest = some more ∧
      ((kind.field? name = none ∧ read = more) ∨
        ∃ f slot, kind.field? name = some f ∧ read = (name, slot) :: more ∧
          ((v.isNull = true ∧ slot = none ∧ ∀ s, f.type ≠ .constant s) ∨
            (v.isNull = false ∧ slot.isSome = true ∧ slot = ofJson? depth f.type v))) := by
  rw [membersOfJson?] at h
  split at h
  next => contradiction
  next name hname =>
    split at h
    next unknown => exact ⟨name, read, hname, h, .inl ⟨unknown, rfl⟩⟩
    next f known =>
      split at h
      next isNull =>
        split at h
        next => contradiction
        next varying =>
          obtain ⟨more, hmore, rfl⟩ := Option.map_eq_some_iff.mp h
          exact ⟨name, more, hname, hmore, .inr ⟨f, none, known, rfl, .inl ⟨isNull, rfl, varying⟩⟩⟩
      next notNull =>
        split at h
        next w hw =>
          obtain ⟨more, hmore, rfl⟩ := Option.map_eq_some_iff.mp h
          have isValue : v.isNull = false := by simpa using notNull
          exact ⟨name, more, hname, hmore,
            .inr ⟨f, some w, known, rfl, .inr ⟨isValue, rfl, hw.symm⟩⟩⟩
        next => contradiction

/-- What the members of an object give for a field is what the last one with its name gives. -/
private theorem lookup_membersOfJson? {depth : Nat} {kind : Kind}
    {members : List (Literal × Json)} {read : List (String × Option Value)}
    (h : membersOfJson? depth kind members = some read) {name : String} {f : Field}
    (hf : kind.field? name = some f) :
    read.reverse.lookup name =
        (member? name members).map (fun v => if v.isNull then none else ofJson? depth f.type v) ∧
      ∀ v, member? name members = some v → v.isNull = false →
        (ofJson? depth f.type v).isSome = true := by
  induction members generalizing read with
  | nil =>
    obtain rfl : [] = read := by simpa [membersOfJson?] using h
    simp
  | cons m rest ih =>
    obtain ⟨k, v⟩ := m
    obtain ⟨other, more, hk, hmore, hread⟩ := membersOfJson?_cons h
    obtain ⟨hlookup, hvalue⟩ := ih hmore
    rw [member?_cons, hk]
    rcases hread with ⟨unknown, rfl⟩ | ⟨g, slot, known, rfl, hslot⟩
    · have hne : ¬ other = name := by
        rintro rfl
        rw [unknown] at hf
        contradiction
      simpa [hne] using ⟨hlookup, hvalue⟩
    · rw [List.reverse_cons, List.lookup_append, hlookup]
      cases hrest : member? name rest with
      | some w => simpa using fun notNull => hvalue w hrest notNull
      | none =>
        by_cases hname : other = name
        · subst other
          obtain rfl : g = f := Option.some.inj (known.symm.trans hf)
          rcases hslot with ⟨isNull, rfl, -⟩ | ⟨notNull, isSome, rfl⟩
          · simp [isNull]
          · simpa [notNull] using isSome
        · have hne : ¬ name = other := fun e => hname e.symm
          simp [lookup_cons_ite, hname, hne]

private theorem text?_of_constant {depth : Nat} {s : String} {v : Json} {w : Value}
    (h : ofJson? depth (.constant s) v = some w) : v.text? = some s := by
  cases v with
  | array items => contradiction
  | object members => contradiction
  | scalar value =>
    obtain ⟨t, ht, hsame⟩ := Option.bind_eq_some_iff.mp h
    split at hsame
    next heq => rw [ht, heq]
    next => contradiction

/-- Every member of an object that gives a record has a name, and under the name of a constant the
text of the constant. -/
theorem constants_of_ofJson? {depth : Nat} {kind : Kind} {members : List (Literal × Json)}
    {w : Value} (h : ofJson? depth (.record kind) (.object members) = some w) :
    ∀ m ∈ members, ∃ name, m.1.text? = some name ∧
      ∀ f s, kind.field? name = some f → f.type = .constant s → m.2.text? = some s := by
  rw [ofJson?] at h
  split at h
  next => contradiction
  next =>
    obtain ⟨read, hread, -⟩ := Option.map_eq_some_iff.mp h
    clear h
    induction members generalizing read with
    | nil => simp
    | cons m rest ih =>
      obtain ⟨name, more, hname, hmore, hgiven⟩ := membersOfJson?_cons hread
      refine List.forall_mem_cons.mpr ⟨⟨name, hname, fun f s hf hs => ?_⟩, ih more hmore⟩
      rcases hgiven with ⟨unknown, -⟩ | ⟨g, slot, known, -, hslot⟩
      · rw [unknown] at hf
        contradiction
      · obtain rfl : g = f := Option.some.inj (known.symm.trans hf)
        rcases hslot with ⟨-, -, varying⟩ | ⟨-, isSome, rfl⟩
        · exact absurd hs (varying s)
        · obtain ⟨x, hx⟩ := Option.isSome_iff_exists.mp isSome
          exact text?_of_constant (hs ▸ hx)

theorem lookup_map_field (fields : List Field) (slot : Field → Option Value)
    {name : String} {f : Field} (hf : fields.find? (·.name == name) = some f) :
    (fields.map fun g => (g.name, slot g)).lookup name = some (slot f) := by
  induction fields with
  | nil => contradiction
  | cons g rest ih =>
    rw [List.map_cons, lookup_cons_ite]
    by_cases hg : g.name = name
    · obtain rfl : g = f := by simpa [hg] using hf
      simp [hg]
    · have hne : ¬ name = g.name := fun e => hg e.symm
      have hrest : rest.find? (·.name == name) = some f := by simpa [hg] using hf
      simpa [hne] using ih hrest

/-- A record that has a slot for each field has under the name of a field what is in its slot. -/
theorem get?_map_field {kind : Kind} (slot : Field → Option Value) {name : String} {f : Field}
    (hf : kind.field? name = some f) :
    (record (kind.fields.map fun f => (f.name, slot f))).get? name = slot f := by
  rw [get?, slots, lookup_map_field kind.fields slot hf, Option.join_some]

private theorem get?_slotsOf {kind : Kind} (read : List (String × Option Value)) {name : String}
    {f : Field} (hf : kind.field? name = some f) :
    (record (slotsOf kind read)).get? name =
      (read.reverse.lookup name).join.or
        (if f.isRequired then some (initial initialDepth f.type) else none) := by
  have hname : f.name = name := by simpa using List.find?_some hf
  simp only [get?, slots, slotsOf, lookup_map_field kind.fields _ hf, Option.join_some, hname]
  cases (read.reverse.lookup name).join <;> rfl

theorem isObject_of_ofJson? {depth : Nat} {kind : Kind} {v : Json} {w : Value}
    (h : ofJson? depth (.record kind) v = some w) : v.isObject = true := by
  cases v with
  | object members => rfl
  | array items => simp [ofJson?] at h
  | scalar s => simp [ofJson?, ofScalar?] at h

private theorem get?_of_ofJson? {depth : Nat} {kind : Kind} {v : Json} {w : Value}
    (h : ofJson? depth (.record kind) v = some w) {name : String} {f : Field}
    (hf : kind.field? name = some f) :
    w.get? name =
        ((v.given? name).bind (ofJson? (depth - 1) f.type)).or
          (if f.isRequired then some (initial initialDepth f.type) else none) ∧
      ∀ child, v.given? name = some child → (ofJson? (depth - 1) f.type child).isSome = true := by
  obtain ⟨members, rfl⟩ := isObject_iff.mp (isObject_of_ofJson? h)
  rw [ofJson?] at h
  split at h
  next => contradiction
  next =>
    obtain ⟨read, hread, rfl⟩ := Option.map_eq_some_iff.mp h
    obtain ⟨hlookup, hvalue⟩ := lookup_membersOfJson? hread hf
    rw [get?_slotsOf read hf, hlookup]
    constructor
    · rw [given?, get?_object]
      cases member? name members with
      | none => rfl
      | some child => cases hnull : child.isNull <;> simp [Option.filter_some, hnull]
    · intro child hchild
      obtain ⟨hmember, hnull⟩ := get?_of_given? hchild
      exact hvalue child hmember hnull

/-- A field whose member is given has the value that the member decodes to. -/
theorem get?_of_given? {depth : Nat} {kind : Kind} {v child : Json} {w : Value}
    (h : ofJson? depth (.record kind) v = some w) {name : String} {f : Field}
    (hf : kind.field? name = some f) (hchild : v.given? name = some child) :
    ∃ x, ofJson? (depth - 1) f.type child = some x ∧ w.get? name = some x := by
  obtain ⟨hget, hvalue⟩ := get?_of_ofJson? h hf
  obtain ⟨x, hx⟩ := Option.isSome_iff_exists.mp (hvalue child hchild)
  exact ⟨x, hx, by simp [hget, hchild, hx]⟩

/-- A field whose member is not given has its default. -/
theorem get?_of_given?_eq_none {depth : Nat} {kind : Kind} {v : Json} {w : Value}
    (h : ofJson? depth (.record kind) v = some w) {name : String} {f : Field}
    (hf : kind.field? name = some f) (hnone : v.given? name = none) :
    w.get? name = if f.isRequired then some (initial initialDepth f.type) else none := by
  rw [(get?_of_ofJson? h hf).1, hnone]
  rfl

/-- A record with distinct field names holds a value or none under the name of each field. -/
theorem eq_record_of_ofJson? {depth : Nat} {kind : Kind} (hnames : (kind.fields.map (·.name)).Nodup)
    {v : Json} {w : Value} (h : ofJson? depth (.record kind) v = some w) :
    ¬ depth ≤ 1 ∧ w = .record (kind.fields.map fun f => (f.name, w.get? f.name)) := by
  obtain ⟨members, rfl⟩ := isObject_iff.mp (isObject_of_ofJson? h)
  rw [ofJson?] at h
  split at h
  next => contradiction
  next hdepth =>
    obtain ⟨read, hread, rfl⟩ := Option.map_eq_some_iff.mp h
    refine ⟨hdepth, congrArg Value.record (List.map_congr_left fun f hf => ?_)⟩
    rw [get?, slots, slotsOf, lookup_map_field kind.fields _ (kind.field?_of_mem hnames hf)]
    rfl

/-! ### Lists and maps -/

/-- A decoded list has as many items as the array. -/
theorem items_of_ofJson? {depth : Nat} {item : Ty} {v : Json} {w : Value}
    (h : ofJson? depth (.list item) v = some w) :
    ∃ vs, v = .array vs ∧ w.items.length = vs.length := by
  cases v with
  | object members => simp [ofJson?] at h
  | scalar s => simp [ofJson?, ofScalar?] at h
  | array vs =>
    rw [ofJson?] at h
    split at h
    next => contradiction
    next =>
      obtain ⟨ws, hws, rfl⟩ := Option.map_eq_some_iff.mp h
      refine ⟨vs, rfl, ?_⟩
      change ws.length = vs.length
      clear h
      induction vs generalizing ws with
      | nil =>
        obtain rfl : [] = ws := by simpa [itemsOfJson?] using hws
        rfl
      | cons v rest ih =>
        rw [itemsOfJson?] at hws
        split at hws
        next =>
          obtain ⟨more, hmore, rfl⟩ := Option.map_eq_some_iff.mp hws
          simp [ih more hmore]
        next => contradiction

theorem ofJson?_text (depth : Nat) (v : Json) : ofJson? depth .text v = v.text?.map .text := by
  cases v <;> rfl

/-- The entries of a map of texts, and what they have under each key. -/
private theorem entriesOfJson?_text {depth : Nat} {members : List (Literal × Json)}
    {entries : List (String × Value)}
    (h : entriesOfJson? depth .text members = some entries) :
    ∃ texts : List (String × String), entries = texts.map (fun m => (m.1, .text m.2)) ∧
      ∀ key, (member? key members).map Json.text? = (texts.reverse.lookup key).map some := by
  induction members generalizing entries with
  | nil =>
    obtain rfl : [] = entries := by simpa [entriesOfJson?] using h
    exact ⟨[], rfl, fun key => rfl⟩
  | cons m rest ih =>
    obtain ⟨k, v⟩ := m
    rw [entriesOfJson?, ofJson?_text] at h
    split at h
    next name w hk hv =>
      obtain ⟨more, hmore, rfl⟩ := Option.map_eq_some_iff.mp h
      obtain ⟨s, hs, rfl⟩ := Option.map_eq_some_iff.mp hv
      obtain ⟨texts, rfl, htexts⟩ := ih hmore
      refine ⟨(name, s) :: texts, rfl, fun key => ?_⟩
      rw [List.reverse_cons, List.lookup_append, member?_cons, hk, Option.map_or, htexts,
        Option.map_or, lookup_cons_ite]
      by_cases hkey : key = name
      · simp [hkey, hs]
      · have hne : ¬ name = key := fun e => hkey e.symm
        simp [hkey, hne]
    next => contradiction

/-- A decoded map of texts has under each key the text of the last member with it. -/
theorem textEntries_of_ofJson? {depth : Nat} {v : Json} {w : Value}
    (h : ofJson? depth (.map .text) v = some w) :
    v.isObject = true ∧
      ∀ key, (v.get? key).map Json.text? = (w.textEntries.lookup key).map some := by
  cases v with
  | array items => simp [ofJson?] at h
  | scalar s => simp [ofJson?, ofScalar?] at h
  | object members =>
    refine ⟨rfl, fun key => ?_⟩
    rw [ofJson?] at h
    split at h
    next => contradiction
    next =>
      obtain ⟨entries, hentries, rfl⟩ := Option.map_eq_some_iff.mp h
      obtain ⟨texts, rfl, htexts⟩ := entriesOfJson?_text hentries
      have hsorted : (Value.map (sortMembers (texts.map fun m => (m.1, .text m.2)))).textEntries =
          sortMembers texts := by
        rw [sortMembers_map, textEntries, entries, List.filterMap_map]
        exact List.filterMap_some
      rw [hsorted, lookup_sortMembers, get?_object, htexts]

end Resource.Value

end SidecarAdmission
