import SidecarAdmission.Proofs.Resource.Decode
import SidecarAdmission.Proofs.Resource.Reading
import SidecarAdmission.Proofs.Yaml.JsonNodes
import SidecarAdmission.Proofs.Yaml.Word

/-!
A JSON document that is read as YAML. What it is decoded to is also read from its node: texts, truth
values and integers are the same, null leaves out a field in both, and lists, maps and records are
read part by part. Only a number in a free-form part may be read differently, if it is no integer of
64 bits.
-/

set_option autoImplicit false
set_option relaxedAutoImplicit false

namespace SidecarAdmission

open SidecarAdmission.Text

/-! ### Numbers in free-form parts -/

/-- Whether a number has one reading in JSON and in YAML. -/
def Json.Numeral.ReadsAlike (n : Json.Numeral) : Prop :=
  (Yaml.Meaning.ofPlain? (Json.Scalar.number n).word).map Resource.FromYaml.ofReading =
    (Json.Scalar.number n).canonical?.map .scalar

/-- An integer of 64 bits reads alike. -/
theorem Json.Numeral.readsAlike_of_integer? {n : Json.Numeral} (hn : n.isWellSpelled = true)
    {k : Int} (hk : n.integer? = some k) (hbits : Yaml.Meaning.isOf64Bits k = true) :
    n.ReadsAlike := by
  have hbounds : -(2 ^ 63 : Int) ≤ k ∧ k < 2 ^ 64 := by
    simpa [Yaml.Meaning.isOf64Bits] using hbits
  rw [ReadsAlike, Yaml.Meaning.ofPlain?_word hn hk hbits, Scalar.canonical?,
    canonicalText?_of_integer? hk hbounds.1 hbounds.2]
  rfl

namespace Resource

/-- The type of the items of a list; those of a free-form one are free-form. -/
def Ty.item? : Ty → Option Ty
  | .free => some .free
  | .list item => some item
  | _ => none

/-- The type of the member with a name, if there is such a member; those of a free-form object are
free-form. -/
def Ty.member? : Ty → String → Option Ty
  | .free, _ => some .free
  | .map value, _ => some value
  | .record kind, name => (kind.field? name).map (·.type)
  | _, _ => none

mutual

/-- The numbers in the free-form parts of a document of a type; what is skipped has no type. -/
def freeNumerals (ty : Option Ty) : Json → List Json.Numeral
  | .scalar (.number n) => if ty = some .free then [n] else []
  | .scalar _ => []
  | .array items => freeNumeralsOfItems (ty.bind Ty.item?) items
  | .object members => freeNumeralsOfMembers ty members

/-- The numbers in the free-form parts of items. -/
def freeNumeralsOfItems (ty : Option Ty) : List Json → List Json.Numeral
  | [] => []
  | v :: rest => freeNumerals ty v ++ freeNumeralsOfItems ty rest

/-- The numbers in the free-form parts of the members of an object. -/
def freeNumeralsOfMembers (ty : Option Ty) :
    List (Json.Literal × Json) → List Json.Numeral
  | [] => []
  | (k, v) :: rest =>
    freeNumerals (ty.bind fun ty => k.text?.bind ty.member?) v ++ freeNumeralsOfMembers ty rest

end

/-- Whether the numbers in the free-form parts of a document of a type read alike. -/
def ReadsAlike (ty : Ty) (v : Json) : Prop := ∀ n ∈ freeNumerals (some ty) v, n.ReadsAlike

theorem freeNumeralsOfItems_eq (ty : Option Ty) (items : List Json) :
    freeNumeralsOfItems ty items = items.flatMap (freeNumerals ty) := by
  induction items with
  | nil => rfl
  | cons v rest ih => rw [freeNumeralsOfItems, ih, List.flatMap_cons]

theorem freeNumeralsOfMembers_eq (ty : Option Ty) (members : List (Json.Literal × Json)) :
    freeNumeralsOfMembers ty members = members.flatMap fun m =>
      freeNumerals (ty.bind fun ty => m.1.text?.bind ty.member?) m.2 := by
  induction members with
  | nil => rfl
  | cons m rest ih => rw [freeNumeralsOfMembers, ih, List.flatMap_cons]

theorem ReadsAlike.item {ty item : Ty} {items : List Json} (h : ReadsAlike ty (.array items))
    (hitem : ty.item? = some item) {v : Json} (hv : v ∈ items) : ReadsAlike item v := by
  intro n hn
  refine h n ?_
  rw [freeNumerals, freeNumeralsOfItems_eq, Option.bind_some, hitem]
  exact List.mem_flatMap.mpr ⟨v, hv, hn⟩

theorem ReadsAlike.member {ty member : Ty} {members : List (Json.Literal × Json)}
    (h : ReadsAlike ty (.object members)) {m : Json.Literal × Json} (hm : m ∈ members)
    {name : String} (hname : m.1.text? = some name) (hmember : ty.member? name = some member) :
    ReadsAlike member m.2 := by
  intro n hn
  refine h n ?_
  rw [freeNumerals, freeNumeralsOfMembers_eq]
  refine List.mem_flatMap.mpr ⟨m, hm, ?_⟩
  rw [Option.bind_some, hname, Option.bind_some, hmember]
  exact hn

namespace FromYaml

open Json (Literal)
open Value (ofJson? itemsOfJson? entriesOfJson? membersOfJson? slotsOf)

variable {doc : Yaml.Document} {depth : Nat}

/-! ### Lists of parts -/

/-- What is read part by part is read from a list. -/
theorem each_map {α β γ : Type} {decode : α → Option β} {node : α → γ} {read : γ → Reader β}
    {xs : List α} {ys : List β} (h : xs.mapM decode = some ys)
    (hread : ∀ x ∈ xs, ∀ y, decode x = some y → read (node x) = pure y) :
    each read (xs.map node) = pure ys := by
  induction xs generalizing ys with
  | nil =>
    obtain rfl : [] = ys := by simpa using h
    rfl
  | cons x rest ih =>
    simp only [List.mapM_cons, Option.bind_eq_bind, Option.bind_eq_some_iff] at h
    obtain ⟨y, hy, more, hmore, hys⟩ := h
    obtain rfl : y :: more = ys := Option.some.inj hys
    have hrest := ih hmore fun x hx => hread x (List.mem_cons_of_mem _ hx)
    rw [List.map_cons, each, hread x List.mem_cons_self y hy, hrest]
    rfl

theorem itemsOfJson?_eq (item : Ty) (vs : List Json) :
    itemsOfJson? depth item vs = vs.mapM (ofJson? depth item) := by
  induction vs with
  | nil => rfl
  | cons v rest ih =>
    rw [itemsOfJson?, ih, List.mapM_cons]
    cases ofJson? depth item v with
    | none => rfl
    | some w => exact Option.map_eq_bind

theorem entriesOfJson?_eq (value : Ty) (members : List (Literal × Json)) :
    entriesOfJson? depth value members = members.mapM fun m =>
      m.1.text?.bind fun k => (ofJson? depth value m.2).map fun w => (k, w) := by
  induction members with
  | nil => rfl
  | cons m rest ih =>
    rw [entriesOfJson?, ih, List.mapM_cons]
    cases m.1.text? with
    | none => rfl
    | some k =>
      cases ofJson? depth value m.2 with
      | none => rfl
      | some w => exact Option.map_eq_bind

theorem canonicalItems?_eq (vs : List Json) :
    Json.canonicalItems? depth vs = vs.mapM (Json.canonical? depth) := by
  induction vs with
  | nil => rfl
  | cons v rest ih =>
    rw [Json.canonicalItems?, ih, List.mapM_cons]
    cases Json.canonical? depth v with
    | none => rfl
    | some w => exact Option.map_eq_bind

theorem canonicalMembers?_eq (members : List (Literal × Json)) :
    Json.canonicalMembers? depth members = members.mapM fun m =>
      m.1.text?.bind fun k => (Json.canonical? depth m.2).map fun w => (k, w) := by
  induction members with
  | nil => rfl
  | cons m rest ih =>
    rw [Json.canonicalMembers?, ih, List.mapM_cons]
    cases m.1.text? with
    | none => rfl
    | some k =>
      cases Json.canonical? depth m.2 with
      | none => rfl
      | some w => exact Option.map_eq_bind

/-! ### Steps of the reader -/

theorem follow_scalar (anchor : Option Nat) (s : Yaml.Scalar) :
    follow doc (.scalar anchor s) = pure (.scalar anchor s) := rfl

theorem text_key {k : Literal} {name : String} (h : k.text? = some name) :
    text doc (.scalar none (.ofJson (.string k))) = pure name := by
  have htext : (Yaml.Scalar.ofJson (.string k)).text = name := by simp [Yaml.Scalar.ofJson, h]
  rw [← htext]
  rfl

/-- A key and what is read of its value. -/
theorem pair_ofJson {α : Type} {read : Yaml.Node → Reader α} {m : Literal × Json} {name : String}
    {w : α} (hname : m.1.text? = some name) (hread : read (.ofJson m.2) = pure w) :
    (do return (← text doc (.scalar none (.ofJson (.string m.1))), ← read (.ofJson m.2))) =
      (pure (name, w) : Reader (String × α)) := by
  rw [text_key hname, hread]
  rfl

/-! ### Free-form parts -/

theorem free_scalar (anchor : Option Nat) (s : Yaml.Scalar) :
    free doc depth (.scalar anchor s) =
      (do return ofReading (← ofOption (Yaml.Meaning.ofScalar? s))) := by
  cases depth with
  | zero => rw [free_zero, follow_scalar, pure_bind]
  | succ depth => rw [free_succ, follow_scalar, pure_bind]

theorem free_array {items ws : List Json}
    (h : each (free doc depth) (items.map Yaml.Node.ofJson) = pure ws) :
    free doc (depth + 1) (.ofJson (.array items)) = pure (.array ws) := by
  rw [free_succ, Yaml.Node.ofJson, Yaml.Node.ofItems_eq]
  show (each (free doc depth) (items.map Yaml.Node.ofJson) >>= fun vs => pure (Json.array vs)) = _
  rw [h, pure_bind]

theorem free_object {members : List (Literal × Json)} {ms : List (String × Json)}
    (h : each (fun (k, v) => do return (← text doc k, ← free doc depth v))
      (members.map fun m => (.scalar none (.ofJson (.string m.1)), .ofJson m.2)) = pure ms) :
    free doc (depth + 1) (.ofJson (.object members)) =
      pure (.ofMembers (Json.sortMembers ms)) := by
  rw [free_succ, Yaml.Node.ofJson, Yaml.Node.ofMembers_eq]
  show (each _ _ >>= fun ms => pure (Json.ofMembers (Json.sortMembers ms))) = _
  rw [h, pure_bind]

theorem ofScalar?_number (n : Json.Numeral) : Yaml.Meaning.ofScalar? (.ofJson (.number n)) =
    Yaml.Meaning.ofPlain? (Json.Scalar.number n).word := by
  simp only [Yaml.Meaning.ofScalar?, Yaml.Scalar.ofJson, if_true]

/-- A value without parts has its canonical form as what it means. -/
theorem ofReading_ofScalar? {v : Json.Scalar} {w : Json}
    (halike : ReadsAlike .free (.scalar v)) (h : v.canonical?.map .scalar = some w) :
    (Yaml.Meaning.ofScalar? (.ofJson v)).map ofReading = some w := by
  cases v with
  | null => exact h
  | bool b => cases b <;> exact h
  | number n =>
    have hn : n.ReadsAlike := halike n (by simp [freeNumerals])
    rw [ofScalar?_number, ← h]
    exact hn
  | string l =>
    obtain ⟨v, hv, rfl⟩ := Option.map_eq_some_iff.mp h
    obtain ⟨t, ht, rfl⟩ := Option.map_eq_some_iff.mp hv
    simp [Yaml.Scalar.ofJson, Yaml.Meaning.ofScalar?, ht, ofReading, Json.string]

theorem free_ofJson {v w : Json} (halike : ReadsAlike .free v)
    (h : Json.canonical? depth v = some w) : free doc (depth - 1) (.ofJson v) = pure w := by
  induction v using Json.induct generalizing depth w with
  | scalar v =>
    rw [Json.canonical?] at h
    obtain ⟨r, hr, rfl⟩ := Option.map_eq_some_iff.mp (ofReading_ofScalar? halike h)
    rw [Yaml.Node.ofJson, free_scalar, hr]
    rfl
  | array items ih =>
    obtain _ | _ | depth := depth
    · contradiction
    · contradiction
    rw [Json.canonical?, if_neg (by simp), canonicalItems?_eq] at h
    obtain ⟨ws, hws, rfl⟩ := Option.map_eq_some_iff.mp h
    exact free_array (each_map hws fun v hv w hw => ih v hv (halike.item rfl hv) hw)
  | object members ih =>
    obtain _ | _ | depth := depth
    · contradiction
    · contradiction
    rw [Json.canonical?, if_neg (by simp), canonicalMembers?_eq] at h
    obtain ⟨ms, hms, rfl⟩ := Option.map_eq_some_iff.mp h
    refine free_object (each_map hms fun m hm e he => ?_)
    obtain ⟨name, hname, he⟩ := Option.bind_eq_some_iff.mp he
    obtain ⟨w, hw, rfl⟩ := Option.map_eq_some_iff.mp he
    exact pair_ofJson hname (ih m hm (halike.member hm hname rfl) hw)

/-! ### Values without parts -/

theorem int?_word {isIn : Int → Bool} {n : Json.Numeral} (hn : n.isWellSpelled = true) {w : Value}
    (h : (n.integer?.bind fun k => if isIn k then some (Value.int k) else none) = some w) :
    int? isIn (.ofJson (.number n)) = some w := by
  obtain ⟨k, hk, hrange⟩ := Option.bind_eq_some_iff.mp h
  have hread : Yaml.Meaning.integer? (Yaml.Scalar.ofJson (.number n)).text = some k :=
    Yaml.Meaning.integer?_word hn hk
  rw [int?, if_pos (by rfl), hread]
  exact hrange

theorem intOrText_word {n : Json.Numeral} (hn : n.isWellSpelled = true) {w : Value}
    (h : (n.integer?.bind fun k => if isInt32 k then some (Value.int k) else none) = some w) :
    ofScalar? .intOrText (.ofJson (.number n)) = some w := by
  obtain ⟨k, hk, hrange⟩ := Option.bind_eq_some_iff.mp h
  obtain ⟨hin, -⟩ := Option.ite_none_right_eq_some.mp hrange
  have hbits : Yaml.Meaning.isOf64Bits k = true := by
    simp only [isInt32, Yaml.Meaning.isOf64Bits, Bool.and_eq_true, decide_eq_true_eq] at hin ⊢
    have hlow : Int.ofNat (Nat.pow 2 31) ≤ Int.ofNat (Nat.pow 2 63) := by decide
    have hhigh : Int.ofNat (Nat.pow 2 31) ≤ Int.ofNat (Nat.pow 2 64) := by decide
    omega
  rw [ofScalar?, ofScalar?_number, Yaml.Meaning.ofPlain?_word hn hk hbits]
  exact hrange

/-- A value without parts that is decoded is read from the scalar that it is. -/
theorem ofScalar?_ofJson {ty : Ty} {v : Json.Scalar} {w : Value} (hv : v.isWellSpelled = true)
    (h : Value.ofScalar? ty (.scalar v) = some w) : ofScalar? ty (.ofJson v) = some w := by
  cases v with
  | null => cases ty <;> contradiction
  | bool b =>
    cases ty with
    | bool => cases b <;> exact h
    | _ => contradiction
  | number n =>
    cases ty with
    | int32 | int64 => exact int?_word hv h
    | intOrText => exact intOrText_word hv h
    | _ => contradiction
  | string l =>
    have htext : ∀ {t}, l.text? = some t → (Yaml.Scalar.ofJson (.string l)).text = t := by
      intro t ht
      simp [Yaml.Scalar.ofJson, ht]
    have hl : (Json.scalar (.string l)).text? = l.text? := rfl
    cases ty with
    | text | quantity =>
      obtain ⟨t, ht, rfl⟩ := Option.map_eq_some_iff.mp h
      rw [ofScalar?, htext ht]
    | intOrText =>
      have hquoted : Yaml.Meaning.ofScalar? (.ofJson (.string l)) =
          some (.text (Yaml.Scalar.ofJson (.string l)).text) := rfl
      rw [Value.ofScalar?, hl] at h
      cases ht : l.text? with
      | none => rw [ht] at h; contradiction
      | some t =>
        rw [ht] at h
        rw [ofScalar?, hquoted, htext ht]
        exact h
    | time =>
      obtain ⟨t, ht, htime⟩ := Option.bind_eq_some_iff.mp h
      rw [ofScalar?, htext ht]
      exact htime
    | constant s =>
      obtain ⟨t, ht, hconstant⟩ := Option.bind_eq_some_iff.mp h
      rw [ofScalar?, htext ht]
      obtain ⟨rfl, -⟩ := Option.ite_none_right_eq_some.mp hconstant
      exact hconstant
    | _ => contradiction

/-! ### Values -/

/-- Of the values without parts only null leaves out a field. -/
theorem leavesOut?_ofJson {v : Json.Scalar} (hv : v.isWellSpelled = true) :
    Yaml.Meaning.leavesOut? (.ofJson v) = some (Json.scalar v).isNull := by
  cases v with
  | null => rfl
  | bool b => cases b <;> rfl
  | string l => rfl
  | number n =>
    simp [Yaml.Meaning.leavesOut?, Yaml.Scalar.ofJson, Yaml.Meaning.isEmpty_word hv,
      Yaml.Meaning.isNull_word hv, Json.isNull]

theorem present_ofJson {v : Json} (hv : v.WellSpelled) :
    present doc (.ofJson v) = pure (if v.isNull then none else some (.ofJson v)) := by
  cases v with
  | scalar v =>
    have hout := leavesOut?_ofJson (Json.wellSpelled_scalar.mp hv)
    rw [present, Yaml.Node.ofJson, follow_scalar, pure_bind]
    dsimp only
    rw [hout]
    rfl
  | array items => rfl
  | object members => rfl

theorem value_free (n : Yaml.Node) :
    value doc depth .free n = (do return .free (← free doc (depth - 1) n)) := by
  cases depth with
  | zero => rw [value, if_pos rfl]
  | succ depth => rw [value, if_pos rfl, Nat.add_sub_cancel]

theorem value_scalar {ty : Ty} (hty : ty ≠ .free) (anchor : Option Nat) (s : Yaml.Scalar) :
    value doc depth ty (.scalar anchor s) = ofOption (ofScalar? ty s) := by
  cases depth with
  | zero => rw [value, if_neg hty, follow_scalar, pure_bind]
  | succ depth => rw [value, if_neg hty, follow_scalar, pure_bind]

theorem value_list {item : Ty} {items : List Json} {ws : List Value}
    (h : each (value doc depth item) (items.map Yaml.Node.ofJson) = pure ws) :
    value doc (depth + 1) (.list item) (.ofJson (.array items)) = pure (.list ws) := by
  rw [value, if_neg (by simp), Yaml.Node.ofJson, Yaml.Node.ofItems_eq]
  show (each (value doc depth item) (items.map Yaml.Node.ofJson) >>= fun vs =>
    pure (Value.list vs)) = _
  rw [h, pure_bind]

theorem value_map {item : Ty} {members : List (Literal × Json)} {es : List (String × Value)}
    (h : each (fun (k, v) => do return (← text doc k, ← value doc depth item v))
      (members.map fun m => (.scalar none (.ofJson (.string m.1)), .ofJson m.2)) = pure es) :
    value doc (depth + 1) (.map item) (.ofJson (.object members)) =
      pure (.map (Json.sortMembers es)) := by
  rw [value, if_neg (by simp), Yaml.Node.ofJson, Yaml.Node.ofMembers_eq]
  show (each _ _ >>= fun es => pure (Value.map (Json.sortMembers es))) = _
  rw [h, pure_bind]

theorem value_record {kind : Kind} {members : List (Literal × Json)}
    {read : List (Option (String × Option Value))}
    (h : each (slot? doc kind (value doc depth))
      (members.map fun m => (.scalar none (.ofJson (.string m.1)), .ofJson m.2)) = pure read) :
    value doc (depth + 1) (.record kind) (.ofJson (.object members)) =
      pure (.record (slotsOf kind (read.filterMap id))) := by
  rw [value, if_neg (by simp), Yaml.Node.ofJson, Yaml.Node.ofMembers_eq]
  show (each _ _ >>= fun read => pure (Value.record (slotsOf kind (read.filterMap id)))) = _
  rw [h, pure_bind]

theorem slot?_of_unknown {kind : Kind} {read : Ty → Yaml.Node → Reader Value} {k : Literal}
    {name : String} (hname : k.text? = some name) (hfield : kind.field? name = none)
    (n : Yaml.Node) : slot? doc kind read (.scalar none (.ofJson (.string k)), n) = pure none := by
  rw [slot?, text_key hname, pure_bind, hfield]

/-- Null leaves out a field, unless that is a constant. -/
theorem slot?_of_null {kind : Kind} {read : Ty → Yaml.Node → Reader Value} {k : Literal}
    {name : String} {f : Field} {v : Json} (hname : k.text? = some name)
    (hfield : kind.field? name = some f) (hconstant : ∀ s, f.type ≠ .constant s)
    (hv : v.WellSpelled) (hnull : v.isNull = true) :
    slot? doc kind read (.scalar none (.ofJson (.string k)), .ofJson v) =
      pure (some (name, none)) := by
  have hpresent : present doc (.ofJson v) = pure none := by
    rw [present_ofJson hv, if_pos hnull]
  rw [slot?, text_key hname, pure_bind, hfield]
  dsimp only
  split
  next s hs => exact absurd hs (hconstant s)
  next => rw [hpresent, pure_bind]

theorem slot?_of_value {kind : Kind} {read : Ty → Yaml.Node → Reader Value} {k : Literal}
    {name : String} {f : Field} {v : Json} {w : Value} (hname : k.text? = some name)
    (hfield : kind.field? name = some f) (hv : v.WellSpelled) (hnull : v.isNull = false)
    (hread : read f.type (.ofJson v) = pure w) :
    slot? doc kind read (.scalar none (.ofJson (.string k)), .ofJson v) =
      pure (some (name, some w)) := by
  have hpresent : present doc (.ofJson v) = pure (some (.ofJson v)) := by
    rw [present_ofJson hv, hnull]
    rfl
  rw [slot?, text_key hname, pure_bind, hfield]
  dsimp only
  split
  next s hs => rw [hread, pure_bind]
  next =>
    rw [hpresent, pure_bind]
    dsimp only
    rw [hread, pure_bind]

/-- What the members of an object give to a record is read from its entries. -/
theorem exists_each_slot? {kind : Kind} {members : List (Literal × Json)}
    {read : List (String × Option Value)} (h : membersOfJson? depth kind members = some read)
    (hspelled : ∀ m ∈ members, m.2.WellSpelled)
    (hvalue : ∀ m ∈ members, ∀ name f w, m.1.text? = some name → kind.field? name = some f →
      ofJson? depth f.type m.2 = some w → value doc depth f.type (.ofJson m.2) = pure w) :
    ∃ slots : List (Option (String × Option Value)), slots.filterMap id = read ∧
      each (slot? doc kind (value doc depth))
        (members.map fun m => (.scalar none (.ofJson (.string m.1)), .ofJson m.2)) = pure slots := by
  induction members generalizing read with
  | nil =>
    obtain rfl : [] = read := by simpa [membersOfJson?] using h
    exact ⟨[], rfl, rfl⟩
  | cons m rest ih =>
    obtain ⟨hm, hrest⟩ := List.forall_mem_cons.mp hspelled
    obtain ⟨name, more, hname, hmore, hcases⟩ := Value.membersOfJson?_cons h
    obtain ⟨slots, rfl, hslots⟩ := ih hmore hrest fun m hm => hvalue m (List.mem_cons_of_mem _ hm)
    have hcons : ∀ slot, slot? doc kind (value doc depth)
        (.scalar none (.ofJson (.string m.1)), .ofJson m.2) = pure slot →
        each (slot? doc kind (value doc depth)) ((m :: rest).map fun m =>
          (.scalar none (.ofJson (.string m.1)), .ofJson m.2)) = pure (slot :: slots) := by
      intro slot hslot
      rw [List.map_cons, each, hslot, hslots]
      rfl
    rcases hcases with ⟨hunknown, rfl⟩ | ⟨f, slot, hfield, rfl, hslot⟩
    · exact ⟨none :: slots, by simp, hcons none (slot?_of_unknown hname hunknown _)⟩
    · refine ⟨some (name, slot) :: slots, by simp, hcons _ ?_⟩
      rcases hslot with ⟨hnull, rfl, hconstant⟩ | ⟨hnull, hsome, hw⟩
      · exact slot?_of_null hname hfield hconstant hm hnull
      · obtain ⟨w, rfl⟩ := Option.isSome_iff_exists.mp hsome
        exact slot?_of_value hname hfield hm hnull
          (hvalue m List.mem_cons_self name f w hname hfield hw.symm)

theorem value_free_ofJson {v : Json} {w : Value} (halike : ReadsAlike .free v)
    (h : (Json.canonical? depth v).map .free = some w) :
    value doc depth .free (.ofJson v) = pure w := by
  obtain ⟨u, hu, rfl⟩ := Option.map_eq_some_iff.mp h
  rw [value_free, free_ofJson halike hu, pure_bind]

/-- What a document is decoded to is read from its node, if the numbers in its free-form parts read
alike. -/
theorem value_ofJson {ty : Ty} {v : Json} {w : Value} (hv : v.WellSpelled)
    (halike : ReadsAlike ty v) (h : ofJson? depth ty v = some w) :
    value doc depth ty (.ofJson v) = pure w := by
  induction v using Json.induct generalizing depth ty w with
  | scalar v =>
    by_cases hfree : ty = .free
    · subst ty
      exact value_free_ofJson halike h
    · have hscalar : Value.ofScalar? ty (.scalar v) = some w := by
        cases ty <;> first | exact absurd rfl hfree | exact h
      have hread := ofScalar?_ofJson (Json.wellSpelled_scalar.mp hv) hscalar
      rw [Yaml.Node.ofJson, value_scalar hfree, hread]
      rfl
  | array items ih =>
    have hitems := Json.wellSpelled_array.mp hv
    cases ty with
    | free => exact value_free_ofJson halike h
    | list item =>
      obtain _ | _ | depth := depth
      · contradiction
      · contradiction
      rw [ofJson?, if_neg (by simp), itemsOfJson?_eq] at h
      obtain ⟨ws, hws, rfl⟩ := Option.map_eq_some_iff.mp h
      exact value_list (each_map hws fun v hv w hw => ih v hv (hitems v hv) (halike.item rfl hv) hw)
    | _ => contradiction
  | object members ih =>
    have hmembers := Json.wellSpelled_object.mp hv
    cases ty with
    | free => exact value_free_ofJson halike h
    | map item =>
      obtain _ | _ | depth := depth
      · contradiction
      · contradiction
      rw [ofJson?, if_neg (by simp), entriesOfJson?_eq] at h
      obtain ⟨es, hes, rfl⟩ := Option.map_eq_some_iff.mp h
      refine value_map (each_map hes fun m hm e he => ?_)
      obtain ⟨name, hname, he⟩ := Option.bind_eq_some_iff.mp he
      obtain ⟨w, hw, rfl⟩ := Option.map_eq_some_iff.mp he
      exact pair_ofJson hname (ih m hm (hmembers m hm).2 (halike.member hm hname rfl) hw)
    | record kind =>
      obtain _ | _ | depth := depth
      · contradiction
      · contradiction
      rw [ofJson?, if_neg (by simp)] at h
      obtain ⟨read, hread, rfl⟩ := Option.map_eq_some_iff.mp h
      obtain ⟨slots, rfl, hslots⟩ := exists_each_slot? hread (fun m hm => (hmembers m hm).2)
        fun m hm name f w hname hfield hw => by
          have hmember : (Ty.record kind).member? name = some f.type := by
            rw [Ty.member?, hfield, Option.map_some]
          exact ih m hm (hmembers m hm).2 (halike.member hm hname hmember) hw
      exact value_record hslots
    | _ => contradiction

end FromYaml

end Resource

end SidecarAdmission
