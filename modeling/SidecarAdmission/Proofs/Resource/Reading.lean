import SidecarAdmission.Proofs.Resource.Fit
import SidecarAdmission.Proofs.Resource.FromYaml

/-!
What is read from YAML. A property of values is one of all that is read if it is one of what scalars
give and passes from the parts of a list, a map or a record to the whole. What is read is of the
type that was asked for, and is decoded from its own document again, unless a free-form part is null
or holds a number that is no integer of 64 bits.
-/

set_option autoImplicit false
set_option relaxedAutoImplicit false

namespace SidecarAdmission.Resource

open SidecarAdmission.Json SidecarAdmission.Resource.Value

namespace FromYaml

variable {doc : Yaml.Document}

/-! ### What passes from parts to the whole -/

theorem yields_slot? {P : Ty → Value → Prop} {kind : Kind} {read : Ty → Yaml.Node → Reader Value}
    (h : ∀ ty n, Yields (read ty n) (P ty)) (entry : Yaml.Node × Yaml.Node) :
    Yields (slot? doc kind read entry) fun s =>
      ∀ name x f, s = some (name, some x) → kind.field? name = some f → P f.type x := by
  refine yields_bind fun name => ?_
  cases hfield : kind.field? name with
  | none => exact yields_pure (by simp)
  | some f =>
    have hread : ∀ n, Yields (read f.type n >>= fun v => pure (some (name, some v))) fun s =>
        ∀ name x f, s = some (name, some x) → kind.field? name = some f → P f.type x := by
      refine fun n => yields_bind_of (h f.type n) fun v hv => yields_pure ?_
      intro other x g hsame hg
      obtain ⟨rfl, hvalue⟩ := Prod.mk.inj (Option.some.inj hsame)
      obtain rfl := Option.some.inj hvalue
      obtain rfl : f = g := Option.some.inj (hfield.symm.trans hg)
      exact hv
    dsimp only
    split
    · exact hread _
    · refine yields_bind fun given => ?_
      cases given with
      | none => exact yields_pure (by simp)
      | some n => exact hread n

/-- A property of what scalars and free-form parts give that passes from parts to the whole is one
of all that is read. -/
theorem yields_value {P : Nat → Ty → Value → Prop}
    (hscalar : ∀ depth ty s v, ofScalar? ty s = some v → P depth ty v)
    (hfree : ∀ depth n, Yields (free doc (depth - 1) n) fun w => P depth .free (.free w))
    (hlist : ∀ depth item items, (∀ v ∈ items, P depth item v) →
      P (depth + 1) (.list item) (.list items))
    (hmap : ∀ depth item entries, KeysAscend entries → (∀ e ∈ entries, P depth item e.2) →
      P (depth + 1) (.map item) (.map entries))
    (hrecord : ∀ depth kind read, (∀ f ∈ kind.fields, ∀ x,
        (read.reverse.lookup f.name).join = some x → P depth f.type x) →
      P (depth + 1) (.record kind) (.record (slotsOf kind read)))
    (depth : Nat) (ty : Ty) (n : Yaml.Node) : Yields (value doc depth ty n) (P depth ty) := by
  -- A level is used up by every list, map and record; free-form parts are read by themselves.
  induction depth generalizing ty n with
  | zero =>
    rw [value]
    by_cases hty : ty = .free
    · subst hty
      rw [if_pos rfl]
      exact yields_bind_of (hfree 0 n) fun w hw => yields_pure hw
    · rw [if_neg hty]
      refine yields_bind fun node => ?_
      cases node with
      | scalar p s => exact yields_ofOption fun v hv => hscalar 0 ty s v hv
      | _ => exact yields_failure
  | succ depth ih =>
    rw [value]
    by_cases hty : ty = .free
    · subst hty
      rw [if_pos rfl]
      exact yields_bind_of (hfree (depth + 1) n) fun w hw => yields_pure hw
    · rw [if_neg hty]
      refine yields_bind fun node => ?_
      cases node with
      | scalar p s => exact yields_ofOption fun v hv => hscalar (depth + 1) ty s v hv
      | sequence p items =>
        cases ty with
        | list item =>
          refine yields_bind_of (yields_each (ih item) items) fun vs hvs => ?_
          exact yields_pure (hlist depth item vs hvs)
        | _ => exact yields_failure
      | mapping p entries =>
        cases ty with
        | map item =>
          have hentry : ∀ entry : Yaml.Node × Yaml.Node, Yields (do
              return (← text doc entry.1, ← value doc depth item entry.2))
              fun e : String × Value => P depth item e.2 := by
            refine fun entry => yields_bind fun key => ?_
            exact yields_bind_of (ih item entry.2) fun v hv => yields_pure hv
          refine yields_bind_of (yields_each hentry entries) fun es hes => yields_pure ?_
          refine hmap depth item _ (keysAscend_sortMembers es) fun e he => ?_
          exact hes e (mem_of_mem_sortMembers he)
        | record kind =>
          refine yields_bind_of (yields_each (yields_slot? ih) entries) fun slots hslots => ?_
          refine yields_pure (hrecord depth kind _ fun f hf x hx => ?_)
          obtain ⟨front, back, hlookup, -⟩ :=
            List.lookup_eq_some_iff.mp (Option.join_eq_some_iff.mp hx)
          have hmem : (f.name, some x) ∈ slots.filterMap id := by
            rw [← List.mem_reverse, hlookup]
            simp
          exact hslots _ (by simpa using hmem) f.name x f rfl
            (kind.field?_of_mem kind.nodup_names hf)
        | _ => exact yields_failure
      | _ => exact yields_failure

/-! ### Types -/

/-- What a record of a kind has in the slot of a field: what is given for it or, if the field is
required, what stands for a value that is not given. -/
theorem isOf_slotsOf {kind : Kind} {read : List (String × Option Value)}
    (h : ∀ f ∈ kind.fields, ∀ x, (read.reverse.lookup f.name).join = some x → x.IsOf f.type) :
    (record (slotsOf kind read)).IsOf (.record kind) := by
  refine .record (fun f hf x hx => ?_) fun f hf hrequired => ?_
  · split at hx
    next y hy =>
      obtain rfl := Option.some.inj hx
      exact h f hf y hy
    next =>
      obtain ⟨hrequired, rfl⟩ : f.isRequired = true ∧ initial initialDepth f.type = x := by
        simpa using hx
      exact isOf_initial _ _ (Kind.hasInitial_of_mem hf hrequired)
  · split
    · rfl
    · rw [if_pos hrequired]
      rfl

theorem exists_int_of_int? {isIn : Int → Bool} {s : Yaml.Scalar} {v : Value}
    (h : int? isIn s = some v) : ∃ n, isIn n = true ∧ v = .int n := by
  obtain ⟨-, hread⟩ := Option.ite_none_right_eq_some.mp h
  obtain ⟨n, -, hn⟩ := Option.bind_eq_some_iff.mp hread
  obtain ⟨hrange, hv⟩ := Option.ite_none_right_eq_some.mp hn
  exact ⟨n, hrange, (Option.some.inj hv).symm⟩

/-- What a scalar gives: a value without parts that is one of the type, or a list, a map or a record
without any. -/
theorem cases_of_ofScalar? {ty : Ty} {s : Yaml.Scalar} {v : Value}
    (h : ofScalar? ty s = some v) :
    (ty.isScalar = true ∧ ty.allows v = true) ∨ (ty = .time ∧ ofTime? s.text = some v) ∨
      (∃ item, ty = .list item ∧ v = .list []) ∨ (∃ item, ty = .map item ∧ v = .map []) ∨
      ∃ kind, ty = .record kind ∧ v = .record (slotsOf kind []) := by
  cases ty with
  | text | quantity =>
    obtain rfl := Option.some.inj h
    exact .inl ⟨rfl, rfl⟩
  | int32 | int64 =>
    obtain ⟨n, hrange, rfl⟩ := exists_int_of_int? h
    exact .inl ⟨rfl, hrange⟩
  | bool =>
    obtain ⟨-, hread⟩ := Option.ite_none_right_eq_some.mp h
    obtain ⟨b, -, rfl⟩ := Option.map_eq_some_iff.mp hread
    exact .inl ⟨rfl, rfl⟩
  | intOrText =>
    rw [ofScalar?] at h
    split at h
    next t =>
      obtain rfl := Option.some.inj h
      exact .inl ⟨rfl, rfl⟩
    next n =>
      obtain ⟨hrange, hn⟩ := Option.ite_none_right_eq_some.mp h
      obtain rfl := Option.some.inj hn
      exact .inl ⟨rfl, hrange⟩
    next => contradiction
  | constant t =>
    obtain ⟨-, ht⟩ := Option.ite_none_right_eq_some.mp h
    obtain rfl := Option.some.inj ht
    exact .inl ⟨rfl, by simp [Ty.allows]⟩
  | time => exact .inr (.inl ⟨rfl, h⟩)
  | free => contradiction
  | list item =>
    obtain ⟨-, hempty⟩ := Option.ite_none_right_eq_some.mp h
    exact .inr (.inr (.inl ⟨item, rfl, (Option.some.inj hempty).symm⟩))
  | map item =>
    obtain ⟨-, hempty⟩ := Option.ite_none_right_eq_some.mp h
    exact .inr (.inr (.inr (.inl ⟨item, rfl, (Option.some.inj hempty).symm⟩)))
  | record kind =>
    obtain ⟨-, hempty⟩ := Option.ite_none_right_eq_some.mp h
    exact .inr (.inr (.inr (.inr ⟨kind, rfl, (Option.some.inj hempty).symm⟩)))

/-- What is read is of the type that was asked for. -/
theorem yields_isOf (depth : Nat) (ty : Ty) (n : Yaml.Node) :
    Yields (value doc depth ty n) (IsOf ty) := by
  refine yields_value (P := fun _ ty v => v.IsOf ty) ?_ ?_ ?_ ?_ ?_ depth ty n
  · intro _ ty s v h
    rcases cases_of_ofScalar? h with ⟨-, hallows⟩ | ⟨rfl, htime⟩ | ⟨item, rfl, rfl⟩ |
      ⟨item, rfl, rfl⟩ | ⟨kind, rfl, rfl⟩
    · exact .scalar hallows
    · obtain ⟨_, -, rfl⟩ := Option.map_eq_some_iff.mp htime
      exact .scalar rfl
    · exact .list (by simp)
    · exact .map List.Pairwise.nil (by simp)
    · exact isOf_slotsOf (by simp)
  · exact fun _ n jumps w _ _ => .scalar rfl
  · exact fun _ item items h => .list h
  · exact fun _ item entries hkeys h => .map hkeys h
  · exact fun _ kind read h => isOf_slotsOf h

/-! ### Free-form parts -/

/-- Whether a document is its own canonical form where more than a number of levels may be entered,
and can be written. -/
structure IsCanonicalBelow (depth : Nat) (w : Json) : Prop where
  spelled : w.WellSpelled
  canonical : ∀ d, depth < d → canonical? d w = some w

theorem isCanonicalBelow_integer {k : Int} (h : -(2 ^ 63 : Int) ≤ k ∧ k < 2 ^ 64) (depth : Nat) :
    IsCanonicalBelow depth (Json.integer k) :=
  ⟨wellSpelled_scalar.mpr (Numeral.isWellSpelled_ofInt k), fun _ _ => canonical?_integer h.1 h.2⟩

/-- A number of a whole document is an integer, whatever it was written as. -/
theorem isCanonicalBelow_number {n : Numeral} (h : (Json.scalar (.number n)).IsWhole)
    (depth : Nat) : IsCanonicalBelow depth (.scalar (.number n)) := by
  obtain ⟨k, hrange, rfl⟩ := isWhole_number.mp h
  exact isCanonicalBelow_integer hrange depth

theorem isCanonicalBelow_ofReading {r : Yaml.Meaning.Reading} (h : (ofReading r).IsWhole)
    (depth : Nat) : IsCanonicalBelow depth (ofReading r) := by
  have hnull : IsCanonicalBelow depth Json.null := ⟨wellSpelled_scalar.mpr rfl, fun _ _ => rfl⟩
  cases r with
  | null => exact hnull
  | bool b => exact ⟨wellSpelled_scalar.mpr rfl, fun _ _ => rfl⟩
  | integer n => exact isCanonicalBelow_number h depth
  | float x =>
    cases x with
    | finite negative x => exact isCanonicalBelow_number h depth
    | unwritable => exact hnull
  | text s => exact ⟨wellSpelled_string s, fun _ _ => canonical?_string s⟩

theorem isCanonicalBelow_array {depth : Nat} {items : List Json}
    (h : ∀ v ∈ items, IsCanonicalBelow depth v) : IsCanonicalBelow (depth + 1) (.array items) := by
  refine ⟨wellSpelled_array.mpr fun v hv => (h v hv).spelled, fun d hd => ?_⟩
  obtain ⟨d, rfl⟩ : ∃ e, d = e + 2 := ⟨d - 2, by omega⟩
  exact canonical?_array fun v hv => (h v hv).canonical (d + 1) (by omega)

theorem isCanonicalBelow_ofMembers {depth : Nat} {members : List (String × Json)}
    (hkeys : KeysAscend members) (h : ∀ m ∈ members, IsCanonicalBelow depth m.2) :
    IsCanonicalBelow (depth + 1) (.ofMembers members) := by
  refine ⟨wellSpelled_ofMembers fun m hm => (h m hm).spelled, fun d hd => ?_⟩
  obtain ⟨d, rfl⟩ : ∃ e, d = e + 2 := ⟨d - 2, by omega⟩
  exact canonical?_ofMembers hkeys fun m hm => (h m hm).canonical (d + 1) (by omega)

-- The reader recurses behind a bind, where no equation can be made for it: it is opened by `delta`.

theorem free_zero (n : Yaml.Node) : free doc 0 n = follow doc n >>= fun node =>
    match node with
    | .scalar _ s => do return ofReading (← ofOption (Yaml.Meaning.ofScalar? s))
    | _ => failure := by
  delta free
  refine bind_congr (m := Reader) (x := follow doc n) fun node => ?_
  cases node <;> rfl

theorem free_succ (depth : Nat) (n : Yaml.Node) :
    free doc (depth + 1) n = follow doc n >>= fun node =>
      match node with
      | .scalar _ s => do return ofReading (← ofOption (Yaml.Meaning.ofScalar? s))
      | .sequence p items => do
        if p.tag.any Yaml.Tag.isLocal then failure
        return .array (← each (free doc depth) items)
      | .mapping p entries => do
        if p.tag.any Yaml.Tag.isLocal then failure
        let members ← each (fun (k, v) => do return (← text doc k, ← free doc depth v)) entries
        return .ofMembers (Json.sortMembers members)
      | .alias _ => failure := by
  delta free
  refine bind_congr (m := Reader) (x := follow doc n) fun node => ?_
  cases node <;> rfl

/-- A free-form part is read in its canonical form. -/
theorem yields_free (depth : Nat) (n : Yaml.Node) :
    Yields (free doc depth n) fun w => w.IsWhole → IsCanonicalBelow depth w := by
  induction depth generalizing n with
  | zero =>
    rw [free_zero]
    refine yields_bind fun node => ?_
    cases node with
    | scalar p s =>
      exact yields_bind fun r => yields_pure fun h => isCanonicalBelow_ofReading h 0
    | _ => exact yields_failure
  | succ depth ih =>
    rw [free_succ]
    refine yields_bind fun node => ?_
    cases node with
    | scalar p s =>
      exact yields_bind fun r => yields_pure fun h => isCanonicalBelow_ofReading h (depth + 1)
    | sequence p items =>
      have hitems : Yields (each (free doc depth) items >>= fun vs => pure (Json.array vs))
          fun w => w.IsWhole → IsCanonicalBelow (depth + 1) w := by
        refine yields_bind_of (yields_each ih items) fun vs hvs => yields_pure fun h => ?_
        exact isCanonicalBelow_array fun v hv => hvs v hv (isWhole_array.mp h v hv)
      dsimp only
      split
      · exact yields_bind fun _ => hitems
      · exact hitems
    | mapping p entries =>
      have hentry : ∀ entry : Yaml.Node × Yaml.Node,
          Yields (do return (← text doc entry.1, ← free doc depth entry.2))
            fun m : String × Json => m.2.IsWhole → IsCanonicalBelow depth m.2 :=
        fun entry => yields_bind fun _ => yields_bind_of (ih entry.2) fun _ hw => yields_pure hw
      have hmembers : Yields (each (fun entry : Yaml.Node × Yaml.Node => do
            return (← text doc entry.1, ← free doc depth entry.2)) entries >>= fun members =>
              pure (Json.ofMembers (sortMembers members)))
          fun w => w.IsWhole → IsCanonicalBelow (depth + 1) w := by
        refine yields_bind_of (yields_each hentry entries) fun ms hms => yields_pure fun h => ?_
        have hwhole := List.forall_mem_map.mp (isWhole_object.mp h)
        refine isCanonicalBelow_ofMembers (keysAscend_sortMembers ms) fun m hm => ?_
        exact hms m (mem_of_mem_sortMembers hm) (hwhole m hm)
      dsimp only
      split
      · exact yields_bind fun _ => hmembers
      · exact hmembers
    | _ => exact yields_failure

/-! ### What is decoded again -/

theorem isReadBack_of_ofScalar? {depth : Nat} {loose : Bool} {ty : Ty} {s : Yaml.Scalar} {v : Value}
    (h : ofScalar? ty s = some v) (hfits : ty.fits depth loose = true) :
    v.IsReadBack depth ty := by
  rcases cases_of_ofScalar? h with ⟨hscalar, hallows⟩ | ⟨rfl, htime⟩ | ⟨item, rfl, rfl⟩ |
    ⟨item, rfl, rfl⟩ | ⟨kind, rfl, rfl⟩
  · exact isReadBack_of_isScalar hscalar hallows
  · exact isReadBack_time htime
  · exact isReadBack_list (Ty.fits_list hfits).1 (by simp)
  · exact isReadBack_map (Ty.fits_map hfits).1 List.Pairwise.nil (by simp)
  · obtain ⟨hdepth, hfields⟩ := Ty.fits_record hfits
    refine isReadBack_slotsOf hdepth (by simp) fun f hf hrequired => ?_
    have hinitial := isOf_initial _ _ (Kind.hasInitial_of_mem hf hrequired)
    exact hinitial.isReadBack (by simpa [hrequired] using hfields f hf)

/-- What is read is decoded from its own document again, unless a free-form part is null or holds a
number that is no integer of 64 bits. Documents may nest deeper than what is read from YAML. -/
theorem yields_isReadBack (depth : Nat) (ty : Ty) (n : Yaml.Node) :
    Yields (value doc depth ty n) fun v =>
      ∀ loose, ty.fits (depth + 2) loose = true → v.HasWholeFrees →
        v.IsReadBack (depth + 2) ty := by
  refine yields_value (P := fun depth ty v => ∀ loose, ty.fits (depth + 2) loose = true →
    v.HasWholeFrees → v.IsReadBack (depth + 2) ty) ?_ ?_ ?_ ?_ ?_ depth ty n
  · exact fun _ ty s v h _ hfits _ => isReadBack_of_ofScalar? h hfits
  · intro depth n jumps w jumps' hrun _ _ hwhole
    obtain ⟨hw, hnull⟩ := hwhole w (by simp [frees])
    have hcanonical := yields_free (depth - 1) n jumps w jumps' hrun hw
    exact isReadBack_free (hcanonical.canonical (depth + 2) (by omega)) hnull hcanonical.spelled
  · intro depth item items h loose hfits hwhole
    obtain ⟨hdepth, hitem⟩ := Ty.fits_list hfits
    exact isReadBack_list hdepth fun v hv => h v hv loose hitem (hwhole.item hv)
  · intro depth item entries hkeys h loose hfits hwhole
    obtain ⟨hdepth, hitem⟩ := Ty.fits_map hfits
    exact isReadBack_map hdepth hkeys fun e he => h e he loose hitem (hwhole.entry he)
  · intro depth kind read h loose hfits hwhole
    obtain ⟨hdepth, hfields⟩ := Ty.fits_record hfits
    refine isReadBack_slotsOf hdepth (fun f hf x hx => ?_) fun f hf hrequired => ?_
    · have hslot : (f.name, some x) ∈ slotsOf kind read :=
        List.mem_map.mpr ⟨f, hf, by simp [hx]⟩
      exact h f hf x hx _ (hfields f hf) (hwhole.slot hslot)
    · have hinitial := isOf_initial _ _ (Kind.hasInitial_of_mem hf hrequired)
      exact hinitial.isReadBack (by simpa [hrequired] using hfields f hf)

end FromYaml

end SidecarAdmission.Resource
