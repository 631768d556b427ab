import SidecarAdmission.Resource.FromYaml

/-!
What is read from a YAML document has the shape of its type: a record has the slots of its kind, and
the items of a list are all of the type of the list.
-/

set_option autoImplicit false
set_option relaxedAutoImplicit false

namespace SidecarAdmission.Resource

/-- Whether a value is a record with the slots of a kind. -/
def Value.IsRecord (kind : Kind) (v : Value) : Prop := ∃ read, v = .record (slotsOf kind read)

theorem Value.IsRecord.names_slots {kind : Kind} {v : Value} (h : v.IsRecord kind) :
    v.slots.map Prod.fst = kind.fields.map (·.name) := by
  obtain ⟨read, rfl⟩ := h
  simp [slots, slotsOf]

namespace FromYaml

/-- Whether all that a reading may give has a property. -/
def Yields {α : Type} (r : Reader α) (P : α → Prop) : Prop :=
  ∀ jumps a jumps', r.run jumps = some (a, jumps') → P a

section Readings

variable {α β : Type} {P : α → Prop}

theorem yields_pure {a : α} (h : P a) : Yields (pure a : Reader α) P := by
  intro jumps b jumps' hrun
  obtain ⟨rfl, -⟩ : a = b ∧ jumps = jumps' := by simpa using hrun
  exact h

theorem yields_failure : Yields (failure : Reader α) P := by
  intro jumps a jumps' hrun
  contradiction

theorem yields_ofOption {v : Option α} (h : ∀ a, v = some a → P a) : Yields (ofOption v) P := by
  intro jumps a jumps' hrun
  cases v with
  | none => contradiction
  | some b =>
    obtain ⟨rfl, -⟩ : b = a ∧ jumps = jumps' := by simpa [ofOption] using hrun
    exact h b rfl

theorem yields_bind_of {Q : β → Prop} {r : Reader β} {f : β → Reader α} (hr : Yields r Q)
    (hf : ∀ b, Q b → Yields (f b) P) : Yields (r >>= f) P := by
  intro jumps a jumps' hrun
  rw [StateT.run_bind] at hrun
  obtain ⟨⟨b, between⟩, hfirst, hsecond⟩ := Option.bind_eq_some_iff.mp hrun
  exact hf b (hr jumps b between hfirst) between a jumps' hsecond

theorem yields_bind {r : Reader β} {f : β → Reader α} (hf : ∀ b, Yields (f b) P) :
    Yields (r >>= f) P :=
  yields_bind_of (Q := fun _ => True) (fun _ _ _ _ => trivial) fun b _ => hf b

theorem yields_each {read : β → Reader α} (h : ∀ x, Yields (read x) P) (xs : List β) :
    Yields (each read xs) fun ys => ∀ y ∈ ys, P y := by
  induction xs with
  | nil => exact yields_pure (by simp)
  | cons x rest ih =>
    refine yields_bind_of (h x) fun y hy => ?_
    refine yields_bind_of ih fun ys hys => ?_
    exact yields_pure (List.forall_mem_cons.mpr ⟨hy, hys⟩)

end Readings

/-! ### Values -/

variable {doc : Yaml.Document}

theorem yields_value_record (depth : Nat) (kind : Kind) (n : Yaml.Node) :
    Yields (value doc depth (.record kind) n) (Value.IsRecord kind) := by
  have hscalar : ∀ s, Yields (ofOption (ofScalar? (.record kind) s)) (Value.IsRecord kind) := by
    refine fun s => yields_ofOption fun v hv => ?_
    simp only [ofScalar?] at hv
    split at hv
    · exact ⟨[], (Option.some.inj hv).symm⟩
    · contradiction
  cases depth with
  | zero =>
    rw [value, if_neg (by simp)]
    refine yields_bind fun node => ?_
    cases node with
    | scalar p s => exact hscalar s
    | _ => exact yields_failure
  | succ depth =>
    rw [value, if_neg (by simp)]
    refine yields_bind fun node => ?_
    cases node with
    | scalar p s => exact hscalar s
    | mapping p entries =>
      refine yields_bind fun read => ?_
      exact yields_pure ⟨read.filterMap id, rfl⟩
    | _ => exact yields_failure

/-- The items of a list are read one level below it. -/
theorem yields_value_list {P : Value → Prop} {item : Ty} {depth : Nat}
    (h : ∀ n, Yields (value doc (depth - 1) item n) P) (n : Yaml.Node) :
    Yields (value doc depth (.list item) n) fun v => ∀ x ∈ v.items, P x := by
  have hscalar : ∀ s, Yields (ofOption (ofScalar? (.list item) s)) fun v => ∀ x ∈ v.items, P x := by
    refine fun s => yields_ofOption fun v hv => ?_
    simp only [ofScalar?] at hv
    split at hv
    · obtain rfl := Option.some.inj hv
      simp [Value.items]
    · contradiction
  cases depth with
  | zero =>
    rw [value, if_neg (by simp)]
    refine yields_bind fun node => ?_
    cases node with
    | scalar p s => exact hscalar s
    | _ => exact yields_failure
  | succ depth =>
    rw [value, if_neg (by simp)]
    refine yields_bind fun node => ?_
    cases node with
    | scalar p s => exact hscalar s
    | sequence p items =>
      refine yields_bind_of (yields_each h items) fun ys hys => ?_
      exact yields_pure hys
    | _ => exact yields_failure

end FromYaml

end SidecarAdmission.Resource
