import Mathlib.Data.List.Forall2
import SidecarAdmission.Proofs.Resource.Typed

/-!
Values that are filled in. The parts of a value lie at the ends of paths through its slots, items
and entries. A value that fills in another one has all its parts where they were, and each part that
it has besides stands at a place where one may be added. What fills in a part fills in the whole.
-/

set_option autoImplicit false
set_option relaxedAutoImplicit false

namespace SidecarAdmission.Resource

/-- A step from a value to one of its parts. -/
inductive Step where
  | slot (name : String)
  | item (index : Nat)
  | entry (key : String)
deriving DecidableEq, Repr

/-- What a value is, its parts apart. -/
inductive Outline where
  | leaf (value : Value)
  | list (length : Nat)
  | map
  | record (names : List String)

namespace Value

def outline : Value → Outline
  | .list items => .list items.length
  | .map _ => .map
  | .record slots => .record (slots.map Prod.fst)
  | v => .leaf v

/-- The part of a value that a step leads to. -/
def part? (v : Value) : Step → Option Value
  | .slot name => v.get? name
  | .item i => v.items[i]?
  | .entry key => v.entries.lookup key

def at? : List Step → Value → Option Value
  | [], v => some v
  | step :: rest, v => (v.part? step).bind (at? rest)

theorem at?_cons (step : Step) (rest : List Step) (v : Value) :
    v.at? (step :: rest) = (v.part? step).bind (at? rest) := rfl

theorem outline_updateSlot (name : String) (f : Option Value → Option Value) (v : Value) :
    (v.updateSlot name f).outline = v.outline := by
  cases v with
  | record slots =>
    simp only [updateSlot, outline, List.map_map]
    congr 1
    refine List.map_congr_left fun s _ => ?_
    by_cases hs : s.1 = name <;> simp [hs]
  | _ => rfl

theorem part?_updateSlot_of_ne {step : Step} {name : String} (h : step ≠ .slot name)
    (f : Option Value → Option Value) (v : Value) :
    (v.updateSlot name f).part? step = v.part? step := by
  cases step with
  | slot other => exact get?_updateSlot_of_ne (fun heq => h (congrArg Step.slot heq)) v
  | item i => cases v <;> rfl
  | entry key => cases v <;> rfl

/-! ### Filling in -/

/-- Whether a value has all parts of another one, and besides them only such as may be added. -/
structure Fills (mayAdd : List Step → Outline → Prop) (v w : Value) : Prop where
  kept : ∀ path x, v.at? path = some x → ∃ y, w.at? path = some y ∧ y.outline = x.outline
  added : ∀ path y, w.at? path = some y → v.at? path = none → mayAdd path y.outline

section Filling

variable {mayAdd : List Step → Outline → Prop} {u v w : Value}

theorem Fills.refl (mayAdd : List Step → Outline → Prop) (v : Value) : Fills mayAdd v v where
  kept := fun _ x hx => ⟨x, hx, rfl⟩
  added := fun path y hy hnone => by
    rw [hy] at hnone
    contradiction

theorem Fills.trans (h : Fills mayAdd u v) (h' : Fills mayAdd v w) : Fills mayAdd u w where
  kept := by
    intro path x hx
    obtain ⟨y, hy, hyx⟩ := h.kept path x hx
    obtain ⟨z, hz, hzy⟩ := h'.kept path y hy
    exact ⟨z, hz, hzy.trans hyx⟩
  added := by
    intro path z hz hnone
    cases hv : v.at? path with
    | none => exact h'.added path z hz hv
    | some y =>
      obtain ⟨z', hz', hzy⟩ := h'.kept path y hv
      obtain rfl : z' = z := Option.some.inj (hz'.symm.trans hz)
      rw [hzy]
      exact h.added path y hv hnone

theorem Fills.mono {more : List Step → Outline → Prop}
    (hmore : ∀ path o, mayAdd path o → more path o) (h : Fills mayAdd v w) : Fills more v w :=
  ⟨h.kept, fun path y hy hnone => hmore path y.outline (h.added path y hy hnone)⟩

end Filling

/-- What may become of the part that a step leads to: it is filled in, or put there as a whole. -/
inductive FillsPart (mayAdd : List Step → Outline → Prop) (step : Step) :
    Option Value → Option Value → Prop where
  | absent : FillsPart mayAdd step none none
  | kept {x y : Value} (fills : Fills (fun path => mayAdd (step :: path)) x y) :
      FillsPart mayAdd step (some x) (some y)
  | added {y : Value}
      (may : ∀ path z, y.at? path = some z → mayAdd (step :: path) z.outline) :
      FillsPart mayAdd step none (some y)

section Parts

variable {mayAdd : List Step → Outline → Prop} {v w : Value}

theorem FillsPart.refl (step : Step) (part : Option Value) : FillsPart mayAdd step part part := by
  cases part with
  | none => exact .absent
  | some x => exact .kept (.refl _ x)

/-- A value is filled in if each of its parts is. -/
theorem fills_of_parts (houtline : w.outline = v.outline)
    (h : ∀ step, FillsPart mayAdd step (v.part? step) (w.part? step)) : Fills mayAdd v w := by
  -- The first step of a path leads to a part, in which the rest of the path lies.
  constructor
  · intro path x hx
    cases path with
    | nil =>
      obtain rfl := Option.some.inj hx
      exact ⟨w, rfl, houtline⟩
    | cons step rest =>
      have hpart := h step
      rw [at?_cons] at hx ⊢
      obtain ⟨part, hv, hrest⟩ := Option.bind_eq_some_iff.mp hx
      rw [hv] at hpart
      cases hw : w.part? step with
      | none =>
        rw [hw] at hpart
        nomatch hpart
      | some y =>
        rw [hw] at hpart
        cases hpart with
        | kept fills => exact fills.kept rest x hrest
  · intro path y hy hlacks
    cases path with
    | nil => contradiction
    | cons step rest =>
      have hpart := h step
      rw [at?_cons] at hy hlacks
      obtain ⟨part, hw, hrest⟩ := Option.bind_eq_some_iff.mp hy
      rw [hw] at hpart
      cases hv : v.part? step with
      | none =>
        rw [hv] at hpart
        cases hpart with
        | added may => exact may rest y hrest
      | some x =>
        rw [hv] at hpart hlacks
        cases hpart with
        | kept fills => exact fills.added rest y hrest hlacks

theorem fills_updateSlot {name : String} {f : Option Value → Option Value}
    (h : FillsPart mayAdd (.slot name) (v.get? name) (f (v.get? name))) :
    Fills mayAdd v (v.updateSlot name f) := by
  refine fills_of_parts (outline_updateSlot name f v) fun step => ?_
  by_cases hstep : step = .slot name
  · subst hstep
    have hself : (v.updateSlot name f).get? name = ((v.slots.lookup name).map f).join :=
      get?_updateSlot_self v
    rw [part?, part?, hself]
    unfold Value.get? at h ⊢
    cases hslot : v.slots.lookup name with
    | none => exact .absent
    | some slot =>
      rw [hslot] at h
      exact h
  · rw [part?_updateSlot_of_ne hstep]
    exact .refl step _

theorem fills_each {f : Value → Value} {items : List Value}
    (h : ∀ i x, items[i]? = some x → Fills (fun path => mayAdd (.item i :: path)) x (f x)) :
    Fills mayAdd (list items) (each f (list items)) := by
  -- Only the items of a list are parts of it.
  refine fills_of_parts (by simp [each, outline]) fun step => ?_
  cases step with
  | slot name => exact .absent
  | entry key => exact .absent
  | item i =>
    simp only [each, part?, Value.items, List.getElem?_map]
    cases hi : items[i]? with
    | none => exact .absent
    | some x => exact .kept (h i x hi)

end Parts

/-! ### Defaults -/

/-- A step to a part whose place among the items does not matter. -/
inductive Segment where
  | slot (name : String)
  | items

/-- Whether a step is of the kind that a segment stands for. -/
def Segment.Covers : Segment → Step → Prop
  | .slot name, .slot other => name = other
  | .items, .item _ => True
  | _, _ => False

theorem Segment.covers_slot (name : String) : (Segment.slot name).Covers (.slot name) := rfl

theorem Segment.covers_item (index : Nat) : Segment.items.Covers (.item index) := trivial

/-- A value that is put where there is none, at the places that segments lead to. -/
structure Default where
  place : List Segment
  value : Value

/-- The default further down, behind other segments. -/
def Default.within (front : List Segment) (d : Default) : Default := ⟨front ++ d.place, d.value⟩

/-- Whether a default is among those listed for a path. -/
def IsDefault (defaults : List Default) (path : List Step) (o : Outline) : Prop :=
  ∃ d ∈ defaults, List.Forall₂ Segment.Covers d.place path ∧ o = d.value.outline

/-- Whether a value has no parts. -/
def IsBare (v : Value) : Prop := ∀ step, v.part? step = none

/-- Whether a function fills in the values of a type, so that they stay of that type. -/
structure Completes (ty : Ty) (mayAdd : List Step → Outline → Prop) (f : Value → Value) : Prop where
  preserves : Preserves ty f
  fills : ∀ v, v.IsOf ty → Fills mayAdd v (f v)

/-- The only part of a value without parts is the value itself. -/
theorem IsBare.at?_eq {v : Value} (h : v.IsBare) {path : List Step} {x : Value}
    (hx : v.at? path = some x) : path = [] ∧ x = v := by
  cases path with
  | nil => exact ⟨rfl, (Option.some.inj hx).symm⟩
  | cons step rest =>
    rw [at?_cons, h step] at hx
    contradiction

theorem Fills.may_of_isBare {mayAdd : List Step → Outline → Prop} {v w : Value}
    (h : Fills mayAdd v w) (hbare : v.IsBare) (hself : mayAdd [] w.outline) {path : List Step}
    {z : Value} (hz : w.at? path = some z) : mayAdd path z.outline := by
  cases path with
  | nil => exact Option.some.inj hz ▸ hself
  | cons step rest =>
    have hlacks : v.at? (step :: rest) = none := by rw [at?_cons, hbare step, Option.bind_none]
    exact h.added _ z hz hlacks

theorem isBare_text (s : String) : (text s).IsBare := fun step => by cases step <;> rfl

theorem isBare_int (n : Int) : (int n).IsBare := fun step => by cases step <;> rfl

section Defaults

variable {part all : List Default} {mayAdd : List Step → Outline → Prop} {kind : Kind}
  {name : String} {field : Field}

theorem IsDefault.within {segment : Segment} {step : Step} (hstep : segment.Covers step)
    {path : List Step} {o : Outline} (h : IsDefault part path o) :
    IsDefault (part.map (.within [segment])) (step :: path) o := by
  obtain ⟨d, hd, hpath, ho⟩ := h
  exact ⟨d.within [segment], List.mem_map_of_mem hd, .cons hstep hpath, ho⟩

theorem Completes.mono {ty : Ty} {more : List Step → Outline → Prop} {f : Value → Value}
    (h : Completes ty mayAdd f) (hmore : ∀ path o, mayAdd path o → more path o) :
    Completes ty more f :=
  ⟨h.preserves, fun v hv => (h.fills v hv).mono hmore⟩

theorem Completes.among {ty : Ty} {f : Value → Value} (h : Completes ty (IsDefault part) f)
    (hall : part ⊆ all) : Completes ty (IsDefault all) f :=
  h.mono fun _ _ ⟨d, hd, hpath, ho⟩ => ⟨d, hall hd, hpath, ho⟩

theorem completes_filledWith (hfield : kind.field? name = some field) {value : Value}
    (hvalue : value.IsOf field.type) (hbare : value.IsBare) (hall : ⟨[.slot name], value⟩ ∈ all) :
    Completes (.record kind) (IsDefault all) (updateSlot name (filledWith value)) := by
  refine ⟨preserves_updateSlot hfield (preservesSlot_filledWith hvalue), fun v _ => ?_⟩
  refine fills_updateSlot ?_
  cases v.get? name with
  | some x => exact .refl _ _
  | none =>
    refine .added fun path z hz => ?_
    obtain ⟨rfl, rfl⟩ := hbare.at?_eq hz
    exact ⟨_, hall, .cons rfl .nil, rfl⟩

theorem completes_map (hfield : kind.field? name = some field) {f : Value → Value}
    (h : Completes field.type (fun path => mayAdd (.slot name :: path)) f) :
    Completes (.record kind) mayAdd (updateSlot name (Option.map f)) := by
  refine ⟨preserves_updateSlot hfield (preservesSlot_map h.preserves), fun v hv => ?_⟩
  refine fills_updateSlot ?_
  cases hx : v.get? name with
  | none => exact .absent
  | some x => exact .kept (h.fills x (hv.get? hfield hx))

theorem completes_map_within (hfield : kind.field? name = some field) {f : Value → Value}
    (h : Completes field.type (IsDefault part) f) :
    Completes (.record kind) (IsDefault (part.map (.within [.slot name])))
      (updateSlot name (Option.map f)) :=
  completes_map hfield (h.mono fun _ _ hd => hd.within (Segment.covers_slot name))

theorem completes_each {item : Ty} {f : Value → Value} (h : Completes item (IsDefault part) f) :
    Completes (.list item) (IsDefault (part.map (.within [.items]))) (each f) := by
  refine ⟨preserves_each h.preserves, fun v hv => ?_⟩
  obtain ⟨items, rfl, htyped⟩ := hv.exists_items
  refine fills_each fun i x hx => ?_
  have hfills := h.fills x (htyped x (List.mem_of_getElem? hx))
  exact hfills.mono fun path o hd => hd.within (Segment.covers_item i)

theorem completes_updateSlots {changes : List (String × (Option Value → Option Value))}
    (h : ∀ change ∈ changes,
      Completes (.record kind) mayAdd (updateSlot change.1 change.2)) :
    Completes (.record kind) mayAdd (updateSlots changes) := by
  induction changes with
  | nil => exact ⟨fun _ hv => hv, fun v _ => .refl mayAdd v⟩
  | cons change rest ih =>
    obtain ⟨hchange, hrest⟩ := List.forall_mem_cons.mp h
    refine ⟨fun v hv => (ih hrest).preserves _ (hchange.preserves v hv), fun v hv => ?_⟩
    exact (hchange.fills v hv).trans ((ih hrest).fills _ (hchange.preserves v hv))

end Defaults

end Value

end SidecarAdmission.Resource
