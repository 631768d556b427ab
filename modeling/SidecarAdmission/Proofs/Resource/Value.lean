import SidecarAdmission.Resource.Value
import SidecarAdmission.Proofs.Json.Place

/-!
The documents of values. The texts, numbers and truth values of a value are spelled when its
document is made; only a document that a value holds as it is may lack a spelling.
-/

set_option autoImplicit false
set_option relaxedAutoImplicit false

namespace SidecarAdmission.Resource.Value

open SidecarAdmission.Json

mutual

/-- The documents that a value holds as they are. -/
def frees : Value → List Json
  | .text _ | .int _ | .bool _ => []
  | .free v => [v]
  | .list items => itemFrees items
  | .map entries => entryFrees entries
  | .record slots => slotFrees slots

/-- The documents that the items of a list hold. -/
def itemFrees : List Value → List Json
  | [] => []
  | v :: rest => frees v ++ itemFrees rest

/-- The documents that the values of a map hold. -/
def entryFrees : List (String × Value) → List Json
  | [] => []
  | (_, v) :: rest => frees v ++ entryFrees rest

/-- The documents that the slots of a record hold. -/
def slotFrees : List (String × Option Value) → List Json
  | [] => []
  | (_, some v) :: rest => frees v ++ slotFrees rest
  | (_, none) :: rest => slotFrees rest

end

theorem itemFrees_eq (items : List Value) : itemFrees items = items.flatMap frees := by
  induction items with
  | nil => rfl
  | cons v rest ih => rw [itemFrees, ih, List.flatMap_cons]

theorem entryFrees_eq (entries : List (String × Value)) :
    entryFrees entries = entries.flatMap fun e => e.2.frees := by
  induction entries with
  | nil => rfl
  | cons e rest ih => rw [entryFrees, ih, List.flatMap_cons]

theorem slotFrees_eq (slots : List (String × Option Value)) :
    slotFrees slots = slots.flatMap fun s => (s.2.map frees).getD [] := by
  induction slots with
  | nil => rfl
  | cons s rest ih =>
    obtain ⟨name, value⟩ := s
    cases value with
    | none => rw [slotFrees, ih, List.flatMap_cons, Option.map_none, Option.getD_none,
        List.nil_append]
    | some v => rw [slotFrees, ih, List.flatMap_cons, Option.map_some, Option.getD_some]

mutual

/-- The document of a value is well spelled if those are that it holds as they are. -/
theorem wellSpelled_toJson : (v : Value) → (∀ w ∈ v.frees, w.WellSpelled) → v.toJson.WellSpelled
  | .text s, _ => wellSpelled_string s
  | .int n, _ => wellSpelled_scalar.mpr (Numeral.isWellSpelled_ofInt n)
  | .bool _, _ => wellSpelled_scalar.mpr rfl
  | .free v, h => h v (List.mem_singleton.mpr rfl)
  | .list items, h => wellSpelled_array.mpr (wellSpelled_itemsToJson items h)
  | .map entries, h => wellSpelled_object.mpr (wellSpelled_entriesToJson entries h)
  | .record slots, h => wellSpelled_object.mpr (wellSpelled_slotsToJson slots h)

theorem wellSpelled_itemsToJson : (items : List Value) → (∀ w ∈ itemFrees items, w.WellSpelled) →
    ∀ v ∈ itemsToJson items, v.WellSpelled
  | [], _ => by simp [itemsToJson]
  | v :: rest, h => by
    obtain ⟨hv, hrest⟩ := List.forall_mem_append.mp h
    exact List.forall_mem_cons.mpr ⟨wellSpelled_toJson v hv, wellSpelled_itemsToJson rest hrest⟩

theorem wellSpelled_entriesToJson : (entries : List (String × Value)) →
    (∀ w ∈ entryFrees entries, w.WellSpelled) →
    ∀ m ∈ entriesToJson entries, m.1.isWellSpelled = true ∧ m.2.WellSpelled
  | [], _ => by simp [entriesToJson]
  | (k, v) :: rest, h => by
    obtain ⟨hv, hrest⟩ := List.forall_mem_append.mp h
    have hm := And.intro (Literal.isWellSpelled_ofText k) (wellSpelled_toJson v hv)
    exact List.forall_mem_cons.mpr ⟨hm, wellSpelled_entriesToJson rest hrest⟩

theorem wellSpelled_slotsToJson : (slots : List (String × Option Value)) →
    (∀ w ∈ slotFrees slots, w.WellSpelled) →
    ∀ m ∈ slotsToJson slots, m.1.isWellSpelled = true ∧ m.2.WellSpelled
  | [], _ => by simp [slotsToJson]
  | (k, some v) :: rest, h => by
    obtain ⟨hv, hrest⟩ := List.forall_mem_append.mp h
    have hm := And.intro (Literal.isWellSpelled_ofText k) (wellSpelled_toJson v hv)
    exact List.forall_mem_cons.mpr ⟨hm, wellSpelled_slotsToJson rest hrest⟩
  | (_, none) :: rest, h => wellSpelled_slotsToJson rest h

end

end SidecarAdmission.Resource.Value
