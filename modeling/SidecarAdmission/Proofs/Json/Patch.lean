import SidecarAdmission.Proofs.Json.Place
import SidecarAdmission.Proofs.Json.Pointer

/-!
What the operations of a patch do at the place that their pointer names. Where the names lead
through objects, an operation writes at that place: a member into an object, or an item behind the
others of an array. Where they lead to no container, it fails.
-/

set_option autoImplicit false
set_option relaxedAutoImplicit false

namespace SidecarAdmission.Json

theorem putAt?_cons_object {names : List String} (hne : names ≠ []) (action : Action)
    (value : Json) (name : String) (members : List (Literal × Json)) :
    putAt? action value (name :: names) (.object members) =
      (member? name members).bind fun child =>
        (putAt? action value names child).map fun w => .object (setMember name w members) := by
  rw [putAt?]
  · cases member? name members <;> rfl
  · exact hne

/-- An operation changes the container that the names before the last one lead to. -/
theorem putAt?_concat {names : List String} {v parent : Json} (h : v.at? names = some parent)
    (action : Action) (name : String) (value : Json) :
    putAt? action value (names ++ [name]) v =
      (put? action name value parent).map fun w => setAt w v names := by
  induction names generalizing v with
  | nil =>
    obtain rfl : v = parent := by simpa using h
    simp only [List.nil_append, putAt?, setAt, Option.map_id']
  | cons n ns ih =>
    obtain ⟨child, hchild, hparent⟩ := Option.bind_eq_some_iff.mp h
    obtain ⟨members, rfl⟩ := isObject_iff.mp (isObject_of_get? hchild)
    rw [List.cons_append, putAt?_cons_object (by simp), ← get?_object, hchild, Option.bind_some,
      ih hparent, Option.map_map]
    simp only [setAt, hchild, Option.getD_some]
    rfl

/-- Adding a member to an object writes it there. -/
theorem putAt?_add_member {names : List String} {v parent : Json} (h : v.at? names = some parent)
    (hp : parent.isObject = true) (name : String) (value : Json) :
    putAt? .add value (names ++ [name]) v = some (setAt value v (names ++ [name])) := by
  obtain ⟨members, rfl⟩ := isObject_iff.mp hp
  rw [putAt?_concat h, setAt_concat h]
  rfl

/-- Replacing a member that an object has writes it there. -/
theorem putAt?_replace_member {names : List String} {name : String} {v old : Json}
    (h : v.at? (names ++ [name]) = some old) (value : Json) :
    putAt? .replace value (names ++ [name]) v = some (setAt value v (names ++ [name])) := by
  rw [at?_concat] at h
  obtain ⟨parent, hparent, hold⟩ := Option.bind_eq_some_iff.mp h
  obtain ⟨members, rfl⟩ := isObject_iff.mp (isObject_of_get? hold)
  rw [putAt?_concat hparent, setAt_concat hparent]
  simp only [put?, ← get?_object, hold, Option.map_some, set_object]

/-- Adding behind the last item of an array writes the array with one more item. -/
theorem putAt?_add_item {names : List String} {v : Json} {items : List Json}
    (h : v.at? names = some (.array items)) (value : Json) :
    putAt? .add value (names ++ ["-"]) v = some (setAt (.array (items ++ [value])) v names) := by
  rw [putAt?_concat h]
  rfl

/-- No operation is possible below a member that is missing or has no parts. -/
theorem putAt?_eq_none {name : String} {v : Json}
    (h : ∀ child, v.get? name = some child → ∃ s, child = .scalar s) (hv : v.isObject = true)
    (action : Action) (value : Json) (next : String) (names : List String) :
    putAt? action value (name :: next :: names) v = none := by
  obtain ⟨members, rfl⟩ := isObject_iff.mp hv
  rw [putAt?_cons_object (by simp)]
  cases hchild : member? name members with
  | none => rfl
  | some child =>
    obtain ⟨s, rfl⟩ := h child hchild
    cases names <;> rfl

theorem Operation.apply?_eq (action : Action) (names : List String) (value v : Json) :
    Operation.apply? ⟨action, Pointer.ofNames names, value⟩ v = putAt? action value names v := by
  unfold Operation.apply?
  simp only [Pointer.names?_ofNames]
  rfl

@[simp] theorem applyPatch?_nil (v : Json) : applyPatch? [] v = some v := rfl

theorem applyPatch?_cons (o : Operation) (patch : List Operation) (v : Json) :
    applyPatch? (o :: patch) v = ( o.apply? v).bind fun w => applyPatch? patch w := rfl

theorem applyPatch?_append (first second : List Operation) (v : Json) :
    applyPatch? (first ++ second) v =
      (applyPatch? first v).bind fun w => applyPatch? second w := by
  induction first generalizing v with
  | nil => rfl
  | cons o rest ih => simp only [List.cons_append, applyPatch?_cons, ih, Option.bind_assoc]

/-- Items that are added one by one to an array end up behind those that it has, in their order. -/
theorem applyPatch?_map_add_item {names : List String} {v : Json} {items : List Json}
    (h : v.at? names = some (.array items)) (additions : List Json) :
    applyPatch? (additions.map fun w => ⟨.add, Pointer.ofNames (names ++ ["-"]), w⟩) v =
      some (setAt (.array (items ++ additions)) v names) := by
  induction additions generalizing v items with
  | nil => simp [setAt_of_at? h]
  | cons w rest ih =>
    rw [List.map_cons, applyPatch?_cons, Operation.apply?_eq, putAt?_add_item h, Option.bind_some,
      ih (at?_setAt_of_at? h _), setAt_setAt, List.append_assoc]
    rfl

end SidecarAdmission.Json
