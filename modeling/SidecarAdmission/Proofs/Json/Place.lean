import SidecarAdmission.Json.Patch
import SidecarAdmission.Proofs.Json.Literal
import SidecarAdmission.Proofs.Json.Reader

/-!
Places in documents, each named by the members that lead to it. Of several members with one name the
last counts, for reading and for writing. A value written at a place is read back there, and every
place apart from it, which neither leads to it nor lies below it, keeps its value. What is written
into a well spelled document leaves it so.
-/

set_option autoImplicit false
set_option relaxedAutoImplicit false

namespace SidecarAdmission.Json

/-! ### Members -/

@[simp] theorem member?_nil (name : String) : member? name [] = none := rfl

theorem member?_append (name : String) (front back : List (Literal × Json)) :
    member? name (front ++ back) = (member? name back).or (member? name front) := by
  simp only [member?, List.reverse_append, List.find?_append, Option.map_or]

theorem member?_cons (name : String) (k : Literal) (v : Json) (rest : List (Literal × Json)) :
    member? name ((k, v) :: rest) =
      (member? name rest).or (if k.text? = some name then some v else none) := by
  rw [← List.singleton_append, member?_append]
  by_cases hk : k.text? = some name <;> simp [member?, hk]

theorem member?_concat (name : String) (k : Literal) (v : Json) (front : List (Literal × Json)) :
    member? name (front ++ [(k, v)]) =
      if k.text? = some name then some v else member? name front := by
  rw [member?_append]
  by_cases hk : k.text? = some name <;> simp [member?, hk]

/-- What a list of members that stand reversed has for a name. -/
private theorem member?_reverse_setLast (name other : String) (value : Json)
    (members : List (Literal × Json)) :
    member? other (setLast name value members).reverse =
      if other = name ∧ (member? name members.reverse).isSome then some value
      else member? other members.reverse := by
  induction members with
  | nil => simp [setLast]
  | cons m rest ih =>
    obtain ⟨k, v⟩ := m
    by_cases hk : k.text? = some name
    · by_cases ho : other = name
      · simp [setLast, member?_concat, hk, ho]
      · have hne : ¬ name = other := fun h => ho h.symm
        simp [setLast, member?_concat, hk, ho, hne]
    · by_cases ho : k.text? = some other
      · have hne : ¬ other = name := fun h => hk (h ▸ ho)
        simp [setLast, member?_concat, ho, hne]
      · simp [setLast, member?_concat, hk, ho, ih]

theorem member?_setMember (name other : String) (value : Json) (members : List (Literal × Json)) :
    member? other (setMember name value members) =
      if other = name then some value else member? other members := by
  unfold setMember
  split
  next found =>
    rw [member?_reverse_setLast]
    simp [found]
  next =>
    rw [member?_concat, Literal.text?_ofText]
    simp [eq_comm]

@[simp] theorem member?_setMember_self (name : String) (value : Json)
    (members : List (Literal × Json)) :
    member? name (setMember name value members) = some value := by
  simp [member?_setMember]

theorem member?_setMember_of_ne {name other : String} (h : other ≠ name) (value : Json)
    (members : List (Literal × Json)) :
    member? other (setMember name value members) = member? other members := by
  simp [member?_setMember, h]

/-- A second value for a name takes the place of the first, also when the first was added. -/
private theorem setLast_setLast (name : String) (first second : Json)
    (members : List (Literal × Json)) :
    setLast name second (setLast name first members) = setLast name second members := by
  induction members with
  | nil => rfl
  | cons m rest ih =>
    obtain ⟨k, v⟩ := m
    by_cases hk : k.text? = some name <;> simp [setLast, hk, ih]

theorem setMember_setMember (name : String) (first second : Json)
    (members : List (Literal × Json)) :
    setMember name second (setMember name first members) = setMember name second members := by
  rw [setMember, member?_setMember_self]
  unfold setMember
  cases member? name members with
  | some _ => simp [setLast_setLast]
  | none => simp [setLast]

/-- Putting in place what is there changes nothing. -/
private theorem setLast_of_member? {name : String} {value : Json} {members : List (Literal × Json)}
    (h : member? name members.reverse = some value) : setLast name value members = members := by
  induction members with
  | nil => rfl
  | cons m rest ih =>
    obtain ⟨k, v⟩ := m
    rw [List.reverse_cons, member?_concat] at h
    by_cases hk : k.text? = some name
    · have hv : v = value := by simpa [hk] using h
      simp [setLast, hk, hv]
    · have hrest : member? name rest.reverse = some value := by simpa [hk] using h
      simp [setLast, hk, ih hrest]

theorem setMember_of_member? {name : String} {value : Json} {members : List (Literal × Json)}
    (h : member? name members = some value) : setMember name value members = members := by
  unfold setMember
  rw [h]
  have hlast : setLast name value members.reverse = members.reverse := by
    apply setLast_of_member?
    rw [List.reverse_reverse, h]
  simp only [hlast, List.reverse_reverse]

/-! ### Reading and writing at a place -/

/-- The value of the member of an object with a name, the last of several. -/
def get? (v : Json) (name : String) : Option Json :=
  match v with
  | .object members => member? name members
  | _ => none

/-- A document whose member with a name has another value; what is no object stays as it is. -/
def set (v : Json) (name : String) (value : Json) : Json :=
  match v with
  | .object members => .object (setMember name value members)
  | v => v

/-- Whether a document is an object. -/
def isObject : Json → Bool
  | .object _ => true
  | _ => false

/-- The value at the place that names of members lead to. -/
def at? : Json → List String → Option Json
  | v, [] => some v
  | v, name :: names => (v.get? name).bind fun child => at? child names

/-- A document with another value at the place that names of members lead to. -/
def setAt (value : Json) : Json → List String → Json
  | _, [] => value
  | v, name :: names => v.set name (setAt value ((v.get? name).getD .null) names)

@[simp] theorem get?_object (name : String) (members : List (Literal × Json)) :
    (object members).get? name = member? name members := rfl

@[simp] theorem set_object (name : String) (value : Json) (members : List (Literal × Json)) :
    (object members).set name value = object (setMember name value members) := rfl

theorem isObject_iff {v : Json} : v.isObject = true ↔ ∃ members, v = object members := by
  cases v <;> simp [isObject]

theorem isObject_of_get? {name : String} {v w : Json} (h : v.get? name = some w) :
    v.isObject = true := by
  cases v with
  | object members => rfl
  | array items => simp [get?] at h
  | scalar s => simp [get?] at h

@[simp] theorem isObject_set (v : Json) (name : String) (value : Json) :
    (v.set name value).isObject = v.isObject := by
  cases v <;> rfl

theorem get?_set_self {v : Json} (h : v.isObject = true) (name : String) (value : Json) :
    (v.set name value).get? name = some value := by
  obtain ⟨members, rfl⟩ := isObject_iff.mp h
  simp

theorem get?_set_of_ne {name other : String} (h : other ≠ name) (v value : Json) :
    (v.set name value).get? other = v.get? other := by
  cases v with
  | object members => exact member?_setMember_of_ne h value members
  | array items => rfl
  | scalar s => rfl

@[simp] theorem at?_nil (v : Json) : v.at? [] = some v := rfl

@[simp] theorem at?_cons (v : Json) (name : String) (names : List String) :
    v.at? (name :: names) = (v.get? name).bind fun child => child.at? names := rfl

theorem at?_append (v : Json) (front back : List String) :
    v.at? (front ++ back) = (v.at? front).bind fun w => w.at? back := by
  induction front generalizing v with
  | nil => rfl
  | cons name names ih => simp only [List.cons_append, at?_cons, Option.bind_assoc, ih]

theorem at?_concat (v : Json) (names : List String) (name : String) :
    v.at? (names ++ [name]) = (v.at? names).bind fun w => w.get? name := by
  rw [at?_append]
  simp

/-- Under a name of an object that is found, writing goes on in its value. -/
theorem setAt_concat {names : List String} {v parent : Json} (h : v.at? names = some parent)
    (name : String) (value : Json) :
    setAt value v (names ++ [name]) = setAt (parent.set name value) v names := by
  induction names generalizing v with
  | nil =>
    obtain rfl : v = parent := by simpa using h
    rfl
  | cons n ns ih =>
    obtain ⟨child, hchild, hparent⟩ := Option.bind_eq_some_iff.mp h
    simp only [List.cons_append, setAt, hchild, Option.getD_some, ih hparent]

/-- A value that is written in place of another one is read back there. -/
theorem at?_setAt_of_at? {names : List String} {v old : Json} (h : v.at? names = some old)
    (value : Json) : (setAt value v names).at? names = some value := by
  induction names generalizing v with
  | nil => rfl
  | cons n ns ih =>
    obtain ⟨child, hchild, hold⟩ := Option.bind_eq_some_iff.mp h
    have hv : v.isObject = true := isObject_of_get? hchild
    simp only [setAt, at?_cons, hchild, Option.getD_some, get?_set_self hv, Option.bind_some]
    exact ih hold

/-- A value that is written into an object is read back there. -/
theorem at?_setAt_self {names : List String} {name : String} {v parent : Json}
    (h : v.at? names = some parent) (hp : parent.isObject = true) (value : Json) :
    (setAt value v (names ++ [name])).at? (names ++ [name]) = some value := by
  rw [setAt_concat h, at?_concat, at?_setAt_of_at? h]
  exact get?_set_self hp name value

/-- Places that do not lead to each other. -/
def Apart (names other : List String) : Prop := ¬ names <+: other ∧ ¬ other <+: names

instance (names other : List String) : Decidable (Apart names other) :=
  inferInstanceAs (Decidable (¬ names <+: other ∧ ¬ other <+: names))

/-- What lies below a place is apart from what the place is apart from. -/
theorem Apart.append {names other : List String} (h : Apart names other) (back : List String) :
    Apart (names ++ back) other := by
  have hfront : names <+: names ++ back := List.prefix_append names back
  refine ⟨fun hbelow => h.1 (hfront.trans hbelow), fun habove => ?_⟩
  rcases List.prefix_or_prefix_of_prefix hfront habove with hprefix | hprefix
  · exact h.1 hprefix
  · exact h.2 hprefix

theorem apart_cons_cons {name : String} {names other : List String} :
    Apart (name :: names) (name :: other) ↔ Apart names other := by
  simp [Apart, List.cons_prefix_cons]

theorem apart_cons_cons_of_ne {name next : String} (h : name ≠ next) (names other : List String) :
    Apart (name :: names) (next :: other) := by
  simp [Apart, List.cons_prefix_cons, h, h.symm]

/-- Writing at a place keeps the value of every place apart from it. -/
theorem at?_setAt_of_apart {names other : List String} (h : Apart names other) (value v : Json) :
    (setAt value v names).at? other = v.at? other := by
  induction names generalizing v other with
  | nil => exact absurd List.nil_prefix h.1
  | cons n ns ih =>
    cases other with
    | nil => exact absurd List.nil_prefix h.2
    | cons m ms =>
      by_cases hm : m = n
      · -- Both lead through the same member; a place below a missing one is missing after it too.
        subst m
        have hrest : Apart ns ms := apart_cons_cons.mp h
        have hchild := ih hrest ((v.get? n).getD .null)
        cases v with
        | object members =>
          simp only [setAt, set_object, at?_cons, get?_object, member?_setMember_self,
            Option.bind_some] at hchild ⊢
          rw [hchild]
          cases member? n members with
          | some w => rfl
          | none =>
            cases ms with
            | nil => exact absurd List.nil_prefix hrest.2
            | cons m' ms' => rfl
        | array items => rfl
        | scalar s => rfl
      · simp only [setAt, at?_cons, get?_set_of_ne hm]

/-- What leads to a place that is written at are objects after it as before. -/
theorem isObject_at?_setAt {names front : List String} {v w : Json} (value : Json)
    (hfront : front <+: names) (hne : front ≠ names) (h : v.at? front = some w)
    (hw : w.isObject = true) :
    ∃ w', (setAt value v names).at? front = some w' ∧ w'.isObject = true := by
  induction names generalizing v front with
  | nil => exact absurd (List.prefix_nil.mp hfront) hne
  | cons n ns ih =>
    cases front with
    | nil =>
      obtain rfl : v = w := by simpa using h
      exact ⟨_, rfl, by simpa [setAt] using hw⟩
    | cons m ms =>
      obtain ⟨rfl, hms⟩ := List.cons_prefix_cons.mp hfront
      obtain ⟨child, hchild, hrest⟩ := Option.bind_eq_some_iff.mp h
      have hv : v.isObject = true := isObject_of_get? hchild
      have hne' : ms ≠ ns := fun e => hne (by rw [e])
      simp only [setAt, at?_cons, hchild, Option.getD_some, get?_set_self hv, Option.bind_some]
      exact ih hms hne' hrest

/-- Writing at a place twice is writing there once. -/
theorem setAt_setAt (names : List String) (first second v : Json) :
    setAt second (setAt first v names) names = setAt second v names := by
  induction names generalizing v with
  | nil => rfl
  | cons n ns ih =>
    cases v with
    | object members => simp [setAt, setMember_setMember, ih]
    | array items => rfl
    | scalar s => rfl

/-- Writing what is there changes nothing. -/
theorem setAt_of_at? {names : List String} {v value : Json} (h : v.at? names = some value) :
    setAt value v names = v := by
  induction names generalizing v with
  | nil => exact (Option.some.inj h).symm
  | cons n ns ih =>
    obtain ⟨child, hchild, hvalue⟩ := Option.bind_eq_some_iff.mp h
    simp only [setAt, hchild, Option.getD_some, ih hvalue]
    obtain ⟨members, rfl⟩ := isObject_iff.mp (isObject_of_get? hchild)
    rw [set_object, setMember_of_member? hchild]

/-! ### Spelling -/

theorem wellSpelled_string (s : String) : (string s).WellSpelled :=
  wellSpelled_scalar.mpr (Literal.isWellSpelled_ofText s)

theorem wellSpelled_ofMembers {members : List (String × Json)}
    (h : ∀ m ∈ members, m.2.WellSpelled) : (ofMembers members).WellSpelled := by
  rw [ofMembers, wellSpelled_object, List.forall_mem_map]
  exact fun m hm => ⟨Literal.isWellSpelled_ofText m.1, h m hm⟩

theorem exists_mem_of_member? {name : String} {members : List (Literal × Json)} {v : Json}
    (h : member? name members = some v) : ∃ k, (k, v) ∈ members := by
  obtain ⟨⟨k, w⟩, hfind, rfl⟩ := Option.map_eq_some_iff.mp h
  exact ⟨k, List.mem_reverse.mp (List.mem_of_find?_eq_some hfind)⟩

theorem WellSpelled.get? {v w : Json} (hv : v.WellSpelled) {name : String}
    (h : v.get? name = some w) : w.WellSpelled := by
  obtain ⟨members, rfl⟩ := isObject_iff.mp (isObject_of_get? h)
  obtain ⟨k, hmem⟩ := exists_mem_of_member? h
  exact (wellSpelled_object.mp hv (k, w) hmem).2

theorem WellSpelled.at? {names : List String} {v w : Json} (hv : v.WellSpelled)
    (h : v.at? names = some w) : w.WellSpelled := by
  induction names generalizing v with
  | nil => exact Option.some.inj h ▸ hv
  | cons n ns ih =>
    obtain ⟨child, hchild, hw⟩ := Option.bind_eq_some_iff.mp h
    exact ih (hv.get? hchild) hw

/-- A member that is put last among reversed ones keeps the keys. -/
private theorem forall_mem_setLast {P : Literal × Json → Prop} (name : String) {value : Json}
    (hvalue : ∀ k v, P (k, v) → P (k, value)) {members : List (Literal × Json)}
    (h : ∀ m ∈ members, P m) : ∀ m ∈ setLast name value members, P m := by
  induction members with
  | nil => exact h
  | cons m rest ih =>
    obtain ⟨hm, hrest⟩ := List.forall_mem_cons.mp h
    rw [setLast]
    split
    · exact List.forall_mem_cons.mpr ⟨hvalue _ _ hm, hrest⟩
    · exact List.forall_mem_cons.mpr ⟨hm, ih hrest⟩

theorem WellSpelled.set {v : Json} (hv : v.WellSpelled) (name : String) {value : Json}
    (hvalue : value.WellSpelled) : (v.set name value).WellSpelled := by
  cases v with
  | object members =>
    have hmembers := wellSpelled_object.mp hv
    rw [set_object, wellSpelled_object, setMember]
    split
    · have hlast := forall_mem_setLast name
        (P := fun m => m.1.isWellSpelled = true ∧ m.2.WellSpelled)
        (fun k v h => ⟨h.1, hvalue⟩) (fun m hm => hmembers m (List.mem_reverse.mp hm))
      exact fun m hm => hlast m (List.mem_reverse.mp hm)
    · rw [List.forall_mem_append, List.forall_mem_singleton]
      exact ⟨hmembers, Literal.isWellSpelled_ofText name, hvalue⟩
  | array items => exact hv
  | scalar s => exact hv

theorem WellSpelled.setAt {names : List String} {v value : Json} (hv : v.WellSpelled)
    (hvalue : value.WellSpelled) : (setAt value v names).WellSpelled := by
  induction names generalizing v with
  | nil => exact hvalue
  | cons n ns ih =>
    have hchild : ((v.get? n).getD .null).WellSpelled := by
      cases hget : v.get? n with
      | none => exact wellSpelled_scalar.mpr rfl
      | some child => exact hv.get? hget
    exact hv.set n (ih hchild)

end SidecarAdmission.Json
