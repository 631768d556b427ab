import SidecarAdmission.Json.Canonical

/-!
Members sorted by key. Of several members with one key the last is kept, each key stands once, and
members that are sorted already stay as they are.
-/

set_option autoImplicit false
set_option relaxedAutoImplicit false

namespace SidecarAdmission.Json

/-! ### Values under keys -/

theorem lookup_cons_ite {α : Type} (key k : String) (v : α) (rest : List (String × α)) :
    ((k, v) :: rest).lookup key = if key = k then some v else rest.lookup key := by
  by_cases hk : key = k
  · simp [hk]
  · have hne : (key == k) = false := beq_eq_false_iff_ne.mpr hk
    simp [List.lookup_cons, hne, hk]

theorem lookup_insertSorted {α : Type} (key other : String) (value : α)
    (members : List (String × α)) :
    (insertSorted key value members).lookup other =
      if other = key then some value else members.lookup other := by
  induction members with
  | nil => simp [insertSorted, lookup_cons_ite]
  | cons m rest ih =>
    obtain ⟨k, v⟩ := m
    by_cases hk : key = k
    · subst k
      by_cases ho : other = key <;> simp [insertSorted, lookup_cons_ite, ho]
    · by_cases hlt : key < k
      · simp [insertSorted, lookup_cons_ite, hk, hlt]
      · by_cases hok : other = k
        · have ho : ¬ other = key := fun e => hk (e.symm.trans hok)
          simp [insertSorted, hk, hlt, hok, Ne.symm hk]
        · simp [insertSorted, lookup_cons_ite, hk, hlt, hok, ih]

/-- Sorted members have under each key the value that the last of them with the key had. -/
theorem lookup_sortMembers {α : Type} (members : List (String × α)) (key : String) :
    (sortMembers members).lookup key = members.reverse.lookup key := by
  have onto : ∀ sorted : List (String × α),
      (members.foldl (fun sorted m => insertSorted m.1 m.2 sorted) sorted).lookup key =
        (members.reverse.lookup key).or (sorted.lookup key) := by
    induction members with
    | nil => simp
    | cons m rest ih =>
      obtain ⟨k, v⟩ := m
      intro sorted
      rw [List.foldl_cons, ih, lookup_insertSorted, List.reverse_cons, List.lookup_append,
        lookup_cons_ite, Option.or_assoc]
      by_cases hk : key = k <;> simp [hk]
  have h := onto []
  rwa [List.lookup_nil, Option.or_none] at h

private theorem insertSorted_map {α : Type} {β : Type} (f : α → β) (key : String) (value : α)
    (members : List (String × α)) :
    insertSorted key (f value) (members.map fun m => (m.1, f m.2)) =
      (insertSorted key value members).map fun m => (m.1, f m.2) := by
  induction members with
  | nil => rfl
  | cons m rest ih =>
    obtain ⟨k, v⟩ := m
    by_cases hk : key = k
    · simp [insertSorted, hk]
    · by_cases hlt : key < k <;> simp [insertSorted, hk, hlt, ih]

theorem sortMembers_map {α : Type} {β : Type} (f : α → β) (members : List (String × α)) :
    sortMembers (members.map fun m => (m.1, f m.2)) =
      (sortMembers members).map fun m => (m.1, f m.2) := by
  have onto : ∀ sorted : List (String × α),
      (members.map fun m => (m.1, f m.2)).foldl (fun sorted m => insertSorted m.1 m.2 sorted)
          (sorted.map fun m => (m.1, f m.2)) =
        (members.foldl (fun sorted m => insertSorted m.1 m.2 sorted) sorted).map
          fun m => (m.1, f m.2) := by
    induction members with
    | nil => simp
    | cons m rest ih =>
      intro sorted
      simp only [List.map_cons, List.foldl_cons, insertSorted_map, ih]
  exact onto []

private theorem lookup_filterMap_of_not_mem {α β : Type} {key : α → String} {value : α → Option β}
    {xs : List α} {name : String} (h : name ∉ xs.map key) :
    (xs.filterMap fun x => (value x).map fun v => (key x, v)).lookup name = none := by
  refine List.lookup_eq_none_iff.mpr fun m hm => ?_
  obtain ⟨x, hx, hvalue⟩ := List.mem_filterMap.mp hm
  obtain ⟨v, -, rfl⟩ := Option.map_eq_some_iff.mp hvalue
  have hne : name ≠ key x := by
    rintro rfl
    exact h (List.mem_map_of_mem hx)
  simpa using hne

/-- Of members with distinct keys, those that have a value are found under their keys. -/
theorem lookup_filterMap {α β : Type} {key : α → String} {value : α → Option β} {xs : List α}
    (hkeys : (xs.map key).Nodup) {x : α} (hx : x ∈ xs) :
    (xs.filterMap fun x => (value x).map fun v => (key x, v)).lookup (key x) = value x := by
  induction xs with
  | nil => contradiction
  | cons y rest ih =>
    obtain ⟨hfirst, hrest⟩ := List.nodup_cons.mp hkeys
    rcases List.mem_cons.mp hx with rfl | hx
    · have hnone := @lookup_filterMap_of_not_mem _ _ _ value _ _ hfirst
      cases hvalue : value x <;> simp [hvalue, hnone]
    · have hne : key x ≠ key y := fun heq => hfirst (List.mem_map.mpr ⟨x, hx, heq⟩)
      cases hvalue : value y <;> simp [hvalue, lookup_cons_ite, hne, ih hrest hx]

/-! ### Order of keys -/

variable {α : Type}

/-- Whether the keys of members ascend. -/
def KeysAscend (members : List (String × α)) : Prop := members.Pairwise fun m m' => m.1 < m'.1

theorem mem_insertSorted {key : String} {value : α} {members : List (String × α)}
    {m : String × α} (h : m ∈ insertSorted key value members) : m = (key, value) ∨ m ∈ members := by
  induction members with
  | nil => exact .inl (List.mem_singleton.mp h)
  | cons first rest ih =>
    obtain ⟨k, v⟩ := first
    rw [insertSorted] at h
    split at h
    · rcases List.mem_cons.mp h with h | h
      · exact .inl h
      · exact .inr (List.mem_cons_of_mem _ h)
    · split at h
      · exact List.mem_cons.mp h
      · rcases List.mem_cons.mp h with rfl | h
        · exact .inr List.mem_cons_self
        · exact (ih h).imp_right (List.mem_cons_of_mem _)

theorem KeysAscend.insertSorted {members : List (String × α)} (h : KeysAscend members)
    (key : String) (value : α) : KeysAscend (insertSorted key value members) := by
  induction members with
  | nil => exact List.pairwise_singleton _ _
  | cons first rest ih =>
    obtain ⟨k, v⟩ := first
    obtain ⟨hfirst, hrest⟩ := List.pairwise_cons.mp h
    rw [Json.insertSorted]
    split
    next heq =>
      subst heq
      exact List.pairwise_cons.mpr ⟨hfirst, hrest⟩
    next hne =>
      split
      next hlt =>
        refine List.pairwise_cons.mpr ⟨?_, h⟩
        exact List.forall_mem_cons.mpr ⟨hlt, fun m hm => String.lt_trans hlt (hfirst m hm)⟩
      next hnot =>
        have hle : k ≤ key := String.not_lt.mp hnot
        have hlt : k < key := String.not_le.mp fun hge => hne (String.le_antisymm hge hle)
        refine List.pairwise_cons.mpr ⟨fun m hm => ?_, ih hrest⟩
        rcases mem_insertSorted hm with rfl | hm
        · exact hlt
        · exact hfirst m hm

/-- A member whose key comes after all others is put behind them. -/
theorem insertSorted_of_forall_lt {key : String} {members : List (String × α)}
    (h : ∀ m ∈ members, m.1 < key) (value : α) :
    insertSorted key value members = members ++ [(key, value)] := by
  induction members with
  | nil => rfl
  | cons first rest ih =>
    obtain ⟨k, v⟩ := first
    obtain ⟨hfirst, hrest⟩ := List.forall_mem_cons.mp h
    have hlt : k < key := hfirst
    have hne : ¬ key = k := by
      rintro rfl
      exact String.lt_irrefl _ hlt
    rw [insertSorted, if_neg hne, if_neg (String.lt_asymm hlt), ih hrest, List.cons_append]

theorem keysAscend_sortMembers (members : List (String × α)) :
    KeysAscend (sortMembers members) := by
  have onto : ∀ sorted : List (String × α), KeysAscend sorted →
      KeysAscend (members.foldl (fun sorted m => insertSorted m.1 m.2 sorted) sorted) := by
    induction members with
    | nil => exact fun _ h => h
    | cons m rest ih => exact fun sorted h => ih _ (h.insertSorted m.1 m.2)
  exact onto [] List.Pairwise.nil

theorem mem_of_mem_sortMembers {members : List (String × α)} {m : String × α}
    (h : m ∈ sortMembers members) : m ∈ members := by
  have onto : ∀ sorted : List (String × α),
      m ∈ members.foldl (fun sorted m => insertSorted m.1 m.2 sorted) sorted →
        m ∈ sorted ∨ m ∈ members := by
    clear h
    induction members with
    | nil => exact fun sorted h => .inl h
    | cons first rest ih =>
      intro sorted h
      rcases ih _ h with h | h
      · rcases mem_insertSorted h with rfl | h
        · exact .inr List.mem_cons_self
        · exact .inl h
      · exact .inr (List.mem_cons_of_mem first h)
  exact (onto [] h).resolve_left List.not_mem_nil

/-- Members whose keys ascend are sorted already. -/
theorem sortMembers_of_keysAscend {members : List (String × α)} (h : KeysAscend members) :
    sortMembers members = members := by
  have onto : ∀ sorted : List (String × α), KeysAscend (sorted ++ members) →
      members.foldl (fun sorted m => insertSorted m.1 m.2 sorted) sorted = sorted ++ members := by
    clear h
    induction members with
    | nil => simp
    | cons m rest ih =>
      intro sorted h
      obtain ⟨-, -, hapart⟩ := List.pairwise_append.mp h
      have hlast : ∀ m' ∈ sorted, m'.1 < m.1 := fun m' hm' => hapart m' hm' m List.mem_cons_self
      rw [List.foldl_cons, insertSorted_of_forall_lt hlast, ih]
      · simp
      · simpa using h
  exact onto [] h

end SidecarAdmission.Json
