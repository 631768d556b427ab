import SidecarAdmission.Resource.Pod

/-!
Records that are changed slot by slot. Changes of slots with different names do not interfere, so
that each of several changes acts as if it were the only one, and a slot that none of them names
stays as it is.
-/

set_option autoImplicit false
set_option relaxedAutoImplicit false

namespace SidecarAdmission.Resource

/-- Whether a function leaves what it has made as it is. -/
def Settles {α : Type} (f : α → α) : Prop := ∀ x, f (f x) = f x

namespace Value

/-! ### One slot -/

section OneSlot

variable {name other : String} {f g : Option Value → Option Value}

theorem lookup_map_update (slots : List (String × Option Value)) :
    (slots.map fun (n, v) => if n = name then (n, f v) else (n, v)).lookup other =
      if other = name then (slots.lookup other).map f else slots.lookup other := by
  induction slots with
  | nil => simp
  | cons s rest ih =>
    obtain ⟨n, v⟩ := s
    by_cases hn : n = name
    · by_cases ho : other = n
      · simp [hn, ho]
      · have hne : other ≠ name := hn ▸ ho
        have hskip : (other == name) = false := by simpa using hne
        simp only [List.map_cons, hn, if_true, List.lookup_cons, hskip, hne, if_false] at ih ⊢
        exact ih
    · by_cases ho : other = n
      · have hne : other ≠ name := ho ▸ hn
        simp [hn, ho]
      · have hskip : (other == n) = false := by simpa using ho
        simp only [List.map_cons, hn, if_false, List.lookup_cons, hskip]
        exact ih

theorem get?_updateSlot_of_ne (h : other ≠ name) (v : Value) :
    (v.updateSlot name f).get? other = v.get? other := by
  cases v with
  | record slots => simp only [updateSlot, get?, Value.slots, lookup_map_update, h, if_false]
  | _ => rfl

theorem get?_updateSlot_self (v : Value) :
    (v.updateSlot name f).get? name = ((v.slots.lookup name).map f).join := by
  cases v with
  | record slots => simp only [updateSlot, get?, Value.slots, lookup_map_update, if_true]
  | _ => rfl

theorem updateSlot_updateSlot (v : Value) :
    (v.updateSlot name f).updateSlot name g = v.updateSlot name fun o => g (f o) := by
  cases v with
  | record slots =>
    simp only [updateSlot, List.map_map]
    congr 1
    refine List.map_congr_left fun s _ => ?_
    simp only [Function.comp_apply]
    by_cases hs : s.1 = name <;> simp [hs]
  | _ => rfl

theorem updateSlot_comm (h : name ≠ other) (v : Value) :
    (v.updateSlot name f).updateSlot other g = (v.updateSlot other g).updateSlot name f := by
  cases v with
  | record slots =>
    simp only [updateSlot, List.map_map]
    congr 1
    refine List.map_congr_left fun s _ => ?_
    simp only [Function.comp_apply]
    by_cases hs : s.1 = name
    · have hne : s.1 ≠ other := hs ▸ h
      simp [hs, h]
    · by_cases ho : s.1 = other
      · simp [ho, Ne.symm h]
      · simp [hs, ho]
  | _ => rfl

theorem settles_updateSlot (hf : Settles f) : Settles (updateSlot name f) := by
  intro v
  rw [updateSlot_updateSlot]
  congr 1
  exact funext hf

end OneSlot

/-! ### Several slots -/

/-- A record with several slots changed, one after the other. -/
def updateSlots (changes : List (String × (Option Value → Option Value))) (v : Value) : Value :=
  changes.foldl (fun v change => v.updateSlot change.1 change.2) v

section SeveralSlots

variable {changes : List (String × (Option Value → Option Value))} {name : String}

theorem get?_updateSlots (h : name ∉ changes.map Prod.fst) (v : Value) :
    (updateSlots changes v).get? name = v.get? name := by
  induction changes generalizing v with
  | nil => rfl
  | cons change rest ih =>
    obtain ⟨hne, hrest⟩ := not_or.mp (mt List.mem_cons.mpr h)
    exact (ih hrest _).trans (get?_updateSlot_of_ne hne v)

theorem updateSlots_updateSlot (h : name ∉ changes.map Prod.fst) (f : Option Value → Option Value)
    (v : Value) :
    updateSlots changes (v.updateSlot name f) = (updateSlots changes v).updateSlot name f := by
  induction changes generalizing v with
  | nil => rfl
  | cons change rest ih =>
    obtain ⟨hne, hrest⟩ := not_or.mp (mt List.mem_cons.mpr h)
    simp only [updateSlots, List.foldl_cons] at ih ⊢
    rw [updateSlot_comm hne, ih hrest]

theorem get?_updateSlots_of_mem (hnames : (changes.map Prod.fst).Nodup)
    {change : String × (Option Value → Option Value)} (h : change ∈ changes) (v : Value) :
    (updateSlots changes v).get? change.1 = ((v.slots.lookup change.1).map change.2).join := by
  induction changes generalizing v with
  | nil => contradiction
  | cons first rest ih =>
    obtain ⟨hfresh, hdistinct⟩ := List.nodup_cons.mp hnames
    have hcons : updateSlots (first :: rest) v =
        updateSlots rest (v.updateSlot first.1 first.2) := rfl
    rcases List.mem_cons.mp h with rfl | hrest
    · rw [hcons, get?_updateSlots hfresh, get?_updateSlot_self]
    · have hne : change.1 ≠ first.1 := fun heq =>
        hfresh (heq ▸ List.mem_map_of_mem (f := Prod.fst) hrest)
      rw [hcons, updateSlots_updateSlot hfresh, get?_updateSlot_of_ne hne, ih hdistinct hrest]

/-- Changes of different slots, each of which settles, settle together. -/
theorem settles_updateSlots (hnames : (changes.map Prod.fst).Nodup)
    (h : ∀ change ∈ changes, Settles change.2) : Settles (updateSlots changes) := by
  induction changes with
  | nil => exact fun _ => rfl
  | cons change rest ih =>
    obtain ⟨hfresh, hdistinct⟩ := List.nodup_cons.mp hnames
    obtain ⟨hchange, hrest⟩ := List.forall_mem_cons.mp h
    have hcons : ∀ v, updateSlots (change :: rest) v =
        updateSlots rest (v.updateSlot change.1 change.2) := fun _ => rfl
    intro v
    rw [hcons, hcons, ← updateSlots_updateSlot hfresh, ih hdistinct hrest,
      settles_updateSlot hchange]

end SeveralSlots

/-! ### The ways in which a slot is changed -/

theorem exists_lookup {slots : List (String × Option Value)} {name : String}
    (h : name ∈ slots.map Prod.fst) : ∃ slot, slots.lookup name = some slot := by
  refine Option.ne_none_iff_exists'.mp fun hnone => ?_
  obtain ⟨s, hs, rfl⟩ := List.mem_map.mp h
  simpa using List.lookup_eq_none_iff.mp hnone s hs

/-- A slot with a value put into it, if it has none. -/
def filledWith (value : Value) (slot : Option Value) : Option Value := some (slot.getD value)

theorem get?_updateSlots_map {changes : List (String × (Option Value → Option Value))}
    (hnames : (changes.map Prod.fst).Nodup) {name : String} {f : Value → Value}
    (h : (name, Option.map f) ∈ changes) (v : Value) :
    (updateSlots changes v).get? name = (v.get? name).map f := by
  rw [get?_updateSlots_of_mem hnames h, get?]
  rcases v.slots.lookup name with _ | _ | x <;> rfl

/-- A slot that a record has is filled. -/
theorem get?_updateSlots_filledWith {changes : List (String × (Option Value → Option Value))}
    (hnames : (changes.map Prod.fst).Nodup) {name : String} {value : Value}
    (h : (name, filledWith value) ∈ changes) {v : Value} (hslot : name ∈ v.slots.map Prod.fst) :
    (updateSlots changes v).get? name = some ((v.get? name).getD value) := by
  obtain ⟨slot, hfound⟩ := exists_lookup hslot
  rw [get?_updateSlots_of_mem hnames h, get?, hfound]
  rfl

theorem settles_filledWith (value : Value) : Settles (filledWith value) := fun _ => rfl

theorem settles_map {f : Value → Value} (hf : Settles f) : Settles (Option.map f) := by
  intro slot
  cases slot with
  | none => rfl
  | some v => exact congrArg some (hf v)

theorem settles_each {f : Value → Value} (hf : Settles f) : Settles (each f) := by
  intro v
  cases v with
  | list items =>
    simp only [each, List.map_map]
    congr 1
    exact List.map_congr_left fun item _ => hf item
  | _ => rfl

theorem settles_fill (name : String) (value : Value) : Settles (fill name value) :=
  settles_updateSlot (settles_filledWith value)

theorem settles_modify (name : String) {f : Value → Value} (hf : Settles f) :
    Settles (modify name f) :=
  settles_updateSlot (settles_map hf)

theorem get?_modify_self (name : String) (f : Value → Value) (v : Value) :
    (modify name f v).get? name = (v.get? name).map f := by
  rw [modify, get?_updateSlot_self, get?]
  rcases v.slots.lookup name with _ | _ | x <;> rfl

theorem items_each (f : Value → Value) (v : Value) : (each f v).items = v.items.map f := by
  cases v <;> rfl

theorem itemsAt_of_map_each {v w : Value} {name : String} {f : Value → Value}
    (h : w.get? name = (v.get? name).map (each f)) : w.itemsAt name = (v.itemsAt name).map f := by
  unfold itemsAt
  rw [h]
  cases v.get? name with
  | none => rfl
  | some l => exact items_each f l

theorem get?_fill {name : String} {v : Value} (h : name ∈ v.slots.map Prod.fst) (value : Value) :
    (fill name value v).get? name = some ((v.get? name).getD value) := by
  obtain ⟨slot, hslot⟩ := exists_lookup h
  rw [fill, get?_updateSlot_self, get?, hslot]
  rfl

end Value

end SidecarAdmission.Resource
