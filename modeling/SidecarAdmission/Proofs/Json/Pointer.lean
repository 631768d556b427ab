import SidecarAdmission.Json.Pointer

/-!
Writing names as a pointer and reading it back. No name is written with a slash of its own, so the
slashes of a pointer are exactly those before its names, and each name comes back whatever
characters it has.
-/

set_option autoImplicit false
set_option relaxedAutoImplicit false

namespace SidecarAdmission.Json.Pointer

theorem unescape?_escapeChar (c : Char) (rest : List Char) :
    unescape? (escapeChar c ++ rest) = (unescape? rest).map (c :: ·) := by
  unfold escapeChar
  split
  next tilde =>
    subst c
    rfl
  next plain =>
    split
    next slash =>
      subst c
      rfl
    next =>
      rw [List.singleton_append, unescape?.eq_def]
      split <;> simp_all

theorem unescape?_flatMap_escapeChar (cs : List Char) :
    unescape? (cs.flatMap escapeChar) = some cs := by
  induction cs with
  | nil => rfl
  | cons c cs ih =>
    rw [List.flatMap_cons, unescape?_escapeChar, ih]
    rfl

private theorem slash_not_mem_escapeChar (c : Char) : '/' ∉ escapeChar c := by
  unfold escapeChar
  split
  · decide
  · split
    · decide
    next hne => simpa using fun h => hne h.symm

theorem slash_not_mem_escape (name : String) : '/' ∉ (escape name).toList := by
  intro h
  simp only [escape, String.toList_ofList, List.mem_flatMap] at h
  obtain ⟨c, -, hc⟩ := h
  exact slash_not_mem_escapeChar c hc

theorem splitSlash_of_not_mem {part : List Char} (h : '/' ∉ part) : splitSlash part = [part] := by
  induction part with
  | nil => rfl
  | cons c cs ih =>
    obtain ⟨hc, hcs⟩ := not_or.mp (mt List.mem_cons.mpr h)
    rw [splitSlash.eq_def]
    split
    · contradiction
    · simp_all
    · simp_all

theorem splitSlash_append_slash {part : List Char} (h : '/' ∉ part) (rest : List Char) :
    splitSlash (part ++ '/' :: rest) = part :: splitSlash rest := by
  induction part with
  | nil => rfl
  | cons c cs ih =>
    obtain ⟨hc, hcs⟩ := not_or.mp (mt List.mem_cons.mpr h)
    rw [List.cons_append, splitSlash.eq_def]
    split
    · contradiction
    · simp_all
    · simp_all

theorem toList_ofNames_cons (name : String) (names : List String) :
    (ofNames (name :: names)).toList =
      '/' :: ((escape name).toList ++ (ofNames names).toList) := by
  simp [ofNames]

theorem ofNames_concat (names : List String) (name : String) :
    ofNames (names ++ [name]) = ofNames names ++ "/" ++ escape name := by
  induction names with
  | nil => simp [ofNames]
  | cons n ns ih =>
    simp only [ofNames, List.cons_append, List.map_cons, String.join_cons] at ih ⊢
    simp only [ih, String.append_assoc]

/-- Behind its first slash a pointer is split into the escaped names. -/
private theorem splitSlash_ofNames (name : String) (names : List String) :
    splitSlash ((escape name).toList ++ (ofNames names).toList) =
      (name :: names).map fun n => (escape n).toList := by
  induction names generalizing name with
  | nil =>
    have hempty : (ofNames []).toList = [] := rfl
    rw [hempty, List.append_nil, splitSlash_of_not_mem (slash_not_mem_escape name)]
    rfl
  | cons next names ih =>
    rw [toList_ofNames_cons, splitSlash_append_slash (slash_not_mem_escape name), ih next]
    rfl

private theorem mapM_unescape?_escape (names : List String) :
    ((names.map fun n => (escape n).toList).mapM fun part =>
      (unescape? part).map String.ofList) = some names := by
  induction names with
  | nil => rfl
  | cons name names ih =>
    rw [List.map_cons, List.mapM_cons, ih]
    simp [escape, unescape?_flatMap_escapeChar]

/-- A pointer leads through the names that it was made of. -/
theorem names?_ofNames (names : List String) : names? (ofNames names) = some names := by
  cases names with
  | nil => rfl
  | cons name names =>
    unfold names?
    rw [toList_ofNames_cons]
    simp only [splitSlash_ofNames]
    exact mapM_unescape?_escape (name :: names)

end SidecarAdmission.Json.Pointer
