import SidecarAdmission.Yaml.Cursor

/-!
Moving through a text. A cursor that has passed characters has the rest of the text before it; on
one line its column tells how many it has passed, and behind a break its line is another one.
-/

set_option autoImplicit false
set_option relaxedAutoImplicit false

namespace SidecarAdmission.Yaml

/-- Whether a character is white space: a blank or a break. -/
def isWhite (c : Char) : Bool := isBlank c || isBreak c

@[simp] theorem endsWord_some (c : Char) : endsWord (some c) = isWhite c := rfl

theorem isWhite_of_isBlank {c : Char} (h : isBlank c = true) : isWhite c = true := by
  simp [isWhite, h]

theorem isBlank_eq_false {c : Char} (h : isWhite c = false) : isBlank c = false :=
  (Bool.or_eq_false_iff.mp h).1

theorem isBreak_eq_false {c : Char} (h : isWhite c = false) : isBreak c = false :=
  (Bool.or_eq_false_iff.mp h).2

theorem not_isBreak_of_isBlank {c : Char} (h : isBlank c = true) : isBreak c = false := by
  have hcases : c = ' ' ∨ c = '\t' := by simpa [isBlank] using h
  rcases hcases with rfl | rfl <;> rfl

theorem isBlank_or_isBreak {c : Char} (h : isWhite c = true) : isBlank c = true ∨ isBreak c = true :=
  Bool.or_eq_true_iff.mp h

/-- White space is made of blanks and perhaps a break with further white space behind it. -/
theorem exists_blanks_append {white : List Char} (h : ∀ x ∈ white, isWhite x = true) :
    ∃ blanks later, white = blanks ++ later ∧ (∀ x ∈ blanks, isBlank x = true) ∧
      (∀ x ∈ later.head?, isBreak x = true) := by
  induction white with
  | nil => exact ⟨[], [], rfl, by simp, by simp⟩
  | cons x white ih =>
    obtain ⟨hx, hwhite⟩ := List.forall_mem_cons.mp h
    rcases isBlank_or_isBreak hx with hx | hx
    · obtain ⟨blanks, later, rfl, hblanks, hlater⟩ := ih hwhite
      exact ⟨x :: blanks, later, rfl, List.forall_mem_cons.mpr ⟨hx, hblanks⟩, hlater⟩
    · refine ⟨[], x :: white, rfl, by simp, fun y hy => ?_⟩
      obtain rfl : x = y := by simpa using hy
      exact hx

/-! ### Line breaks -/

/-- Characters that are no carriage returns and no next-line characters are left as they are. -/
theorem unifyBreaks_append_of_forall {cs : List Char} (h : ∀ c ∈ cs, c ≠ '\r' ∧ c ≠ '\x85')
    (rest : List Char) : unifyBreaks (cs ++ rest) = cs ++ unifyBreaks rest := by
  induction cs with
  | nil => rfl
  | cons c cs ih =>
    obtain ⟨⟨hreturn, hnext⟩, hcs⟩ := List.forall_mem_cons.mp h
    rw [List.cons_append, unifyBreaks.eq_2]
    · simp [hreturn, hnext, ih hcs]
    · intro _ _ _
      contradiction

/-- Breaks are made alike on both sides of a character that is no line feed. -/
theorem unifyBreaks_append {cs rest : List Char} (h : rest.head? ≠ some '\n') :
    unifyBreaks (cs ++ rest) = unifyBreaks cs ++ unifyBreaks rest := by
  induction cs using unifyBreaks.induct with
  | case1 cs ih => simp [unifyBreaks, ih]
  | case2 c cs hpair ih =>
    rw [List.cons_append, unifyBreaks.eq_2, unifyBreaks.eq_2, ih, List.cons_append]
    · exact hpair
    · intro more hc heq
      rcases cs with _ | ⟨d, cs⟩
      · rw [List.nil_append] at heq
        rw [heq] at h
        exact h rfl
      · rw [List.cons_append, List.cons.injEq] at heq
        exact hpair cs hc (by rw [heq.1])
  | case3 => rfl

theorem mem_unifyBreaks {cs : List Char} {c : Char} (h : c ∈ unifyBreaks cs) :
    c = '\n' ∨ c ∈ cs ∧ c ≠ '\r' := by
  induction cs using unifyBreaks.induct with
  | case1 cs ih =>
    rw [unifyBreaks, List.mem_cons] at h
    rcases h with h | h
    · exact .inl h
    · exact (ih h).imp_right fun h => ⟨by simp [h.1], h.2⟩
  | case2 d cs hpair ih =>
    rw [unifyBreaks.eq_2 _ _ hpair, List.mem_cons] at h
    rcases h with h | h
    · split at h
      next => exact .inl h
      next hd => exact .inr ⟨by simp [h], fun hreturn => hd (.inl (h ▸ hreturn))⟩
    · exact (ih h).imp_right fun h => ⟨List.mem_cons_of_mem d h.1, h.2⟩
  | case3 => contradiction

namespace Cursor

variable {c : Cursor} {cs tail : List Char}

/-! ### Passing characters -/

@[simp] theorem rest_next (c : Cursor) : c.next.rest = c.rest.tail := by
  unfold next
  split
  next h => rw [h]; rfl
  next h =>
    rw [h]
    split <;> rfl

@[simp] theorem rest_skip (n : Nat) (c : Cursor) : (c.skip n).rest = c.rest.drop n := by
  induction n generalizing c with
  | zero => rfl
  | succ n ih => rw [skip, ih, rest_next, List.drop_tail]

theorem skip_add (m n : Nat) (c : Cursor) : c.skip (m + n) = (c.skip m).skip n := by
  induction m generalizing c with
  | zero => rw [Nat.zero_add, skip]
  | succ m ih => rw [Nat.succ_add, skip, skip, ih]

theorem next_eq_skip (c : Cursor) : c.next = c.skip 1 := rfl

theorem rest_skip_append (h : c.rest = cs ++ tail) : (c.skip cs.length).rest = tail := by
  rw [rest_skip, h, List.drop_left]

theorem next_of_line {x : Char} (h : c.rest = x :: tail) (hx : isBreak x = false) :
    c.next = ⟨tail, c.line, c.column + 1⟩ := by
  simp [next, h, hx]

theorem next_of_break {x : Char} (h : c.rest = x :: tail) (hx : isBreak x = true) :
    c.next = ⟨tail, c.line + 1, 0⟩ := by
  simp [next, h, hx]

/-- On one line the column tells how many characters have been passed. -/
theorem skip_of_line (h : c.rest = cs ++ tail) (hcs : ∀ x ∈ cs, isBreak x = false) :
    c.skip cs.length = ⟨tail, c.line, c.column + cs.length⟩ := by
  induction cs generalizing c with
  | nil =>
    obtain rfl : c.rest = tail := h
    rfl
  | cons x cs ih =>
    obtain ⟨hx, hrest⟩ := List.forall_mem_cons.mp hcs
    have hnext : c.next = ⟨cs ++ tail, c.line, c.column + 1⟩ := next_of_line h hx
    rw [List.length_cons, skip, ih (by rw [hnext]) hrest, hnext]
    simp only [Nat.add_assoc, Nat.add_comm 1]

theorem line_le_next (c : Cursor) : c.line ≤ c.next.line := by
  unfold next
  split
  next => exact Nat.le_refl _
  next =>
    split
    · exact Nat.le_succ _
    · exact Nat.le_refl _

theorem line_le_skip (n : Nat) (c : Cursor) : c.line ≤ (c.skip n).line := by
  induction n generalizing c with
  | zero => exact Nat.le_refl _
  | succ n ih => exact Nat.le_trans c.line_le_next (ih c.next)

/-- Behind a break the line is another one. -/
theorem line_lt_skip (h : c.rest = cs ++ tail) (hcs : ∃ x ∈ cs, isBreak x = true) :
    c.line < (c.skip cs.length).line := by
  induction cs generalizing c with
  | nil => simp at hcs
  | cons x cs ih =>
    rw [List.length_cons, skip]
    by_cases hx : isBreak x = true
    · have hnext : c.next = ⟨cs ++ tail, c.line + 1, 0⟩ := next_of_break h hx
      have hle := c.next.line_le_skip cs.length
      rw [hnext] at hle
      rw [hnext]
      exact hle
    · obtain ⟨y, hy, hbreak⟩ := hcs
      have hmem : y ∈ cs := by
        rcases List.mem_cons.mp hy with rfl | hy
        · exact absurd hbreak hx
        · exact hy
      have hrest : c.next.rest = cs ++ tail := by rw [rest_next, h]; rfl
      exact Nat.lt_of_le_of_lt c.line_le_next (ih hrest ⟨y, hmem, hbreak⟩)

theorem span_append {p : Char → Bool} (h : c.rest = cs ++ tail) (hcs : ∀ x ∈ cs, p x = true)
    (htail : ∀ x ∈ tail.head?, p x = false) : c.span p = (cs, c.skip cs.length) := by
  have htake : c.rest.takeWhile p = cs := by
    rw [h, List.takeWhile_append_of_pos hcs]
    cases tail with
    | nil => simp
    | cons x tail => simp [htail x rfl]
  rw [span, htake]

/-! ### Marks of documents -/

theorem isAtDocumentMark_of_column (h : 0 < c.column) : c.isAtDocumentMark = false := by
  have hcolumn : (c.column == 0) = false := by simpa using Nat.ne_of_gt h
  simp [isAtDocumentMark, isAtDocumentStart, isAtDocumentEnd, hcolumn]

/-- Neither dashes nor dots begin here. -/
def IsUnmarked (cs : List Char) : Prop :=
  ∀ x ∈ cs.head?, x ≠ '.' ∧ (x = '-' → cs[1]? ≠ some '-')

theorem isAtDocumentStart_of_isUnmarked (h : IsUnmarked c.rest) : c.isAtDocumentStart = false := by
  have hmark : c.isAtMark ['-', '-', '-'] = false := by
    rw [isAtMark, Bool.and_eq_false_iff]
    left
    rw [beq_eq_false_iff_ne]
    intro htake
    rcases hrest : c.rest with _ | ⟨x, _ | ⟨y, more⟩⟩
    · simp [hrest] at htake
    · simp [hrest] at htake
    · obtain ⟨rfl, rfl, -⟩ : x = '-' ∧ y = '-' ∧ more.take 1 = ['-'] := by simpa [hrest] using htake
      rw [hrest] at h
      exact (h '-' rfl).2 rfl rfl
  simp [isAtDocumentStart, hmark]

theorem isAtDocumentEnd_of_isUnmarked (h : IsUnmarked c.rest) : c.isAtDocumentEnd = false := by
  have hmark : c.isAtMark ['.', '.', '.'] = false := by
    rw [isAtMark, Bool.and_eq_false_iff]
    left
    rw [beq_eq_false_iff_ne]
    intro htake
    rcases hrest : c.rest with _ | ⟨x, more⟩
    · simp [hrest] at htake
    · obtain ⟨rfl, -⟩ : x = '.' ∧ more.take 2 = ['.', '.'] := by simpa [hrest] using htake
      rw [hrest] at h
      exact (h '.' rfl).1 rfl
  simp [isAtDocumentEnd, hmark]

theorem isAtDocumentMark_of_isUnmarked (h : IsUnmarked c.rest) : c.isAtDocumentMark = false := by
  simp [isAtDocumentMark, isAtDocumentStart_of_isUnmarked h, isAtDocumentEnd_of_isUnmarked h]

end Cursor

end SidecarAdmission.Yaml
