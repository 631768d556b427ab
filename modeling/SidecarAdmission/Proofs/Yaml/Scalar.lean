import Mathlib.Data.List.TakeWhile
import SidecarAdmission.Yaml.Scalar
import SidecarAdmission.Proofs.Json.Piece
import SidecarAdmission.Proofs.Yaml.Cursor

/-!
Scalars that are written as in JSON. The pieces of a JSON string are read between double quotes as
what they stand for, and not at all if one of them is half of a surrogate pair; a word without marks
and white space is a plain scalar, which takes the white space behind it with it.
-/

set_option autoImplicit false
set_option relaxedAutoImplicit false

namespace SidecarAdmission.Yaml.Scan

open SidecarAdmission.Text SidecarAdmission.Json SidecarAdmission.Json.Literal

variable {c : Cursor} {fuel : Nat} {tail : List Char}

/-! ### Escapes -/

theorem ofNat_octet {o : UInt8} (h : o < 0x80) :
    (Char.ofNat o.toNat).toNat = o.toNat ∧ (Char.ofNat o.toNat).toUInt8 = o := by
  have table : ∀ n < 0x80, (Char.ofNat n).toNat = n ∧ (Char.ofNat n).toUInt8 = UInt8.ofNat n := by
    decide +kernel
  obtain ⟨hcode, hoctet⟩ := table o.toNat h
  exact ⟨hcode, by rw [hoctet, UInt8.ofNat_toNat]⟩

private theorem hexNumber?_four {a b c d : UInt8} {unit : Nat}
    (h : fourDigits? a b c d = some unit) :
    hexNumber? ([a, b, c, d].map fun o => Char.ofNat o.toNat) = some unit := by
  obtain ⟨k, l, m, n, hk, hl, hm, hn, rfl⟩ := exists_of_fourDigits? h
  have hdigit : ∀ {o : UInt8} {v : Nat}, hexValue? o = some v →
      (Char.ofNat o.toNat).toNat < 128 ∧ hexValue? (Char.ofNat o.toNat).toUInt8 = some v := by
    intro o v ho
    have hlt := (lt_of_hexValue? ho).1
    obtain ⟨hcode, hoctet⟩ := ofNat_octet hlt
    exact ⟨by rw [hcode]; exact hlt, by rw [hoctet, ho]⟩
  simp [hexNumber?, hdigit hk, hdigit hl, hdigit hm, hdigit hn]

theorem escape?_short {mark value : UInt8} (h : Literal.shortEscape? mark = some value)
    (rest : List Char) :
    escape? (Char.ofNat mark.toNat :: rest) = some (Char.ofNat value.toNat, 1) := by
  rcases shortEscape?_cases h with ⟨rfl, rfl⟩ | ⟨rfl, rfl⟩ | ⟨rfl, rfl⟩ | ⟨rfl, rfl⟩ |
    ⟨rfl, rfl⟩ | ⟨rfl, rfl⟩ | ⟨rfl, rfl⟩ | ⟨rfl, rfl⟩ <;> rfl

theorem escape?_code {a b c d : UInt8} {unit : Nat} (h : fourDigits? a b c d = some unit)
    (rest : List Char) :
    escape? ('u' :: ([a, b, c, d].map fun o => Char.ofNat o.toNat) ++ rest) =
      if isHighSurrogate unit || isLowSurrogate unit then none
      else some (Char.ofNat unit, 5) := by
  have hvalid : unit.isValidChar ↔ ¬ (isHighSurrogate unit || isLowSurrogate unit) = true := by
    obtain ⟨k, l, m, n, hk, hl, hm, hn, rfl⟩ := exists_of_fourDigits? h
    have hbounds := And.intro (lt_of_hexValue? hk).2 (And.intro (lt_of_hexValue? hl).2
      (And.intro (lt_of_hexValue? hm).2 (lt_of_hexValue? hn).2))
    simp only [Nat.isValidChar, isHighSurrogate, isLowSurrogate, Bool.or_eq_true,
      Bool.and_eq_true, decide_eq_true_eq]
    omega
  have hnumber := hexNumber?_four h
  have hshort : shortEscape? 'u' = none := rfl
  have hwidth : escapeWidth? 'u' = some 4 := rfl
  have htake : (([a, b, c, d].map fun o => Char.ofNat o.toNat) ++ rest).take 4 =
      [a, b, c, d].map fun o => Char.ofNat o.toNat := rfl
  have hlength : ¬ (([a, b, c, d].map fun o => Char.ofNat o.toNat) ++ rest).length < 4 := by
    simp
  rw [List.cons_append, escape?]
  simp only [hshort, hwidth, htake, hnumber, if_neg hlength, Option.bind_eq_bind, Option.bind_some]
  by_cases hsurrogate : (isHighSurrogate unit || isLowSurrogate unit) = true
  · rw [if_pos hsurrogate, if_neg fun h => hvalid.mp h hsurrogate]
  · rw [if_neg hsurrogate, if_pos (hvalid.mpr hsurrogate)]

/-! ### Quoted scalars -/

private theorem quotedTail?_char {x : Char} (hrest : c.rest = x :: tail) (hcolumn : 0 < c.column)
    (hx : isWhite x = false ∧ x ≠ '"' ∧ x ≠ '\\') :
    quotedTail? true (fuel + 1) c =
      (quotedTail? true fuel c.next).map fun (text, d) => (x :: text, d) := by
  obtain ⟨hwhite, hquote, hbackslash⟩ := hx
  simp [quotedTail?, Cursor.isAtDocumentMark_of_column hcolumn, Cursor.char?, hrest, hwhite, hquote,
    hbackslash]

private theorem quotedTail?_escape {y : Char} (hrest : c.rest = '\\' :: y :: tail)
    (hcolumn : 0 < c.column) (hy : isBreak y = false) :
    quotedTail? true (fuel + 1) c = (escape? (y :: tail)).bind fun (z, n) =>
      (quotedTail? true fuel (c.skip (n + 1))).map fun (text, d) => (z :: text, d) := by
  have hchar : c.char? = some '\\' := by rw [Cursor.char?, hrest]; rfl
  have hsecond : c.charAt? 1 = some y := by rw [Cursor.charAt?, hrest]; rfl
  have hnext : c.next.rest = y :: tail := by rw [Cursor.rest_next, hrest]; rfl
  have hwhite : isWhite '\\' = false := rfl
  have hquote : (true && '\\' == '"') = false := rfl
  have hstart : (true && '\\' == '\\') = true := rfl
  simp only [quotedTail?, Cursor.isAtDocumentMark_of_column hcolumn, hchar, hsecond, hnext,
    endsWord_some, hwhite, hquote, hstart, hy, Option.any_some, Bool.not_true, Bool.false_and,
    Bool.false_eq_true, if_false, if_true, Option.bind_eq_bind, Option.map_eq_bind]
  rfl

private theorem quotedTail?_blanks {blanks : List Char} {y : Char}
    (hrest : c.rest = blanks ++ y :: tail) (hcolumn : 0 < c.column) (hne : blanks ≠ [])
    (hblanks : ∀ x ∈ blanks, isBlank x = true) (hy : isWhite y = false) :
    quotedTail? true (fuel + 1) c =
      (quotedTail? true fuel (c.skip blanks.length)).map fun (text, d) => (blanks ++ text, d) := by
  have hspan := Cursor.span_append hrest hblanks fun x hx => by
    obtain rfl : y = x := by simpa using hx
    exact isBlank_eq_false hy
  have hd : (c.skip blanks.length).rest = y :: tail := Cursor.rest_skip_append hrest
  have hbreaks : ∀ n, breaks? 0 n (c.skip blanks.length) = some ([], c.skip blanks.length) := by
    intro n
    cases n with
    | zero => rfl
    | succ n => simp only [breaks?, Cursor.char?, hd, List.head?_cons, isBreak_eq_false hy]; rfl
  rcases blanks with _ | ⟨x, blanks⟩
  · contradiction
  have hx : isWhite x = true := isWhite_of_isBlank (hblanks x (by simp))
  have hchar : c.char? = some x := by rw [Cursor.char?, hrest]; rfl
  simp only [quotedTail?, Cursor.isAtDocumentMark_of_column hcolumn, hchar, endsWord_some, hx,
    hspan, hbreaks, if_true, Bool.false_eq_true, if_false, Option.bind_eq_bind, Option.bind_some,
    Option.map_eq_bind]
  rfl

/-- Whether a piece is a space. -/
private def isSpace (p : Piece) : Bool := p.chars == [' ']

private theorem isSpace_iff {p : Piece} : isSpace p = true ↔ p.chars = [' '] := beq_iff_eq

private theorem value_of_isSpace {p : Piece} (h : isSpace p = true) : [p.value] = p.chars := by
  cases p with
  | plain c isInside => rfl
  | short mark value stands => simp [isSpace_iff, Piece.chars] at h
  | code a b c d unit spells => simp [isSpace_iff, Piece.chars] at h

private theorem isSurrogate_of_isSpace {p : Piece} (h : isSpace p = true) :
    p.isSurrogate = false := by
  cases p with
  | plain c isInside => rfl
  | short mark value stands => rfl
  | code a b c d unit spells => simp [isSpace_iff, Piece.chars] at h

/-- Spaces in front of pieces are what they stand for. -/
private theorem spaces_eq {ps : List Piece} (h : ∀ p ∈ ps, isSpace p = true) :
    ps.map Piece.value = ps.flatMap Piece.chars ∧ ps.any Piece.isSurrogate = false ∧
      ∀ x ∈ ps.flatMap Piece.chars, isBlank x = true := by
  induction ps with
  | nil => simp
  | cons p rest ih =>
    obtain ⟨hp, hrest⟩ := List.forall_mem_cons.mp h
    obtain ⟨hvalues, hsurrogates, hblanks⟩ := ih hrest
    refine ⟨?_, ?_, ?_⟩
    · rw [List.map_cons, List.flatMap_cons, ← value_of_isSpace hp, hvalues]
      rfl
    · rw [List.any_cons, isSurrogate_of_isSpace hp, hsurrogates]
      rfl
    · intro x hx
      rw [List.flatMap_cons, List.mem_append, isSpace_iff.mp hp, List.mem_singleton] at hx
      rcases hx with rfl | hx
      · rfl
      · exact hblanks x hx

private theorem exists_head_of_not_isSpace {p : Piece} (hp : isSpace p = false)
    (hline : ∀ x ∈ p.chars, isBreak x = false) :
    ∃ x more, p.chars = x :: more ∧ isWhite x = false := by
  cases p with
  | plain x isInside =>
    have hspace : x ≠ ' ' := by
      rintro rfl
      simp [isSpace, Piece.chars] at hp
    have htab : x ≠ '\t' := by
      rintro rfl
      exact absurd isInside.2.2 (by decide)
    refine ⟨x, [], rfl, ?_⟩
    simp [isWhite, isBlank, hspace, htab, hline x (by simp [Piece.chars])]
  | short mark value stands => exact ⟨_, _, rfl, rfl⟩
  | code a b c d unit spells => exact ⟨_, _, rfl, rfl⟩

/-- A piece that is no space is read by itself. -/
private theorem quotedTail?_piece {p : Piece} (hp : isSpace p = false)
    (hrest : c.rest = p.chars ++ tail) (hcolumn : 0 < c.column)
    (hline : ∀ x ∈ p.chars, isBreak x = false) :
    quotedTail? true (fuel + 1) c =
      if p.isSurrogate then none
      else (quotedTail? true fuel (c.skip p.chars.length)).map fun (text, d) =>
        (p.value :: text, d) := by
  cases p with
  | plain x isInside =>
    obtain ⟨y, more, hchars, hwhite⟩ := exists_head_of_not_isSpace hp hline
    obtain ⟨rfl, -⟩ : x = y ∧ [] = more := by simpa [Piece.chars] using hchars
    exact quotedTail?_char hrest hcolumn ⟨hwhite, isInside.1, isInside.2.1⟩
  | short mark value stands =>
    have hrest : c.rest = '\\' :: Char.ofNat mark.toNat :: tail := hrest
    rw [quotedTail?_escape hrest hcolumn (hline _ (by simp [Piece.chars])), escape?_short stands,
      Option.bind_some]
    rfl
  | code a b d e unit spells =>
    have hrest : c.rest =
        '\\' :: 'u' :: (([a, b, d, e].map fun o => Char.ofNat o.toNat) ++ tail) := hrest
    have hu : isBreak 'u' = false := rfl
    rw [quotedTail?_escape hrest hcolumn hu, ← List.cons_append, escape?_code spells,
      Piece.isSurrogate]
    split
    · rfl
    · rfl

/-- Behind spaces stands a character that is no white space. -/
private theorem exists_char_behind_spaces {ps : List Piece}
    (hfirst : ∀ p ∈ ps.head?, isSpace p = false)
    (hline : ∀ x ∈ ps.flatMap Piece.chars, isBreak x = false) (tail : List Char) :
    ∃ y more, ps.flatMap Piece.chars ++ '"' :: tail = y :: more ∧ isWhite y = false := by
  rcases ps with _ | ⟨p, rest⟩
  · exact ⟨'"', tail, rfl, rfl⟩
  rw [List.flatMap_cons, List.forall_mem_append] at hline
  obtain ⟨y, more, hchars, hwhite⟩ := exists_head_of_not_isSpace (hfirst p rfl) hline.1
  exact ⟨y, _, by rw [List.flatMap_cons, hchars]; rfl, hwhite⟩

/-- Spaces in front of other pieces are read at once. -/
private theorem quotedTail?_spaces {front later : List Piece} (hne : front ≠ [])
    (hfront : ∀ p ∈ front, isSpace p = true) (hfirst : ∀ p ∈ later.head?, isSpace p = false)
    (hrest : c.rest = front.flatMap Piece.chars ++ (later.flatMap Piece.chars ++ '"' :: tail))
    (hcolumn : 0 < c.column) (hline : ∀ x ∈ later.flatMap Piece.chars, isBreak x = false) :
    quotedTail? true (fuel + 1) c =
      (quotedTail? true fuel (c.skip (front.flatMap Piece.chars).length)).map fun (text, d) =>
        (front.map Piece.value ++ text, d) := by
  obtain ⟨hvalues, -, hblanks⟩ := spaces_eq hfront
  obtain ⟨y, more, htail, hy⟩ := exists_char_behind_spaces hfirst hline tail
  have hchars : front.flatMap Piece.chars ≠ [] := by
    obtain ⟨p, rest, rfl⟩ := List.exists_cons_of_ne_nil hne
    have hpositive := p.length_chars_pos
    rw [List.flatMap_cons, ← List.length_pos_iff, List.length_append]
    omega
  rw [htail] at hrest
  rw [quotedTail?_blanks hrest hcolumn hchars hblanks hy, hvalues]

/-- One step reads one or more pieces: one that is no space, or all spaces in front of others. -/
private theorem exists_front {ps : List Piece} (hne : ps ≠ [])
    (hrest : c.rest = ps.flatMap Piece.chars ++ '"' :: tail) (hcolumn : 0 < c.column)
    (hline : ∀ x ∈ ps.flatMap Piece.chars, isBreak x = false) (fuel : Nat) :
    ∃ front later, ps = front ++ later ∧ front ≠ [] ∧
      quotedTail? true (fuel + 1) c =
        if front.any Piece.isSurrogate then none
        else (quotedTail? true fuel (c.skip (front.flatMap Piece.chars).length)).map
          fun (text, d) => (front.map Piece.value ++ text, d) := by
  obtain ⟨p, rest, rfl⟩ := List.exists_cons_of_ne_nil hne
  cases hp : isSpace p with
  | false =>
    rw [List.flatMap_cons, List.append_assoc] at hrest
    rw [List.flatMap_cons, List.forall_mem_append] at hline
    refine ⟨[p], rest, rfl, by simp, ?_⟩
    simpa using quotedTail?_piece hp hrest hcolumn hline.1
  | true =>
    have hsplit := List.takeWhile_append_dropWhile (p := isSpace) (l := p :: rest)
    have hfront : ∀ q ∈ (p :: rest).takeWhile isSpace, isSpace q = true := fun q hq =>
      List.mem_takeWhile_imp hq
    have hfirst : ∀ q ∈ ((p :: rest).dropWhile isSpace).head?, isSpace q = false := by
      intro q hq
      have hstop := List.head?_dropWhile_not isSpace (p :: rest)
      rw [Option.mem_def.mp hq] at hstop
      exact hstop
    have hsome : (p :: rest).takeWhile isSpace ≠ [] := by simp [hp]
    rw [← hsplit, List.flatMap_append, List.append_assoc] at hrest
    rw [← hsplit, List.flatMap_append, List.forall_mem_append] at hline
    refine ⟨_, _, hsplit.symm, hsome, ?_⟩
    rw [(spaces_eq hfront).2.1, if_neg Bool.false_ne_true]
    exact quotedTail?_spaces hsome hfront hfirst hrest hcolumn hline.2

/-- What the pieces of a string and a closing quote behind them are read as. -/
theorem quotedTail?_pieces (ps : List Piece)
    (hrest : c.rest = ps.flatMap Piece.chars ++ '"' :: tail) (hcolumn : 0 < c.column)
    (hline : ∀ x ∈ ps.flatMap Piece.chars, isBreak x = false)
    (hfuel : (ps.flatMap Piece.chars).length < fuel) :
    quotedTail? true fuel c =
      if ps.any Piece.isSurrogate then none
      else some (ps.map Piece.value, c.skip ((ps.flatMap Piece.chars).length + 1)) := by
  induction hlength : ps.length using Nat.strongRecOn generalizing ps c fuel with
  | ind n ih =>
    rcases fuel with _ | fuel
    · contradiction
    by_cases hempty : ps = []
    · subst hempty
      have hchar : c.char? = some '"' := by rw [Cursor.char?, hrest]; rfl
      have hwhite : isWhite '"' = false := rfl
      simp [quotedTail?, Cursor.isAtDocumentMark_of_column hcolumn, hchar, hwhite,
        Cursor.next_eq_skip]
    obtain ⟨front, later, rfl, hne, hstep⟩ := exists_front hempty hrest hcolumn hline fuel
    obtain ⟨p, front, rfl⟩ := List.exists_cons_of_ne_nil hne
    rw [List.flatMap_append, List.append_assoc] at hrest
    rw [List.flatMap_append, List.forall_mem_append] at hline
    rw [List.flatMap_append, List.length_append] at hfuel
    have hpositive : 0 < ((p :: front).flatMap Piece.chars).length := by
      have hchars := p.length_chars_pos
      rw [List.flatMap_cons, List.length_append]
      omega
    have hafter := Cursor.skip_of_line hrest hline.1
    have hlater : 0 < (c.skip ((p :: front).flatMap Piece.chars).length).column := by
      rw [hafter]
      exact Nat.add_pos_left hcolumn _
    have hshorter : later.length < n := by
      rw [← hlength, List.length_append, List.length_cons]
      omega
    have hspare : (later.flatMap Piece.chars).length < fuel := by omega
    have hread := ih later.length hshorter later (Cursor.rest_skip_append hrest) hlater hline.2
      hspare rfl
    rw [hstep, hread, ← Cursor.skip_add, List.any_append, List.map_append, List.flatMap_append,
      List.length_append, Nat.add_assoc]
    cases (p :: front).any Piece.isSurrogate with
    | true => rfl
    | false => cases later.any Piece.isSurrogate <;> rfl

/-- What the pieces of a string between quotes are read as. -/
theorem quoted?_pieces {ps : List Piece}
    (hrest : c.rest = '"' :: (ps.flatMap Piece.chars ++ '"' :: tail))
    (hline : ∀ x ∈ ps.flatMap Piece.chars, isBreak x = false) :
    quoted? true c =
      if ps.any Piece.isSurrogate then none
      else some (ps.map Piece.value, c.skip ((ps.flatMap Piece.chars).length + 2)) := by
  have hnext : c.next = ⟨ps.flatMap Piece.chars ++ '"' :: tail, c.line, c.column + 1⟩ :=
    Cursor.next_of_line hrest rfl
  have hinside : 0 < c.next.column := by
    rw [hnext]
    exact Nat.succ_pos _
  have hfuel : (ps.flatMap Piece.chars).length < c.rest.length := by
    rw [hrest]
    simp only [List.length_cons, List.length_append]
    omega
  rw [quoted?, quotedTail?_pieces ps (by rw [hnext]) hinside hline hfuel, Cursor.next_eq_skip,
    ← Cursor.skip_add]
  congr 4
  omega

/-! ### Plain scalars -/

/-- Whether a character is one of a word that neither marks nor white space interrupt. -/
def isWordChar (c : Char) : Bool := !isWhite c && c != ':' && !isFlowMark c

theorem isFlowMark_cases {m : Char} (h : isFlowMark m = true) :
    m = ',' ∨ m = '[' ∨ m = ']' ∨ m = '{' ∨ m = '}' := by
  simpa [isFlowMark, or_assoc] using h

/-- A word between brackets ends before white space and before a mark. -/
theorem word?_append {word : List Char} (hword : ∀ x ∈ word, isWordChar x = true)
    (htail : ∀ x ∈ tail.head?, isWhite x = true ∨ isFlowMark x = true) :
    word? true (word ++ tail) = some word := by
  induction word with
  | nil =>
    rcases tail with _ | ⟨x, tail⟩
    · rfl
    rcases htail x rfl with hx | hx
    · simp [word?, hx]
    · rcases isFlowMark_cases hx with rfl | rfl | rfl | rfl | rfl <;>
        simp [word?, isFlowMark]
  | cons x word ih =>
    obtain ⟨hx, hrest⟩ := List.forall_mem_cons.mp hword
    simp only [isWordChar, Bool.and_eq_true, Bool.not_eq_true', bne_iff_ne] at hx
    obtain ⟨⟨hwhite, hcolon⟩, hmark⟩ := hx
    simp [word?, hwhite, hcolon, hmark, ih hrest]

/-- Blanks are passed over up to a break or what stands behind white space. -/
private theorem span_blanks {blanks later : List Char}
    (hrest : c.rest = blanks ++ (later ++ tail)) (hblanks : ∀ x ∈ blanks, isBlank x = true)
    (hlater : ∀ x ∈ later.head?, isBreak x = true) (htail : ∀ x ∈ tail.head?, isWhite x = false) :
    c.span isBlank = (blanks, c.skip blanks.length) := by
  refine Cursor.span_append hrest hblanks fun x hx => ?_
  rcases later with _ | ⟨y, later⟩
  · exact isBlank_eq_false (htail x hx)
  · obtain rfl : y = x := by simpa using hx
    rw [Bool.eq_false_iff]
    intro hblank
    have hbreak := hlater y rfl
    rw [not_isBreak_of_isBlank hblank] at hbreak
    contradiction

/-- White space that begins with a break is passed over. -/
private theorem breaks?_white (n : Nat) {white : List Char} (hrest : c.rest = white ++ tail)
    (hwhite : ∀ x ∈ white, isWhite x = true) (hfirst : ∀ x ∈ white.head?, isBreak x = true)
    (htail : ∀ x ∈ tail.head?, isWhite x = false) (hn : white.length ≤ n) :
    ∃ breaks, breaks? 0 n c = some (breaks, c.skip white.length) ∧
      (breaks.isEmpty = white.isEmpty) := by
  induction n generalizing white c with
  | zero =>
    obtain rfl : white = [] := List.eq_nil_of_length_eq_zero (Nat.le_zero.mp hn)
    exact ⟨[], rfl, rfl⟩
  | succ n ih =>
    rcases white with _ | ⟨x, white⟩
    · refine ⟨[], ?_, rfl⟩
      cases tail with
      | nil => simp [breaks?, Cursor.char?, hrest, Cursor.skip]
      | cons y tail =>
        have hy := isBreak_eq_false (htail y rfl)
        simp [breaks?, Cursor.char?, hrest, Cursor.skip, hy]
    have hx : isBreak x = true := hfirst x rfl
    obtain ⟨-, hwhite⟩ := List.forall_mem_cons.mp hwhite
    obtain ⟨blanks, later, rfl, hblanks, hlater⟩ := exists_blanks_append hwhite
    have hnext : c.next.rest = blanks ++ (later ++ tail) := by
      rw [Cursor.rest_next, hrest, ← List.append_assoc]
      rfl
    have hspan := span_blanks hnext hblanks hlater htail
    obtain ⟨breaks, hbreaks, -⟩ := ih (c := c.next.skip blanks.length)
      (Cursor.rest_skip_append hnext) (fun y hy => hwhite y (List.mem_append_right blanks hy)) hlater
      (by rw [List.length_cons, List.length_append] at hn; omega)
    have hchar : c.char? = some x := by rw [Cursor.char?, hrest]; rfl
    refine ⟨x :: breaks, ?_, rfl⟩
    simp only [breaks?, hchar, hx, if_true, hspan, List.take_zero, List.contains_nil,
      Bool.false_eq_true, if_false, hbreaks, Option.map_some, Option.some.injEq, Prod.mk.injEq,
      true_and]
    rw [Cursor.next_eq_skip, ← Cursor.skip_add, ← Cursor.skip_add, List.length_cons,
      List.length_append]
    congr 1
    omega

private theorem isWhite_of_isFlowMark {m : Char} (h : isFlowMark m = true) : isWhite m = false := by
  rcases isFlowMark_cases h with rfl | rfl | rfl | rfl | rfl <;> rfl

/-- At a mark between brackets no word stands and no document ends. -/
private theorem stops_at_mark {m : Char} (hm : isFlowMark m = true) (hrest : c.rest = m :: tail) :
    c.isAtDocumentMark = false ∧ word? true c.rest = some [] := by
  have hunmarked : Cursor.IsUnmarked c.rest := by
    intro x hx
    obtain rfl : m = x := by simpa [hrest] using hx
    rcases isFlowMark_cases hm with rfl | rfl | rfl | rfl | rfl <;> simp
  refine ⟨Cursor.isAtDocumentMark_of_isUnmarked hunmarked, ?_⟩
  rw [hrest, ← List.nil_append (m :: tail)]
  refine word?_append (by simp) fun x hx => ?_
  obtain rfl : m = x := by simpa using hx
  exact .inr hm

/-- Between a word and a mark only white space is passed. -/
private theorem plainTail?_white {white : List Char} {m : Char} (hrest : c.rest = white ++ m :: tail)
    (hwhite : ∀ x ∈ white, isWhite x = true) (hm : isFlowMark m = true) (fuel : Nat) :
    ∃ broken, plainTail? true 0 (fuel + 1) c = some ([], broken, c.skip white.length) := by
  have hstops : ∀ x ∈ (m :: tail).head?, isWhite x = false := by
    intro x hx
    obtain rfl : m = x := by simpa using hx
    exact isWhite_of_isFlowMark hm
  obtain ⟨blanks, later, rfl, hblanks, hlater⟩ := exists_blanks_append hwhite
  rw [List.append_assoc] at hrest
  have hspan := span_blanks hrest hblanks hlater hstops
  have hafter : (c.skip blanks.length).rest = later ++ m :: tail := Cursor.rest_skip_append hrest
  obtain ⟨breaks, hbreaks, hempty⟩ :=
    breaks?_white (c.skip blanks.length).rest.length hafter
      (fun x hx => hwhite x (List.mem_append_right blanks hx)) hlater hstops
      (by rw [hafter]; simp)
  obtain ⟨hunmarked, hstop⟩ := stops_at_mark hm (Cursor.rest_skip_append hafter)
  rw [List.length_append, Cursor.skip_add]
  simp only [plainTail?, hspan, hbreaks, hstop, hunmarked, Option.bind_eq_bind, Option.bind_some,
    Bool.not_true, Bool.false_and, Bool.or_false, List.isEmpty_nil, if_true, ite_self]
  by_cases hnone : (blanks.isEmpty && breaks.isEmpty) = true
  · rw [hempty, Bool.and_eq_true, List.isEmpty_iff, List.isEmpty_iff] at hnone
    obtain ⟨rfl, rfl⟩ := hnone
    refine ⟨false, ?_⟩
    simp [hempty, Cursor.skip]
  · refine ⟨!breaks.isEmpty, ?_⟩
    simp [hnone]

/-- A word between brackets is a plain scalar up to the next mark; it takes the white space before
that with it if there is any. -/
theorem plain?_append {word white : List Char} {m : Char}
    (hrest : c.rest = word ++ (white ++ m :: tail)) (hword : ∀ x ∈ word, isWordChar x = true)
    (hne : word ≠ []) (hwhite : ∀ x ∈ white, isWhite x = true) (hm : isFlowMark m = true) :
    ∃ broken, plain? true 0 c = some (word, broken, c.skip (word.length + white.length)) := by
  have hread : word? true c.rest = some word := by
    rw [hrest]
    refine word?_append hword fun x hx => ?_
    rcases white with _ | ⟨y, white⟩
    · obtain rfl : m = x := by simpa using hx
      exact .inr hm
    · obtain rfl : y = x := by simpa using hx
      exact .inl (hwhite y (by simp))
  obtain ⟨fuel, hfuel⟩ : ∃ fuel, c.rest.length = fuel + 1 := by
    refine Nat.exists_eq_succ_of_ne_zero fun hzero => hne ?_
    rw [hrest, List.length_append] at hzero
    exact List.eq_nil_of_length_eq_zero (by omega)
  obtain ⟨broken, htail⟩ := plainTail?_white (Cursor.rest_skip_append hrest) hwhite hm fuel
  refine ⟨broken, ?_⟩
  rw [plain?, hread, hfuel, Cursor.skip_add]
  simp only [Option.bind_eq_bind, Option.bind_some, htail, List.append_nil]

end SidecarAdmission.Yaml.Scan
