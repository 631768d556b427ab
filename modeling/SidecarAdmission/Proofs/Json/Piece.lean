import SidecarAdmission.Proofs.Json.Token

/-!
The pieces of a string literal: characters as they stand, escapes of one letter and escapes by four
digits. Any literal that can stand in a text is made of them, and where no piece is half of a
surrogate pair, each is a character of the text that the literal spells.
-/

set_option autoImplicit false
set_option relaxedAutoImplicit false

namespace SidecarAdmission.Json.Literal

open SidecarAdmission.Text Lexer

/-- A piece of a literal, which stands for one character or for half of a surrogate pair. -/
inductive Piece where
  | plain (c : Char) (isInside : c ≠ '"' ∧ c ≠ '\\' ∧ 0x20 ≤ c.toNat)
  | short (mark value : UInt8) (stands : shortEscape? mark = some value)
  | code (a b c d : UInt8) (unit : Nat) (spells : fourDigits? a b c d = some unit)

namespace Piece

/-- The characters that a piece is written with. -/
def chars : Piece → List Char
  | .plain c _ => [c]
  | .short mark _ _ => '\\' :: [mark].map fun o => Char.ofNat o.toNat
  | .code a b c d _ _ => '\\' :: 'u' :: [a, b, c, d].map fun o => Char.ofNat o.toNat

/-- The octets that a piece is written with. -/
def octets : Piece → Octets
  | .plain c _ => String.utf8EncodeChar c
  | .short mark _ _ => [0x5c, mark]
  | .code a b c d _ _ => [0x5c, 0x75, a, b, c, d]

/-- The character that a piece stands for, unless it is half of a surrogate pair. -/
def value : Piece → Char
  | .plain c _ => c
  | .short _ value _ => Char.ofNat value.toNat
  | .code _ _ _ _ unit _ => Char.ofNat unit

/-- Whether a piece is half of a surrogate pair. -/
def isSurrogate : Piece → Bool
  | .code _ _ _ _ unit _ => isHighSurrogate unit || isLowSurrogate unit
  | _ => false

end Piece

/-! ### Escapes -/

theorem shortEscape?_cases {mark value : UInt8} (h : shortEscape? mark = some value) :
    (mark = 0x22 ∧ value = 0x22) ∨ (mark = 0x5c ∧ value = 0x5c) ∨ (mark = 0x2f ∧ value = 0x2f) ∨
      (mark = 0x62 ∧ value = 0x08) ∨ (mark = 0x66 ∧ value = 0x0c) ∨ (mark = 0x6e ∧ value = 0x0a) ∨
      (mark = 0x72 ∧ value = 0x0d) ∨ (mark = 0x74 ∧ value = 0x09) := by
  unfold shortEscape? at h
  repeat' split at h
  all_goals simp_all

theorem lt_of_hexValue? {o : UInt8} {n : Nat} (h : hexValue? o = some n) : o < 0x80 ∧ n < 16 := by
  have table : ∀ k < 256, ∀ n, hexValue? (UInt8.ofNat k) = some n →
      UInt8.ofNat k < 0x80 ∧ n < 16 := by decide +kernel
  have hoctet : UInt8.ofNat o.toNat = o := UInt8.ofNat_toNat
  have hentry := table o.toNat (UInt8.toNat_lt o) n
  rw [hoctet] at hentry
  exact hentry h

theorem exists_of_fourDigits? {a b c d : UInt8} {unit : Nat}
    (h : fourDigits? a b c d = some unit) :
    ∃ k l m n, hexValue? a = some k ∧ hexValue? b = some l ∧ hexValue? c = some m ∧
      hexValue? d = some n ∧ unit = ((k * 16 + l) * 16 + m) * 16 + n := by
  simp only [fourDigits?, Option.bind_eq_bind, Option.bind_eq_some_iff, Option.some.injEq] at h
  obtain ⟨k, hk, l, hl, m, hm, n, hn, rfl⟩ := h
  exact ⟨k, l, m, n, hk, hl, hm, hn, rfl⟩

theorem Piece.flatMap_chars (p : Piece) : p.chars.flatMap String.utf8EncodeChar = p.octets := by
  cases p with
  | plain c isInside => simp [chars, octets]
  | short mark value stands =>
    have hmark : mark < 0x80 := by
      rcases shortEscape?_cases stands with ⟨rfl, -⟩ | ⟨rfl, -⟩ | ⟨rfl, -⟩ | ⟨rfl, -⟩ | ⟨rfl, -⟩ |
        ⟨rfl, -⟩ | ⟨rfl, -⟩ | ⟨rfl, -⟩ <;> decide
    rw [chars, List.flatMap_cons, flatMap_codes (List.forall_mem_singleton.mpr hmark)]
    rfl
  | code a b c d unit spells =>
    obtain ⟨k, l, m, n, hk, hl, hm, hn, -⟩ := exists_of_fourDigits? spells
    have hdigits : ∀ o ∈ [a, b, c, d], o < 0x80 := by
      simp [(lt_of_hexValue? hk).1, (lt_of_hexValue? hl).1, (lt_of_hexValue? hm).1,
        (lt_of_hexValue? hn).1]
    rw [chars, List.flatMap_cons, List.flatMap_cons, flatMap_codes hdigits]
    rfl

theorem Piece.length_chars_pos (p : Piece) : 0 < p.chars.length := by
  cases p <;> simp [chars]

theorem flatMap_pieces (ps : List Piece) :
    (ps.flatMap Piece.chars).flatMap String.utf8EncodeChar = ps.flatMap Piece.octets := by
  induction ps with
  | nil => rfl
  | cons p rest ih =>
    rw [List.flatMap_cons, List.flatMap_append, p.flatMap_chars, ih, List.flatMap_cons]

/-! ### The pieces of a literal -/

/-- Within an escape a literal goes on with an ASCII character. -/
private theorem exists_ascii_of_follow? {phase : StringPhase} (hphase : phase ≠ .plain)
    {cs : List Char} (h : phase.follow? (cs.flatMap String.utf8EncodeChar) = some .plain) :
    ∃ o next rest, cs = Char.ofNat o.toNat :: rest ∧ phase.next? o = some next ∧
      next.follow? (rest.flatMap String.utf8EncodeChar) = some .plain := by
  rcases cs with _ | ⟨c, rest⟩
  · exact absurd (Option.some.inj h) hphase
  rw [List.flatMap_cons] at h
  by_cases hc : c.toNat < 0x80
  · rw [utf8EncodeChar_of_lt hc, List.singleton_append, StringPhase.follow?] at h
    split at h
    next hend => exact absurd hend.1 hphase
    obtain ⟨next, hnext, hrest⟩ := Option.bind_eq_some_iff.mp h
    refine ⟨c.toNat.toUInt8, next, rest, ?_, hnext, hrest⟩
    have hcode : c.toNat.toUInt8.toNat = c.toNat := Nat.mod_eq_of_lt (by omega)
    rw [hcode, Char.ofNat_toNat]
  · obtain ⟨first, more, hoctets, hfirst, -⟩ := utf8EncodeChar_of_le (Nat.le_of_not_lt hc)
    have hwide : ¬ first < 0x80 := UInt8.not_lt.mpr (UInt8.le_trans (by decide) hfirst)
    have hnone : phase.next? first = none := by
      cases phase with
      | plain => contradiction
      | escape =>
        have hmark : first ≠ 0x75 := by
          rintro rfl
          exact hwide (by decide)
        have hshort : shortEscape? first = none := by
          cases hshort : shortEscape? first with
          | none => rfl
          | some value =>
            rcases shortEscape?_cases hshort with ⟨rfl, -⟩ | ⟨rfl, -⟩ | ⟨rfl, -⟩ | ⟨rfl, -⟩ |
              ⟨rfl, -⟩ | ⟨rfl, -⟩ | ⟨rfl, -⟩ | ⟨rfl, -⟩ <;> exact absurd (by decide) hwide
        simp [StringPhase.next?, hmark, hshort]
      | digits more =>
        have hhex : hexValue? first = none := by
          cases hhex : hexValue? first with
          | none => rfl
          | some n => exact absurd (lt_of_hexValue? hhex).1 hwide
        simp [StringPhase.next?, hhex]
    rw [hoctets, List.cons_append, StringPhase.follow?] at h
    split at h
    next => contradiction
    rw [hnone] at h
    contradiction

/-- A character that is not ASCII leaves a string where it was. -/
private theorem follow?_wide {os : Octets} (h : ∀ o ∈ os, 0x80 ≤ o) (rest : Octets) :
    StringPhase.follow? .plain (os ++ rest) = StringPhase.follow? .plain rest := by
  induction os with
  | nil => rfl
  | cons o os ih =>
    obtain ⟨ho, hos⟩ := List.forall_mem_cons.mp h
    have hne : ∀ k : UInt8, k < 0x80 → o ≠ k := by
      rintro k hk rfl
      exact absurd hk (UInt8.not_lt.mpr ho)
    have hcontrol : ¬ o < 0x20 :=
      fun hlt => absurd (UInt8.lt_trans hlt (by decide)) (UInt8.not_lt.mpr ho)
    rw [List.cons_append, StringPhase.follow?, if_neg fun hend => hne 0x22 (by decide) hend.2,
      StringPhase.next?.eq_def]
    simp only [hne 0x5c (by decide), hcontrol, if_false, Option.bind_some, ih hos]

private theorem exists_escape {cs : List Char}
    (h : StringPhase.escape.follow? (cs.flatMap String.utf8EncodeChar) = some .plain) :
    ∃ (p : Piece) (rest : List Char), '\\' :: cs = p.chars ++ rest ∧
      StringPhase.follow? .plain (rest.flatMap String.utf8EncodeChar) = some .plain := by
  obtain ⟨mark, next, rest, rfl, hnext, hrest⟩ := exists_ascii_of_follow? (by decide) h
  rw [StringPhase.next?] at hnext
  split at hnext
  next hcode =>
    have hdigit : ∀ {more : Nat} {next : StringPhase} {o : UInt8},
        (StringPhase.digits more).next? o = some next → ∃ n, hexValue? o = some n := by
      intro more next o ho
      rw [StringPhase.next?.eq_def] at ho
      dsimp only at ho
      split at ho
      next hhex => exact Option.isSome_iff_exists.mp hhex
      next => contradiction
    obtain rfl : StringPhase.digits 3 = next := Option.some.inj hnext
    obtain ⟨a, next, rest, rfl, ha, hrest⟩ := exists_ascii_of_follow? (by simp) hrest
    obtain ⟨k, hk⟩ := hdigit ha
    obtain rfl : StringPhase.digits 2 = next := by simpa [StringPhase.next?, hk] using ha
    obtain ⟨b, next, rest, rfl, hb, hrest⟩ := exists_ascii_of_follow? (by simp) hrest
    obtain ⟨l, hl⟩ := hdigit hb
    obtain rfl : StringPhase.digits 1 = next := by simpa [StringPhase.next?, hl] using hb
    obtain ⟨c, next, rest, rfl, hc, hrest⟩ := exists_ascii_of_follow? (by simp) hrest
    obtain ⟨m, hm⟩ := hdigit hc
    obtain rfl : StringPhase.digits 0 = next := by simpa [StringPhase.next?, hm] using hc
    obtain ⟨d, next, rest, rfl, hd, hrest⟩ := exists_ascii_of_follow? (by simp) hrest
    obtain ⟨n, hn⟩ := hdigit hd
    obtain rfl : StringPhase.plain = next := by simpa [StringPhase.next?, hn] using hd
    have hspells : fourDigits? a b c d = some (((k * 16 + l) * 16 + m) * 16 + n) := by
      simp [fourDigits?, hk, hl, hm, hn]
    refine ⟨.code a b c d _ hspells, rest, ?_, hrest⟩
    rw [hcode]
    rfl
  next =>
    split at hnext
    next hshort =>
      obtain ⟨value, hvalue⟩ := Option.isSome_iff_exists.mp hshort
      obtain rfl : StringPhase.plain = next := Option.some.inj hnext
      exact ⟨.short mark value hvalue, rest, rfl, hrest⟩
    next => contradiction

private theorem exists_piece {c : Char} {cs : List Char}
    (h : StringPhase.follow? .plain ((c :: cs).flatMap String.utf8EncodeChar) = some .plain) :
    ∃ (p : Piece) (rest : List Char), c :: cs = p.chars ++ rest ∧
      StringPhase.follow? .plain (rest.flatMap String.utf8EncodeChar) = some .plain := by
  rw [List.flatMap_cons] at h
  by_cases hc : c.toNat < 0x80
  · have hcode : c.toNat.toUInt8.toNat = c.toNat := Nat.mod_eq_of_lt (by omega)
    have hchar : Char.ofNat c.toNat.toUInt8.toNat = c := by rw [hcode, Char.ofNat_toNat]
    rw [utf8EncodeChar_of_lt hc, List.singleton_append, StringPhase.follow?] at h
    split at h
    next => contradiction
    next hinside =>
      obtain ⟨next, hnext, hrest⟩ := Option.bind_eq_some_iff.mp h
      rw [StringPhase.next?] at hnext
      split at hnext
      next hescape =>
        obtain rfl : StringPhase.escape = next := Option.some.inj hnext
        obtain rfl : '\\' = c := by
          rw [← hchar, hescape]
          rfl
        exact exists_escape hrest
      next hescape =>
        split at hnext
        next => contradiction
        next hcontrol =>
          obtain rfl : StringPhase.plain = next := Option.some.inj hnext
          refine ⟨.plain c ⟨?_, ?_, ?_⟩, cs, rfl, hrest⟩
          · rintro rfl
            exact hinside ⟨rfl, rfl⟩
          · rintro rfl
            exact hescape rfl
          · rw [UInt8.not_lt, UInt8.le_iff_toNat_le, hcode] at hcontrol
            exact hcontrol
  · have hle := Nat.le_of_not_lt hc
    rw [follow?_wide fun o ho => le_of_mem_utf8EncodeChar hle ho] at h
    refine ⟨.plain c ⟨?_, ?_, by omega⟩, cs, rfl, h⟩
    · rintro rfl
      exact hc (by decide)
    · rintro rfl
      exact hc (by decide)

/-- A literal that can stand in a text is made of pieces. -/
theorem exists_pieces (cs : List Char)
    (h : StringPhase.follow? .plain (cs.flatMap String.utf8EncodeChar) = some .plain) :
    ∃ ps : List Piece, cs = ps.flatMap Piece.chars := by
  induction hlength : cs.length using Nat.strongRecOn generalizing cs with
  | ind n ih =>
    rcases cs with _ | ⟨c, cs⟩
    · exact ⟨[], rfl⟩
    obtain ⟨p, rest, heq, hrest⟩ := exists_piece h
    have hpositive := p.length_chars_pos
    have hshorter : rest.length < n := by
      rw [← hlength, heq, List.length_append]
      omega
    obtain ⟨ps, rfl⟩ := ih rest.length hshorter rest hrest rfl
    exact ⟨p :: ps, heq⟩

/-! ### Surrogates -/

/-- Whether an escape in the body of a literal is half of a surrogate pair. -/
def hasSurrogate : Octets → Bool
  | [] => false
  | 0x5c :: 0x75 :: a :: b :: c :: d :: rest =>
    (fourDigits? a b c d).any (fun n => isHighSurrogate n || isLowSurrogate n) || hasSurrogate rest
  | 0x5c :: _ :: rest => hasSurrogate rest
  | _ :: rest => hasSurrogate rest

private theorem hasSurrogate_cons {o : UInt8} (h : o ≠ 0x5c) (rest : Octets) :
    hasSurrogate (o :: rest) = hasSurrogate rest := by
  rw [hasSurrogate.eq_def]
  split <;> simp_all

private theorem hasSurrogate_append {os : Octets} (h : ∀ o ∈ os, o ≠ 0x5c) (rest : Octets) :
    hasSurrogate (os ++ rest) = hasSurrogate rest := by
  induction os with
  | nil => rfl
  | cons o os ih =>
    obtain ⟨ho, hos⟩ := List.forall_mem_cons.mp h
    rw [List.cons_append, hasSurrogate_cons ho, ih hos]

/-- A character that is not escaped has no octet of a backslash. -/
private theorem ne_backslash {c : Char} (h : c ≠ '\\') : ∀ o ∈ String.utf8EncodeChar c, o ≠ 0x5c := by
  intro o ho
  by_cases hc : c.toNat < 0x80
  · rw [utf8EncodeChar_of_lt hc, List.mem_singleton] at ho
    rintro rfl
    have hcode : c.toNat.toUInt8.toNat = c.toNat := Nat.mod_eq_of_lt (by omega)
    refine h ?_
    rw [← Char.ofNat_toNat c, ← hcode, ← ho]
    rfl
  · rintro rfl
    exact absurd (le_of_mem_utf8EncodeChar (Nat.le_of_not_lt hc) ho) (by decide)

theorem hasSurrogate_piece (p : Piece) (rest : Octets) :
    hasSurrogate (p.octets ++ rest) = (p.isSurrogate || hasSurrogate rest) := by
  cases p with
  | plain c isInside => exact hasSurrogate_append (ne_backslash isInside.2.1) rest
  | short mark value stands =>
    rcases shortEscape?_cases stands with ⟨rfl, -⟩ | ⟨rfl, -⟩ | ⟨rfl, -⟩ | ⟨rfl, -⟩ | ⟨rfl, -⟩ |
      ⟨rfl, -⟩ | ⟨rfl, -⟩ | ⟨rfl, -⟩ <;> rfl
  | code a b c d unit spells => simp [Piece.octets, hasSurrogate, spells, Piece.isSurrogate]

theorem hasSurrogate_pieces (ps : List Piece) :
    hasSurrogate (ps.flatMap Piece.octets) = ps.any Piece.isSurrogate := by
  induction ps with
  | nil => rfl
  | cons p rest ih => rw [List.flatMap_cons, hasSurrogate_piece, ih, List.any_cons]

/-! ### The text of a literal -/

private theorem unescapeOnto_append {os : Octets} (h : ∀ o ∈ os, o ≠ 0x5c) (done rest : Octets) :
    unescapeOnto done (os ++ rest) = unescapeOnto (os.reverse ++ done) rest := by
  induction os generalizing done with
  | nil => rfl
  | cons o os ih =>
    obtain ⟨ho, hos⟩ := List.forall_mem_cons.mp h
    rw [List.cons_append, unescapeOnto_plain done _ ho, ih hos, List.reverse_cons,
      List.append_assoc, List.singleton_append]

theorem unescapeOnto_piece {p : Piece} (h : p.isSurrogate = false) (done rest : Octets) :
    unescapeOnto done (p.octets ++ rest) =
      unescapeOnto ((String.utf8EncodeChar p.value).reverse ++ done) rest := by
  cases p with
  | plain c isInside => exact unescapeOnto_append (ne_backslash isInside.2.1) done rest
  | short mark value stands =>
    rcases shortEscape?_cases stands with ⟨rfl, rfl⟩ | ⟨rfl, rfl⟩ | ⟨rfl, rfl⟩ | ⟨rfl, rfl⟩ |
      ⟨rfl, rfl⟩ | ⟨rfl, rfl⟩ | ⟨rfl, rfl⟩ | ⟨rfl, rfl⟩ <;> rfl
  | code a b c d unit spells =>
    obtain ⟨hhigh, hlow⟩ := Bool.or_eq_false_iff.mp h
    simp [Piece.octets, unescapeOnto, spells, hhigh, hlow, encodeCode, Piece.value]

theorem unescapeOnto_pieces {ps : List Piece} (h : ∀ p ∈ ps, p.isSurrogate = false)
    (done : Octets) : unescapeOnto done (ps.flatMap Piece.octets) =
      some (done.reverse ++ (ps.map Piece.value).flatMap String.utf8EncodeChar) := by
  induction ps generalizing done with
  | nil => simp [unescapeOnto]
  | cons p rest ih =>
    obtain ⟨hp, hrest⟩ := List.forall_mem_cons.mp h
    rw [List.flatMap_cons, unescapeOnto_piece hp, ih hrest]
    simp

/-- Without surrogates a literal spells the characters that its pieces stand for. -/
theorem text?_pieces {ps : List Piece} (h : ∀ p ∈ ps, p.isSurrogate = false) :
    (Literal.mk (ps.flatMap Piece.octets)).text? = some (String.ofList (ps.map Piece.value)) := by
  rw [text?, unescapeOnto_pieces h, Option.bind_some, List.reverse_nil, List.nil_append,
    ← octets_ofList, ofOctets?_octets]

end SidecarAdmission.Json.Literal
