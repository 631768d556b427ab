import SidecarAdmission.Proofs.Json.Piece

/-!
The characters of a text that is cut into lexemes. Every lexeme ends where a character ends, so a
text is put together from the characters of its lexemes, and each string between quotes is made of
pieces.
-/

set_option autoImplicit false
set_option relaxedAutoImplicit false

namespace SidecarAdmission.Json

open SidecarAdmission.Text Lexer

/-- The characters that a token is written with. -/
def Token.chars (t : Token) : List Char := Text.chars t.spell

/-- The characters of the white space before a token. -/
def Lexeme.space (l : Lexeme) : List Char := Text.chars l.blank

/-- Whether a token is well spelled and its octets are those of a text. -/
structure Token.IsText (t : Token) : Prop where
  wellSpelled : t.isWellSpelled = true
  encodes : t.chars.flatMap String.utf8EncodeChar = t.spell

/-- Whether a lexeme can stand in a text and its octets are those of a text. -/
structure Lexeme.IsText (l : Lexeme) : Prop where
  spaced : ∀ c ∈ l.blank, isBlank c = true
  token : l.token.IsText

/-! ### White space -/

theorem isBlank_cases {o : UInt8} (h : isBlank o = true) :
    o = 0x20 ∨ o = 0x0a ∨ o = 0x09 ∨ o = 0x0d := by
  simpa [isBlank, or_assoc] using h

theorem lt_of_isBlank {o : UInt8} (h : isBlank o = true) : o < 0x80 := by
  rcases isBlank_cases h with rfl | rfl | rfl | rfl <;> decide

theorem chars_blank {blank : Octets} (h : ∀ c ∈ blank, isBlank c = true) :
    Text.chars blank = blank.map fun c => Char.ofNat c.toNat :=
  chars_of_lt fun c hc => lt_of_isBlank (h c hc)

/-! ### Numbers and words -/

/-- Whether an octet can stand in a number. -/
def isNumberOctet (o : UInt8) : Bool :=
  Numeral.isDigit o || o == 0x2b || o == 0x2d || o == 0x2e || o == 0x45 || o == 0x65

theorem isNumberOctet_of_next? {phase next : NumberPhase} {o : UInt8}
    (h : phase.next? o = some next) : isNumberOctet o = true := by
  have hzero : isNumberOctet 0x30 = true := rfl
  cases phase <;> grind [NumberPhase.next?, isNumberOctet]

theorem isNumberOctet_of_follow? {phase last : NumberPhase} {os : Octets}
    (h : phase.follow? os = some last) : ∀ o ∈ os, isNumberOctet o = true := by
  induction os generalizing phase with
  | nil => simp
  | cons o rest ih =>
    obtain ⟨next, hnext, hrest⟩ := Option.bind_eq_some_iff.mp h
    exact List.forall_mem_cons.mpr ⟨isNumberOctet_of_next? hnext, ih hrest⟩

/-- A number begins with a digit, perhaps after a minus, and has no octets but those of numbers. -/
theorem Numeral.octets_of_isWellSpelled {n : Numeral} (h : n.isWellSpelled = true) :
    (∀ o ∈ n.spelling, isNumberOctet o = true) ∧
      ∃ first rest, n.spelling = first :: rest ∧
        (isDigit first = true ∨ first = 0x2d ∧ ∃ second more, rest = second :: more ∧
          isDigit second = true) := by
  obtain ⟨spelling⟩ := n
  obtain ⟨last, hlast, hfinal⟩ := (Option.any_eq_true _ _).mp h
  rcases spelling with _ | ⟨first, rest⟩
  · contradiction
  obtain ⟨phase, hphase, hrest⟩ := Option.bind_eq_some_iff.mp hlast
  have hall := isNumberOctet_of_follow? hrest
  unfold NumberPhase.first? at hphase
  split at hphase
  next hminus =>
    obtain rfl : NumberPhase.sign = phase := Option.some.inj hphase
    refine ⟨List.forall_mem_cons.mpr ⟨by rw [hminus]; rfl, hall⟩, first, rest, rfl,
      .inr ⟨hminus, ?_⟩⟩
    rcases rest with _ | ⟨second, more⟩
    · obtain rfl : NumberPhase.sign = last := Option.some.inj hrest
      exact absurd hfinal Bool.false_ne_true
    obtain ⟨next, hnext, -⟩ := Option.bind_eq_some_iff.mp hrest
    refine ⟨second, more, rfl, ?_⟩
    rw [NumberPhase.next?] at hnext
    split at hnext
    next hzero =>
      rw [hzero]
      rfl
    next =>
      split at hnext
      next hdigit => exact hdigit
      next => contradiction
  next =>
    have hdigit : isDigit first = true := by
      split at hphase
      next hzero =>
        rw [hzero]
        rfl
      next =>
        split at hphase
        next hdigit => exact hdigit
        next => contradiction
    refine ⟨List.forall_mem_cons.mpr ⟨?_, hall⟩, first, rest, rfl, .inl hdigit⟩
    simp [isNumberOctet, hdigit]

/-- The characters of a number are those of its octets. -/
theorem Token.chars_number {n : Numeral} (h : n.isWellSpelled = true) :
    Token.chars (.scalar (.number n)) = n.spelling.map fun o => Char.ofNat o.toNat := by
  refine chars_of_lt fun o ho => ?_
  have table : ∀ k < 256, isNumberOctet (UInt8.ofNat k) = true → UInt8.ofNat k < 0x80 := by
    decide +kernel
  have hentry := table o.toNat o.toNat_lt
  rw [UInt8.ofNat_toNat] at hentry
  exact hentry ((Numeral.octets_of_isWellSpelled h).1 o ho)

/-- The text that a value without parts is written as. -/
def Scalar.word (v : Scalar) : String := String.ofList (Token.chars (.scalar v))

/-! ### Control characters -/

theorem le_of_next? {phase next : StringPhase} {o : UInt8} (h : phase.next? o = some next) :
    0x20 ≤ o := by
  refine UInt8.not_lt.mp fun hlt => ?_
  have table : ∀ k < 0x20, hexValue? (UInt8.ofNat k) = none ∧
      Literal.shortEscape? (UInt8.ofNat k) = none ∧ UInt8.ofNat k ≠ 0x75 ∧
        UInt8.ofNat k ≠ 0x5c := by decide +kernel
  have hentry := table o.toNat hlt
  rw [UInt8.ofNat_toNat] at hentry
  obtain ⟨hhex, hshort, hcode, hbackslash⟩ := hentry
  cases phase with
  | plain => simp [StringPhase.next?, hbackslash, hlt] at h
  | escape => simp [StringPhase.next?, hcode, hshort] at h
  | digits more => simp [StringPhase.next?, hhex] at h

theorem le_of_follow? {phase last : StringPhase} {os : Octets} (h : phase.follow? os = some last) :
    ∀ o ∈ os, 0x20 ≤ o := by
  induction os generalizing phase with
  | nil => simp
  | cons o rest ih =>
    rw [StringPhase.follow?] at h
    split at h
    next => contradiction
    next =>
      obtain ⟨next, hnext, hrest⟩ := Option.bind_eq_some_iff.mp h
      exact List.forall_mem_cons.mpr ⟨le_of_next? hnext, ih hrest⟩

theorem le_of_isNumberOctet {o : UInt8} (h : isNumberOctet o = true) : 0x20 ≤ o := by
  have table : ∀ k < 256, isNumberOctet (UInt8.ofNat k) = true → 0x20 ≤ UInt8.ofNat k := by
    decide +kernel
  have hentry := table o.toNat o.toNat_lt
  rw [UInt8.ofNat_toNat] at hentry
  exact hentry h

private theorem forall_le_of_all {os : Octets} (h : os.all (0x20 ≤ ·) = true) :
    ∀ o ∈ os, 0x20 ≤ o := by
  simpa using h

/-- No control character is written in a token. -/
theorem Token.le_of_mem_spell {t : Token} (h : t.isWellSpelled = true) :
    ∀ o ∈ t.spell, 0x20 ≤ o := by
  cases t with
  | scalar s =>
    cases s with
    | null => exact forall_le_of_all (by decide)
    | bool b => cases b <;> exact forall_le_of_all (by decide)
    | number n => exact fun o ho => le_of_isNumberOctet ((Numeral.octets_of_isWellSpelled h).1 o ho)
    | string l =>
      have hbody : StringPhase.follow? .plain l.body = some .plain := by
        simpa [Token.isWellSpelled, Scalar.isWellSpelled, Literal.isWellSpelled] using h
      refine List.forall_mem_cons.mpr ⟨by decide, List.forall_mem_append.mpr ⟨?_, ?_⟩⟩
      · exact le_of_follow? hbody
      · exact forall_le_of_all (by decide)
  | _ => exact forall_le_of_all (by decide)

/-! ### Lexemes -/

/-- A token begins with an ASCII character that is no white space. -/
theorem Token.exists_spell_eq_cons {t : Token} (h : t.isWellSpelled = true) :
    ∃ first rest, t.spell = first :: rest ∧ first < 0x80 ∧ isBlank first = false := by
  cases t with
  | scalar s =>
    cases s with
    | null => exact ⟨_, _, rfl, by decide, rfl⟩
    | bool b => cases b <;> exact ⟨_, _, rfl, by decide, rfl⟩
    | string l => exact ⟨_, _, rfl, by decide, rfl⟩
    | number n =>
      obtain ⟨-, first, rest, hspelling, hfirst⟩ := Numeral.octets_of_isWellSpelled h
      refine ⟨first, rest, hspelling, ?_⟩
      rcases hfirst with hdigit | ⟨rfl, -⟩
      · have hrange : 0x30 ≤ first ∧ first ≤ 0x39 := by
          simpa [Numeral.isDigit] using hdigit
        refine ⟨UInt8.lt_of_le_of_lt hrange.2 (by decide), ?_⟩
        rw [Bool.eq_false_iff]
        intro hblank
        rcases isBlank_cases hblank with rfl | rfl | rfl | rfl <;> exact absurd hrange (by decide)
      · exact ⟨by decide, rfl⟩
  | _ => exact ⟨_, _, rfl, by decide, rfl⟩

/-- No character is cut in front of lexemes. -/
private theorem isContinuation_head {ls : List Lexeme} (hls : ∀ l ∈ ls, l.IsSound)
    {trail : Octets} (htrail : ∀ c ∈ trail, isBlank c = true) :
    ∀ o ∈ (ls.flatMap Lexeme.spell ++ trail).head?, isContinuation o = false := by
  intro o ho
  cases ls with
  | nil => exact isContinuation_eq_false (lt_of_isBlank (htrail o (List.mem_of_mem_head? ho)))
  | cons l rest =>
    obtain ⟨⟨hspaced, hspelled⟩, -⟩ := List.forall_mem_cons.mp hls
    rw [List.flatMap_cons, Lexeme.spell] at ho
    cases hblank : l.blank with
    | nil =>
      obtain ⟨first, more, hspell, hfirst, -⟩ := Token.exists_spell_eq_cons hspelled
      obtain rfl : first = o := by simpa [hblank, hspell] using ho
      exact isContinuation_eq_false hfirst
    | cons b more =>
      obtain rfl : b = o := by simpa [hblank] using ho
      exact isContinuation_eq_false (lt_of_isBlank (hspaced b (by simp [hblank])))

private theorem toList_of_octets {ls : List Lexeme} (hls : ∀ l ∈ ls, l.IsSound) {trail : Octets}
    (htrail : ∀ c ∈ trail, isBlank c = true) {cs : List Char}
    (h : cs.flatMap String.utf8EncodeChar = ls.flatMap Lexeme.spell ++ trail) :
    (∀ l ∈ ls, l.IsText) ∧
      cs = (ls.flatMap fun l => l.space ++ l.token.chars) ++ Text.chars trail := by
  induction ls generalizing cs with
  | nil =>
    refine ⟨by simp, ?_⟩
    obtain rfl : cs.flatMap String.utf8EncodeChar = trail := h
    rw [chars_flatMap]
    rfl
  | cons l rest ih =>
    obtain ⟨⟨hspaced, hspelled⟩, hrest⟩ := List.forall_mem_cons.mp hls
    obtain ⟨first, more, hspell, hfirst, -⟩ := Token.exists_spell_eq_cons hspelled
    rw [List.flatMap_cons, Lexeme.spell, List.append_assoc, List.append_assoc] at h
    have htoken : ∀ o ∈ (l.token.spell ++ (rest.flatMap Lexeme.spell ++ trail)).head?,
        isContinuation o = false := by
      intro o ho
      obtain rfl : first = o := by simpa [hspell] using ho
      exact isContinuation_eq_false hfirst
    obtain ⟨space, after, rfl, hspace, hafter⟩ := exists_chars_of_append htoken h
    obtain ⟨chars, after, rfl, hchars, hafter⟩ :=
      exists_chars_of_append (isContinuation_head hrest htrail) hafter
    obtain ⟨htexts, rfl⟩ := ih hrest hafter
    have hlchars : l.token.chars = chars := by rw [Token.chars, ← hchars, chars_flatMap]
    have hlspace : l.space = space := by rw [Lexeme.space, ← hspace, chars_flatMap]
    refine ⟨List.forall_mem_cons.mpr ⟨⟨hspaced, hspelled, by rw [hlchars, hchars]⟩, htexts⟩, ?_⟩
    rw [List.flatMap_cons, hlchars, hlspace, List.append_assoc, List.append_assoc]

/-- A text has the characters of its lexemes, and white space after them. -/
theorem toList_of_lexemes? {text : String} {ls : List Lexeme}
    (h : lexemes? (octets text) = some ls) :
    (∀ l ∈ ls, l.IsText) ∧ ∃ trail : Octets, (∀ c ∈ trail, isBlank c = true) ∧
      octets text = ls.flatMap Lexeme.spell ++ trail ∧
      text.toList = (ls.flatMap fun l => l.space ++ l.token.chars) ++ Text.chars trail := by
  obtain ⟨trail, htrail, hoctets⟩ := spell_of_lexemes? h
  have hcs : text.toList.flatMap String.utf8EncodeChar = ls.flatMap Lexeme.spell ++ trail := by
    rw [← octets_eq_flatMap, hoctets]
  obtain ⟨htexts, hlist⟩ := toList_of_octets (isSound_of_lexemes? h) htrail hcs
  exact ⟨htexts, trail, htrail, hoctets, hlist⟩

/-- A string is written with a quote, its pieces and another quote. -/
theorem Token.IsText.exists_pieces {l : Literal} (h : Token.IsText (.scalar (.string l))) :
    ∃ ps : List Literal.Piece, l.body = ps.flatMap Literal.Piece.octets ∧
      Token.chars (.scalar (.string l)) = '"' :: (ps.flatMap Literal.Piece.chars ++ ['"']) := by
  have hall : (Token.chars (.scalar (.string l))).flatMap String.utf8EncodeChar =
      0x22 :: (l.body ++ [0x22]) := h.encodes
  have hbody : StringPhase.follow? .plain l.body = some .plain := by
    have hspelled := h.wellSpelled
    simpa [Token.isWellSpelled, Scalar.isWellSpelled, Literal.isWellSpelled] using hspelled
  obtain ⟨inside, hchars, hinside⟩ := exists_cons_of_flatMap (by decide) hall
  have hend : ∀ o ∈ ([0x22] : Octets).head?, isContinuation o = false := by
    intro o ho
    obtain rfl : 0x22 = o := by simpa using ho
    rfl
  obtain ⟨body, after, rfl, hpieces, hafter⟩ := exists_chars_of_append hend hinside
  obtain ⟨nothing, rfl, hnothing⟩ := exists_cons_of_flatMap (by decide) hafter
  obtain rfl : nothing = [] := by rw [← chars_flatMap nothing, hnothing]; rfl
  obtain ⟨ps, rfl⟩ := Literal.exists_pieces body (by rw [hpieces, hbody])
  exact ⟨ps, by rw [← hpieces, Literal.flatMap_pieces], hchars⟩

theorem Token.IsText.le_of_mem_chars {t : Token} (h : t.IsText) {x : Char} (hx : x ∈ t.chars) :
    0x20 ≤ x.toNat := by
  refine Nat.not_lt.mp fun hlt => ?_
  have hmem : x.toNat.toUInt8 ∈ t.spell := by
    rw [← h.encodes, List.mem_flatMap]
    refine ⟨x, hx, ?_⟩
    rw [utf8EncodeChar_of_lt (Nat.lt_trans hlt (by decide))]
    exact List.mem_singleton.mpr rfl
  have hle := Token.le_of_mem_spell h.wellSpelled _ hmem
  have hsmall : x.toNat.toUInt8.toNat = x.toNat := by
    rw [Nat.toUInt8, UInt8.toNat_ofNat', Nat.mod_eq_of_lt (Nat.lt_trans hlt (by decide))]
  rw [UInt8.le_iff_toNat_le, hsmall] at hle
  exact Nat.not_lt.mpr hle hlt

end SidecarAdmission.Json
