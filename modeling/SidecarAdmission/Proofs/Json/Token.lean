import SidecarAdmission.Json.Token
import SidecarAdmission.Proofs.Json.Literal

/-!
Which literals and numerals a text can spell. The reader follows an octet string through the phases
of a string or of a number; where they end well the spelling is cut out of a text as it stands, and
nothing else is ever cut out of a text. What is cut out spells the text again.
-/

set_option autoImplicit false
set_option relaxedAutoImplicit false

namespace SidecarAdmission.Json

open SidecarAdmission.Text

namespace Lexer

/-- The phase after octets that do not end a string. -/
def StringPhase.follow? : StringPhase → Octets → Option StringPhase
  | phase, [] => some phase
  | phase, c :: rest =>
    if phase = .plain ∧ c = 0x22 then none
    else (phase.next? c).bind fun next => next.follow? rest

/-- The phase after octets that continue a number. -/
def NumberPhase.follow? : NumberPhase → Octets → Option NumberPhase
  | phase, [] => some phase
  | phase, c :: rest => (phase.next? c).bind fun next => next.follow? rest

/-- The phase after the first octet of a number. -/
def NumberPhase.first? (c : UInt8) : Option NumberPhase :=
  if c = 0x2d then some .sign
  else if c = 0x30 then some .zero
  else if Numeral.isDigit c then some .whole
  else none

/-- The phase after all octets of a number that have been read. -/
def NumberPhase.of? : Octets → Option NumberPhase
  | [] => none
  | c :: rest => (NumberPhase.first? c).bind fun first => first.follow? rest

end Lexer

open Lexer

/-- Whether a literal can stand between quotes. -/
def Literal.isWellSpelled (l : Literal) : Bool := StringPhase.follow? .plain l.body == some .plain

/-- Whether a numeral is a number of the grammar. -/
def Numeral.isWellSpelled (n : Numeral) : Bool :=
  (NumberPhase.of? n.spelling).any NumberPhase.isFinal

/-- Whether a value without parts is spelled by its octets. -/
def Scalar.isWellSpelled : Scalar → Bool
  | .null | .bool _ => true
  | .number n => n.isWellSpelled
  | .string l => l.isWellSpelled

/-- Whether a token is spelled by its octets. -/
def Token.isWellSpelled : Token → Bool
  | .scalar s => s.isWellSpelled
  | _ => true

/-- A token without white space before it. -/
def Lexeme.bare (t : Token) : Lexeme := ⟨[], t⟩

/-- Whether a lexeme can stand in a text. -/
structure Lexeme.IsSound (l : Lexeme) : Prop where
  spaced : ∀ c ∈ l.blank, isBlank c = true
  wellSpelled : l.token.isWellSpelled = true

theorem Lexeme.isSound_bare {t : Token} (h : t.isWellSpelled = true) : (bare t).IsSound :=
  ⟨fun _ hc => absurd hc List.not_mem_nil, h⟩

namespace Lexer

/-! ### Reading what is well spelled -/

/-- What does not go on with a number: nothing, white space, or a mark that can follow a value. -/
def Ends (tail : Octets) : Prop :=
  ∀ c ∈ tail.head?, isBlank c = true ∨ c = 0x2c ∨ c = 0x3a ∨ c = 0x5d ∨ c = 0x7d

theorem runOnto_string {phase : StringPhase} {xs : Octets} (h : phase.follow? xs = some .plain)
    (blank body : Octets) (done : List Lexeme) (tail : Octets) :
    runOnto (.string blank body phase) done (xs ++ 0x22 :: tail) =
      runOnto (.blank [])
        (⟨blank.reverse, .scalar (.string ⟨body.reverse ++ xs⟩)⟩ :: done) tail := by
  induction xs generalizing phase body with
  | nil =>
    obtain rfl : phase = .plain := Option.some.inj h
    simp [runOnto, step?]
  | cons c rest ih =>
    rw [StringPhase.follow?] at h
    split at h
    next => contradiction
    next hinside =>
      obtain ⟨next, hnext, hrest⟩ := Option.bind_eq_some_iff.mp h
      simp only [List.cons_append, runOnto, step?, if_neg hinside, hnext, List.nil_append]
      rw [ih hrest, List.reverse_cons, List.append_assoc, List.singleton_append]

theorem runOnto_number {phase last : NumberPhase} {xs : Octets} (h : phase.follow? xs = some last)
    (blank spelling : Octets) (done : List Lexeme) (tail : Octets) :
    runOnto (.number blank spelling phase) done (xs ++ tail) =
      runOnto (.number blank (xs.reverse ++ spelling) last) done tail := by
  induction xs generalizing phase spelling with
  | nil =>
    obtain rfl : phase = last := Option.some.inj h
    rfl
  | cons c rest ih =>
    obtain ⟨next, hnext, hrest⟩ := Option.bind_eq_some_iff.mp h
    simp only [List.cons_append, runOnto, step?, hnext, List.nil_append]
    rw [ih hrest, List.reverse_cons, List.append_assoc, List.singleton_append]

theorem next?_of_isBlank {c : UInt8} (h : isBlank c = true) (phase : NumberPhase) :
    phase.next? c = none := by
  have hcases : c = 0x20 ∨ c = 0x0a ∨ c = 0x09 ∨ c = 0x0d := by
    simpa [isBlank, or_assoc] using h
  rcases hcases with rfl | rfl | rfl | rfl <;> cases phase <;> rfl

/-- A number ends where its text does, or where white space or another token begins. -/
theorem runOnto_number_of_ends {phase : NumberPhase} (hfinal : phase.isFinal = true)
    {tail : Octets} (hends : Ends tail) (blank spelling : Octets) (done : List Lexeme) :
    runOnto (.number blank spelling phase) done tail =
      runOnto (.blank [])
        (⟨blank.reverse, .scalar (.number ⟨spelling.reverse⟩)⟩ :: done) tail := by
  cases tail with
  | nil => simp [runOnto, finish?, hfinal]
  | cons c rest =>
    have hnone : phase.next? c = none := by
      rcases hends c rfl with hblank | rfl | rfl | rfl | rfl
      · exact next?_of_isBlank hblank phase
      all_goals cases phase <;> rfl
    -- The octet that ends the number is read again, as the first one of the next token.
    simp only [runOnto, step?, hnone, hfinal, if_true]
    cases start? [] c with
    | none => rfl
    | some next => simp

theorem start?_of_first? {c : UInt8} {phase : NumberPhase} (h : NumberPhase.first? c = some phase)
    (seen : Octets) : start? seen c = some (.number seen [c] phase, []) := by
  unfold NumberPhase.first? at h
  split at h
  next hsign =>
    obtain rfl : NumberPhase.sign = phase := Option.some.inj h
    rw [hsign]
    rfl
  next hsign =>
    split at h
    next hzero =>
      obtain rfl : NumberPhase.zero = phase := Option.some.inj h
      rw [hzero]
      rfl
    next hzero =>
      split at h
      next hdigit =>
        obtain rfl : NumberPhase.whole = phase := Option.some.inj h
        -- A digit begins no other token.
        have hne : ∀ o : UInt8, Numeral.isDigit o = false → ¬ c = o := by
          rintro o ho rfl
          rw [hdigit] at ho
          contradiction
        have hblank : isBlank c = false := by
          simp [isBlank, hne 0x20 rfl, hne 0x0a rfl, hne 0x09 rfl, hne 0x0d rfl]
        simp [start?, hblank, hne 0x7b rfl, hne 0x7d rfl, hne 0x5b rfl, hne 0x5d rfl, hne 0x3a rfl,
          hne 0x2c rfl, hne 0x22 rfl, hne 0x6e rfl, hne 0x74 rfl, hne 0x66 rfl, hsign, hzero, hdigit]
      next => contradiction

/-- A value without parts that is well spelled is cut out of a text as it stands, with the white
space before it. -/
theorem runOnto_spacedScalar {s : Scalar} (hs : s.isWellSpelled = true) {tail : Octets}
    (hends : Ends tail) (seen : Octets) (done : List Lexeme) :
    runOnto (.blank seen) done (s.spell ++ tail) =
      runOnto (.blank []) (⟨seen.reverse, .scalar s⟩ :: done) tail := by
  cases s with
  | null => rfl
  | bool b => cases b <;> rfl
  | string l =>
    have hbody : StringPhase.follow? .plain l.body = some .plain := by
      simpa [Scalar.isWellSpelled, Literal.isWellSpelled] using hs
    have hread := runOnto_string hbody seen [] done tail
    simpa [Scalar.spell, runOnto, step?, start?, isBlank] using hread
  | number n =>
    obtain ⟨spelling⟩ := n
    obtain ⟨last, hlast, hfinal⟩ := (Option.any_eq_true _ _).mp hs
    cases spelling with
    | nil => contradiction
    | cons c rest =>
      obtain ⟨first, hfirst, hfollow⟩ := Option.bind_eq_some_iff.mp hlast
      simp only [Scalar.spell, List.cons_append, runOnto, step?, start?_of_first? hfirst,
        List.nil_append]
      rw [runOnto_number hfollow, runOnto_number_of_ends hfinal hends]
      simp

/-! ### What is read -/

theorem StringPhase.follow?_concat (phase : StringPhase) (xs : Octets) (c : UInt8) :
    phase.follow? (xs ++ [c]) =
      (phase.follow? xs).bind fun last =>
        if last = .plain ∧ c = 0x22 then none else last.next? c := by
  induction xs generalizing phase with
  | nil => simp [StringPhase.follow?]
  | cons x rest ih =>
    simp only [List.cons_append, StringPhase.follow?]
    split
    · rfl
    · simp only [ih, Option.bind_assoc]

theorem NumberPhase.follow?_concat (phase : NumberPhase) (xs : Octets) (c : UInt8) :
    phase.follow? (xs ++ [c]) = (phase.follow? xs).bind fun last => last.next? c := by
  induction xs generalizing phase with
  | nil => simp [NumberPhase.follow?]
  | cons x rest ih => simp only [List.cons_append, NumberPhase.follow?, ih, Option.bind_assoc]

theorem NumberPhase.of?_concat {xs : Octets} {phase : NumberPhase}
    (h : NumberPhase.of? xs = some phase) (c : UInt8) :
    NumberPhase.of? (xs ++ [c]) = phase.next? c := by
  cases xs with
  | nil => contradiction
  | cons x rest =>
    obtain ⟨first, hfirst, hphase⟩ := Option.bind_eq_some_iff.mp h
    rw [List.cons_append, NumberPhase.of?, hfirst, Option.bind_some, NumberPhase.follow?_concat,
      hphase, Option.bind_some]

/-- The white space before what the reader is in the midst of. -/
def Mode.before : Mode → Octets
  | .blank seen | .word seen _ _ | .string seen _ _ | .number seen _ _ => seen

/-- Whether a mode has come from octets that no lexeme spells yet. -/
def Mode.Holds : Mode → Octets → Prop
  | .blank seen, kept => kept = seen.reverse
  | .word before value rest, kept =>
    value.isWellSpelled = true ∧ kept ++ rest = before.reverse ++ value.spell
  | .string before body phase, kept =>
    StringPhase.follow? .plain body.reverse = some phase ∧
      kept = before.reverse ++ 0x22 :: body.reverse
  | .number before spelling phase, kept =>
    NumberPhase.of? spelling.reverse = some phase ∧ kept = before.reverse ++ spelling.reverse

/-- What the reader keeps may become a lexeme, and nothing that it has read is lost. -/
structure Mode.IsSound (mode : Mode) (kept : Octets) : Prop where
  spaced : ∀ c ∈ mode.before, isBlank c = true
  holds : mode.Holds kept

/-- What is cut out in one step can stand in a text, and spells what was kept and read, up to what
is still kept. -/
def IsSound (seen : Octets) (next : Option (Mode × List Lexeme)) : Prop :=
  ∀ mode out, next = some (mode, out) →
    (∀ l ∈ out, l.IsSound) ∧
      ∃ kept, mode.IsSound kept ∧ seen = out.reverse.flatMap Lexeme.spell ++ kept

theorem isSound_initial : Mode.IsSound (.blank []) [] :=
  ⟨fun _ hc => absurd hc List.not_mem_nil, rfl⟩

variable {seen : Octets}

private theorem IsSound.ite {p : Prop} [Decidable p] {a b : Option (Mode × List Lexeme)}
    (ha : p → IsSound seen a) (hb : ¬ p → IsSound seen b) :
    IsSound seen (if p then a else b) := by
  split
  next h => exact ha h
  next h => exact hb h

private theorem isSound_none : IsSound seen none := by
  intro mode out h
  contradiction

private theorem isSound_keep {mode : Mode} (hspaced : ∀ c ∈ mode.before, isBlank c = true)
    (hholds : mode.Holds seen) : IsSound seen (some (mode, [])) := by
  rintro mode' out' ⟨⟩
  exact ⟨by simp, seen, ⟨hspaced, hholds⟩, rfl⟩

private theorem isSound_lexeme {blank : Octets} (hspaced : ∀ c ∈ blank, isBlank c = true)
    {t : Token} (ht : t.isWellSpelled = true) : Lexeme.IsSound ⟨blank.reverse, t⟩ :=
  ⟨fun c hc => hspaced c (List.mem_reverse.mp hc), ht⟩

private theorem isSound_cut {blank : Octets} (hspaced : ∀ c ∈ blank, isBlank c = true) {t : Token}
    (ht : t.isWellSpelled = true) (hseen : seen = blank.reverse ++ t.spell) :
    IsSound seen (some (.blank [], [⟨blank.reverse, t⟩])) := by
  rintro mode' out' ⟨⟩
  refine ⟨List.forall_mem_singleton.mpr (isSound_lexeme hspaced ht), [], isSound_initial, ?_⟩
  simp [hseen, Lexeme.spell]

theorem isSound_start? {blank : Octets} (hblank : ∀ c ∈ blank, isBlank c = true) (c : UInt8) :
    IsSound (blank.reverse ++ [c]) (start? blank c) := by
  unfold start?
  refine .ite (fun hc => isSound_keep (List.forall_mem_cons.mpr ⟨hc, hblank⟩) ?_) fun _ => ?_
  · simp [Mode.Holds]
  refine .ite (fun h => isSound_cut hblank rfl (by rw [h]; rfl)) fun _ => ?_
  refine .ite (fun h => isSound_cut hblank rfl (by rw [h]; rfl)) fun _ => ?_
  refine .ite (fun h => isSound_cut hblank rfl (by rw [h]; rfl)) fun _ => ?_
  refine .ite (fun h => isSound_cut hblank rfl (by rw [h]; rfl)) fun _ => ?_
  refine .ite (fun h => isSound_cut hblank rfl (by rw [h]; rfl)) fun _ => ?_
  refine .ite (fun h => isSound_cut hblank rfl (by rw [h]; rfl)) fun _ => ?_
  refine .ite (fun h => isSound_keep hblank ⟨rfl, by rw [h]; rfl⟩) fun _ => ?_
  refine .ite (fun h => isSound_keep hblank ⟨rfl, by simp [Scalar.spell, h]⟩) fun _ => ?_
  refine .ite (fun h => isSound_keep hblank ⟨rfl, by simp [Scalar.spell, h]⟩) fun _ => ?_
  refine .ite (fun h => isSound_keep hblank ⟨rfl, by simp [Scalar.spell, h]⟩) fun _ => ?_
  refine .ite (fun hsign => isSound_keep hblank ⟨?_, rfl⟩) fun hsign => ?_
  · subst hsign
    rfl
  refine .ite (fun hzero => isSound_keep hblank ⟨?_, rfl⟩) fun hzero => ?_
  · subst hzero
    rfl
  refine .ite (fun hdigit => isSound_keep hblank ⟨?_, rfl⟩) fun _ => isSound_none
  simp only [List.reverse_singleton, NumberPhase.of?, NumberPhase.first?, hsign, hzero, hdigit,
    if_false, if_true, Option.bind_some]
  rfl

private theorem isWellSpelled_number {spelling : Octets} {phase : NumberPhase}
    (hread : NumberPhase.of? spelling.reverse = some phase) (hfinal : phase.isFinal = true) :
    (Token.scalar (.number ⟨spelling.reverse⟩)).isWellSpelled = true := by
  simp [Token.isWellSpelled, Scalar.isWellSpelled, Numeral.isWellSpelled, hread, hfinal]

theorem isSound_step? {mode : Mode} {kept : Octets} (hmode : mode.IsSound kept) (c : UInt8) :
    IsSound (kept ++ [c]) (step? mode c) := by
  obtain ⟨hspaced, hholds⟩ := hmode
  cases mode with
  | blank blank =>
    obtain rfl : kept = blank.reverse := hholds
    exact isSound_start? hspaced c
  | word blank value rest =>
    obtain ⟨hvalue, hword⟩ := hholds
    cases rest with
    | nil => exact isSound_none
    | cons o more =>
      cases more with
      | nil => exact .ite (fun h => isSound_cut hspaced hvalue (h ▸ hword)) fun _ => isSound_none
      | cons o' more =>
        refine .ite (fun h => isSound_keep hspaced ⟨hvalue, ?_⟩) fun _ => isSound_none
        rw [h, List.append_assoc]
        exact hword
  | string blank body phase =>
    obtain ⟨hbody, rfl⟩ := hholds
    refine .ite (fun hend => isSound_cut hspaced ?_ ?_) fun hinside => ?_
    · obtain ⟨rfl, -⟩ := hend
      simpa [Token.isWellSpelled, Scalar.isWellSpelled, Literal.isWellSpelled] using hbody
    · rw [hend.2]
      simp [Mode.before, Token.spell, Scalar.spell]
    · cases hnext : phase.next? c with
      | none => exact isSound_none
      | some next =>
        refine isSound_keep hspaced ⟨?_, by simp⟩
        simp only [List.reverse_cons, StringPhase.follow?_concat, hbody, Option.bind_some,
          if_neg hinside, hnext]
  | number blank spelling phase =>
    obtain ⟨hread, rfl⟩ := hholds
    cases hnext : phase.next? c with
    | some next =>
      simp only [step?, hnext]
      refine isSound_keep hspaced ⟨?_, by simp⟩
      rw [List.reverse_cons, NumberPhase.of?_concat hread, hnext]
    | none =>
      simp only [step?, hnext]
      refine .ite (fun hfinal => ?_) fun _ => isSound_none
      cases hstart : start? [] c with
      | none => exact isSound_none
      | some next =>
        obtain ⟨next, out⟩ := next
        obtain ⟨hout, later, hlater, hc⟩ := isSound_start? (by simp) c next out hstart
        have hoctet : [c] = out.reverse.flatMap Lexeme.spell ++ later := hc
        have hnumber := isSound_lexeme hspaced (isWellSpelled_number hread hfinal)
        rintro mode' out' ⟨⟩
        refine ⟨List.forall_mem_append.mpr ⟨hout, List.forall_mem_singleton.mpr hnumber⟩, later,
          hlater, ?_⟩
        rw [List.reverse_append, List.flatMap_append, List.append_assoc, List.append_assoc,
          ← hoctet]
        simp [Lexeme.spell, Token.spell, Scalar.spell]

theorem isSound_finish? {mode : Mode} {kept : Octets} (hmode : mode.IsSound kept)
    {out : List Lexeme} (h : finish? mode = some out) :
    (∀ l ∈ out, l.IsSound) ∧ ∃ blank : Octets, (∀ c ∈ blank, isBlank c = true) ∧
      kept = out.reverse.flatMap Lexeme.spell ++ blank := by
  obtain ⟨hspaced, hholds⟩ := hmode
  cases mode with
  | blank blank =>
    cases h
    obtain rfl : kept = blank.reverse := hholds
    exact ⟨by simp, blank.reverse, fun c hc => hspaced c (List.mem_reverse.mp hc), rfl⟩
  | word blank value rest => contradiction
  | string blank body phase => contradiction
  | number blank spelling phase =>
    obtain ⟨hread, rfl⟩ := hholds
    rw [finish?] at h
    split at h
    next hfinal =>
      cases h
      have hnumber := isSound_lexeme hspaced (isWellSpelled_number hread hfinal)
      exact ⟨List.forall_mem_singleton.mpr hnumber, [], by simp,
        by simp [Lexeme.spell, Token.spell, Scalar.spell]⟩
    next => contradiction

/-- The lexemes of a text are those already read and such as spell the rest of it. -/
theorem isSound_runOnto {text : Octets} {mode : Mode} {kept : Octets} (hmode : mode.IsSound kept)
    {done ls : List Lexeme} (hdone : ∀ l ∈ done, l.IsSound)
    (h : runOnto mode done text = some ls) :
    (∀ l ∈ ls, l.IsSound) ∧ ∃ blank : Octets, (∀ c ∈ blank, isBlank c = true) ∧
      done.reverse.flatMap Lexeme.spell ++ (kept ++ text) = ls.flatMap Lexeme.spell ++ blank := by
  induction text generalizing mode kept done with
  | nil =>
    obtain ⟨out, hout, rfl⟩ := Option.map_eq_some_iff.mp h
    obtain ⟨hsound, blank, hblank, rfl⟩ := isSound_finish? hmode hout
    refine ⟨fun l hl => ?_, blank, hblank, by simp⟩
    exact (List.mem_append.mp (List.mem_reverse.mp hl)).elim (hsound l) (hdone l)
  | cons c rest ih =>
    rw [runOnto] at h
    split at h
    next mode' out hstep =>
      obtain ⟨hout, kept', hmode', hseen⟩ := isSound_step? hmode c mode' out hstep
      obtain ⟨hls, blank, hspaced, hblank⟩ :=
        ih hmode' (List.forall_mem_append.mpr ⟨hout, hdone⟩) h
      refine ⟨hls, blank, hspaced, ?_⟩
      calc done.reverse.flatMap Lexeme.spell ++ (kept ++ c :: rest)
          = done.reverse.flatMap Lexeme.spell ++ (kept ++ [c] ++ rest) := by simp
        _ = (out ++ done).reverse.flatMap Lexeme.spell ++ (kept' ++ rest) := by
          rw [hseen]
          simp
        _ = ls.flatMap Lexeme.spell ++ blank := hblank
    next => contradiction

end Lexer

/-- What is cut out of a text can stand in one. -/
theorem isSound_of_lexemes? {text : Octets} {ls : List Lexeme} (h : lexemes? text = some ls) :
    ∀ l ∈ ls, l.IsSound :=
  (isSound_runOnto isSound_initial (by simp) h).1

/-- The lexemes of a text spell it up to white space at its end. -/
theorem spell_of_lexemes? {text : Octets} {ls : List Lexeme} (h : lexemes? text = some ls) :
    ∃ blank : Octets, (∀ c ∈ blank, isBlank c = true) ∧
      text = ls.flatMap Lexeme.spell ++ blank :=
  (isSound_runOnto isSound_initial (by simp) h).2

/-! ### What is written is well spelled -/

/-- An octet that is escaped leaves a string where it was. -/
theorem Literal.follow?_escape (c : UInt8) (rest : Octets) :
    StringPhase.follow? .plain (escape c ++ rest) = StringPhase.follow? .plain rest := by
  unfold escape
  split
  · rfl
  split
  · rfl
  split
  · rfl
  split
  · rfl
  split
  · rfl
  split
  · rfl
  split
  · rfl
  split
  next control =>
    have small : c.toNat < 0x20 := control
    have high : (hexValue? (hexDigit (c.toNat / 16)).toUInt8).isSome = true := by
      have table : ∀ n < 0x20, (hexValue? (hexDigit (n / 16)).toUInt8).isSome = true := by decide
      exact table c.toNat small
    have low : (hexValue? (hexDigit (c.toNat % 16)).toUInt8).isSome = true := by
      have table : ∀ n < 0x20, (hexValue? (hexDigit (n % 16)).toUInt8).isSome = true := by decide
      exact table c.toNat small
    have zero : (hexValue? 0x30).isSome = true := rfl
    simp [StringPhase.follow?, StringPhase.next?, high, low, zero]
  next hquote hbackslash _ _ _ _ _ hcontrol =>
    simp [StringPhase.follow?, StringPhase.next?, hquote, hbackslash, hcontrol]

theorem Literal.isWellSpelled_ofText (s : String) : (Literal.ofText s).isWellSpelled = true := by
  have hbody : ∀ bs : Octets, StringPhase.follow? .plain (bs.flatMap escape) = some .plain := by
    intro bs
    induction bs with
    | nil => rfl
    | cons c rest ih => rw [List.flatMap_cons, follow?_escape, ih]
  simp [Literal.isWellSpelled, Literal.ofText, hbody]

namespace Numeral

/-- The digits of a number are read after a sign; only those of zero begin with a zero. -/
private theorem follow?_toDigits (n : Nat) :
    NumberPhase.sign.follow? ((Nat.toDigits 10 n).flatMap String.utf8EncodeChar) =
      some (if n = 0 then .zero else .whole) := by
  induction n using Nat.strongRecOn with
  | ind n ih =>
    by_cases hsmall : n < 10
    · obtain ⟨c, hc, hdigit, hzero, -⟩ := utf8EncodeChar_digitChar n hsmall
      rw [Nat.toDigits_of_lt_base hsmall, List.flatMap_singleton, hc]
      by_cases hn : n = 0
      · simp [NumberPhase.follow?, NumberPhase.next?, hzero.mpr hn, hn]
      · have hne : ¬ c = 0x30 := fun h => hn (hzero.mp h)
        simp [NumberPhase.follow?, NumberPhase.next?, hne, hdigit, hn]
    · obtain ⟨c, hc, hdigit, -⟩ := utf8EncodeChar_digitChar (n % 10) (Nat.mod_lt n (by decide))
      have hrest : n / 10 ≠ 0 := by omega
      have hn : n ≠ 0 := by omega
      rw [Nat.toDigits_of_base_le (by decide) (by omega), List.flatMap_append,
        List.flatMap_singleton, hc, NumberPhase.follow?_concat, ih (n / 10) (by omega),
        Option.bind_some, if_neg hrest, if_neg hn]
      simp [NumberPhase.next?, hdigit]

/-- What may follow a sign may also begin a number. -/
private theorem of?_of_follow? {xs : Octets} (hne : xs ≠ []) {phase : NumberPhase}
    (h : NumberPhase.sign.follow? xs = some phase) : NumberPhase.of? xs = some phase := by
  cases xs with
  | nil => contradiction
  | cons c rest =>
    have hfirst : ¬ c = 0x2d := by
      rintro rfl
      contradiction
    rw [NumberPhase.follow?, NumberPhase.next?] at h
    rw [NumberPhase.of?, NumberPhase.first?, if_neg hfirst, h]

theorem isWellSpelled_ofInt (n : Int) : (ofInt n).isWellSpelled = true := by
  have hfinal : ∀ m : Nat, ∃ phase : NumberPhase, phase.isFinal = true ∧
      NumberPhase.sign.follow? (octets m.repr) = some phase := by
    intro m
    refine ⟨if m = 0 then .zero else .whole, by split <;> rfl, ?_⟩
    rw [Nat.repr_eq_ofList_toDigits, octets_ofList]
    exact follow?_toDigits m
  cases n with
  | ofNat m =>
    obtain ⟨phase, hphase, hread⟩ := hfinal m
    obtain ⟨hne, -⟩ := digitsValue_repr m
    rw [isWellSpelled, spelling_ofInt_ofNat, of?_of_follow? hne hread]
    exact hphase
  | negSucc m =>
    obtain ⟨phase, hphase, hread⟩ := hfinal (m + 1)
    have hfirst : NumberPhase.first? 0x2d = some .sign := rfl
    simp [isWellSpelled, spelling_ofInt_negSucc, NumberPhase.of?, hfirst, hread, hphase]

end Numeral

end SidecarAdmission.Json
