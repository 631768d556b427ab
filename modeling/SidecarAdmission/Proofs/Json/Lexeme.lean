import SidecarAdmission.Proofs.Json.Token

/-!
Lexemes that are written again. Where a mark comes behind each value without parts, no value runs
into the next token, and the lexemes are cut out of their own spelling just as they are.
-/

set_option autoImplicit false
set_option relaxedAutoImplicit false

namespace SidecarAdmission.Json

open SidecarAdmission.Text Lexer

/-- Whether a token can come right behind a value. -/
def Token.endsValue : Token → Bool
  | .comma | .colon | .endArray | .endObject => true
  | .beginObject | .beginArray | .scalar _ => false

/-- Whether nothing but what can come behind a value comes behind each value without parts. -/
def Delimited : List Token → Prop
  | [] => True
  | t :: rest => (∀ s, t = .scalar s → ∀ next ∈ rest.head?, next.endsValue = true) ∧ Delimited rest

namespace Lexer

/-- White space is kept until a token begins. -/
theorem runOnto_blank {blank : Octets} (h : ∀ c ∈ blank, isBlank c = true) (seen : Octets)
    (done : List Lexeme) (tail : Octets) :
    runOnto (.blank seen) done (blank ++ tail) =
      runOnto (.blank (blank.reverse ++ seen)) done tail := by
  induction blank generalizing seen with
  | nil => rfl
  | cons c rest ih =>
    obtain ⟨hc, hrest⟩ := List.forall_mem_cons.mp h
    simp only [List.cons_append, runOnto, step?, start?, hc, if_true, List.nil_append]
    rw [ih hrest, List.reverse_cons, List.append_assoc, List.singleton_append]

/-- What lexemes spell does not go on with a number if their first token can end one. -/
theorem ends_flatMap_spell {ls : List Lexeme} (h : ∀ l ∈ ls, l.IsSound)
    (hfirst : ∀ t ∈ (ls.map (·.token)).head?, t.endsValue = true) :
    Ends (ls.flatMap Lexeme.spell) := by
  cases ls with
  | nil => simp [Ends]
  | cons l rest =>
    obtain ⟨⟨hspaced, -⟩, -⟩ := List.forall_mem_cons.mp h
    obtain ⟨blank, token⟩ := l
    have htoken : token.endsValue = true := hfirst token rfl
    intro c hc
    rw [List.flatMap_cons, Lexeme.spell] at hc
    cases blank with
    | nil =>
      right
      cases token <;> simp_all [Token.endsValue, Token.spell]
    | cons b more =>
      left
      obtain rfl : b = c := by simpa using hc
      exact hspaced b List.mem_cons_self

theorem runOnto_lexeme {l : Lexeme} (hl : l.IsSound) {tail : Octets}
    (hends : ∀ s, l.token = .scalar s → Ends tail) (done : List Lexeme) :
    runOnto (.blank []) done (l.spell ++ tail) = runOnto (.blank []) (l :: done) tail := by
  obtain ⟨hspaced, hspelled⟩ := hl
  obtain ⟨blank, token⟩ := l
  rw [Lexeme.spell, List.append_assoc, runOnto_blank hspaced, List.append_nil]
  have hmark : ∀ {c : UInt8} {t : Token},
      (∀ seen, start? seen c = some (.blank [], [⟨seen.reverse, t⟩])) →
        runOnto (.blank blank.reverse) done (c :: tail) =
          runOnto (.blank []) (⟨blank, t⟩ :: done) tail := by
    intro c t hstart
    simp [runOnto, step?, hstart]
  cases token with
  | scalar s =>
    rw [Token.spell, runOnto_spacedScalar hspelled (hends s rfl), List.reverse_reverse]
  | beginObject => exact hmark fun _ => rfl
  | endObject => exact hmark fun _ => rfl
  | beginArray => exact hmark fun _ => rfl
  | endArray => exact hmark fun _ => rfl
  | colon => exact hmark fun _ => rfl
  | comma => exact hmark fun _ => rfl

theorem runOnto_flatMap_spell {ls : List Lexeme} (h : ∀ l ∈ ls, l.IsSound)
    (hdelimited : Delimited (ls.map (·.token))) (done : List Lexeme) :
    runOnto (.blank []) done (ls.flatMap Lexeme.spell) = some (done.reverse ++ ls) := by
  induction ls generalizing done with
  | nil => simp [runOnto, finish?]
  | cons l rest ih =>
    obtain ⟨hl, hrest⟩ := List.forall_mem_cons.mp h
    obtain ⟨hnext, hlater⟩ := hdelimited
    have hends : ∀ s, l.token = .scalar s → Ends (rest.flatMap Lexeme.spell) :=
      fun s hs => ends_flatMap_spell hrest (hnext s hs)
    rw [List.flatMap_cons, runOnto_lexeme hl hends, ih hrest hlater, List.reverse_cons,
      List.append_assoc, List.singleton_append]

end Lexer

/-- Lexemes are cut out of their own spelling if it keeps them apart. -/
theorem lexemes?_flatMap_spell {ls : List Lexeme} (h : ∀ l ∈ ls, l.IsSound)
    (hdelimited : Delimited (ls.map (·.token))) : lexemes? (ls.flatMap Lexeme.spell) = some ls :=
  runOnto_flatMap_spell h hdelimited []

end SidecarAdmission.Json
