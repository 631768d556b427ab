import Mathlib.Data.List.DropRight
import SidecarAdmission.Proofs.Json.Characters
import SidecarAdmission.Proofs.Json.Reader
import SidecarAdmission.Proofs.Yaml.Flow

/-!
The tokens of a JSON text as one of YAML. Marks, strings and words of the one are those of the other;
a key has a token of its own in front of it, but only if its colon stands near enough behind it.
Strings are read unless they escape surrogates, and white space only matters in front of the text,
behind it and before colons.
-/

set_option autoImplicit false
set_option relaxedAutoImplicit false

namespace SidecarAdmission.Yaml

open SidecarAdmission.Text SidecarAdmission.Json.Literal

/-! ### Lexemes on lines -/

/-- Whether a character breaks a line in YAML only. -/
def isWideBreak (c : Char) : Bool := c == '\x85' || c == '\u2028' || c == '\u2029'

/-- Whether a lexeme stands in a text and its token on one line of YAML. -/
structure IsLine (l : Json.Lexeme) : Prop extends l.IsText where
  narrow : ∀ x ∈ l.token.chars, isWideBreak x = false

/-- The white space before a token, with its breaks made alike. -/
def white (l : Json.Lexeme) : List Char := unifyBreaks l.space

/-- The characters of lexemes, with their breaks made alike. -/
def written (ls : List Json.Lexeme) : List Char := ls.flatMap fun l => white l ++ l.token.chars

@[simp] theorem written_nil : written [] = [] := rfl

@[simp] theorem written_cons (l : Json.Lexeme) (ls : List Json.Lexeme) :
    written (l :: ls) = white l ++ (l.token.chars ++ written ls) := by
  simp [written]

@[simp] theorem written_append (ls ms : List Json.Lexeme) :
    written (ls ++ ms) = written ls ++ written ms :=
  List.flatMap_append

theorem isWhite_unifyBreaks {blank : Octets} (h : ∀ c ∈ blank, Json.Lexer.isBlank c = true) :
    ∀ x ∈ unifyBreaks (Text.chars blank), isWhite x = true := by
  intro x hx
  rcases mem_unifyBreaks hx with hfeed | ⟨hmem, hreturn⟩
  · rw [hfeed]
    rfl
  · rw [Json.chars_blank h] at hmem
    obtain ⟨c, hc, rfl⟩ := List.mem_map.mp hmem
    rcases Json.isBlank_cases (h c hc) with rfl | rfl | rfl | rfl
    · rfl
    · rfl
    · rfl
    · exact absurd rfl hreturn

theorem IsLine.isWhite {l : Json.Lexeme} (h : IsLine l) : ∀ x ∈ white l, isWhite x = true :=
  isWhite_unifyBreaks h.spaced

theorem IsLine.ne {l : Json.Lexeme} (h : IsLine l) {x : Char} (hx : x ∈ l.token.chars) :
    x ≠ '\n' ∧ x ≠ '\r' ∧ x ≠ '\x85' ∧ x ≠ '\u2028' ∧ x ≠ '\u2029' := by
  have hle := h.token.le_of_mem_chars hx
  have hwide := h.narrow x hx
  refine ⟨?_, ?_, ?_, ?_, ?_⟩ <;> (rintro rfl; revert hle hwide; decide)

theorem IsLine.isBreak {l : Json.Lexeme} (h : IsLine l) {x : Char} (hx : x ∈ l.token.chars) :
    isBreak x = false := by
  obtain ⟨hfeed, -, -, hline, hparagraph⟩ := h.ne hx
  simp [Yaml.isBreak, hfeed, hline, hparagraph]

/-- Breaks are made alike between the tokens only. -/
theorem unifyBreaks_lexemes {ls : List Json.Lexeme} (h : ∀ l ∈ ls, IsLine l) (trail : List Char) :
    unifyBreaks ((ls.flatMap fun l => l.space ++ l.token.chars) ++ trail) =
      written ls ++ unifyBreaks trail := by
  induction ls with
  | nil => rfl
  | cons l rest ih =>
    obtain ⟨hl, hrest⟩ := List.forall_mem_cons.mp h
    have hplain : ∀ x ∈ l.token.chars, x ≠ '\r' ∧ x ≠ '\x85' := fun x hx =>
      ⟨(hl.ne hx).2.1, (hl.ne hx).2.2.1⟩
    obtain ⟨first, more, hspell, hfirst, -⟩ := Json.Token.exists_spell_eq_cons hl.token.wellSpelled
    obtain ⟨x, xs, hchars⟩ : ∃ x xs, l.token.chars = x :: xs := by
      cases hnil : l.token.chars with
      | cons x xs => exact ⟨x, xs, rfl⟩
      | nil =>
        have hencodes := hl.token.encodes
        rw [hnil, hspell] at hencodes
        contradiction
    have hhead : (l.token.chars ++ ((rest.flatMap fun l => l.space ++ l.token.chars) ++
        trail)).head? ≠ some '\n' := by
      rw [hchars]
      intro heq
      obtain rfl : x = '\n' := by simpa using heq
      exact (hl.ne (by rw [hchars]; exact List.mem_cons_self)).1 rfl
    rw [List.flatMap_cons, List.append_assoc, List.append_assoc, unifyBreaks_append hhead,
      unifyBreaks_append_of_forall hplain, ih hrest, written_cons, white, List.append_assoc,
      List.append_assoc]

/-! ### Words -/

private theorem isWordChar_of_isNumberOctet {o : UInt8} (h : Json.isNumberOctet o = true) :
    Scan.isWordChar (Char.ofNat o.toNat) = true := by
  have table : ∀ k < 256, Json.isNumberOctet (UInt8.ofNat k) = true →
      Scan.isWordChar (Char.ofNat k) = true := by decide +kernel
  have hentry := table o.toNat o.toNat_lt
  rw [UInt8.ofNat_toNat] at hentry
  exact hentry h

private theorem isDigit_ofNat {o : UInt8} (h : Json.Numeral.isDigit o = true) :
    (Char.ofNat o.toNat).isDigit = true := by
  have table : ∀ k < 256, Json.Numeral.isDigit (UInt8.ofNat k) = true →
      (Char.ofNat k).isDigit = true := by decide +kernel
  have hentry := table o.toNat o.toNat_lt
  rw [UInt8.ofNat_toNat] at hentry
  exact hentry h

/-- A scalar that is no string is a word. -/
theorem exists_word {v : Json.Scalar} (hv : ∀ l, v ≠ .string l)
    (h : v.isWellSpelled = true) : ∃ x more, Json.Token.chars (.scalar v) = x :: more ∧
      (∀ y ∈ x :: more, Scan.isWordChar y = true) ∧ Lexer.BeginsWord x more.head? := by
  cases v with
  | null =>
    exact ⟨'n', ['u', 'l', 'l'], by decide +kernel, List.all_eq_true.mp (by decide), .inl rfl⟩
  | bool b =>
    cases b with
    | false =>
      exact ⟨'f', ['a', 'l', 's', 'e'], by decide +kernel, List.all_eq_true.mp (by decide),
        .inl rfl⟩
    | true =>
      exact ⟨'t', ['r', 'u', 'e'], by decide +kernel, List.all_eq_true.mp (by decide), .inl rfl⟩
  | string l => exact absurd rfl (hv l)
  | number n =>
    obtain ⟨hall, first, rest, hspelling, hfirst⟩ := Json.Numeral.octets_of_isWellSpelled h
    have hword : ∀ y ∈ n.spelling.map fun o => Char.ofNat o.toNat, Scan.isWordChar y = true := by
      intro y hy
      obtain ⟨o, ho, rfl⟩ := List.mem_map.mp hy
      exact isWordChar_of_isNumberOctet (hall o ho)
    rw [Json.Token.chars_number h, hspelling]
    rw [hspelling] at hword
    refine ⟨_, _, rfl, hword, ?_⟩
    rcases hfirst with hdigit | ⟨rfl, second, more, rfl, hdigit⟩
    · exact .inl (by simp [Char.isAlphanum, isDigit_ofNat hdigit])
    · exact .inr ⟨rfl, _, rfl, isDigit_ofNat hdigit⟩

/-! ### The tokens of lexemes -/

/-- The token of YAML that a token of JSON is. -/
def Token.ofJson : Json.Token → Token
  | .beginObject => .flowMapping
  | .endObject => .flowMappingEnd
  | .beginArray => .flowSequence
  | .endArray => .flowSequenceEnd
  | .colon => .value
  | .comma => .flowEntry
  | .scalar (.string l) => .scalar .doubleQuoted (l.text?.getD "").toList
  | .scalar v => .scalar .plain (Json.Token.chars (.scalar v))

/-- Whether the next lexeme is a colon that stands near enough behind a key. -/
def isKey (l : Json.Lexeme) (next : Option Json.Lexeme) : Bool :=
  next.any fun colon => colon.token = .colon && Lexer.isNear l.token.chars.length (white colon)

/-- The tokens of YAML that lexemes are. -/
def tokensOf : List Json.Lexeme → List Token
  | [] => []
  | l :: rest =>
    (if isKey l rest.head? then [.key] else []) ++ Token.ofJson l.token :: tokensOf rest

/-- Whether every colon stands near enough behind its key. -/
def keysAreNear : List Json.Lexeme → Bool
  | [] => true
  | l :: rest =>
    (rest.head?.all fun next => next.token ≠ .colon || isKey l rest.head?) && keysAreNear rest

/-- Whether a lexeme is a string in which surrogates are escaped. -/
def hasSurrogate (l : Json.Lexeme) : Bool :=
  match l.token with
  | .scalar (.string s) => Json.Literal.hasSurrogate s.body
  | _ => false

theorem tokensOf_cons {l : Json.Lexeme} {rest : List Json.Lexeme}
    (h : ∀ next ∈ rest.head?, next.token ≠ .colon) :
    tokensOf (l :: rest) = Token.ofJson l.token :: tokensOf rest := by
  have hkey : isKey l rest.head? = false := by
    cases hnext : rest.head? with
    | none => rfl
    | some next => simp [isKey, h next hnext]
  simp [tokensOf, hkey]

theorem tokensOf_append (ls : List Json.Lexeme) {ms : List Json.Lexeme}
    (h : ∀ next ∈ ms.head?, next.token ≠ .colon) :
    tokensOf (ls ++ ms) = tokensOf ls ++ tokensOf ms := by
  induction ls with
  | nil => rfl
  | cons l rest ih =>
    cases rest with
    | nil => simpa [tokensOf, isKey] using tokensOf_cons h
    | cons next rest =>
      rw [List.cons_append, tokensOf, ih, tokensOf.eq_2 l, List.append_assoc, List.cons_append]
      rfl

/-- Lexemes begin with a colon only if their tokens do. -/
theorem token_head_ne_colon {ls : List Json.Lexeme} (h : .colon ∉ (ls.map (·.token)).head?) :
    ∀ next ∈ ls.head?, next.token ≠ .colon := by
  intro next hnext heq
  refine h ?_
  rw [List.head?_map, hnext, ← heq]
  rfl

/-- Neither what stands between brackets nor the closing one is a colon. -/
theorem enclosed_head_ne_colon {c : Json.Lexeme} {inner : List Json.Lexeme}
    (hinner : .colon ∉ (inner.map (·.token)).head?) (hc : c.token ≠ .colon) :
    (∀ next ∈ [c].head?, next.token ≠ .colon) ∧
      ∀ next ∈ (inner ++ [c]).head?, next.token ≠ .colon := by
  refine ⟨by simpa using hc, token_head_ne_colon ?_⟩
  cases inner with
  | nil => simpa using hc
  | cons i inner => simpa using hinner

/-- Lexemes between two others, by their tokens. -/
theorem exists_enclosed {ls : List Json.Lexeme} {first last : Json.Token} {ts : List Json.Token}
    (h : ls.map (·.token) = first :: (ts ++ [last])) :
    ∃ o inner c, ls = o :: (inner ++ [c]) ∧ o.token = first ∧ inner.map (·.token) = ts ∧
      c.token = last := by
  obtain ⟨o, rest, rfl, ho, hrest⟩ := List.map_eq_cons_iff.mp h
  obtain ⟨inner, back, rfl, hinner, hback⟩ := List.map_eq_append_iff.mp hrest
  obtain ⟨c, rfl, hc⟩ := List.map_eq_singleton_iff.mp hback
  exact ⟨o, inner, c, rfl, ho, hinner, hc⟩

theorem tokensOf_enclosed {o c : Json.Lexeme} {inner : List Json.Lexeme}
    (hinner : .colon ∉ (inner.map (·.token)).head?) (hc : c.token ≠ .colon) :
    tokensOf (o :: (inner ++ [c])) =
      Token.ofJson o.token :: (tokensOf inner ++ [Token.ofJson c.token]) := by
  obtain ⟨hlast, hnext⟩ := enclosed_head_ne_colon hinner hc
  rw [tokensOf_cons hnext, tokensOf_append inner hlast, tokensOf_cons (by simp), tokensOf]

theorem colon_notMem_head_separate {parts : List (List Json.Token)}
    (h : ∀ ts ∈ parts, .colon ∉ ts.head?) : .colon ∉ (Json.separate parts).head? := by
  cases parts with
  | nil => simp [Json.separate]
  | cons ts rest =>
    cases ts with
    | cons t ts => simpa [Json.separate] using h _ List.mem_cons_self
    | nil => cases rest <;> simp [Json.separate]

theorem colon_notMem_head_tokens (v : Json) : .colon ∉ v.tokens.head? := by
  cases v <;> simp [Json.tokens]

theorem colon_notMem_head_items (items : List Json) :
    .colon ∉ (Json.separate (Json.itemTokens items)).head? := by
  refine colon_notMem_head_separate fun ts hts => ?_
  rw [Json.itemTokens_eq] at hts
  obtain ⟨v, -, rfl⟩ := List.mem_map.mp hts
  exact colon_notMem_head_tokens v

theorem colon_notMem_head_members (members : List (Json.Literal × Json)) :
    .colon ∉ (Json.separate (Json.memberTokens members)).head? := by
  refine colon_notMem_head_separate fun ts hts => ?_
  rw [Json.memberTokens_eq] at hts
  obtain ⟨m, -, rfl⟩ := List.mem_map.mp hts
  simp

/-- The pieces of a string on one line. -/
theorem IsLine.exists_pieces {l : Json.Lexeme} (h : IsLine l) {k : Json.Literal}
    (hk : l.token = .scalar (.string k)) : ∃ ps : List Piece,
      l.token.chars = '"' :: (ps.flatMap Piece.chars ++ ['"']) ∧
      (∀ x ∈ ps.flatMap Piece.chars, Yaml.isBreak x = false) ∧
      hasSurrogate l = ps.any Piece.isSurrogate ∧
      (ps.any Piece.isSurrogate = false → ps.map Piece.value = (k.text?.getD "").toList) := by
  have htoken := h.token
  rw [hk] at htoken
  obtain ⟨ps, hbody, hchars⟩ := htoken.exists_pieces
  rw [← hk] at hchars
  refine ⟨ps, hchars, fun x hx => h.isBreak ?_, ?_, fun hplain => ?_⟩
  · rw [hchars]
    simp [hx]
  · simp [hasSurrogate, hk, hbody, hasSurrogate_pieces]
  · have hescaped : ∀ p ∈ ps, p.isSurrogate = false := by simpa using hplain
    have htext := text?_pieces hescaped
    rw [← hbody] at htext
    rw [htext, Option.getD_some, String.toList_ofList]

/-! ### Reading between brackets -/

namespace Lexer

/-- Whether lexemes with the given tokens are read between brackets, up to a mark behind them; they
may have to stand where a key can begin. -/
structure Reads (ready : Bool) (ts : List Json.Token) : Prop where
  run : ∀ {ls : List Json.Lexeme} {s : Lexer} {depth : Nat} {done : List Token}
    {space tail : List Char} {m : Char}, ls.map (·.token) = ts → (∀ l ∈ ls, IsLine l) →
    (∀ x ∈ space, isWhite x = true) → Scan.isFlowMark m = true →
    s.IsAt ready (depth + 1) done (written ls ++ (space ++ m :: tail)) →
    ∃ s', Leads (!ls.any hasSurrogate) s s' ∧
      s'.IsAt false (depth + 1) ((tokensOf ls).reverse ++ done) (m :: tail)

variable {ready : Bool} {ts us : List Json.Token}

theorem Reads.anywhere (h : Reads false ts) : Reads ready ts :=
  ⟨fun hls hline hspace hm hat => h.run hls hline hspace hm hat.weaken⟩

theorem reads_nil : Reads ready [] := by
  refine ⟨fun {ls s depth done space tail m} hls hline hspace hm hat => ?_⟩
  obtain rfl : ls = [] := by simpa using hls
  exact ⟨s, Leads.refl s, ((isAt_append_white hspace).mp hat).weaken⟩

/-- Lexemes up to a comma and others behind it. -/
theorem Reads.comma (h : Reads ready ts) (hus : Reads true us) (hhead : .colon ∉ us.head?) :
    Reads ready (ts ++ .comma :: us) := by
  refine ⟨fun {ls s depth done space tail m} hls hline hspace hm hat => ?_⟩
  obtain ⟨front, rest, rfl, hfront, hrest⟩ := List.map_eq_append_iff.mp hls
  obtain ⟨c, back, rfl, hc, hback⟩ := List.map_eq_cons_iff.mp hrest
  obtain ⟨hlfront, hlrest⟩ := List.forall_mem_append.mp hline
  obtain ⟨hlc, hlback⟩ := List.forall_mem_cons.mp hlrest
  have hchars : c.token.chars = [','] := by rw [hc]; decide +kernel
  rw [written_append, written_cons, hchars, List.append_assoc, List.append_assoc,
    List.append_assoc] at hat
  obtain ⟨s₁, hlead₁, hat₁⟩ := h.run hfront hlfront hlc.isWhite rfl hat
  obtain ⟨s₂, hlead₂, hat₂⟩ := hat₁.comma
  obtain ⟨s₃, hlead₃, hat₃⟩ := hus.run hback hlback hspace hm hat₂
  have hcolon : ∀ next ∈ back.head?, next.token ≠ .colon := token_head_ne_colon (hback ▸ hhead)
  refine ⟨s₃, ?_, ?_⟩
  · have hall := hlead₁.trans (hlead₂.trans hlead₃)
    simpa [hasSurrogate, hc] using hall
  · rw [tokensOf_append front (by simp [hc]), tokensOf_cons hcolon, hc]
    simpa [Token.ofJson] using hat₃

theorem reads_separate {parts : List (List Json.Token)} (h : ∀ ts ∈ parts, Reads true ts)
    (hhead : ∀ ts ∈ parts, .colon ∉ ts.head?) : Reads true (Json.separate parts) := by
  cases parts with
  | nil => exact reads_nil
  | cons ts rest =>
    rw [Json.separate]
    induction rest generalizing ts with
    | nil => simpa using h ts List.mem_cons_self
    | cons us rest ih =>
      obtain ⟨hts, hrest⟩ := List.forall_mem_cons.mp h
      obtain ⟨-, hnext⟩ := List.forall_mem_cons.mp hhead
      exact hts.comma (ih us hrest hnext) (colon_notMem_head_separate hnext)

theorem reads_scalar (v : Json.Scalar) : Reads false [.scalar v] := by
  refine ⟨fun {ls s depth done space tail m} hls hline hspace hm hat => ?_⟩
  obtain ⟨l, rfl, hl⟩ := List.map_eq_singleton_iff.mp hls
  have hline := hline l List.mem_cons_self
  have htokens : tokensOf [l] = [Token.ofJson (.scalar v)] := by
    rw [tokensOf_cons (by simp), hl]
    rfl
  rw [written_cons, List.append_assoc, isAt_append_white hline.isWhite, written, List.flatMap_nil,
    List.append_nil] at hat
  rw [htokens, List.any_cons, List.any_nil, Bool.or_false]
  cases v with
  | string k =>
    obtain ⟨ps, hchars, hbreak, hsurrogate, htext⟩ := hline.exists_pieces hl
    rw [hchars, List.cons_append, List.append_assoc] at hat
    obtain ⟨s', hlead, hafter⟩ := hat.string hbreak htext
    rw [hsurrogate]
    refine ⟨s', hlead, ?_⟩
    exact (isAt_append_white hspace).mp hafter
  | _ =>
    have hspelled := hline.token.wellSpelled
    rw [hl, Json.Token.isWellSpelled] at hspelled
    obtain ⟨x, more, hchars, hword, hx⟩ := exists_word (by simp) hspelled
    rw [hl, hchars] at hat
    obtain ⟨s', hlead, hafter⟩ := hat.word hword hx hspace hm
    refine ⟨s', ?_, ?_⟩
    · simpa [hasSurrogate, hl] using hlead
    · rw [← hchars] at hafter
      simpa [Token.ofJson] using hafter

/-- Brackets and what stands between them. -/
private theorem reads_enclosed {first last : Json.Token} {x y : Char} (hts : Reads true ts)
    (hfirst : first.chars = [x]) (hlast : last.chars = [y]) (hmark : Scan.isFlowMark y = true)
    (hplain : ∀ l : Json.Lexeme, l.token = first ∨ l.token = last → hasSurrogate l = false)
    (hcolon : .colon ∉ ts.head? ∧ last ≠ .colon)
    (hopen : ∀ {s : Lexer} {depth : Nat} {done : List Token} {tail : List Char},
      s.IsAt false (depth + 1) done (x :: tail) →
        ∃ s', Leads true s s' ∧ s'.IsAt true (depth + 2) (Token.ofJson first :: done) tail)
    (hclose : ∀ {s : Lexer} {depth : Nat} {done : List Token} {tail : List Char},
      s.IsAt false (depth + 1) done (y :: tail) →
        ∃ s', Leads true s s' ∧ s'.IsAt false depth (Token.ofJson last :: done) tail) :
    Reads false (first :: (ts ++ [last])) := by
  refine ⟨fun {ls s depth done space tail m} hls hline hspace hm hat => ?_⟩
  obtain ⟨o, inner, c, rfl, ho, hinner, hc⟩ := exists_enclosed hls
  obtain ⟨hlo, hlrest⟩ := List.forall_mem_cons.mp hline
  obtain ⟨hlinner, hlback⟩ := List.forall_mem_append.mp hlrest
  have hlc := hlback c List.mem_cons_self
  rw [written_cons, List.append_assoc, isAt_append_white hlo.isWhite, ho, hfirst, written_append,
    written_cons, hc, hlast] at hat
  obtain ⟨s₁, hlead₁, hat₁⟩ := hopen (by simpa using hat)
  obtain ⟨s₂, hlead₂, hat₂⟩ := hts.run hinner hlinner hlc.isWhite hmark hat₁
  obtain ⟨s₃, hlead₃, hat₃⟩ := hclose hat₂
  refine ⟨s₃, ?_, ?_⟩
  · have hall := hlead₁.trans (hlead₂.trans hlead₃)
    simpa [hplain o (.inl ho), hplain c (.inr hc)] using hall
  · rw [tokensOf_enclosed (hinner ▸ hcolon.1) (hc ▸ hcolon.2), ho, hc,
      ← isAt_append_white hspace]
    simpa using hat₃

/-- A key, a colon and what stands behind it. -/
theorem Reads.member (h : Reads false ts) (hhead : .colon ∉ ts.head?) (k : Json.Literal) :
    Reads true (.scalar (.string k) :: .colon :: ts) := by
  refine ⟨fun {ls s depth done space tail m} hls hline hspace hm hat => ?_⟩
  obtain ⟨l, rest, rfl, hl, hrest⟩ := List.map_eq_cons_iff.mp hls
  obtain ⟨c, back, rfl, hc, hback⟩ := List.map_eq_cons_iff.mp hrest
  obtain ⟨hll, hlrest⟩ := List.forall_mem_cons.mp hline
  obtain ⟨hlc, hlback⟩ := List.forall_mem_cons.mp hlrest
  obtain ⟨ps, hchars, hbreak, hsurrogate, htext⟩ := hll.exists_pieces hl
  have hcolon : c.token.chars = [':'] := by rw [hc]; decide +kernel
  rw [written_cons, written_cons, List.append_assoc, isAt_append_white hll.isWhite, hchars,
    hcolon] at hat
  have hkey : s.IsAt true (depth + 1) done ('"' :: (ps.flatMap Piece.chars ++
      '"' :: (white c ++ ':' :: (written back ++ (space ++ m :: tail))))) := by simpa using hat
  obtain ⟨s₁, hlead₁, hat₁⟩ := hkey.key hbreak htext hlc.isWhite
  obtain ⟨s₂, hlead₂, hat₂⟩ := h.run hback hlback hspace hm hat₁
  have hnext : ∀ next ∈ back.head?, next.token ≠ .colon := token_head_ne_colon (hback ▸ hhead)
  refine ⟨s₂, ?_, ?_⟩
  · have hall := hlead₁.trans hlead₂
    have hplain : hasSurrogate c = false := by simp [hasSurrogate, hc]
    simpa [hsurrogate, hplain] using hall
  · have hisKey : isKey l (some c) = isNear ((ps.flatMap Piece.chars).length + 2) (white c) := by
      simp [isKey, hc, hchars]
    rw [tokensOf, tokensOf_cons hnext, List.head?_cons, hisKey, hl, hc]
    cases hnear : isNear ((ps.flatMap Piece.chars).length + 2) (white c) <;>
      (rw [hnear] at hat₂; simpa [Token.ofJson] using hat₂)

private theorem reads_members {members : List (Json.Literal × Json)}
    (h : ∀ m ∈ members, Reads false m.2.tokens) :
    Reads true (Json.separate (Json.memberTokens members)) := by
  rw [Json.memberTokens_eq]
  exact reads_separate
    (List.forall_mem_map.mpr fun m hm => (h m hm).member (colon_notMem_head_tokens m.2) m.1)
    (List.forall_mem_map.mpr fun m _ => by simp)

/-- What a document is written with is read between brackets. -/
theorem reads_tokens (v : Json) : Reads false v.tokens := by
  induction v using Json.induct with
  | scalar v => exact reads_scalar v
  | array items ih =>
    have hitems : Reads true (Json.separate (Json.itemTokens items)) := by
      rw [Json.itemTokens_eq]
      exact reads_separate (List.forall_mem_map.mpr fun v hv => (ih v hv).anywhere)
        (List.forall_mem_map.mpr fun v _ => colon_notMem_head_tokens v)
    rw [Json.tokens]
    refine reads_enclosed (x := '[') (y := ']') hitems (by decide +kernel) (by decide +kernel) rfl ?_
      ⟨colon_notMem_head_items items, by simp⟩ IsAt.openSequence IsAt.closeSequence
    rintro l (hl | hl) <;> simp [hasSurrogate, hl]
  | object members ih =>
    rw [Json.tokens]
    refine reads_enclosed (x := '{') (y := '}') (reads_members ih) (by decide +kernel)
      (by decide +kernel) rfl ?_ ⟨colon_notMem_head_members members, by simp⟩ IsAt.openMapping
      IsAt.closeMapping
    rintro l (hl | hl) <;> simp [hasSurrogate, hl]

end Lexer

/-! ### Reading a text -/

/-- Whether a JSON text with the given lexemes has tokens as one of YAML: its characters may stand
there, no tab is in front of it or behind the line where it ends, and no string escapes
surrogates. -/
structure HasTokens (text : String) (ls : List Json.Lexeme) : Prop where
  permitted : ∀ x ∈ text.toList, isPermitted x = true
  front : '\t' ∉ (unifyBreaks text.toList).takeWhile isWhite
  back : '\t' ∉ ((unifyBreaks text.toList).rtakeWhile isWhite).dropWhile (!isBreak ·)
  literals : ∀ l ∈ ls, hasSurrogate l = false

private theorem takeWhile_white {front : List Char} (h : ∀ x ∈ front, isWhite x = true)
    {x : Char} (hx : isWhite x = false) (tail : List Char) :
    (front ++ x :: tail).takeWhile isWhite = front := by
  rw [List.takeWhile_append_of_pos h, List.takeWhile_cons_of_neg (by simp [hx]), List.append_nil]

private theorem rtakeWhile_white {back : List Char} (h : ∀ x ∈ back, isWhite x = true)
    {x : Char} (hx : isWhite x = false) (front : List Char) :
    (front ++ x :: back).rtakeWhile isWhite = back := by
  rw [List.rtakeWhile, List.reverse_append, List.reverse_cons, List.append_assoc,
    List.singleton_append, takeWhile_white (by simpa using h) hx, List.reverse_reverse]

/-- The lexer on an object between white space. -/
private theorem run?_object {ls : List Json.Lexeme} {members : List (Json.Literal × Json)}
    (hls : ls.map (·.token) = (Json.object members).tokens) (hline : ∀ l ∈ ls, IsLine l)
    {trail : List Char} (htrail : ∀ x ∈ trail, isWhite x = true) {fuel : Nat}
    (hfuel : (written ls ++ trail).length < fuel) :
    Lexer.run? fuel (.start (written ls ++ trail)) =
      if '\t' ∉ (written ls ++ trail).takeWhile isWhite ∧ ls.any hasSurrogate = false ∧
          '\t' ∉ ((written ls ++ trail).rtakeWhile isWhite).dropWhile (!isBreak ·) then
        some (tokensOf ls)
      else none := by
  obtain ⟨o, inner, c, rfl, ho, hinner, hc⟩ := exists_enclosed hls
  obtain ⟨hlo, hlrest⟩ := List.forall_mem_cons.mp hline
  obtain ⟨hlinner, hlback⟩ := List.forall_mem_append.mp hlrest
  have hlc := hlback c List.mem_cons_self
  have hreads := Lexer.reads_members fun m (_ : m ∈ members) => Lexer.reads_tokens m.2
  have hhead := colon_notMem_head_members members
  have hfirst : o.token.chars = ['{'] := by rw [ho]; decide +kernel
  have hlast : c.token.chars = ['}'] := by rw [hc]; decide +kernel
  have hwritten : written (o :: (inner ++ [c])) ++ trail =
      white o ++ '{' :: (written inner ++ (white c ++ '}' :: trail)) := by
    simp [hfirst, hlast]
  have hfront := takeWhile_white hlo.isWhite (x := '{') rfl
    (written inner ++ (white c ++ '}' :: trail))
  have hend := rtakeWhile_white htrail (x := '}') rfl (white o ++ '{' :: (written inner ++ white c))
  rw [List.append_assoc, List.cons_append, List.append_assoc] at hend
  rw [hwritten] at hfuel
  rw [hwritten, hfront, hend]
  obtain ⟨s₁, hlead₁, hat₁⟩ :=
    Lexer.start_openMapping hlo.isWhite (written inner ++ (white c ++ '}' :: trail))
  obtain ⟨s₂, hlead₂, hat₂⟩ := hreads.run hinner hlinner hlc.isWhite rfl hat₁
  obtain ⟨n, hn, hrun⟩ := hlead₁.trans hlead₂
  have hpos : 0 < s₂.cursor.rest.length := by
    obtain ⟨rest, hrest, hon⟩ := hat₂
    rw [hon.rest]
    cases rest with
    | nil => simp [isWhite, isBlank, isBreak] at hrest
    | cons x rest => exact Nat.succ_pos _
  obtain ⟨k, rfl⟩ : ∃ k, fuel = k + 2 + n := by
    have hstart : (Lexer.start (white o ++ '{' :: (written inner ++
        (white c ++ '}' :: trail)))).cursor.rest.length < fuel := hfuel
    exact ⟨fuel - 2 - n, by omega⟩
  have htokens : tokensOf (o :: (inner ++ [c])) =
      (Token.flowMappingEnd :: ((tokensOf inner).reverse ++ [.flowMapping])).reverse := by
    rw [tokensOf_enclosed (hinner ▸ hhead) (by simp [hc]), ho, hc]
    simp [Token.ofJson]
  have hany : (o :: (inner ++ [c])).any hasSurrogate = inner.any hasSurrogate := by
    simp [hasSurrogate, ho, hc]
  rw [hrun, hat₂.lastBracket htrail, hany, htokens]
  cases inner.any hasSurrogate <;> by_cases '\t' ∈ white o <;>
    by_cases '\t' ∈ trail.dropWhile (!isBreak ·) <;> simp [*]

/-- A JSON text that is an object has the tokens of its lexemes, if it has tokens at all. -/
theorem tokens?_eq_some_iff {text : String} {ls : List Json.Lexeme}
    {members : List (Json.Literal × Json)} {ts : List Token}
    (hlexemes : Json.lexemes? (octets text) = some ls)
    (hls : ls.map (·.token) = (Json.object members).tokens)
    (hnarrow : ∀ x ∈ text.toList, isWideBreak x = false) :
    tokens? text = some ts ↔ HasTokens text ls ∧ tokensOf ls = ts := by
  obtain ⟨htexts, trail, htrail, -, hlist⟩ := Json.toList_of_lexemes? hlexemes
  have hline : ∀ l ∈ ls, IsLine l := fun l hl => ⟨htexts l hl, fun x hx => hnarrow x (by
    rw [hlist]
    exact List.mem_append_left _ (List.mem_flatMap.mpr ⟨l, hl, List.mem_append_right _ hx⟩))⟩
  have hunify : unifyBreaks text.toList = written ls ++ unifyBreaks (Text.chars trail) := by
    rw [hlist, unifyBreaks_lexemes hline]
  have hrun := run?_object hls hline (isWhite_unifyBreaks htrail) (Nat.lt_succ_self _)
  rw [← hunify] at hrun
  by_cases hpermitted : text.toList.all isPermitted = true
  · rw [tokens?, if_pos hpermitted, hrun]
    constructor
    · intro h
      split at h
      next hall =>
        exact ⟨⟨by simpa using hpermitted, hall.1, hall.2.2, by simpa using hall.2.1⟩,
          Option.some.inj h⟩
      next => contradiction
    · rintro ⟨hhas, rfl⟩
      rw [if_pos ⟨hhas.front, by simpa using hhas.literals, hhas.back⟩]
  · rw [tokens?, if_neg hpermitted]
    exact ⟨fun h => absurd h (by simp), fun ⟨hhas, _⟩ =>
      absurd (List.all_eq_true.mpr hhas.permitted) hpermitted⟩

end SidecarAdmission.Yaml
