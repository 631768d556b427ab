import SidecarAdmission.Proofs.Yaml.Lexer

/-!
The tokens of a text between brackets, one by one: brackets, commas, quoted and plain scalars, and
keys with the colons behind them. A key is known as one only if its colon stands on the same line
and not too far behind; otherwise the colon is read as if there were no key.
-/

set_option autoImplicit false
set_option relaxedAutoImplicit false

namespace SidecarAdmission.Yaml.Lexer

open SidecarAdmission.Json.Literal

variable {s s' s'' a : Lexer} {ready : Bool} {depth : Nat} {ts : List Token} {cs tail : List Char}

/-! ### Steps -/

/-- Whether a lexer gets to another one, if it gets on at all; it has fewer characters before it
then, at least one for each token. -/
def Leads (passes : Bool) (s s' : Lexer) : Prop :=
  ∃ n, n + s'.cursor.rest.length ≤ s.cursor.rest.length ∧
    ∀ fuel, run? (fuel + n) s = if passes then run? fuel s' else none

theorem Leads.refl (s : Lexer) : Leads true s s :=
  ⟨0, by omega, fun _ => rfl⟩

theorem Leads.trans {p q : Bool} (h : Leads p s s') (h' : Leads q s' s'') :
    Leads (p && q) s s'' := by
  obtain ⟨m, hm, hfirst⟩ := h
  obtain ⟨n, hn, hsecond⟩ := h'
  refine ⟨n + m, by omega, fun fuel => ?_⟩
  rw [← Nat.add_assoc, hfirst, hsecond]
  cases p <;> rfl

/-- A lexer with a rest of a text before it, within a number of brackets. -/
structure IsOn (s : Lexer) (ready : Bool) (depth : Nat) (ts : List Token) (cs : List Char) :
    Prop where
  blocks : s.blocks = []
  depth : s.outer.length = depth
  loose : s.IsLoose
  tokens : s.tokens = ts
  rest : s.cursor.rest = cs
  ready : ready = true → s.keyAllowed = true

/-- A lexer with a rest of a text before it, up to white space in front of that. -/
def IsAt (s : Lexer) (ready : Bool) (depth : Nat) (ts : List Token) (cs : List Char) : Prop :=
  ∃ rest, rest.dropWhile isWhite = cs.dropWhile isWhite ∧ s.IsOn ready depth ts rest

theorem IsOn.isAt (h : s.IsOn ready depth ts cs) : s.IsAt ready depth ts cs := ⟨cs, rfl, h⟩

theorem IsOn.inFlow (h : s.IsOn ready (depth + 1) ts cs) : s.inFlow = true := by
  have hdepth := h.depth
  cases houter : s.outer with
  | nil => simp [houter] at hdepth
  | cons o rest => simp [Lexer.inFlow, houter]

theorem IsAt.weaken (h : s.IsAt ready depth ts cs) : s.IsAt false depth ts cs := by
  obtain ⟨rest, hrest, hon⟩ := h
  exact ⟨rest, hrest, hon.blocks, hon.depth, hon.loose, hon.tokens, hon.rest, by simp⟩

theorem isAt_append_white {white : List Char} (hwhite : ∀ x ∈ white, isWhite x = true) :
    s.IsAt ready depth ts (white ++ cs) ↔ s.IsAt ready depth ts cs := by
  rw [IsAt, IsAt, List.dropWhile_append_of_pos hwhite]

theorem IsOn.arrived {white : List Char} (h : s.IsOn ready depth ts (white ++ cs)) :
    (s.arrived white).IsOn ready depth ts cs := by
  refine ⟨h.blocks, ?_, h.loose.arrived white, h.tokens, Cursor.rest_skip_append h.rest,
    fun hready => ?_⟩
  · rw [← h.depth]
    simp [Lexer.arrived]
  · simp [Lexer.arrived, behind, h.ready hready]

/-- White space between brackets can always be passed. -/
theorem IsOn.run?_arrived {white : List Char} {x : Char}
    (h : s.IsOn ready (depth + 1) ts (white ++ x :: tail))
    (hwhite : ∀ y ∈ white, isWhite y = true) (hx : BeginsToken (x :: tail)) (fuel : Nat) :
    run? (fuel + 1) s = (s.arrived white).token?.bind (run? fuel) :=
  run?_of_skips h.blocks h.loose h.rest hwhite hx (.inl h.inFlow)

theorem IsAt.exists_arrived {x : Char} (h : s.IsAt ready (depth + 1) ts (x :: tail))
    (hx : BeginsToken (x :: tail)) :
    ∃ a : Lexer, a.IsOn ready (depth + 1) ts (x :: tail) ∧
      a.cursor.rest.length ≤ s.cursor.rest.length ∧
      ∀ fuel, run? (fuel + 1) s = a.token?.bind (run? fuel) := by
  obtain ⟨rest, hrest, hon⟩ := h
  have hhead : (x :: tail).dropWhile isWhite = x :: tail := by simp [(hx x rfl).1]
  have hsplit : rest = rest.takeWhile isWhite ++ x :: tail := by
    rw [← hhead, ← hrest, List.takeWhile_append_dropWhile]
  rw [hsplit] at hon
  refine ⟨_, hon.arrived, ?_, hon.run?_arrived (fun y hy => List.mem_takeWhile_imp hy) hx⟩
  rw [hon.arrived.rest, hon.rest, List.length_append]
  omega

theorem leads_of_token {passes : Bool} (hle : a.cursor.rest.length ≤ s.cursor.rest.length)
    (hrun : ∀ fuel, run? (fuel + 1) s = a.token?.bind (run? fuel))
    (htoken : a.token? = if passes then some s' else none)
    (hlt : s'.cursor.rest.length < a.cursor.rest.length) : Leads passes s s' := by
  refine ⟨1, by omega, fun fuel => ?_⟩
  rw [hrun, htoken]
  cases passes <;> rfl

/-! ### Which token begins -/

section Begins

variable {x : Char}

private theorem isUnmarked_cons (hdot : x ≠ '.') (hdash : x ≠ '-') :
    Cursor.IsUnmarked (x :: tail) := by
  intro y hy
  obtain rfl : x = y := by simpa using hy
  exact ⟨hdot, fun h => absurd h hdash⟩

private theorem notMark (h : s.cursor.rest = x :: tail) (hmark : Cursor.IsUnmarked (x :: tail)) :
    s.cursor.isAtDocumentStart = false ∧ s.cursor.isAtDocumentEnd = false ∧
      s.cursor.char? = some x := by
  rw [← h] at hmark
  refine ⟨Cursor.isAtDocumentStart_of_isUnmarked hmark, Cursor.isAtDocumentEnd_of_isUnmarked hmark,
    ?_⟩
  rw [Cursor.char?, h]
  rfl

theorem token?_openSequence (h : s.cursor.rest = '[' :: tail) :
    s.token? = s.openFlow? .flowSequence := by
  obtain ⟨hstart, hend, hchar⟩ := notMark h (isUnmarked_cons (by decide) (by decide))
  simp [token?, hstart, hend, hchar]

theorem token?_openMapping (h : s.cursor.rest = '{' :: tail) :
    s.token? = s.openFlow? .flowMapping := by
  obtain ⟨hstart, hend, hchar⟩ := notMark h (isUnmarked_cons (by decide) (by decide))
  simp [token?, hstart, hend, hchar]

theorem token?_closeSequence (h : s.cursor.rest = ']' :: tail) :
    s.token? = s.closeFlow? .flowSequenceEnd := by
  obtain ⟨hstart, hend, hchar⟩ := notMark h (isUnmarked_cons (by decide) (by decide))
  simp [token?, hstart, hend, hchar]

theorem token?_closeMapping (h : s.cursor.rest = '}' :: tail) :
    s.token? = s.closeFlow? .flowMappingEnd := by
  obtain ⟨hstart, hend, hchar⟩ := notMark h (isUnmarked_cons (by decide) (by decide))
  simp [token?, hstart, hend, hchar]

theorem token?_comma (h : s.cursor.rest = ',' :: tail) : s.token? = s.flowEntry? := by
  obtain ⟨hstart, hend, hchar⟩ := notMark h (isUnmarked_cons (by decide) (by decide))
  simp [token?, hstart, hend, hchar]

theorem token?_quote (h : s.cursor.rest = '"' :: tail) :
    s.token? = s.quoted? true .doubleQuoted := by
  obtain ⟨hstart, hend, hchar⟩ := notMark h (isUnmarked_cons (by decide) (by decide))
  simp [token?, hstart, hend, hchar]

theorem token?_colon (h : s.cursor.rest = ':' :: tail) (hflow : s.inFlow = true) :
    s.token? = s.value? := by
  obtain ⟨hstart, hend, hchar⟩ := notMark h (isUnmarked_cons (by decide) (by decide))
  simp [token?, hstart, hend, hchar, hflow]

/-- Whether a word that begins with a character, given the next one, is a plain scalar of JSON. -/
def BeginsWord (x : Char) (next : Option Char) : Prop :=
  x.isAlphanum = true ∨ x = '-' ∧ ∃ y ∈ next, y.isDigit = true

theorem isWhite_of_isAlphanum {x : Char} (h : x.isAlphanum = true) : isWhite x = false := by
  rw [Bool.eq_false_iff]
  intro hwhite
  have hcases : ((x = ' ' ∨ x = '\t') ∨ (x = '\n' ∨ x = '\u2028') ∨ x = '\u2029') := by
    simpa [isWhite, isBlank, isBreak] using hwhite
  rcases hcases with (rfl | rfl) | (rfl | rfl) | rfl <;> contradiction

theorem token?_word {x : Char} (h : s.cursor.rest = x :: tail) (hflow : s.inFlow = true)
    (hx : BeginsWord x tail.head?) : s.token? = s.plain? := by
  rcases hx with hx | ⟨rfl, y, hy, hdigit⟩
  · have hne : ∀ k : Char, k.isAlphanum = false → x ≠ k := by
      rintro k hk rfl
      rw [hx] at hk
      contradiction
    obtain ⟨hstart, hend, hchar⟩ := notMark h (isUnmarked_cons (hne '.' rfl) (hne '-' rfl))
    simp [token?, hstart, hend, hchar, hflow, beginsPlain, isWhite_of_isAlphanum hx, hne '%' rfl,
      hne '[' rfl, hne '{' rfl, hne ']' rfl, hne '}' rfl, hne ',' rfl, hne '*' rfl, hne '&' rfl,
      hne '!' rfl, hne '\'' rfl, hne '"' rfl, hne '-' rfl, hne '?' rfl, hne ':' rfl, hne '|' rfl,
      hne '>' rfl, hne '#' rfl, hne '@' rfl, hne '\x60' rfl]
  · obtain ⟨tail, rfl⟩ : ∃ more, tail = y :: more := by
      rcases tail with _ | ⟨z, more⟩
      · contradiction
      · obtain rfl : z = y := by simpa using hy
        exact ⟨more, rfl⟩
    have hwhite : isWhite y = false := isWhite_of_isAlphanum (by simp [Char.isAlphanum, hdigit])
    have hunmarked : Cursor.IsUnmarked ('-' :: y :: tail) := by
      intro z hz
      obtain rfl : '-' = z := by simpa using hz
      refine ⟨by decide, fun _ hsecond => ?_⟩
      obtain rfl : y = '-' := by simpa using hsecond
      contradiction
    obtain ⟨hstart, hend, hchar⟩ := notMark h hunmarked
    have hnext : s.cursor.charAt? 1 = some y := by rw [Cursor.charAt?, h]; rfl
    simp [token?, hstart, hend, hchar, hnext, hflow, beginsPlain, hwhite, isBlank_eq_false hwhite]

end Begins

/-! ### Brackets and commas -/

private theorem IsOn.rest_next {x : Char} (h : a.IsOn ready depth ts (x :: tail)) :
    a.cursor.next.rest = tail := by
  rw [Cursor.rest_next, h.rest]
  rfl

private theorem IsOn.openFlow? {x : Char} (h : a.IsOn ready depth ts (x :: tail)) (t : Token) :
    ∃ s', a.openFlow? t = some s' ∧ s'.IsOn true (depth + 1) (t :: ts) tail := by
  rw [Lexer.openFlow?, h.loose.saveCandidate? h.blocks]
  refine ⟨_, rfl, h.blocks, ?_, ⟨by simp [push, moveTo], ?_⟩, ?_, h.rest_next, fun _ => rfl⟩
  · simp [push, moveTo, saved, h.depth]
  · exact List.forall_mem_cons.mpr ⟨h.loose.saved.candidate, h.loose.outer⟩
  · simp [push, moveTo, saved, h.tokens]

private theorem IsOn.closeFlow? {x : Char} (h : a.IsOn ready (depth + 1) ts (x :: tail))
    (t : Token) : ∃ s', a.closeFlow? t = some s' ∧ s'.IsOn false depth (t :: ts) tail ∧
      s'.keyAllowed = false := by
  have hdepth := h.depth
  have houter := h.loose.outer
  rw [Lexer.closeFlow?, h.loose.dropCandidate?]
  rcases hstack : a.outer with _ | ⟨o, outer⟩
  · simp [hstack] at hdepth
  rw [hstack] at hdepth houter
  obtain ⟨ho, hrest⟩ := List.forall_mem_cons.mp houter
  refine ⟨_, rfl, ⟨h.blocks, ?_, ⟨ho, hrest⟩, ?_, h.rest_next, by simp⟩, rfl⟩
  · exact Nat.succ.inj hdepth
  · simp [push, moveTo, allow, h.tokens]

private theorem IsOn.flowEntry? {x : Char} (h : a.IsOn ready depth ts (x :: tail)) :
    ∃ s', a.flowEntry? = some s' ∧ s'.IsOn true depth (.flowEntry :: ts) tail := by
  rw [Lexer.flowEntry?, h.loose.dropCandidate?]
  refine ⟨_, rfl, h.blocks, h.depth, ⟨by simp [push, moveTo, allow], h.loose.outer⟩, ?_, h.rest_next,
    fun _ => rfl⟩
  simp [push, moveTo, allow, h.tokens]

/-- A mark between brackets that becomes a token by itself. -/
private theorem IsAt.exists_leads {x : Char} {ready' : Bool} {depth' : Nat} {t : Token}
    (h : s.IsAt ready (depth + 1) ts (x :: tail)) (hx : BeginsToken (x :: tail))
    (htoken : ∀ a : Lexer, a.IsOn ready (depth + 1) ts (x :: tail) →
      ∃ s', a.token? = some s' ∧ s'.IsOn ready' depth' (t :: ts) tail) :
    ∃ s', Leads true s s' ∧ s'.IsAt ready' depth' (t :: ts) tail := by
  obtain ⟨a, hon, hle, hrun⟩ := h.exists_arrived hx
  obtain ⟨s', hs', hafter⟩ := htoken a hon
  refine ⟨s', leads_of_token hle hrun hs' ?_, hafter.isAt⟩
  rw [hon.rest, hafter.rest]
  exact Nat.lt_succ_self _

private theorem beginsToken_cons {x : Char} (hwhite : isWhite x = false) (hx : x ≠ '#')
    (hbom : x ≠ '\ufeff') : BeginsToken (x :: tail) := by
  intro y hy
  obtain rfl : x = y := by simpa using hy
  exact ⟨hwhite, hx, hbom⟩

theorem IsAt.openSequence (h : s.IsAt ready (depth + 1) ts ('[' :: tail)) :
    ∃ s', Leads true s s' ∧ s'.IsAt true (depth + 2) (.flowSequence :: ts) tail :=
  h.exists_leads (beginsToken_cons rfl (by decide) (by decide)) fun a ha => by
    rw [token?_openSequence ha.rest]
    exact ha.openFlow? _

theorem IsAt.openMapping (h : s.IsAt ready (depth + 1) ts ('{' :: tail)) :
    ∃ s', Leads true s s' ∧ s'.IsAt true (depth + 2) (.flowMapping :: ts) tail :=
  h.exists_leads (beginsToken_cons rfl (by decide) (by decide)) fun a ha => by
    rw [token?_openMapping ha.rest]
    exact ha.openFlow? _

theorem IsAt.closeSequence (h : s.IsAt ready (depth + 1) ts (']' :: tail)) :
    ∃ s', Leads true s s' ∧ s'.IsAt false depth (.flowSequenceEnd :: ts) tail :=
  h.exists_leads (beginsToken_cons rfl (by decide) (by decide)) fun a ha => by
    rw [token?_closeSequence ha.rest]
    obtain ⟨s', hs', hafter, -⟩ := ha.closeFlow? .flowSequenceEnd
    exact ⟨s', hs', hafter⟩

theorem IsAt.closeMapping (h : s.IsAt ready (depth + 1) ts ('}' :: tail)) :
    ∃ s', Leads true s s' ∧ s'.IsAt false depth (.flowMappingEnd :: ts) tail :=
  h.exists_leads (beginsToken_cons rfl (by decide) (by decide)) fun a ha => by
    rw [token?_closeMapping ha.rest]
    obtain ⟨s', hs', hafter, -⟩ := ha.closeFlow? .flowMappingEnd
    exact ⟨s', hs', hafter⟩

theorem IsAt.comma (h : s.IsAt ready (depth + 1) ts (',' :: tail)) :
    ∃ s', Leads true s s' ∧ s'.IsAt true (depth + 1) (.flowEntry :: ts) tail :=
  h.exists_leads (beginsToken_cons rfl (by decide) (by decide)) fun a ha => by
    rw [token?_comma ha.rest]
    exact ha.flowEntry?

/-! ### The outermost brackets -/

/-- The bracket that a text begins with, unless a tab stands in front of it. -/
theorem start_openMapping {white : List Char} (hwhite : ∀ x ∈ white, isWhite x = true)
    (tail : List Char) :
    ∃ s', Leads (decide ('\t' ∉ white)) (start (white ++ '{' :: tail)) s' ∧
      s'.IsAt true 1 [.flowMapping] tail := by
  have hon : (start (white ++ '{' :: tail)).IsOn true 0 [] (white ++ '{' :: tail) :=
    ⟨rfl, rfl, ⟨by simp [start], by simp [start]⟩, rfl, rfl, fun _ => rfl⟩
  have hskips : (start (white ++ '{' :: tail)).Skips white ↔ '\t' ∉ white := by
    simp [Skips, start, inFlow]
  obtain ⟨s', hs', hafter⟩ := hon.arrived.openFlow? .flowMapping
  have hlength : 1 + s'.cursor.rest.length ≤ (start (white ++ '{' :: tail)).cursor.rest.length := by
    rw [hafter.rest, hon.rest, List.length_append, List.length_cons]
    omega
  refine ⟨s', ⟨1, hlength, fun fuel => ?_⟩, hafter.isAt⟩
  by_cases htab : '\t' ∈ white
  · have hstays : ¬ (start (white ++ '{' :: tail)).Skips white := by simpa [hskips] using htab
    simp [htab, run?_of_not_skips hon.blocks hon.loose hon.rest hwhite hstays]
  · rw [run?_of_skips hon.blocks hon.loose hon.rest hwhite
      (beginsToken_cons rfl (by decide) (by decide)) (hskips.mpr htab),
      token?_openMapping hon.arrived.rest, hs']
    simp [htab]

/-- The bracket that a text ends with, and white space behind it; after a break no tab may stand
there. -/
theorem IsAt.lastBracket (h : s.IsAt ready 1 ts ('}' :: tail))
    (htail : ∀ x ∈ tail, isWhite x = true) (fuel : Nat) :
    run? (fuel + 2) s =
      if '\t' ∈ tail.dropWhile (!isBreak ·) then none else some (.flowMappingEnd :: ts).reverse := by
  obtain ⟨a, hon, -, hrun⟩ := h.exists_arrived (beginsToken_cons rfl (by decide) (by decide))
  obtain ⟨s', hs', hafter, hkey⟩ := hon.closeFlow? .flowMappingEnd
  have hrest : s'.cursor.rest = tail ++ [] := by rw [hafter.rest, List.append_nil]
  have houter : s'.outer = [] := List.eq_nil_of_length_eq_zero hafter.depth
  have hskips : s'.Skips tail ↔ '\t' ∉ tail.dropWhile (!isBreak ·) := by
    simp [Skips, inFlow, houter, hkey]
  rw [hrun, token?_closeMapping hon.rest, hs', Option.bind_some]
  split
  next htab =>
    exact run?_of_not_skips hafter.blocks hafter.loose hrest htail fun hno => hskips.mp hno htab
  next htab =>
    have hend : (s'.arrived tail).closeBlocks (fun _ => true) = s'.arrived tail :=
      closeBlocks_of_nil (s := s'.arrived tail) hafter.blocks _
    rw [run?_of_skips hafter.blocks hafter.loose hrest htail (by simp [BeginsToken])
      (hskips.mpr htab), List.isEmpty_nil, if_pos rfl, finish?, hend,
      (hafter.loose.arrived tail).dropCandidate?]
    exact congrArg (fun ts => some ts.reverse) hafter.tokens

/-! ### Strings and words -/

/-- A lexer behind a string of a number of characters. -/
private def behindString (text : List Char) (n : Nat) (s : Lexer) : Lexer :=
  { s.saved with
    cursor := s.cursor.skip n
    tokens := .scalar .doubleQuoted text :: s.tokens
    count := s.count + 1
    keyAllowed := false }

section Strings

variable {ps : List Piece} {text : List Char}

private theorem IsOn.quoted?
    (h : a.IsOn ready depth ts ('"' :: (ps.flatMap Piece.chars ++ '"' :: tail)))
    (hline : ∀ x ∈ ps.flatMap Piece.chars, isBreak x = false)
    (htext : ps.any Piece.isSurrogate = false → ps.map Piece.value = text) :
    a.quoted? true .doubleQuoted =
      if !ps.any Piece.isSurrogate then
        some (a.behindString text ((ps.flatMap Piece.chars).length + 2))
      else none := by
  rw [Lexer.quoted?, content?, h.loose.saveCandidate? h.blocks]
  have hscan : Scan.quoted? true a.saved.cursor = _ := Scan.quoted?_pieces h.rest hline
  simp only [Option.bind_eq_bind, Option.bind_some, hscan]
  cases hsurrogate : ps.any Piece.isSurrogate with
  | true => rfl
  | false =>
    rw [htext hsurrogate]
    rfl

private theorem IsOn.behindString (text : List Char)
    (h : a.IsOn ready depth ts ('"' :: (ps.flatMap Piece.chars ++ '"' :: tail))) :
    (a.behindString text ((ps.flatMap Piece.chars).length + 2)).IsOn false depth
      (.scalar .doubleQuoted text :: ts) tail := by
  refine ⟨h.blocks, h.depth, ⟨h.loose.saved.candidate, h.loose.outer⟩, ?_, ?_, by simp⟩
  · simp [Lexer.behindString, h.tokens]
  · have hlength : (ps.flatMap Piece.chars).length + 2 =
        ('"' :: (ps.flatMap Piece.chars ++ ['"'])).length := by simp
    rw [Lexer.behindString, hlength]
    exact Cursor.rest_skip_append (by rw [h.rest]; simp)

/-- A string that is no key. -/
theorem IsAt.string
    (h : s.IsAt ready (depth + 1) ts ('"' :: (ps.flatMap Piece.chars ++ '"' :: tail)))
    (hline : ∀ x ∈ ps.flatMap Piece.chars, isBreak x = false)
    (htext : ps.any Piece.isSurrogate = false → ps.map Piece.value = text) :
    ∃ s', Leads (!ps.any Piece.isSurrogate) s s' ∧
      s'.IsAt false (depth + 1) (.scalar .doubleQuoted text :: ts) tail := by
  obtain ⟨a, hon, hle, hrun⟩ := h.exists_arrived (beginsToken_cons rfl (by decide) (by decide))
  have htoken := (token?_quote hon.rest).trans (hon.quoted? hline htext)
  have hbehind := hon.behindString text
  refine ⟨_, leads_of_token hle hrun htoken ?_, hbehind.isAt⟩
  rw [hbehind.rest, hon.rest, List.length_cons, List.length_append, List.length_cons]
  omega

/-- Whether a colon stands near enough behind a key of a number of characters and white space. -/
def isNear (n : Nat) (white : List Char) : Bool :=
  !white.any isBreak && n + white.length ≤ 1024

private theorem isLate_behind {c : Cursor} {key white : List Char} (number : Nat)
    (hrest : c.rest = key ++ (white ++ tail)) (hkey : ∀ x ∈ key, isBreak x = false) :
    isLate ((c.skip key.length).skip white.length) ⟨false, number, c.line, c.column⟩ =
      !isNear key.length white := by
  have hbehind := Cursor.skip_of_line hrest hkey
  cases hbreak : white.any isBreak with
  | true =>
    have hline := Cursor.line_lt_skip (Cursor.rest_skip_append hrest) (List.any_eq_true.mp hbreak)
    rw [hbehind] at hline
    rw [hbehind]
    simp [isLate, isNear, hbreak, hline]
  | false =>
    have hwhite : ∀ x ∈ white, isBreak x = false := by simpa using hbreak
    have hcolon : (c.skip key.length).skip white.length =
        ⟨tail, c.line, c.column + key.length + white.length⟩ := by
      rw [Cursor.skip_of_line (Cursor.rest_skip_append hrest) hwhite, hbehind]
    rw [hcolon, isLate, isNear, hbreak]
    simp only [Nat.lt_irrefl, decide_false, Bool.false_or, Bool.not_false, Bool.true_and]
    rw [← decide_not, decide_eq_decide]
    omega

private theorem IsOn.value? {t : Token} {near : Bool} {k : KeyCandidate}
    (h : a.IsOn ready (depth + 1) (t :: ts) (':' :: tail))
    (hcandidate : a.candidate = if near then some k else none) (hk : a.count = k.number + 1) :
    ∃ s', a.value? = some s' ∧
      s'.IsOn false (depth + 1) (.value :: t :: if near then .key :: ts else ts) tail := by
  have hflow := h.inFlow
  cases near with
  | true =>
    have hinsert : (a.insertAt k.number .key).openBlock k.column k.number .blockMapping =
        a.insertAt k.number .key := by
      have hflow' : (a.insertAt k.number .key).inFlow = true := hflow
      simp [openBlock, hflow']
    rw [Lexer.value?, hcandidate, if_pos rfl]
    dsimp only
    rw [hinsert]
    refine ⟨_, rfl, h.blocks, h.depth, ⟨by simp [push, moveTo], h.loose.outer⟩, ?_, h.rest_next,
      by simp⟩
    simp [push, moveTo, insertAt, h.tokens, hk]
  | false =>
    have hopen : a.openBlock a.cursor.column a.count .blockMapping = a := by
      simp [openBlock, hflow]
    rw [Lexer.value?, hcandidate, if_neg (by simp)]
    simp only [hflow, Bool.not_true, Bool.false_and, Bool.false_eq_true, if_false, hopen]
    have hnone : a.candidate = none := hcandidate
    refine ⟨_, rfl, h.blocks, h.depth, ⟨by simp [push, moveTo, allow, hnone], h.loose.outer⟩, ?_,
      h.rest_next, by simp⟩
    simp [push, moveTo, allow, h.tokens]

/-- Behind a string and white space the place where a key may have begun is kept if it is near. -/
private theorem IsOn.candidate_behindString {white : List Char} (text : List Char)
    (h : a.IsOn true depth ts ('"' :: (ps.flatMap Piece.chars ++ '"' :: (white ++ ':' :: tail))))
    (hline : ∀ x ∈ ps.flatMap Piece.chars, isBreak x = false) :
    ((a.behindString text ((ps.flatMap Piece.chars).length + 2)).arrived white).candidate =
      if isNear ((ps.flatMap Piece.chars).length + 2) white then
        some ⟨false, a.count, a.cursor.line, a.cursor.column⟩
      else none := by
  have hlength : ('"' :: (ps.flatMap Piece.chars ++ ['"'])).length =
      (ps.flatMap Piece.chars).length + 2 := by simp
  have hkey : ∀ x ∈ '"' :: (ps.flatMap Piece.chars ++ ['"']), isBreak x = false :=
    List.forall_mem_cons.mpr ⟨rfl, List.forall_mem_append.mpr ⟨hline, by simp [isBreak]⟩⟩
  have hrest : a.cursor.rest =
      ('"' :: (ps.flatMap Piece.chars ++ ['"'])) ++ (white ++ ':' :: tail) := by
    rw [h.rest]
    simp
  have hlate := isLate_behind a.count hrest hkey
  rw [hlength] at hlate
  simp only [Lexer.arrived, Lexer.behindString, saved, h.ready rfl, if_true, timely, Option.filter,
    hlate, Bool.not_not]

/-- A string with a colon behind it, where a key may begin. -/
theorem IsAt.key {white : List Char}
    (h : s.IsAt true (depth + 1) ts
      ('"' :: (ps.flatMap Piece.chars ++ '"' :: (white ++ ':' :: tail))))
    (hline : ∀ x ∈ ps.flatMap Piece.chars, isBreak x = false)
    (htext : ps.any Piece.isSurrogate = false → ps.map Piece.value = text)
    (hwhite : ∀ x ∈ white, isWhite x = true) :
    ∃ s', Leads (!ps.any Piece.isSurrogate) s s' ∧
      s'.IsAt false (depth + 1)
        (.value :: .scalar .doubleQuoted text ::
          if isNear ((ps.flatMap Piece.chars).length + 2) white then .key :: ts else ts) tail := by
  obtain ⟨a, hon, hle, hrun⟩ := h.exists_arrived (beginsToken_cons rfl (by decide) (by decide))
  have htoken := (token?_quote hon.rest).trans (hon.quoted? hline htext)
  have hbehind := hon.behindString text
  have hcolon := hbehind.arrived
  obtain ⟨s', hvalue, hafter⟩ := hcolon.value? (hon.candidate_behindString text hline) rfl
  have hfirst : Leads (!ps.any Piece.isSurrogate) s _ := leads_of_token hle hrun htoken (by
    rw [hbehind.rest, hon.rest]
    simp only [List.length_cons, List.length_append]
    omega)
  have hsecond : Leads true _ s' := leads_of_token
    (by rw [hcolon.rest, hbehind.rest, List.length_append]; omega)
    (hbehind.run?_arrived hwhite (beginsToken_cons rfl (by decide) (by decide)))
    ((token?_colon hcolon.rest hcolon.inFlow).trans hvalue)
    (by rw [hafter.rest, hcolon.rest]; exact Nat.lt_succ_self _)
  have hboth := hfirst.trans hsecond
  rw [Bool.and_true] at hboth
  exact ⟨s', hboth, hafter.isAt⟩

end Strings

theorem BeginsWord.beginsToken {x : Char} {next : Option Char} (h : BeginsWord x next)
    (hword : Scan.isWordChar x = true) (rest : List Char) : BeginsToken (x :: rest) := by
  simp only [Scan.isWordChar, Bool.and_eq_true, Bool.not_eq_true'] at hword
  refine beginsToken_cons hword.1.1 ?_ ?_
  · rintro rfl
    rcases h with hx | ⟨hx, -⟩ <;> contradiction
  · rintro rfl
    rcases h with hx | ⟨hx, -⟩ <;> contradiction

theorem BeginsWord.append {x : Char} {more : List Char} (h : BeginsWord x more.head?)
    (tail : List Char) : BeginsWord x (more ++ tail).head? := by
  rcases h with hx | ⟨hx, y, hy, hdigit⟩
  · exact .inl hx
  · refine .inr ⟨hx, y, ?_, hdigit⟩
    rw [Option.mem_def] at hy ⊢
    rw [List.head?_append, hy]
    rfl

/-- A word with a mark behind it, up to white space. -/
theorem IsAt.word {x m : Char} {more white : List Char}
    (h : s.IsAt ready (depth + 1) ts (x :: more ++ (white ++ m :: tail)))
    (hword : ∀ y ∈ x :: more, Scan.isWordChar y = true) (hx : BeginsWord x more.head?)
    (hwhite : ∀ y ∈ white, isWhite y = true) (hm : Scan.isFlowMark m = true) :
    ∃ s', Leads true s s' ∧
      s'.IsAt false (depth + 1) (.scalar .plain (x :: more) :: ts) (m :: tail) := by
  have hbegins := hx.beginsToken (hword x List.mem_cons_self) (more ++ (white ++ m :: tail))
  obtain ⟨a, hon, hle, hrun⟩ := h.exists_arrived hbegins
  obtain ⟨broken, hplain⟩ := Scan.plain?_append hon.rest hword (List.cons_ne_nil x more) hwhite hm
  have hrest : (a.cursor.skip ((x :: more).length + white.length)).rest = m :: tail := by
    rw [Cursor.skip_add]
    exact Cursor.rest_skip_append (Cursor.rest_skip_append hon.rest)
  have htoken : a.token? = some { a.saved with
      cursor := a.cursor.skip ((x :: more).length + white.length)
      tokens := .scalar .plain (x :: more) :: a.tokens
      count := a.count + 1
      keyAllowed := broken } := by
    have hflow : a.saved.inFlow = true := hon.inFlow
    have hfloor : a.saved.floor = 0 := by simp [floor, saved, hon.blocks]
    have hscan : Scan.plain? true 0 a.saved.cursor = _ := hplain
    rw [token?_word hon.rest hon.inFlow (hx.append _), Lexer.plain?,
      hon.loose.saveCandidate? hon.blocks]
    simp only [Option.bind_eq_bind, Option.bind_some, hflow, hfloor, hscan]
    rfl
  refine ⟨_, leads_of_token hle hrun htoken ?_, IsOn.isAt ⟨hon.blocks, hon.depth,
    ⟨hon.loose.saved.candidate, hon.loose.outer⟩, by rw [hon.tokens], hrest, by simp⟩⟩
  have hshorter : (m :: tail).length < (x :: more ++ (white ++ m :: tail)).length := by
    simp only [List.length_cons, List.length_append]
    omega
  rw [hrest, hon.rest]
  exact hshorter

end SidecarAdmission.Yaml.Lexer
