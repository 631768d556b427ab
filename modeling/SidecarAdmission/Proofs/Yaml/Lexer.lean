import SidecarAdmission.Yaml.Token.Lexer
import SidecarAdmission.Proofs.Yaml.Scalar

/-!
What single tokens between brackets do to the lexer. No block is open there and no key is required,
so a place at which a key may have begun is only ever forgotten; white space in front of a token
matters between a key and its colon, and before the first token and behind the last one.
-/

set_option autoImplicit false
set_option relaxedAutoImplicit false

namespace SidecarAdmission.Yaml.Lexer

variable {s s' : Lexer} {white tail : List Char} {fuel : Nat}

/-! ### Candidates for keys -/

/-- Whether no key is required where one may have begun. -/
structure IsLoose (s : Lexer) : Prop where
  candidate : ∀ k ∈ s.candidate, k.required = false
  outer : ∀ o ∈ s.outer, ∀ k ∈ o, k.required = false

/-- What is left of a candidate at a place. -/
def timely (c : Cursor) (o : Option KeyCandidate) : Option KeyCandidate := o.filter (!isLate c ·)

theorem mem_of_mem_timely {c : Cursor} {o : Option KeyCandidate} {k : KeyCandidate}
    (h : k ∈ timely c o) : k ∈ o :=
  (Option.mem_filter_iff.mp h).1

private theorem keepCandidate?_of_forall {o : Option KeyCandidate}
    (h : ∀ k ∈ o, k.required = false) (c : Cursor) : keepCandidate? c o = some (timely c o) := by
  cases o with
  | none => rfl
  | some k =>
    have hk := h k rfl
    by_cases hlate : isLate c k = true
    · simp [keepCandidate?, timely, Option.filter, hlate, hk]
    · simp [keepCandidate?, timely, Option.filter, hlate]

theorem IsLoose.dropCandidate? (h : s.IsLoose) :
    s.dropCandidate? = some { s with candidate := none } := by
  have hnone : s.candidate.any (·.required) = false := by
    cases hcandidate : s.candidate with
    | none => rfl
    | some k => exact h.candidate k hcandidate
  simp [Lexer.dropCandidate?, hnone]

theorem IsLoose.dropLate? (h : s.IsLoose) :
    s.dropLate? = some { s with
      candidate := timely s.cursor s.candidate
      outer := s.outer.map (timely s.cursor) } := by
  have houter : s.outer.mapM (keepCandidate? s.cursor) = some (s.outer.map (timely s.cursor)) := by
    have hall := h.outer
    generalize s.outer = outer at hall
    induction outer with
    | nil => rfl
    | cons o rest ih =>
      obtain ⟨ho, hrest⟩ := List.forall_mem_cons.mp hall
      simp [List.mapM_cons, keepCandidate?_of_forall ho, ih hrest]
  simp [Lexer.dropLate?, keepCandidate?_of_forall h.candidate, houter]

/-- A lexer that keeps this place if a key may begin here. -/
def saved (s : Lexer) : Lexer :=
  { s with
    candidate :=
      if s.keyAllowed then some ⟨false, s.count, s.cursor.line, s.cursor.column⟩ else s.candidate }

theorem IsLoose.saved (h : s.IsLoose) : s.saved.IsLoose := by
  refine ⟨fun k hk => ?_, h.outer⟩
  rw [Lexer.saved] at hk
  split at hk
  · obtain rfl := Option.mem_some_iff.mp hk
    rfl
  · exact h.candidate k hk

/-- Where no block is open a key is never required. -/
theorem IsLoose.saveCandidate? (h : s.IsLoose) (hblocks : s.blocks = []) :
    s.saveCandidate? = some s.saved := by
  have hfloor : (s.floor == s.cursor.column + 1) = false := by
    rw [floor, hblocks]
    simp
  by_cases hkey : s.keyAllowed = true
  · rw [Lexer.saveCandidate?, Lexer.saved, if_pos hkey, if_pos hkey]
    dsimp only
    rw [h.dropCandidate?, hfloor, Bool.and_false]
    rfl
  · rw [Lexer.saveCandidate?, Lexer.saved, if_neg hkey, if_neg hkey]

/-! ### White space -/

/-- Whether white space can be passed: outside of brackets no tab may stand where a key may begin. -/
def Skips (s : Lexer) (white : List Char) : Prop :=
  s.inFlow = true ∨ '\t' ∉ if s.keyAllowed then white else white.dropWhile (!isBreak ·)

instance (s : Lexer) (white : List Char) : Decidable (s.Skips white) :=
  inferInstanceAs (Decidable (_ ∨ _))

/-- A lexer behind white space. -/
def behind (white : List Char) (s : Lexer) : Lexer :=
  { s with
    cursor := s.cursor.skip white.length
    keyAllowed := s.keyAllowed || (!s.inFlow && white.any isBreak) }

/-- Whether a token may begin with what may be a character. -/
def BeginsToken (tail : List Char) : Prop :=
  ∀ x ∈ tail.head?, isWhite x = false ∧ x ≠ '#' ∧ x ≠ '\ufeff'

private theorem dropWhile_blanks {blanks : List Char} (h : ∀ x ∈ blanks, isBlank x = true)
    (later : List Char) :
    (blanks ++ later).dropWhile (!isBreak ·) = later.dropWhile (!isBreak ·) := by
  induction blanks with
  | nil => rfl
  | cons x blanks ih =>
    obtain ⟨hx, hrest⟩ := List.forall_mem_cons.mp h
    simp [not_isBreak_of_isBlank hx, ih hrest]

private theorem any_isBreak_blanks {blanks : List Char} (h : ∀ x ∈ blanks, isBlank x = true) :
    blanks.any isBreak = false := by
  rw [List.any_eq_false]
  intro x hx
  simp [not_isBreak_of_isBlank (h x hx)]

/-- Whether a character is passed on the way to the next token. -/
private def passes (s : Lexer) (x : Char) : Bool :=
  x == ' ' || (x == '\t' && (s.inFlow || !s.keyAllowed))

private theorem passes_eq_false {x : Char} (h : isBlank x = false) : s.passes x = false := by
  simp only [isBlank, Bool.or_eq_false_iff] at h
  simp [passes, h.1, h.2]

/-- A break is not passed, and it begins no comment. -/
private theorem stops_of_isBreak {x : Char} (h : isBreak x = true) :
    s.passes x = false ∧ x ≠ '#' := by
  refine ⟨passes_eq_false ?_, ?_⟩
  · rw [Bool.eq_false_iff]
    intro hblank
    rw [not_isBreak_of_isBlank hblank] at h
    contradiction
  · rintro rfl
    contradiction

/-- A byte order mark is no white space. -/
private theorem mark_notMem_head (hwhite : ∀ x ∈ white, isWhite x = true)
    (htail : white = [] → '\ufeff' ∉ tail.head?) : '\ufeff' ∉ (white ++ tail).head? := by
  rcases white with _ | ⟨x, white⟩
  · exact htail rfl
  · intro hx
    obtain rfl : x = '\ufeff' := by simpa using hx
    exact absurd (hwhite _ List.mem_cons_self) (by decide)

/-- What is passed on a line, up to a break, which is passed as well, or to what is neither passed
nor a comment. -/
private theorem toToken_succ {front rest : List Char} (hrest : s.cursor.rest = front ++ rest)
    (hmark : '\ufeff' ∉ (front ++ rest).head?) (hfront : ∀ x ∈ front, s.passes x = true)
    (hstop : ∀ x ∈ rest.head?, s.passes x = false ∧ x ≠ '#') (n : Nat) :
    s.toToken (n + 1) =
      if rest.head?.any isBreak then
        toToken n { s with
          cursor := (s.cursor.skip front.length).next
          keyAllowed := s.keyAllowed || !s.inFlow }
      else s.moveTo (s.cursor.skip front.length) := by
  have hbom : ¬ (s.cursor.column = 0 ∧ s.cursor.char? = some '\ufeff') := by
    rintro ⟨-, hchar⟩
    rw [Cursor.char?, hrest] at hchar
    exact hmark hchar
  have hspan : s.cursor.span (fun x => x == ' ' || (x == '\t' && (s.inFlow || !s.keyAllowed))) =
      (front, s.cursor.skip front.length) :=
    Cursor.span_append hrest hfront fun x hx => (hstop x hx).1
  have hchar : (s.cursor.skip front.length).char? = rest.head? := by
    rw [Cursor.char?, Cursor.rest_skip_append hrest]
  have hcomment : ¬ rest.head? = some '#' := fun h => (hstop _ h).2 rfl
  rw [toToken]
  simp only [hbom, if_false, Cursor.skipWhile, hspan, hchar, hcomment]

private theorem Skips.passes {blanks later : List Char} (h : s.Skips (blanks ++ later))
    (hblanks : ∀ x ∈ blanks, isBlank x = true) : ∀ x ∈ blanks, s.passes x = true := by
  intro x hx
  have hcases : x = ' ' ∨ x = '\t' := by simpa [isBlank] using hblanks x hx
  rcases hcases with rfl | rfl
  · rfl
  · rcases h with hflow | htab
    · simp [Lexer.passes, hflow]
    · cases hkey : s.keyAllowed with
      | false => simp [Lexer.passes, hkey]
      | true =>
        rw [hkey, if_pos rfl] at htab
        exact absurd (List.mem_append_left later hx) htab

/-- Behind a break that can be passed further white space can be passed. -/
private theorem Skips.later {blanks later : List Char} {y : Char}
    (h : s.Skips (blanks ++ y :: later)) (hblanks : ∀ x ∈ blanks, isBlank x = true)
    (hy : isBreak y = true) (c : Cursor) :
    Skips { s with cursor := c, keyAllowed := s.keyAllowed || !s.inFlow } later := by
  rcases h with hflow | htab
  · exact .inl hflow
  · cases hflow : s.inFlow with
    | true => exact .inl hflow
    | false =>
      refine .inr ?_
      simp only [Bool.not_false, Bool.or_true, if_true]
      intro hmem
      refine htab ?_
      split
      · simp [hmem]
      · rw [dropWhile_blanks hblanks]
        simp [hy, hmem]

/-- Behind white space that can be passed the next token begins. -/
theorem toToken_of_skips {n : Nat} (hrest : s.cursor.rest = white ++ tail)
    (hwhite : ∀ x ∈ white, isWhite x = true) (htail : BeginsToken tail) (hskips : s.Skips white)
    (hn : white.length < n) : s.toToken n = s.behind white := by
  induction n generalizing s white with
  | zero => contradiction
  | succ n ih =>
    have hmark := mark_notMem_head hwhite fun _ h => (htail _ h).2.2 rfl
    obtain ⟨blanks, later, rfl, hblanks, hlater⟩ := exists_blanks_append hwhite
    have hpasses := hskips.passes hblanks
    rw [List.append_assoc] at hrest hmark
    rcases later with _ | ⟨y, later⟩
    · have hstop : ∀ x ∈ tail.head?, s.passes x = false ∧ x ≠ '#' := fun x hx =>
        ⟨passes_eq_false (isBlank_eq_false (htail x hx).1), (htail x hx).2.1⟩
      have hline : tail.head?.any isBreak = false := by
        cases hhead : tail.head? with
        | none => rfl
        | some x => exact isBreak_eq_false (htail x hhead).1
      rw [toToken_succ hrest hmark hpasses hstop, List.nil_append, hline]
      simp [behind, moveTo, any_isBreak_blanks hblanks]
    · -- a break is passed by itself, and further white space after it
      have hy : isBreak y = true := hlater y rfl
      have hbreak : ((y :: later ++ tail).head?.any isBreak) = true := hy
      have hafter : (s.cursor.skip blanks.length).next.rest = later ++ tail := by
        rw [Cursor.rest_next, Cursor.rest_skip_append hrest]
        rfl
      have hcursor : (s.cursor.skip blanks.length).next.skip later.length =
          s.cursor.skip (blanks ++ y :: later).length := by
        rw [Cursor.next_eq_skip, ← Cursor.skip_add, ← Cursor.skip_add, List.length_append,
          List.length_cons]
        congr 1
        omega
      have hbreaks : (blanks ++ y :: later).any isBreak = true := by simp [hy]
      have hskips' := hskips.later hblanks hy (s.cursor.skip blanks.length).next
      have hih := ih hafter (fun x hx => hwhite x (by simp [hx])) hskips' (by simp at hn; omega)
      have hflow : Lexer.inFlow { s with
          cursor := (s.cursor.skip blanks.length).next
          keyAllowed := s.keyAllowed || !s.inFlow } = s.inFlow := rfl
      rw [toToken_succ hrest hmark hpasses (by simpa using stops_of_isBreak hy), if_pos hbreak]
      simp only [hih, behind, hcursor, hflow, hbreaks]
      cases s.keyAllowed <;> cases s.inFlow <;> rfl

/-- White space with a tab has a first tab, or a break before it. -/
private theorem exists_spaces_append {white : List Char} (hwhite : ∀ x ∈ white, isWhite x = true)
    (htab : '\t' ∈ white) :
    ∃ spaces y later, white = spaces ++ y :: later ∧ (∀ x ∈ spaces, x = ' ') ∧
      (y = '\t' ∨ isBreak y = true ∧ '\t' ∈ later) := by
  induction white with
  | nil => exact absurd htab List.not_mem_nil
  | cons x white ih =>
    obtain ⟨hx, hrest⟩ := List.forall_mem_cons.mp hwhite
    have hlater : x ≠ '\t' → '\t' ∈ white := fun hne =>
      (List.mem_cons.mp htab).resolve_left fun heq => hne heq.symm
    rcases isBlank_or_isBreak hx with hblank | hbreak
    · have hcases : x = ' ' ∨ x = '\t' := by simpa [isBlank] using hblank
      rcases hcases with rfl | rfl
      · obtain ⟨spaces, y, later, rfl, hspaces, hy⟩ := ih hrest (hlater (by decide))
        exact ⟨' ' :: spaces, y, later, rfl, List.forall_mem_cons.mpr ⟨rfl, hspaces⟩, hy⟩
      · exact ⟨[], '\t', white, rfl, by simp, .inl rfl⟩
    · have hne : x ≠ '\t' := by
        rintro rfl
        contradiction
      exact ⟨[], x, white, rfl, by simp, .inr ⟨hbreak, hlater hne⟩⟩

/-- White space that cannot be passed has a tab that is not passed, or a break with a tab behind
it. -/
private theorem exists_front_of_not_skips (hwhite : ∀ x ∈ white, isWhite x = true)
    (h : ¬ s.Skips white) : ∃ front y later, white = front ++ y :: later ∧
      (∀ x ∈ front, s.passes x = true) ∧ s.inFlow = false ∧
      (s.keyAllowed = true ∧ y = '\t' ∨ isBreak y = true ∧ '\t' ∈ later) := by
  obtain ⟨hflow, htab⟩ := not_or.mp h
  rw [Bool.not_eq_true] at hflow
  rw [not_not] at htab
  cases hkey : s.keyAllowed with
  | true =>
    rw [hkey, if_pos rfl] at htab
    obtain ⟨spaces, y, later, heq, hspaces, hy⟩ := exists_spaces_append hwhite htab
    exact ⟨spaces, y, later, heq, fun x hx => by simp [passes, hspaces x hx], hflow,
      hy.imp_left fun hy => ⟨rfl, hy⟩⟩
  | false =>
    rw [hkey, if_neg (by simp)] at htab
    obtain ⟨blanks, later, rfl, hblanks, hlater⟩ := exists_blanks_append hwhite
    rw [dropWhile_blanks hblanks] at htab
    rcases later with _ | ⟨y, later⟩
    · contradiction
    have hy : isBreak y = true := hlater y rfl
    have hne : y ≠ '\t' := by
      rintro rfl
      contradiction
    have hmem : '\t' ∈ later := by simpa [hy, hne.symm] using htab
    refine ⟨blanks, y, later, rfl, fun x hx => ?_, hflow, .inr ⟨hy, hmem⟩⟩
    simpa [passes, hkey, isBlank] using hblanks x hx

/-- White space that cannot be passed ends at a tab. -/
theorem toToken_of_not_skips {n : Nat} (hrest : s.cursor.rest = white ++ tail)
    (hwhite : ∀ x ∈ white, isWhite x = true) (hskips : ¬ s.Skips white) (hn : white.length < n) :
    ∃ c keyAllowed, s.toToken n = { s with cursor := c, keyAllowed } ∧ c.char? = some '\t' := by
  induction n generalizing s white with
  | zero => contradiction
  | succ n ih =>
    obtain ⟨front, y, later, rfl, hfront, hflow, hy⟩ := exists_front_of_not_skips hwhite hskips
    have hmark : '\ufeff' ∉ (front ++ y :: later ++ tail).head? :=
      mark_notMem_head hwhite (by simp)
    rw [List.append_assoc] at hrest hmark
    have hstop : s.passes y = false ∧ y ≠ '#' := by
      rcases hy with ⟨hkey, rfl⟩ | ⟨hbreak, -⟩
      · exact ⟨by simp [passes, hkey, hflow], by decide⟩
      · exact stops_of_isBreak hbreak
    rw [toToken_succ hrest hmark hfront (by simpa using hstop), List.cons_append, List.head?_cons,
      Option.any_some]
    rcases hy with ⟨-, rfl⟩ | ⟨hbreak, htab⟩
    · refine ⟨s.cursor.skip front.length, s.keyAllowed, ?_, ?_⟩
      · rw [if_neg (by decide)]
        rfl
      · rw [Cursor.char?, Cursor.rest_skip_append hrest]
        rfl
    · have hafter : (s.cursor.skip front.length).next.rest = later ++ tail := by
        rw [Cursor.rest_next, Cursor.rest_skip_append hrest]
        rfl
      have hskips' : ¬ Skips { s with
          cursor := (s.cursor.skip front.length).next
          keyAllowed := s.keyAllowed || !s.inFlow } later := by
        refine not_or.mpr ⟨Bool.not_eq_true _ ▸ hflow, ?_⟩
        simp [hflow, htab]
      obtain ⟨c, keyAllowed, hto, hc⟩ :=
        ih hafter (fun x hx => hwhite x (by simp [hx])) hskips' (by simp at hn; omega)
      exact ⟨c, keyAllowed, by rw [if_pos hbreak, hto], hc⟩

/-! ### One token -/

theorem closeBlocks_of_nil (h : s.blocks = []) (isDeeper : Nat → Bool) :
    s.closeBlocks isDeeper = s := by
  obtain ⟨cursor, tokens, count, blocks, candidate, outer, keyAllowed⟩ := s
  obtain rfl : blocks = [] := h
  simp [closeBlocks]

/-- A lexer behind white space, without the candidates for which it is too late there. -/
def arrived (white : List Char) (s : Lexer) : Lexer :=
  { s.behind white with
    candidate := timely (s.cursor.skip white.length) s.candidate
    outer := s.outer.map (timely (s.cursor.skip white.length)) }

theorem IsLoose.arrived (h : s.IsLoose) (white : List Char) : (s.arrived white).IsLoose := by
  refine ⟨fun k hk => h.candidate k (mem_of_mem_timely hk), fun o ho k hk => ?_⟩
  obtain ⟨o', ho', rfl⟩ := List.mem_map.mp ho
  exact h.outer o' ho' k (mem_of_mem_timely hk)

theorem run?_of_skips (hblocks : s.blocks = []) (hloose : s.IsLoose)
    (hrest : s.cursor.rest = white ++ tail) (hwhite : ∀ x ∈ white, isWhite x = true)
    (htail : BeginsToken tail) (hskips : s.Skips white) :
    run? (fuel + 1) s =
      if tail.isEmpty then (s.arrived white).finish?
      else (s.arrived white).token?.bind (run? fuel) := by
  have hto : s.toToken (s.cursor.rest.length + 1) = s.behind white := by
    refine toToken_of_skips hrest hwhite htail hskips ?_
    rw [hrest, List.length_append]
    omega
  have hbehind : (s.behind white).IsLoose := ⟨hloose.candidate, hloose.outer⟩
  have hclose : ∀ p, (s.arrived white).closeBlocks p = s.arrived white :=
    closeBlocks_of_nil hblocks
  have hdrop : (s.behind white).dropLate? = some (s.arrived white) := hbehind.dropLate?
  have hend : (s.arrived white).cursor.rest = tail := Cursor.rest_skip_append hrest
  rw [run?, hto, hdrop]
  simp only [Option.bind_eq_bind, Option.bind_some, hclose, hend]

theorem run?_of_not_skips (hblocks : s.blocks = []) (hloose : s.IsLoose)
    (hrest : s.cursor.rest = white ++ tail) (hwhite : ∀ x ∈ white, isWhite x = true)
    (hskips : ¬ s.Skips white) : run? fuel s = none := by
  cases fuel with
  | zero => rfl
  | succ fuel =>
    obtain ⟨c, keyAllowed, hto, hchar⟩ := toToken_of_not_skips (n := s.cursor.rest.length + 1)
      hrest hwhite hskips (by rw [hrest, List.length_append]; omega)
    have hloose' : IsLoose { s with cursor := c, keyAllowed } := ⟨hloose.candidate, hloose.outer⟩
    obtain ⟨rest, hc⟩ : ∃ rest, c.rest = '\t' :: rest := by
      rcases hrest : c.rest with _ | ⟨x, rest⟩
      · simp [Cursor.char?, hrest] at hchar
      · obtain rfl : x = '\t' := by simpa [Cursor.char?, hrest] using hchar
        exact ⟨rest, rfl⟩
    have hunmarked : Cursor.IsUnmarked c.rest := by
      intro x hx
      obtain rfl : '\t' = x := by simpa [hc] using hx
      simp
    have htoken : ∀ a : Lexer, a.blocks = [] → a.cursor = c →
        (if (a.closeBlocks (a.cursor.column < ·)).cursor.rest.isEmpty then
          (a.closeBlocks (a.cursor.column < ·)).finish?
        else (a.closeBlocks (a.cursor.column < ·)).token?.bind (run? fuel)) = none := by
      rintro a hnil rfl
      have hnone : a.token? = none := by
        simp [token?, hchar, Cursor.isAtDocumentStart_of_isUnmarked hunmarked,
          Cursor.isAtDocumentEnd_of_isUnmarked hunmarked, beginsPlain, isWhite, isBlank]
      rw [closeBlocks_of_nil hnil, hnone, hc]
      rfl
    rw [run?, hto, hloose'.dropLate?]
    exact htoken _ hblocks rfl

end SidecarAdmission.Yaml.Lexer
