import SidecarAdmission.Json.Printer
import SidecarAdmission.Json.Reader
import SidecarAdmission.Proofs.Json.Lexeme

/-!
Writing a document and reading it back. A document is written as the spellings of its tokens; if its
literals and numerals can stand in a text, the reader cuts these tokens out of it and puts the
document together again. The documents of that kind are exactly those that some text spells.
-/

set_option autoImplicit false
set_option relaxedAutoImplicit false

namespace SidecarAdmission.Json

open SidecarAdmission.Text

/-- A property of a document follows from that of its parts. -/
theorem induct {motive : Json → Prop} (scalar : ∀ s, motive (.scalar s))
    (array : ∀ items, (∀ v ∈ items, motive v) → motive (.array items))
    (object : ∀ members, (∀ m ∈ members, motive m.2) → motive (.object members)) (v : Json) :
    motive v := by
  apply @Json.rec motive (fun items => ∀ v ∈ items, motive v)
    (fun members => ∀ m ∈ members, motive m.2) (fun m => motive m.2) scalar array object
  case nil => simp
  case cons => exact fun v rest hv hrest => List.forall_mem_cons.mpr ⟨hv, hrest⟩
  case nil => simp
  case cons => exact fun m rest hm hrest => List.forall_mem_cons.mpr ⟨hm, hrest⟩
  case mk => exact fun k v hv => hv

/-! ### The tokens of a document -/

/-- Lists of tokens with commas between them. -/
def separate : List (List Token) → List Token
  | [] => []
  | ts :: rest => ts ++ rest.flatMap (.comma :: ·)

mutual

/-- The tokens of a document. -/
def tokens : Json → List Token
  | .scalar s => [.scalar s]
  | .array items => .beginArray :: (separate (itemTokens items) ++ [.endArray])
  | .object members => .beginObject :: (separate (memberTokens members) ++ [.endObject])

/-- The tokens of each item. -/
def itemTokens : List Json → List (List Token)
  | [] => []
  | v :: rest => tokens v :: itemTokens rest

/-- The tokens of each member. -/
def memberTokens : List (Literal × Json) → List (List Token)
  | [] => []
  | (k, v) :: rest => (.scalar (.string k) :: .colon :: tokens v) :: memberTokens rest

end

theorem itemTokens_eq (items : List Json) : itemTokens items = items.map tokens := by
  induction items with
  | nil => rfl
  | cons v rest ih => simp [itemTokens, ih]

theorem memberTokens_eq (members : List (Literal × Json)) :
    memberTokens members =
      members.map fun m => .scalar (.string m.1) :: .colon :: tokens m.2 := by
  induction members with
  | nil => rfl
  | cons m rest ih => simp [memberTokens, ih]

theorem printItems_eq (items : List Json) : printItems items = items.map print := by
  induction items with
  | nil => rfl
  | cons v rest ih => simp [printItems, ih]

theorem printMembers_eq (members : List (Literal × Json)) :
    printMembers members = members.map fun m => (m.1, print m.2) := by
  induction members with
  | nil => rfl
  | cons m rest ih => simp [printMembers, ih]

theorem commaSeparated_cons (x : Octets) (xs : List Octets) :
    commaSeparated (x :: xs) = x ++ xs.flatMap (0x2c :: ·) := by
  induction xs generalizing x with
  | nil => simp [commaSeparated]
  | cons y ys ih =>
    rw [commaSeparated.eq_def]
    simp only [ih, List.flatMap_cons, List.cons_append]

theorem forall_mem_separate {P : Token → Prop} (hcomma : P .comma) (parts : List (List Token)) :
    (∀ t ∈ separate parts, P t) ↔ ∀ ts ∈ parts, ∀ t ∈ ts, P t := by
  have hrest : ∀ rest : List (List Token),
      (∀ t ∈ rest.flatMap (.comma :: ·), P t) ↔ ∀ ts ∈ rest, ∀ t ∈ ts, P t := by
    intro rest
    induction rest with
    | nil => simp
    | cons ts rest ih =>
      simp only [List.flatMap_cons, List.forall_mem_append, List.forall_mem_cons, hcomma, true_and,
        ih]
  cases parts with
  | nil => simp [separate]
  | cons ts rest => simp only [separate, List.forall_mem_append, List.forall_mem_cons, hrest]

/-- A document is well spelled if its tokens are. -/
def WellSpelled (v : Json) : Prop := ∀ t ∈ v.tokens, t.isWellSpelled = true

@[simp] theorem wellSpelled_scalar {s : Scalar} :
    (Json.scalar s).WellSpelled ↔ s.isWellSpelled = true := by
  simp [WellSpelled, tokens, Token.isWellSpelled]

@[simp] theorem wellSpelled_array {items : List Json} :
    (Json.array items).WellSpelled ↔ ∀ v ∈ items, v.WellSpelled := by
  simp only [WellSpelled, tokens, List.forall_mem_cons, List.forall_mem_append,
    forall_mem_separate (P := fun t => t.isWellSpelled = true) rfl, itemTokens_eq,
    List.forall_mem_map]
  simp [Token.isWellSpelled]

@[simp] theorem wellSpelled_object {members : List (Literal × Json)} :
    (Json.object members).WellSpelled ↔
      ∀ m ∈ members, m.1.isWellSpelled = true ∧ m.2.WellSpelled := by
  simp only [WellSpelled, tokens, List.forall_mem_cons, List.forall_mem_append,
    forall_mem_separate (P := fun t => t.isWellSpelled = true) rfl, memberTokens_eq,
    List.forall_mem_map]
  simp [Token.isWellSpelled, Scalar.isWellSpelled]

/-! ### Cutting out the tokens of what is written -/

/-- Whether tokens are delimited where a value may end behind them. -/
def Closed (ts : List Token) : Prop :=
  ∀ rest, Delimited rest → (∀ next ∈ rest.head?, next.endsValue = true) → Delimited (ts ++ rest)

/-- A mark in front of tokens needs nothing of them. -/
theorem delimited_cons {t : Token} (ht : ∀ s, t ≠ .scalar s) {rest : List Token}
    (hrest : Delimited rest) : Delimited (t :: rest) :=
  ⟨fun s hs => absurd hs (ht s), hrest⟩

private theorem closed_separate {parts : List (List Token)} (h : ∀ ts ∈ parts, Closed ts) :
    Closed (separate parts) := by
  have hlater : ∀ later : List (List Token), (∀ ts ∈ later, Closed ts) →
      ∀ rest, Delimited rest → (∀ next ∈ rest.head?, next.endsValue = true) →
        Delimited (later.flatMap (.comma :: ·) ++ rest) ∧
          ∀ next ∈ (later.flatMap (.comma :: ·) ++ rest).head?, next.endsValue = true := by
    intro later
    induction later with
    | nil => exact fun _ rest hrest hnext => ⟨hrest, hnext⟩
    | cons ts later ih =>
      intro hall rest hrest hnext
      obtain ⟨hts, hlater⟩ := List.forall_mem_cons.mp hall
      obtain ⟨hmore, hcomma⟩ := ih hlater rest hrest hnext
      simp only [List.flatMap_cons, List.cons_append, List.append_assoc]
      exact ⟨delimited_cons (by simp) (hts _ hmore hcomma), by simp [Token.endsValue]⟩
  cases parts with
  | nil => exact fun rest hrest _ => hrest
  | cons ts later =>
    intro rest hrest hnext
    obtain ⟨hts, hall⟩ := List.forall_mem_cons.mp h
    obtain ⟨hmore, hcomma⟩ := hlater later hall rest hrest hnext
    rw [separate, List.append_assoc]
    exact hts _ hmore hcomma

theorem closed_tokens (v : Json) : Closed v.tokens := by
  induction v using Json.induct with
  | scalar s => exact fun rest hrest hnext => ⟨fun _ _ => hnext, hrest⟩
  | array items ih =>
    have hparts : ∀ ts ∈ itemTokens items, Closed ts := by
      rw [itemTokens_eq]
      exact List.forall_mem_map.mpr ih
    intro rest hrest _
    rw [tokens, List.cons_append, List.append_assoc]
    have hend : Delimited (.endArray :: rest) := delimited_cons (by simp) hrest
    exact delimited_cons (by simp) (closed_separate hparts _ hend (by simp [Token.endsValue]))
  | object members ih =>
    have hparts : ∀ ts ∈ memberTokens members, Closed ts := by
      rw [memberTokens_eq]
      intro ts hts
      obtain ⟨m, hm, rfl⟩ := List.mem_map.mp hts
      intro rest hrest hnext
      refine ⟨fun _ _ => by simp [Token.endsValue], ?_⟩
      exact delimited_cons (by simp) (ih m hm rest hrest hnext)
    intro rest hrest _
    rw [tokens, List.cons_append, List.append_assoc]
    have hend : Delimited (.endObject :: rest) := delimited_cons (by simp) hrest
    exact delimited_cons (by simp) (closed_separate hparts _ hend (by simp [Token.endsValue]))

/-- In a document a mark comes behind each value without parts. -/
theorem delimited_tokens (v : Json) : Delimited v.tokens := by
  have hclosed := closed_tokens v [] trivial (by simp)
  rwa [List.append_nil] at hclosed

private theorem flatMap_spell_separate (parts : List (List Token)) :
    (separate parts).flatMap Token.spell =
      commaSeparated (parts.map (·.flatMap Token.spell)) := by
  cases parts with
  | nil => rfl
  | cons ts later =>
    rw [separate, List.map_cons, commaSeparated_cons, List.flatMap_append, List.flatMap_assoc,
      List.flatMap_map]
    rfl

/-- A document is written as its tokens are. -/
theorem flatMap_spell_tokens (v : Json) : v.tokens.flatMap Token.spell = v.print := by
  induction v using Json.induct with
  | scalar s => simp [tokens, print, Token.spell]
  | array items ih =>
    have hitems : (itemTokens items).map (·.flatMap Token.spell) = printItems items := by
      rw [itemTokens_eq, printItems_eq, List.map_map]
      exact List.map_congr_left ih
    simp [tokens, print, writeArray, Token.spell, flatMap_spell_separate, hitems]
  | object members ih =>
    have hmembers : (memberTokens members).map (·.flatMap Token.spell) =
        (printMembers members).map fun m => writeMember m.1 m.2 := by
      rw [memberTokens_eq, printMembers_eq, List.map_map, List.map_map]
      refine List.map_congr_left fun m hm => ?_
      simp [writeMember, Token.spell, ih m hm]
    simp [tokens, print, writeObject, Token.spell, flatMap_spell_separate, hmembers]

theorem flatMap_spell_bare (ts : List Token) :
    (ts.map Lexeme.bare).flatMap Lexeme.spell = ts.flatMap Token.spell := by
  rw [List.flatMap_map]
  rfl

theorem map_token_bare (ts : List Token) : (ts.map Lexeme.bare).map (·.token) = ts := by
  simp [Lexeme.bare, Function.comp_def]

/-- A well spelled document is written as the lexemes of its tokens, without white space. -/
theorem lexemes?_print {v : Json} (hv : v.WellSpelled) :
    lexemes? v.print = some (v.tokens.map .bare) := by
  have hsound : ∀ l ∈ v.tokens.map Lexeme.bare, l.IsSound :=
    List.forall_mem_map.mpr fun t ht => Lexeme.isSound_bare (hv t ht)
  have hdelimited : Delimited ((v.tokens.map Lexeme.bare).map (·.token)) := by
    rw [map_token_bare]
    exact delimited_tokens v
  rw [← flatMap_spell_tokens, ← flatMap_spell_bare]
  exact lexemes?_flatMap_spell hsound hdelimited

/-! ### Putting a document together again -/

namespace Builder

theorem run?_cons (s : State) (t : Token) (rest : List Token) :
    run? s (t :: rest) = (step? s t).bind fun s => run? s rest := by
  rw [run?]
  cases step? s t <;> rfl

/-- A document begins with no token that ends an array. -/
theorem run?_itemOrEnd_tokens (v : Json) (frames : List Frame) (rest : List Token) :
    run? ⟨frames, .itemOrEnd⟩ (v.tokens ++ rest) = run? ⟨frames, .value⟩ (v.tokens ++ rest) := by
  cases v <;> rfl

/-- Parts behind commas are taken into their frame, each as one of them is. -/
theorem run?_separated {α : Type} {part : α → List Token} (frame : List α → Frame)
    {frames : List Frame} {later : List α}
    (h : ∀ x ∈ later, ∀ done rest,
      run? ⟨frame done :: frames, .commaOrEnd⟩ (.comma :: (part x ++ rest)) =
        run? ⟨frame (x :: done) :: frames, .commaOrEnd⟩ rest) (done : List α)
    (rest : List Token) :
    run? ⟨frame done :: frames, .commaOrEnd⟩ ((later.map part).flatMap (.comma :: ·) ++ rest) =
      run? ⟨frame (later.reverse ++ done) :: frames, .commaOrEnd⟩ rest := by
  induction later generalizing done with
  | nil => rfl
  | cons x later ih =>
    obtain ⟨hx, hlater⟩ := List.forall_mem_cons.mp h
    simp only [List.map_cons, List.flatMap_cons, List.cons_append, List.append_assoc]
    rw [hx, ih hlater (x :: done)]
    simp

/-- The tokens of a document complete a value with it. -/
theorem run?_tokens (v : Json) (frames : List Frame) (rest : List Token) :
    run? ⟨frames, .value⟩ (v.tokens ++ rest) =
      (complete v frames).bind fun s => run? s rest := by
  induction v using Json.induct generalizing frames rest with
  | scalar s => exact run?_cons _ _ _
  | array items ih =>
    have hitem : ∀ w ∈ items, ∀ done rest,
        run? ⟨.array done :: frames, .value⟩ (w.tokens ++ rest) =
          run? ⟨.array (w :: done) :: frames, .commaOrEnd⟩ rest := by
      intro w hw done rest
      rw [ih w hw, complete, Option.bind_some]
    have hend : ∀ done, run? ⟨.array done :: frames, .commaOrEnd⟩ (.endArray :: rest) =
        (complete (.array done.reverse) frames).bind fun s => run? s rest :=
      fun done => run?_cons _ _ _
    rw [tokens, itemTokens_eq, List.cons_append, run?_cons]
    -- The first item stands where the array could also end; the others stand behind commas.
    cases items with
    | nil => exact run?_cons _ _ _
    | cons w later =>
      obtain ⟨hw, hlater⟩ := List.forall_mem_cons.mp hitem
      have hbegin : step? ⟨frames, .value⟩ .beginArray = some ⟨.array [] :: frames, .itemOrEnd⟩ :=
        rfl
      simp only [hbegin, Option.bind_some, List.map_cons, separate, List.append_assoc,
        run?_itemOrEnd_tokens, List.singleton_append]
      rw [hw, run?_separated .array hlater, hend]
      simp
  | object members ih =>
    have hmember : ∀ m ∈ members, ∀ done rest,
        run? ⟨.object done :: frames, .key⟩
          (.scalar (.string m.1) :: .colon :: (m.2.tokens ++ rest)) =
        run? ⟨.object (m :: done) :: frames, .commaOrEnd⟩ rest := by
      intro m hm done rest
      have hkey : run? ⟨.object done :: frames, .key⟩
          (.scalar (.string m.1) :: .colon :: (m.2.tokens ++ rest)) =
            run? ⟨.member done m.1 :: frames, .value⟩ (m.2.tokens ++ rest) := rfl
      rw [hkey, ih m hm, complete, Option.bind_some]
    have hend : ∀ done, run? ⟨.object done :: frames, .commaOrEnd⟩ (.endObject :: rest) =
        (complete (.object done.reverse) frames).bind fun s => run? s rest :=
      fun done => run?_cons _ _ _
    rw [tokens, memberTokens_eq, List.cons_append, run?_cons]
    cases members with
    | nil => exact run?_cons _ _ _
    | cons m later =>
      obtain ⟨hm, hlater⟩ := List.forall_mem_cons.mp hmember
      have hbegin : step? ⟨frames, .value⟩ .beginObject = some ⟨.object [] :: frames, .keyOrEnd⟩ :=
        rfl
      have hfirst : ∀ more, run? ⟨.object [] :: frames, .keyOrEnd⟩ (.scalar (.string m.1) :: more) =
          run? ⟨.object [] :: frames, .key⟩ (.scalar (.string m.1) :: more) := fun _ => rfl
      simp only [hbegin, Option.bind_some, List.map_cons, separate, List.append_assoc,
        List.cons_append, List.nil_append, hfirst]
      rw [hm, run?_separated .object hlater, hend]
      simp

/-! ### The tokens of what is put together -/

/-- The tokens of an open frame, with a comma behind each part. -/
def Frame.tokens : Frame → List Token
  | .array items => .beginArray :: (itemTokens items.reverse).flatMap (· ++ [.comma])
  | .object members => .beginObject :: (memberTokens members.reverse).flatMap (· ++ [.comma])
  | .member members key => .beginObject :: (memberTokens members.reverse).flatMap (· ++ [.comma])
      ++ [.scalar (.string key), .colon]

/-- The tokens of open frames, the outermost first. -/
def openTokens (frames : List Frame) : List Token := frames.reverse.flatMap Frame.tokens

theorem openTokens_cons (f : Frame) (frames : List Frame) :
    openTokens (f :: frames) = openTokens frames ++ f.tokens := by
  simp [openTokens]

/-- Whether tokens are those that have led to a state. -/
def State.Records (s : State) (ts : List Token) : Prop :=
  match s.expect with
  | .value | .key => ts = openTokens s.frames
  | .itemOrEnd => ts = openTokens s.frames ∧ ∃ frames, s.frames = .array [] :: frames
  | .keyOrEnd => ts = openTokens s.frames ∧ ∃ frames, s.frames = .object [] :: frames
  | .colon => ts ++ [.colon] = openTokens s.frames
  | .commaOrEnd => ts ++ [.comma] = openTokens s.frames
  | .nothing v => ts = v.tokens

variable {s : State} {t : Token} {ts : List Token} {frames : List Frame} {v : Json}

theorem records_complete (h : complete v frames = some s) :
    s.Records (openTokens frames ++ v.tokens) := by
  cases frames with
  | nil =>
    cases h
    rfl
  | cons f frames =>
    cases f with
    | array items =>
      cases h
      simp [State.Records, openTokens_cons, Frame.tokens, itemTokens_eq]
    | object members => contradiction
    | member members key =>
      cases h
      simp [State.Records, openTokens_cons, Frame.tokens, memberTokens_eq]

theorem records_begin? (h : begin? frames t = some s) : s.Records (openTokens frames ++ [t]) := by
  unfold begin? at h
  split at h
  · exact records_complete h
  · cases h
    exact ⟨by simp [openTokens_cons, Frame.tokens, itemTokens], _, rfl⟩
  · cases h
    exact ⟨by simp [openTokens_cons, Frame.tokens, memberTokens], _, rfl⟩
  · contradiction

theorem records_key? (h : key? frames t = some s) : s.Records (openTokens frames ++ [t]) := by
  unfold key? at h
  split at h
  · cases h
    simp [State.Records, openTokens_cons, Frame.tokens]
  · contradiction

/-- Without the comma behind the last of them, parts stand between commas. -/
private theorem eq_separate_of_concat_comma {front : List Token} {first : Token}
    (hfirst : first ≠ .comma) {parts : List (List Token)}
    (h : ts ++ [.comma] = front ++ first :: parts.flatMap (· ++ [.comma])) :
    ts = front ++ first :: separate parts := by
  cases parts with
  | nil =>
    obtain ⟨-, hlast⟩ := List.append_inj' h rfl
    exact absurd (List.head_eq_of_cons_eq hlast).symm hfirst
  | cons ts' later =>
    have hcommas : (ts' :: later).flatMap (· ++ [.comma]) =
        separate (ts' :: later) ++ [.comma] := by
      clear h
      induction later generalizing ts' with
      | nil => simp [separate]
      | cons next later ih =>
        rw [List.flatMap_cons, ih next]
        simp [separate]
    rw [hcommas, ← List.cons_append, ← List.append_assoc] at h
    exact List.append_cancel_right h

/-- The token that closes a frame comes in place of the comma behind its last part. -/
theorem records_end? (hopen : ts ++ [.comma] = openTokens frames)
    (h : end? frames t = some s) : s.Records (ts ++ [t]) := by
  unfold end? at h
  split at h
  · rw [openTokens_cons, Frame.tokens] at hopen
    rw [eq_separate_of_concat_comma (by simp) hopen]
    have hrecords := records_complete h
    rwa [tokens, ← List.cons_append, ← List.append_assoc] at hrecords
  · rw [openTokens_cons, Frame.tokens] at hopen
    rw [eq_separate_of_concat_comma (by simp) hopen]
    have hrecords := records_complete h
    rwa [tokens, ← List.cons_append, ← List.append_assoc] at hrecords
  · contradiction

theorem records_step? {s' : State} (hs : s.Records ts) (h : step? s t = some s') :
    s'.Records (ts ++ [t]) := by
  obtain ⟨frames, expect⟩ := s
  cases expect with
  | value =>
    obtain rfl : ts = openTokens frames := hs
    exact records_begin? h
  | itemOrEnd =>
    obtain ⟨rfl, outer, rfl⟩ := hs
    simp only [step?] at h
    split at h
    next hend =>
      subst hend
      show s'.Records (openTokens (_ :: outer) ++ [_])
      rw [openTokens_cons, List.append_assoc]
      exact records_complete h
    next => exact records_begin? h
  | keyOrEnd =>
    obtain ⟨rfl, outer, rfl⟩ := hs
    simp only [step?] at h
    split at h
    next hend =>
      subst hend
      show s'.Records (openTokens (_ :: outer) ++ [_])
      rw [openTokens_cons, List.append_assoc]
      exact records_complete h
    next => exact records_key? h
  | key =>
    obtain rfl : ts = openTokens frames := hs
    exact records_key? h
  | colon =>
    simp only [step?] at h
    split at h
    next hcolon =>
      cases h
      rw [hcolon]
      exact hs
    next => contradiction
  | commaOrEnd =>
    simp only [step?] at h
    split at h
    next hcomma =>
      rw [hcomma]
      split at h
      · cases h
        exact hs
      · cases h
        exact hs
      · contradiction
    next => exact records_end? hs h
  | nothing document => contradiction

theorem tokens_of_run? {rest : List Token} (hs : s.Records ts) (h : run? s rest = some v) :
    v.tokens = ts ++ rest := by
  induction rest generalizing s ts with
  | nil =>
    rw [run?] at h
    split at h
    next found =>
      obtain rfl := Option.some.inj h
      rw [State.Records, found] at hs
      rw [List.append_nil, hs]
    next => contradiction
  | cons t rest ih =>
    rw [run?_cons] at h
    obtain ⟨s', hstep, hrun⟩ := Option.bind_eq_some_iff.mp h
    rw [ih (records_step? hs hstep) hrun, List.append_assoc, List.singleton_append]

end Builder

/-- Tokens are put together to the document whose tokens they are. -/
theorem ofTokens?_eq_some_iff {ts : List Token} {v : Json} :
    ofTokens? ts = some v ↔ ts = v.tokens := by
  constructor
  · intro h
    have hinitial : Builder.State.initial.Records [] := rfl
    exact (Builder.tokens_of_run? hinitial h).symm
  · rintro rfl
    have hrun := Builder.run?_tokens v [] []
    rw [List.append_nil] at hrun
    exact hrun

/-- A document is put together again from its tokens. -/
theorem ofTokens?_tokens (v : Json) : ofTokens? v.tokens = some v :=
  ofTokens?_eq_some_iff.mpr rfl

/-- A well spelled document is read back from what is written for it. -/
theorem parse?_print {v : Json} (hv : v.WellSpelled) : parse? v.print = some v := by
  rw [parse?, lexemes?_print hv, Option.bind_some, map_token_bare, ofTokens?_tokens]

/-- Some text spells a document if and only if it is well spelled. -/
theorem exists_parse?_iff {v : Json} : (∃ text, parse? text = some v) ↔ v.WellSpelled := by
  constructor
  · rintro ⟨text, h⟩
    obtain ⟨ls, hls, htokens⟩ := Option.bind_eq_some_iff.mp h
    rw [WellSpelled, ← ofTokens?_eq_some_iff.mp htokens]
    exact List.forall_mem_map.mpr fun l hl => (isSound_of_lexemes? hls l hl).wellSpelled
  · exact fun hv => ⟨v.print, parse?_print hv⟩

end SidecarAdmission.Json
