import Mathlib.Data.List.Forall2
import SidecarAdmission.Json.Record
import SidecarAdmission.Proofs.Json.Place

/-!
The parts of a source. The lexemes of a part stand together among those of the whole, which spell
their text; so a part is spelled by octets that stand together in the text. A source spells the
document whose tokens it has, and its parts spell those of the document; an object that is made of
sources has them as its members.
-/

set_option autoImplicit false
set_option relaxedAutoImplicit false

namespace SidecarAdmission.Json

open SidecarAdmission.Text

namespace Source

/-! ### Parts of a source -/

/-- The pieces that lexemes are cut into stand together among them. -/
theorem infix_of_mem_cut {depth : Nat} {piece : List Lexeme} {done : List (List Lexeme)}
    {ls p : List Lexeme} (h : p ∈ cut depth piece done ls) :
    p ∈ done ∨ p <:+: piece.reverse ++ ls := by
  induction ls generalizing depth piece done with
  | nil => exact .inl (List.mem_reverse.mp h)
  | cons l rest ih =>
    -- A lexeme that does not end the piece is put behind it.
    have hpush : ∀ d, p ∈ cut d (l :: piece) done rest →
        p ∈ done ∨ p <:+: piece.reverse ++ l :: rest := by
      intro d hp
      rcases ih hp with hp | hp
      · exact .inl hp
      · exact .inr (by simpa using hp)
    have hpiece : piece.reverse <:+: piece.reverse ++ l :: rest := (List.prefix_append _ _).isInfix
    unfold cut at h
    split at h
    · exact hpush _ h
    · exact hpush _ h
    · split at h
      · exact .inl (List.mem_reverse.mp h)
      · rcases List.mem_cons.mp (List.mem_reverse.mp h) with rfl | hp
        · exact .inr hpiece
        · exact .inl hp
    · split at h
      · exact .inl (List.mem_reverse.mp h)
      · rcases List.mem_cons.mp (List.mem_reverse.mp h) with rfl | hp
        · exact .inr hpiece
        · exact .inl hp
    · exact hpush _ h
    · exact hpush _ h
    · rcases ih h with hp | hp
      · rcases List.mem_cons.mp hp with rfl | hp
        · exact .inr hpiece
        · exact .inl hp
      · have hrest : rest <:+ piece.reverse ++ l :: rest :=
          ⟨piece.reverse ++ [l], by simp⟩
        exact .inr (hp.trans hrest.isInfix)
    · exact hpush _ h

theorem exists_of_mem_mapM {α β : Type} {f : α → Option β} {xs : List α} {ys : List β}
    (h : xs.mapM f = some ys) {y : β} (hy : y ∈ ys) : ∃ x ∈ xs, f x = some y := by
  induction xs generalizing ys with
  | nil =>
    obtain rfl : [] = ys := by simpa using h
    contradiction
  | cons x rest ih =>
    rw [List.mapM_cons] at h
    obtain ⟨z, hz, hmore⟩ := Option.bind_eq_some_iff.mp h
    obtain ⟨zs, hzs, hall⟩ := Option.bind_eq_some_iff.mp hmore
    obtain rfl : z :: zs = ys := Option.some.inj hall
    rcases List.mem_cons.mp hy with rfl | hy
    · exact ⟨x, List.mem_cons_self, hz⟩
    · obtain ⟨w, hw, hfw⟩ := ih hzs hy
      exact ⟨w, List.mem_cons_of_mem x hw, hfw⟩

variable {s part : Source}

theorem infix_of_mem_items? {items : List Source} (h : s.items? = some items)
    (hpart : part ∈ items) : part.lexemes <:+: s.lexemes := by
  unfold items? at h
  split at h
  next before rest hlexemes =>
    obtain rfl := Option.some.inj h
    obtain ⟨piece, hpiece, rfl⟩ := List.mem_map.mp hpart
    rcases infix_of_mem_cut hpiece with hnone | hwithin
    · contradiction
    · rw [hlexemes]
      exact hwithin.trans (List.suffix_cons _ rest).isInfix
  next => contradiction

theorem infix_of_mem_members? {members : List (Literal × Source)} (h : s.members? = some members)
    {m : Literal × Source} (hm : m ∈ members) : m.2.lexemes <:+: s.lexemes := by
  unfold members? at h
  split at h
  next before rest hlexemes =>
    obtain ⟨piece, hpiece, hmember⟩ := exists_of_mem_mapM h hm
    unfold member? at hmember
    split at hmember
    next before key between value =>
      cases hmember
      rcases infix_of_mem_cut hpiece with hnone | hwithin
      · contradiction
      · have hvalue : value <:+ ⟨before, .scalar (.string key)⟩ :: ⟨between, .colon⟩ :: value :=
          (List.suffix_cons _ value).trans (List.suffix_cons _ _)
        rw [hlexemes]
        exact (hvalue.isInfix.trans hwithin).trans (List.suffix_cons _ rest).isInfix
    next => contradiction
  next => contradiction

/-- The parts of a source are the items of an array and the values of the members of an object. -/
inductive HasPart (s part : Source) : Prop where
  | item (items : List Source) (found : s.items? = some items) (mem : part ∈ items)
  | member (key : Literal) (members : List (Literal × Source)) (found : s.members? = some members)
      (mem : (key, part) ∈ members)

/-- The parts of a source stand together among its lexemes. -/
theorem HasPart.isInfix (h : s.HasPart part) : part.lexemes <:+: s.lexemes := by
  cases h with
  | item items found mem => exact infix_of_mem_items? found mem
  | member key members found mem => exact infix_of_mem_members? found mem

/-- The fields of a record are parts of it. -/
theorem hasPart_of_mem_fields? {names : List String} {fields : List (Option Source)}
    (h : s.fields? names = some fields) (hpart : some part ∈ fields) : s.HasPart part := by
  unfold fields? at h
  split at h
  next members hmembers =>
    obtain ⟨named, hnamed, hfields⟩ := Option.bind_eq_some_iff.mp h
    split at hfields
    next =>
      obtain rfl := Option.some.inj hfields
      obtain ⟨name, -, hlookup⟩ := List.mem_map.mp hpart
      obtain ⟨front, back, rfl, -⟩ := List.lookup_eq_some_iff.mp hlookup
      have hnamedPart : (name, part) ∈ front ++ (name, part) :: back := by simp
      obtain ⟨⟨key, value⟩, hm, hkey⟩ := exists_of_mem_mapM hnamed hnamedPart
      obtain ⟨_, -, hpair⟩ := Option.map_eq_some_iff.mp hkey
      obtain ⟨-, rfl⟩ := Prod.mk.inj hpair
      exact .member key members hmembers hm
    next => contradiction
  next =>
    obtain ⟨items, hitems, hfields⟩ := Option.bind_eq_some_iff.mp h
    split at hfields
    next =>
      obtain rfl := Option.some.inj hfields
      exact .item items hitems (by simpa using hpart)
    next => contradiction

/-- What spells a part of a text stands together in the text. -/
theorem spelling_infix {text : Octets} (h : ofText? text = some s)
    (hpart : part.lexemes <:+: s.lexemes) : part.spelling <:+: text := by
  obtain ⟨ls, hls, hrest⟩ := Option.bind_eq_some_iff.mp h
  obtain ⟨doc, -, hsource⟩ := Option.bind_eq_some_iff.mp hrest
  obtain rfl : ⟨ls⟩ = s := Option.some.inj hsource
  obtain ⟨blank, -, rfl⟩ := spell_of_lexemes? hls
  obtain ⟨front, back, rfl⟩ := hpart
  unfold spelling
  split
  next => exact List.nil_infix
  next l more hlexemes =>
    rw [hlexemes]
    refine ⟨front.flatMap Lexeme.spell ++ l.blank, back.flatMap Lexeme.spell ++ blank, ?_⟩
    simp [Lexeme.spell]

/-! ### Sources and documents -/

/-- A source spells the document whose tokens it has. -/
theorem value?_eq_some_iff {v : Json} :
    s.value? = some v ↔ s.lexemes.map (·.token) = v.tokens :=
  ofTokens?_eq_some_iff

theorem ofText?_eq_some_iff {text : Octets} :
    ofText? text = some s ↔ lexemes? text = some s.lexemes ∧ ∃ v, s.value? = some v := by
  obtain ⟨ls⟩ := s
  simp only [ofText?, value?, Option.bind_eq_bind, Option.bind_eq_some_iff, Option.some.injEq,
    Source.mk.injEq]
  constructor
  · rintro ⟨ls', hls, v, hv, rfl⟩
    exact ⟨hls, v, hv⟩
  · rintro ⟨hls, v, hv⟩
    exact ⟨ls, hls, v, hv, rfl⟩

theorem isNull_of_value? {v : Json} (h : s.value? = some v) : s.isNull = v.isNull := by
  obtain ⟨ls⟩ := s
  have htokens : ls.map (·.token) = v.tokens := value?_eq_some_iff.mp h
  cases v with
  | scalar value =>
    obtain ⟨⟨blank, token⟩, rfl, htoken⟩ := List.map_eq_singleton_iff.mp htokens
    obtain rfl : token = .scalar value := htoken
    cases value <;> rfl
  | array items =>
    obtain ⟨⟨blank, token⟩, rest, rfl, htoken, -⟩ := List.map_eq_cons_iff.mp htokens
    obtain rfl : token = .beginArray := htoken
    cases rest <;> rfl
  | object members =>
    obtain ⟨⟨blank, token⟩, rest, rfl, htoken, -⟩ := List.map_eq_cons_iff.mp htokens
    obtain rfl : token = .beginObject := htoken
    cases rest <;> rfl

/-- A document as it is written. -/
def ofJson (v : Json) : Source := ⟨v.tokens.map .bare⟩

@[simp] theorem value?_ofJson (v : Json) : (ofJson v).value? = some v :=
  value?_eq_some_iff.mpr (map_token_bare v.tokens)

@[simp] theorem isNull_ofJson (v : Json) : (ofJson v).isNull = v.isNull :=
  isNull_of_value? (value?_ofJson v)

@[simp] theorem text?_ofJson (v : Json) : (ofJson v).text? = v.text? := by
  rw [text?, value?_ofJson, Option.bind_some]

@[simp] theorem bool?_ofJson (v : Json) : (ofJson v).bool? = v.bool? := by
  rw [bool?, value?_ofJson, Option.bind_some]

/-! ### Cutting between the parts -/

/-- The depth that tokens lead to, if they neither leave the level where they begin nor hold a comma
at that level. -/
def depthAfter? : Nat → List Token → Option Nat
  | depth, [] => some depth
  | depth, t :: rest =>
    match t, depth with
    | .beginObject, _ | .beginArray, _ => depthAfter? (depth + 1) rest
    | .endObject, 0 | .endArray, 0 | .comma, 0 => none
    | .endObject, depth + 1 | .endArray, depth + 1 => depthAfter? depth rest
    | _, _ => depthAfter? depth rest

/-- Whether lexemes are taken into a piece as a whole, however deep it stands. -/
def Whole (ls : List Lexeme) : Prop :=
  ∀ depth piece done rest,
    cut depth piece done (ls ++ rest) = cut depth (ls.reverse ++ piece) done rest

theorem cut_of_depthAfter? {ls : List Lexeme} {depth last : Nat}
    (h : depthAfter? depth (ls.map (·.token)) = some last) (base : Nat) (piece : List Lexeme)
    (done : List (List Lexeme)) (rest : List Lexeme) :
    cut (base + depth) piece done (ls ++ rest) =
      cut (base + last) (ls.reverse ++ piece) done rest := by
  induction ls generalizing depth piece with
  | nil =>
    obtain rfl : depth = last := Option.some.inj h
    rfl
  | cons l ls ih =>
    obtain ⟨blank, token⟩ := l
    rw [List.cons_append, List.reverse_cons, List.append_assoc, List.singleton_append]
    have hstay : (∀ d ts, depthAfter? d (token :: ts) = depthAfter? d ts) →
        (∀ d more, cut d piece done (⟨blank, token⟩ :: more) =
          cut d (⟨blank, token⟩ :: piece) done more) →
        cut (base + depth) piece done (⟨blank, token⟩ :: (ls ++ rest)) =
          cut (base + last) (ls.reverse ++ ⟨blank, token⟩ :: piece) done rest := by
      intro hdepth hcut
      rw [List.map_cons, hdepth] at h
      rw [hcut]
      exact ih h _
    cases token with
    | beginObject => exact ih h _
    | beginArray => exact ih h _
    | endObject =>
      cases depth with
      | zero => contradiction
      | succ depth => exact ih h _
    | endArray =>
      cases depth with
      | zero => contradiction
      | succ depth => exact ih h _
    | comma =>
      cases depth with
      | zero => contradiction
      | succ depth => exact ih h _
    | colon => exact hstay (fun d _ => by cases d <;> rfl) fun d _ => by cases d <;> rfl
    | scalar value => exact hstay (fun d _ => by cases d <;> rfl) fun d _ => by cases d <;> rfl

theorem depthAfter?_separate {parts : List (List Token)}
    (h : ∀ ts ∈ parts, ∀ depth rest, depthAfter? depth (ts ++ rest) = depthAfter? depth rest)
    (depth : Nat) (rest : List Token) :
    depthAfter? (depth + 1) (separate parts ++ rest) = depthAfter? (depth + 1) rest := by
  have hlater : ∀ later : List (List Token),
      (∀ ts ∈ later, ∀ depth rest, depthAfter? depth (ts ++ rest) = depthAfter? depth rest) →
      depthAfter? (depth + 1) (later.flatMap (.comma :: ·) ++ rest) =
        depthAfter? (depth + 1) rest := by
    intro later
    induction later with
    | nil => exact fun _ => rfl
    | cons ts later ih =>
      intro hall
      obtain ⟨hts, hlater⟩ := List.forall_mem_cons.mp hall
      simp only [List.flatMap_cons, List.cons_append, List.append_assoc, depthAfter?]
      rw [hts, ih hlater]
  cases parts with
  | nil => rfl
  | cons ts later =>
    obtain ⟨hts, hall⟩ := List.forall_mem_cons.mp h
    rw [separate, List.append_assoc, hts, hlater later hall]

/-- Behind the tokens of a document the depth is what it was before them. -/
theorem depthAfter?_tokens (v : Json) (depth : Nat) (rest : List Token) :
    depthAfter? depth (v.tokens ++ rest) = depthAfter? depth rest := by
  induction v using Json.induct generalizing depth rest with
  | scalar s => cases depth <;> rfl
  | array items ih =>
    have hparts : ∀ ts ∈ itemTokens items, ∀ depth rest,
        depthAfter? depth (ts ++ rest) = depthAfter? depth rest := by
      rw [itemTokens_eq]
      exact List.forall_mem_map.mpr ih
    rw [tokens, List.cons_append, List.append_assoc, depthAfter?, depthAfter?_separate hparts]
    rfl
  | object members ih =>
    have hparts : ∀ ts ∈ memberTokens members, ∀ depth rest,
        depthAfter? depth (ts ++ rest) = depthAfter? depth rest := by
      rw [memberTokens_eq]
      intro ts hts depth rest
      obtain ⟨m, hm, rfl⟩ := List.mem_map.mp hts
      rw [← ih m hm depth rest]
      cases depth <;> rfl
    rw [tokens, List.cons_append, List.append_assoc, depthAfter?, depthAfter?_separate hparts]
    rfl

theorem whole_of_value? {v : Json} (h : s.value? = some v) : Whole s.lexemes := by
  intro depth piece done rest
  have hdepth : depthAfter? 0 (s.lexemes.map (·.token)) = some 0 := by
    have hnil := depthAfter?_tokens v 0 []
    rwa [List.append_nil, ← value?_eq_some_iff.mp h] at hnil
  exact cut_of_depthAfter? hdepth depth piece done rest

/-- Lists of lexemes with commas between them. -/
def joined : List (List Lexeme) → List Lexeme
  | [] => []
  | ls :: rest => ls ++ rest.flatMap (.bare .comma :: ·)

/-- The parts of an array or object are cut out of it at its commas. -/
theorem cut_joined {parts : List (List Lexeme)} (h : ∀ ls ∈ parts, Whole ls ∧ ls ≠ [])
    {close : Token} (hclose : close = .endArray ∨ close = .endObject) :
    cut 0 [] [] (joined parts ++ [.bare close]) = parts := by
  have hend : ∀ piece done, piece ≠ [] →
      cut 0 piece done [.bare close] = (piece.reverse :: done).reverse := by
    intro piece done hpiece
    rcases hclose with rfl | rfl <;> simp [cut, Lexeme.bare, hpiece]
  have hcomma : ∀ piece done rest, cut 0 piece done (.bare .comma :: rest) =
      cut 0 [] (piece.reverse :: done) rest := fun _ _ _ => rfl
  have hlater : ∀ later : List (List Lexeme), (∀ ls ∈ later, Whole ls ∧ ls ≠ []) →
      ∀ piece done, piece ≠ [] →
      cut 0 piece done (later.flatMap (.bare .comma :: ·) ++ [.bare close]) =
        done.reverse ++ piece.reverse :: later := by
    intro later
    induction later with
    | nil =>
      intro _ piece done hpiece
      simpa using hend piece done hpiece
    | cons ls later ih =>
      intro hall piece done hpiece
      obtain ⟨⟨hls, hne⟩, hrest⟩ := List.forall_mem_cons.mp hall
      simp only [List.flatMap_cons, List.cons_append, List.append_assoc, hcomma]
      rw [hls, ih hrest _ _ (by simpa using hne)]
      simp
  cases parts with
  | nil => rcases hclose with rfl | rfl <;> rfl
  | cons ls later =>
    obtain ⟨⟨hls, hne⟩, hall⟩ := List.forall_mem_cons.mp h
    rw [joined, List.append_assoc, hls, hlater later hall _ _ (by simpa using hne)]
    simp

/-! ### Objects made of sources -/

/-- A source between two marks. -/
def enclosed (first : Token) (parts : List (List Lexeme)) (last : Token) : Source :=
  ⟨.bare first :: (joined parts ++ [.bare last])⟩

/-- The lexemes of a member. -/
def memberLexemes (m : Literal × Source) : List Lexeme :=
  .bare (.scalar (.string m.1)) :: .bare .colon :: m.2.lexemes

/-- The source of an object, of its keys and the sources of its values. -/
def object (members : List (Literal × Source)) : Source :=
  enclosed .beginObject (members.map memberLexemes) .endObject

theorem map_bare_separate (parts : List (List Token)) :
    (separate parts).map Lexeme.bare = joined (parts.map (·.map .bare)) := by
  cases parts with
  | nil => rfl
  | cons ts later =>
    simp only [separate, joined, List.map_cons, List.map_append, List.map_flatMap, List.flatMap_map]

theorem map_token_joined (parts : List (List Lexeme)) :
    (joined parts).map (·.token) = separate (parts.map (·.map (·.token))) := by
  cases parts with
  | nil => rfl
  | cons ls later =>
    simp only [separate, joined, List.map_cons, List.map_append, List.map_flatMap, List.flatMap_map]
    rfl

theorem ofJson_array (items : List Json) :
    ofJson (.array items) =
      enclosed .beginArray (items.map fun v => (ofJson v).lexemes) .endArray := by
  simp only [ofJson, enclosed, tokens, List.map_cons, List.map_append, map_bare_separate,
    itemTokens_eq, List.map_map]
  rfl

theorem ofJson_object (members : List (Literal × Json)) :
    ofJson (.object members) = object (members.map fun m => (m.1, ofJson m.2)) := by
  simp only [ofJson, object, enclosed, tokens, List.map_cons, List.map_append, map_bare_separate,
    memberTokens_eq, List.map_map]
  rfl

theorem lexemes_ne_nil {v : Json} (h : s.value? = some v) : s.lexemes ≠ [] := by
  intro hnil
  have htokens : [] = v.tokens := by rw [← value?_eq_some_iff.mp h, hnil, List.map_nil]
  cases v <;> simp [tokens] at htokens

theorem whole_memberLexemes {key : Literal} {v : Json} (h : s.value? = some v) :
    Whole (memberLexemes (key, s)) := by
  intro depth piece done rest
  have hkey : ∀ more, cut depth piece done (.bare (.scalar (.string key)) :: .bare .colon :: more) =
      cut depth (.bare .colon :: .bare (.scalar (.string key)) :: piece) done more := by
    intro more
    cases depth <;> rfl
  rw [memberLexemes, List.cons_append, List.cons_append, hkey, whole_of_value? h]
  simp

theorem mapM_map_eq_some {α β γ : Type} {f : β → Option γ} {g : α → β} {k : α → γ} {xs : List α}
    (h : ∀ x ∈ xs, f (g x) = some (k x)) : (xs.map g).mapM f = some (xs.map k) := by
  induction xs with
  | nil => rfl
  | cons x rest ih =>
    obtain ⟨hx, hrest⟩ := List.forall_mem_cons.mp h
    rw [List.map_cons, List.mapM_cons, hx, ih hrest]
    rfl

theorem members?_object {members : List (Literal × Source)}
    (h : ∀ m ∈ members, ∃ v, m.2.value? = some v) : (object members).members? = some members := by
  have hparts : ∀ ls ∈ members.map memberLexemes, Whole ls ∧ ls ≠ [] := by
    refine List.forall_mem_map.mpr fun m hm => ?_
    obtain ⟨v, hv⟩ := h m hm
    exact ⟨whole_memberLexemes hv, by simp [memberLexemes]⟩
  have hmembers : (object members).members? =
      (cut 0 [] [] (joined (members.map memberLexemes) ++ [.bare .endObject])).mapM member? :=
    rfl
  have hread : (members.map memberLexemes).mapM member? = some (members.map id) :=
    mapM_map_eq_some fun m _ => rfl
  rw [hmembers, cut_joined hparts (.inr rfl), hread, List.map_id]

/-- An object that is made of sources spells a document if they do. -/
theorem exists_value?_object {members : List (Literal × Source)}
    (h : ∀ m ∈ members, ∃ v, m.2.value? = some v) : ∃ v, (object members).value? = some v := by
  have hdocs : ∃ docs : List (Literal × Json),
      members.map (fun m => (memberLexemes m).map (·.token)) = memberTokens docs := by
    induction members with
    | nil => exact ⟨[], rfl⟩
    | cons m rest ih =>
      obtain ⟨⟨v, hv⟩, hrest⟩ := List.forall_mem_cons.mp h
      obtain ⟨docs, hdocs⟩ := ih hrest
      refine ⟨(m.1, v) :: docs, ?_⟩
      rw [List.map_cons, hdocs, memberTokens, ← value?_eq_some_iff.mp hv]
      rfl
  obtain ⟨docs, hdocs⟩ := hdocs
  refine ⟨.object docs, value?_eq_some_iff.mpr ?_⟩
  simp only [object, enclosed, tokens, List.map_cons, List.map_append, map_token_joined,
    List.map_map, ← hdocs]
  rfl

/-! ### Documents of parts -/

/-- A source without the white space in it. -/
def bare (s : Source) : Source := ⟨s.lexemes.map fun l => .bare l.token⟩

theorem bare_eq_ofJson {v : Json} (h : s.value? = some v) : s.bare = ofJson v := by
  rw [bare, ofJson, ← value?_eq_some_iff.mp h, List.map_map]
  rfl

theorem value?_of_bare {v : Json} (h : s.bare = ofJson v) : s.value? = some v := by
  have hvalue : s.bare.value? = some v := by rw [h, value?_ofJson]
  rw [value?_eq_some_iff] at hvalue ⊢
  rw [← hvalue, bare, List.map_map]
  rfl

/-- Where lexemes are cut does not depend on white space. -/
theorem cut_map_bare (depth : Nat) (piece : List Lexeme) (done : List (List Lexeme))
    (ls : List Lexeme) :
    cut depth (piece.map fun l => .bare l.token) (done.map (·.map fun l => .bare l.token))
        (ls.map fun l => .bare l.token) =
      (cut depth piece done ls).map (·.map fun l => .bare l.token) := by
  induction ls generalizing depth piece done with
  | nil => exact List.map_reverse.symm
  | cons l rest ih =>
    obtain ⟨blank, token⟩ := l
    have hend : ((if (piece.map fun l => Lexeme.bare l.token).isEmpty
          then done.map (·.map fun l => Lexeme.bare l.token)
          else (piece.map fun l => Lexeme.bare l.token).reverse ::
            done.map (·.map fun l => Lexeme.bare l.token)).reverse) =
        ((if piece.isEmpty then done else piece.reverse :: done).reverse).map
          (·.map fun l => Lexeme.bare l.token) := by
      cases piece <;> simp
    have hpush : ∀ d, cut d (.bare token :: piece.map fun l => .bare l.token)
        (done.map (·.map fun l => .bare l.token)) (rest.map fun l => .bare l.token) =
          (cut d (⟨blank, token⟩ :: piece) done rest).map (·.map fun l => .bare l.token) :=
      fun d => ih d (⟨blank, token⟩ :: piece) done
    cases token with
    | beginObject => exact hpush _
    | beginArray => exact hpush _
    | endObject =>
      cases depth with
      | zero => exact hend
      | succ depth => exact hpush _
    | endArray =>
      cases depth with
      | zero => exact hend
      | succ depth => exact hpush _
    | comma =>
      cases depth with
      | zero =>
        have hnext := ih 0 [] (piece.reverse :: done)
        rw [List.map_cons, List.map_reverse] at hnext
        exact hnext
      | succ depth => exact hpush _
    | colon => cases depth <;> exact hpush _
    | scalar value => cases depth <;> exact hpush _

/-- The pieces of a source are the parts that it is made of, up to white space. -/
private theorem map_bare_cut {first last : Token} {parts : List (List Lexeme)}
    (h : s.bare = enclosed first parts last) (hparts : ∀ ls ∈ parts, Whole ls ∧ ls ≠ [])
    (hlast : last = .endArray ∨ last = .endObject) {l : Lexeme} {rest : List Lexeme}
    (hlexemes : s.lexemes = l :: rest) :
    (cut 0 [] [] rest).map (·.map fun l => .bare l.token) = parts := by
  have hrest : rest.map (fun l => Lexeme.bare l.token) = joined parts ++ [.bare last] := by
    rw [bare, hlexemes, enclosed, List.map_cons, Source.mk.injEq] at h
    exact List.tail_eq_of_cons_eq h
  have hcut := cut_map_bare 0 [] [] rest
  rw [hrest] at hcut
  exact hcut.symm.trans (cut_joined hparts hlast)

private theorem member?_of_map_bare {piece : List Lexeme} {key : Literal} {v : Json}
    (h : piece.map (fun l => .bare l.token) = memberLexemes (key, ofJson v)) :
    ∃ part, member? piece = some (key, part) ∧ part.value? = some v := by
  obtain ⟨⟨_, first⟩, rest, rfl, hfirst, hrest⟩ := List.map_eq_cons_iff.mp h
  obtain ⟨⟨_, second⟩, value, rfl, hsecond, hvalue⟩ := List.map_eq_cons_iff.mp hrest
  obtain rfl : first = .scalar (.string key) := congrArg Lexeme.token hfirst
  obtain rfl : second = .colon := congrArg Lexeme.token hsecond
  exact ⟨⟨value⟩, rfl, value?_of_bare (congrArg Source.mk hvalue)⟩

private theorem exists_mapM_member? {pieces : List (List Lexeme)} {docs : List (Literal × Json)}
    (h : pieces.map (·.map fun l => .bare l.token) =
      docs.map fun m => memberLexemes (m.1, ofJson m.2)) :
    ∃ members, pieces.mapM member? = some members ∧
      List.Forall₂ (fun p m => p.1 = m.1 ∧ p.2.value? = some m.2) members docs := by
  induction docs generalizing pieces with
  | nil =>
    obtain rfl := List.map_eq_nil_iff.mp h
    exact ⟨[], rfl, .nil⟩
  | cons m rest ih =>
    obtain ⟨piece, more, rfl, hpiece, hmore⟩ := List.map_eq_cons_iff.mp h
    obtain ⟨part, hpart, hvalue⟩ := member?_of_map_bare hpiece
    obtain ⟨members, hmembers, hspell⟩ := ih hmore
    refine ⟨(m.1, part) :: members, ?_, .cons ⟨rfl, hvalue⟩ hspell⟩
    rw [List.mapM_cons, hpart, hmembers]
    rfl

/-- A source of an object has the members of the object, each in its own spelling. -/
theorem exists_members?_of_value? {docs : List (Literal × Json)}
    (h : s.value? = some (.object docs)) :
    ∃ members, s.members? = some members ∧
      List.Forall₂ (fun p m => p.1 = m.1 ∧ p.2.value? = some m.2) members docs := by
  obtain ⟨⟨before, token⟩, rest, hlexemes, htoken, -⟩ :=
    List.map_eq_cons_iff.mp (value?_eq_some_iff.mp h)
  obtain rfl : token = .beginObject := htoken
  have hparts : ∀ ls ∈ (docs.map fun m => (m.1, ofJson m.2)).map memberLexemes,
      Whole ls ∧ ls ≠ [] := by
    rw [List.map_map]
    exact List.forall_mem_map.mpr fun m _ =>
      ⟨whole_memberLexemes (value?_ofJson m.2), by simp [memberLexemes]⟩
  have hcut := map_bare_cut ((bare_eq_ofJson h).trans (ofJson_object docs)) hparts (.inr rfl)
    hlexemes
  rw [List.map_map] at hcut
  have hmembers : s.members? = (cut 0 [] [] rest).mapM member? := by rw [members?, hlexemes]
  rw [hmembers]
  exact exists_mapM_member? hcut

/-- The parts of a source spell documents if it does. -/
theorem HasPart.exists_value? (h : s.HasPart part) {v : Json} (hv : s.value? = some v) :
    ∃ w, part.value? = some w := by
  have htokens : s.lexemes.map (·.token) = v.tokens := value?_eq_some_iff.mp hv
  cases h with
  | item items found mem =>
    unfold items? at found
    split at found
    next before rest hlexemes =>
      obtain rfl := Option.some.inj found
      obtain ⟨piece, hpiece, rfl⟩ := List.mem_map.mp mem
      rw [hlexemes, List.map_cons] at htokens
      cases v with
      | scalar value => simp [tokens] at htokens
      | object members => simp [tokens] at htokens
      | array docs =>
        have hparts : ∀ ls ∈ docs.map fun v => (ofJson v).lexemes, Whole ls ∧ ls ≠ [] :=
          List.forall_mem_map.mpr fun v _ =>
            ⟨whole_of_value? (value?_ofJson v), lexemes_ne_nil (value?_ofJson v)⟩
        have hcut := map_bare_cut ((bare_eq_ofJson hv).trans (ofJson_array docs)) hparts (.inl rfl)
          hlexemes
        have hmem := List.mem_map_of_mem (f := (·.map fun l => Lexeme.bare l.token)) hpiece
        rw [hcut] at hmem
        obtain ⟨w, -, hw⟩ := List.mem_map.mp hmem
        exact ⟨w, value?_of_bare (congrArg Source.mk hw.symm)⟩
    next => contradiction
  | member key members found mem =>
    cases v with
    | object docs =>
      obtain ⟨parts, hparts, hspell⟩ := exists_members?_of_value? hv
      obtain rfl := Option.some.inj (found.symm.trans hparts)
      obtain ⟨i, hi, hmember⟩ := List.getElem_of_mem mem
      have hdoc := hspell.get hi (hspell.length_eq ▸ hi)
      rw [List.get_eq_getElem, hmember] at hdoc
      exact ⟨_, hdoc.2⟩
    | scalar | array =>
      unfold members? at found
      split at found
      next before rest hlexemes => simp [hlexemes, tokens] at htokens
      next => contradiction

end Source

end SidecarAdmission.Json
