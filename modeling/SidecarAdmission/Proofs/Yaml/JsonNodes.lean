import Mathlib.Data.Option.Basic
import SidecarAdmission.Proofs.Yaml.JsonTokens
import SidecarAdmission.Yaml.Document

/-!
The document that a JSON text is as one of YAML. The tokens of a JSON document are read as a node of
the same shape, without anchors and tags, if every key is known as one; a colon that stands too far
behind its key is refused, as nothing may begin with a colon.
-/

set_option autoImplicit false
set_option relaxedAutoImplicit false

namespace SidecarAdmission.Yaml

open SidecarAdmission.Text

/-! ### Nodes -/

/-- The scalar that a JSON value without parts is. -/
def Scalar.ofJson : Json.Scalar → Scalar
  | .string l => ⟨none, .doubleQuoted, l.text?.getD ""⟩
  | v => ⟨none, .plain, v.word⟩

namespace Node

mutual

/-- The node that a JSON document is. -/
def ofJson : Json → Node
  | .scalar v => .scalar none (.ofJson v)
  | .array items => .sequence ⟨none, none⟩ (ofItems items)
  | .object members => .mapping ⟨none, none⟩ (ofMembers members)

/-- The nodes that JSON documents are. -/
def ofItems : List Json → List Node
  | [] => []
  | v :: rest => ofJson v :: ofItems rest

/-- The nodes that the members of a JSON object are. -/
def ofMembers : List (Json.Literal × Json) → List (Node × Node)
  | [] => []
  | (k, v) :: rest => (.scalar none (.ofJson (.string k)), ofJson v) :: ofMembers rest

end

theorem ofItems_eq (items : List Json) : ofItems items = items.map ofJson := by
  induction items with
  | nil => rfl
  | cons v rest ih => rw [ofItems, ih, List.map_cons]

theorem ofMembers_eq (members : List (Json.Literal × Json)) :
    ofMembers members =
      members.map fun m => (.scalar none (.ofJson (.string m.1)), ofJson m.2) := by
  induction members with
  | nil => rfl
  | cons m rest ih => rw [ofMembers, ih, List.map_cons]

end Node

/-! ### Steps of the reader -/

namespace Reading

variable {handles : Handles} {place : Place} {fuel : Nat} {t : Token} {ts : List Token}
  {anchors : List (List Char × Nat)}

theorem run_peek (s : State) : peek.run s = some (s.tokens.head?, s) := by simp [peek]

theorem run_skipIf (u : Token) : (skipIf u).run ⟨t :: ts, anchors⟩ =
    some (if t = u then (true, ⟨ts, anchors⟩) else (false, ⟨t :: ts, anchors⟩)) := by
  by_cases h : t = u <;> simp [skipIf, peek, skip, h]

theorem node_scalar (style : Style) (text : List Char) :
    (node handles place (fuel + 1)).run ⟨.scalar style text :: ts, anchors⟩ =
      some (.scalar none ⟨none, style, String.ofList text⟩, ⟨ts, anchors⟩) := by
  simp [node, peek, properties, anchor, tag, skip, scalarTag]

theorem node_flowSequence :
    (node handles place (fuel + 1)).run ⟨.flowSequence :: ts, anchors⟩ =
      ((flowItems handles true fuel).run ⟨ts, anchors⟩).map
        (Prod.map (.sequence ⟨none, none⟩) id) := by
  simp [node, peek, properties, anchor, tag, skip]
  rfl

theorem node_flowMapping :
    (node handles place (fuel + 1)).run ⟨.flowMapping :: ts, anchors⟩ =
      ((flowEntries handles true fuel).run ⟨ts, anchors⟩).map
        (Prod.map (.mapping ⟨none, none⟩) id) := by
  simp [node, peek, properties, anchor, tag, skip]
  rfl

/-- Whether a node between brackets begins with a token, if it has no properties. -/
def BeginsNode : Token → Prop
  | .scalar _ _ | .flowSequence | .flowMapping => True
  | _ => False

/-- The comma before a part that is not the first. -/
def commaUnless (isFirst : Bool) : List Token := if isFirst then [] else [.flowEntry]

theorem flowItems_nil (isFirst : Bool) :
    (flowItems handles isFirst (fuel + 1)).run ⟨.flowSequenceEnd :: ts, anchors⟩ =
      some ([], ⟨ts, anchors⟩) := by
  simp [flowItems, run_skipIf]

theorem flowItems_cons (isFirst : Bool) (ht : BeginsNode t) :
    (flowItems handles isFirst (fuel + 1)).run ⟨commaUnless isFirst ++ t :: ts, anchors⟩ =
      ((node handles .flow fuel).run ⟨t :: ts, anchors⟩).bind fun (item, s) =>
        ((flowItems handles false fuel).run s).map (Prod.map (item :: ·) id) := by
  have hend : t ≠ .flowSequenceEnd := by rintro rfl; exact ht
  have hkey : t ≠ .key := by rintro rfl; exact ht
  cases isFirst <;> simp [flowItems, run_skipIf, commaUnless, hend, hkey] <;> rfl

theorem flowEntries_nil (isFirst : Bool) :
    (flowEntries handles isFirst (fuel + 1)).run ⟨.flowMappingEnd :: ts, anchors⟩ =
      some ([], ⟨ts, anchors⟩) := by
  simp [flowEntries, run_skipIf]

theorem flowEntries_cons (isFirst : Bool) (style : Style) (text : List Char) (ht : BeginsNode t) :
    (flowEntries handles isFirst (fuel + 4)).run
        ⟨commaUnless isFirst ++ .key :: .scalar style text :: .value :: t :: ts, anchors⟩ =
      ((node handles .flow (fuel + 1)).run ⟨t :: ts, anchors⟩).bind fun (value, s) =>
        ((flowEntries handles false (fuel + 3)).run s).map
          (Prod.map ((.scalar none ⟨none, style, String.ofList text⟩, value) :: ·) id) := by
  have hend : t ≠ .flowMappingEnd := by rintro rfl; exact ht
  have hcomma : t ≠ .flowEntry := by rintro rfl; exact ht
  cases isFirst <;>
    simp [flowEntries, run_skipIf, commaUnless, hend, hcomma, nodeUnless, valueUnless, isAtOneOf,
      run_peek, node_scalar] <;> rfl

/-- A key that is not known as one, and a colon behind it. -/
theorem flowEntries_late (isFirst : Bool) (style : Style) (text : List Char) :
    (flowEntries handles isFirst (fuel + 2)).run
        ⟨commaUnless isFirst ++ .scalar style text :: .value :: ts, anchors⟩ = none := by
  cases isFirst <;> simp [flowEntries, run_skipIf, commaUnless, node_scalar]

end Reading

/-! ### Keys -/

theorem keysAreNear_cons {l : Json.Lexeme} {rest : List Json.Lexeme}
    (h : ∀ next ∈ rest.head?, next.token ≠ .colon) : keysAreNear (l :: rest) = keysAreNear rest := by
  have hnext : (rest.head?.all fun next => next.token ≠ .colon || isKey l rest.head?) = true := by
    cases hhead : rest.head? with
    | none => rfl
    | some next => simp [h next hhead]
  rw [keysAreNear, hnext, Bool.true_and]

theorem keysAreNear_append (ls : List Json.Lexeme) {ms : List Json.Lexeme}
    (h : ∀ next ∈ ms.head?, next.token ≠ .colon) :
    keysAreNear (ls ++ ms) = (keysAreNear ls && keysAreNear ms) := by
  induction ls with
  | nil => rfl
  | cons l rest ih =>
    cases rest with
    | nil => simpa [keysAreNear] using keysAreNear_cons h
    | cons next rest =>
      rw [List.cons_append, keysAreNear, ih, keysAreNear.eq_2 l, Bool.and_assoc]
      rfl

theorem keysAreNear_enclosed {o c : Json.Lexeme} {inner : List Json.Lexeme}
    (hinner : .colon ∉ (inner.map (·.token)).head?) (hc : c.token ≠ .colon) :
    keysAreNear (o :: (inner ++ [c])) = keysAreNear inner := by
  obtain ⟨hlast, hnext⟩ := enclosed_head_ne_colon hinner hc
  rw [keysAreNear_cons hnext, keysAreNear_append inner hlast, keysAreNear_cons (by simp),
    keysAreNear, Bool.and_true]

/-! ### Reading a document -/

namespace Reading

variable {handles : Handles} {place : Place} {fuel : Nat} {ts : List Token}
  {anchors : List (List Char × Nat)}

/-- Whether the lexemes of a document are read as its node, if their keys are near their colons. -/
structure IsRead (v : Json) : Prop where
  run : ∀ (handles : Handles) (place : Place) (ts : List Token)
    (anchors : List (List Char × Nat)) {fuel : Nat} {ls : List Json.Lexeme},
    ls.map (·.token) = v.tokens → 4 * ls.length ≤ fuel →
    (node handles place fuel).run ⟨tokensOf ls ++ ts, anchors⟩ =
      if keysAreNear ls then some (.ofJson v, ⟨ts, anchors⟩) else none

/-- A node begins with the first token of a document. -/
theorem exists_beginsNode {v : Json} {ls : List Json.Lexeme} (h : ls.map (·.token) = v.tokens) :
    ∃ t ts, tokensOf ls = t :: ts ∧ BeginsNode t := by
  cases v with
  | scalar v =>
    obtain ⟨l, rfl, hl⟩ := List.map_eq_singleton_iff.mp h
    refine ⟨_, _, tokensOf_cons (by simp), ?_⟩
    rw [hl]
    cases v <;> trivial
  | array items =>
    obtain ⟨o, inner, c, rfl, ho, hinner, hc⟩ := exists_enclosed h
    refine ⟨_, _, tokensOf_enclosed (hinner ▸ colon_notMem_head_items items) (by simp [hc]), ?_⟩
    rw [ho]
    trivial
  | object members =>
    obtain ⟨o, inner, c, rfl, ho, hinner, hc⟩ := exists_enclosed h
    refine ⟨_, _, tokensOf_enclosed (hinner ▸ colon_notMem_head_members members) (by simp [hc]), ?_⟩
    rw [ho]
    trivial

/-! ### Parts of a list or a mapping -/

/-- Whether a loop of the reader takes the parts of a list or a mapping one by one. -/
structure Loops {α β : Type} (part : α → List Json.Token) (node : α → β) (last : Token)
    (loop : Bool → Nat → Reader (List β)) (xs : List α) : Prop where
  close : ∀ {isFirst : Bool} {fuel : Nat} {ts : List Token} {anchors : List (List Char × Nat)},
    (loop isFirst (fuel + 1)).run ⟨last :: ts, anchors⟩ = some ([], ⟨ts, anchors⟩)
  next : ∀ x ∈ xs, ∀ (isFirst : Bool) (ts : List Token) (anchors : List (List Char × Nat))
    {fuel : Nat} {ls : List Json.Lexeme}, ls.map (·.token) = part x → 4 * ls.length ≤ fuel →
    (loop isFirst (fuel + 1)).run ⟨commaUnless isFirst ++ (tokensOf ls ++ ts), anchors⟩ =
      if keysAreNear ls then
        ((loop false fuel).run ⟨ts, anchors⟩).map (Prod.map (node x :: ·) id)
      else none
  head : ∀ x ∈ xs, .colon ∉ (part x).head?

section Parts

variable {α β : Type} {part : α → List Json.Token} {node : α → β} {last : Token}
  {loop : Bool → Nat → Reader (List β)} {x : α} {xs : List α} {ls : List Json.Lexeme}

private theorem Loops.tail (h : Loops part node last loop (x :: xs)) :
    Loops part node last loop xs :=
  ⟨h.close, fun y hy => h.next y (List.mem_cons_of_mem x hy),
    fun y hy => h.head y (List.mem_cons_of_mem x hy)⟩

private theorem comma_head {parts : List (List Json.Token)} :
    .colon ∉ (parts.flatMap (.comma :: ·)).head? := by
  cases parts <;> simp

/-- Further parts, each behind a comma, up to a closing bracket. -/
private theorem Loops.rest (h : Loops part node last loop xs)
    (hls : ls.map (·.token) = (xs.map part).flatMap (.comma :: ·))
    (hfuel : 4 * (ls.length + 1) ≤ fuel) :
    (loop false fuel).run ⟨tokensOf ls ++ last :: ts, anchors⟩ =
      if keysAreNear ls then some (xs.map node, ⟨ts, anchors⟩) else none := by
  induction xs generalizing ls fuel with
  | nil =>
    obtain rfl : ls = [] := by simpa using hls
    obtain ⟨fuel, rfl⟩ := Nat.exists_eq_succ_of_ne_zero (n := fuel) (by omega)
    exact h.close
  | cons x xs ih =>
    rw [List.map_cons, List.flatMap_cons, List.cons_append] at hls
    obtain ⟨c, rest, rfl, hc, hrest⟩ := List.map_eq_cons_iff.mp hls
    obtain ⟨front, back, rfl, hfront, hback⟩ := List.map_eq_append_iff.mp hrest
    have hnext : ∀ next ∈ back.head?, next.token ≠ .colon :=
      token_head_ne_colon (hback ▸ comma_head)
    have hhead : ∀ next ∈ (front ++ back).head?, next.token ≠ .colon :=
      token_head_ne_colon (hrest ▸ @colon_notMem_head_separate ((x :: xs).map part)
        (List.forall_mem_map.mpr h.head))
    obtain ⟨fuel, rfl⟩ := Nat.exists_eq_succ_of_ne_zero (n := fuel) (by simp at hfuel; omega)
    simp only [List.length_cons, List.length_append] at hfuel
    have hspare : 4 * front.length ≤ fuel := by omega
    have hfirst := h.next x List.mem_cons_self false (tokensOf back ++ last :: ts) anchors hfront
      hspare
    rw [ih h.tail hback (by omega)] at hfirst
    rw [tokensOf_cons hhead, tokensOf_append front hnext, keysAreNear_cons hhead,
      keysAreNear_append front hnext, hc, List.cons_append, List.append_assoc]
    refine hfirst.trans ?_
    cases keysAreNear front <;> cases keysAreNear back <;> rfl

/-- The parts with commas between them, up to a closing bracket. -/
theorem Loops.run (h : Loops part node last loop xs) (ts : List Token)
    (anchors : List (List Char × Nat)) (hls : ls.map (·.token) = Json.separate (xs.map part))
    (hfuel : 4 * (ls.length + 1) < fuel) :
    (loop true fuel).run ⟨tokensOf ls ++ last :: ts, anchors⟩ =
      if keysAreNear ls then some (xs.map node, ⟨ts, anchors⟩) else none := by
  obtain ⟨fuel, rfl⟩ := Nat.exists_eq_succ_of_ne_zero (n := fuel) (by omega)
  cases xs with
  | nil =>
    obtain rfl : ls = [] := by simpa [Json.separate] using hls
    exact h.close
  | cons x xs =>
    rw [List.map_cons, Json.separate] at hls
    obtain ⟨front, back, rfl, hfront, hback⟩ := List.map_eq_append_iff.mp hls
    have hnext : ∀ next ∈ back.head?, next.token ≠ .colon :=
      token_head_ne_colon (hback ▸ comma_head)
    rw [List.length_append] at hfuel
    have hspare : 4 * front.length ≤ fuel := by omega
    have hfirst := h.next x List.mem_cons_self true (tokensOf back ++ last :: ts) anchors hfront
      hspare
    rw [h.tail.rest hback (by omega)] at hfirst
    rw [tokensOf_append front hnext, keysAreNear_append front hnext, List.append_assoc]
    refine hfirst.trans ?_
    cases keysAreNear front <;> cases keysAreNear back <;> rfl

/-- The parts between brackets, behind the opening one. -/
theorem Loops.enclosed (h : Loops part node last loop xs) {first closing : Json.Token}
    (hls : ls.map (·.token) = first :: (Json.separate (xs.map part) ++ [closing]))
    (hclosing : closing ≠ .colon) (hlast : Token.ofJson closing = last)
    (hfuel : 4 * ls.length ≤ fuel + 1) (ts : List Token) (anchors : List (List Char × Nat)) :
    ∃ rest, tokensOf ls = Token.ofJson first :: rest ∧
      (loop true fuel).run ⟨rest ++ ts, anchors⟩ =
        if keysAreNear ls then some (xs.map node, ⟨ts, anchors⟩) else none := by
  obtain ⟨o, inner, c, rfl, rfl, hinner, rfl⟩ := exists_enclosed hls
  simp only [List.length_cons, List.length_append, List.length_nil] at hfuel
  have hcolon : .colon ∉ (inner.map (·.token)).head? := by
    rw [hinner]
    exact colon_notMem_head_separate (List.forall_mem_map.mpr h.head)
  refine ⟨_, tokensOf_enclosed hcolon hclosing, ?_⟩
  rw [keysAreNear_enclosed hcolon hclosing, hlast, List.append_assoc]
  exact h.run ts anchors hinner (by omega)

end Parts

/-! ### The node of a document -/

private theorem exists_fuel {fuel : Nat} {ls : List Json.Lexeme} {t : Json.Token}
    {ts : List Json.Token} (hls : ls.map (·.token) = t :: ts) (hfuel : 4 * ls.length ≤ fuel) :
    ∃ n, fuel = n + 1 := by
  obtain ⟨l, rest, rfl, -⟩ := List.map_eq_cons_iff.mp hls
  exact Nat.exists_eq_succ_of_ne_zero (by rw [List.length_cons] at hfuel; omega)

private theorem isRead_scalar (v : Json.Scalar) : IsRead (.scalar v) := by
  refine ⟨fun handles place ts anchors {fuel ls} hls hfuel => ?_⟩
  obtain ⟨l, rfl, hl⟩ := List.map_eq_singleton_iff.mp hls
  obtain ⟨fuel, rfl⟩ := Nat.exists_eq_succ_of_ne_zero (n := fuel) (by simp at hfuel; omega)
  rw [tokensOf_cons (by simp), hl, keysAreNear_cons (by simp)]
  cases v with
  | string s =>
    refine (node_scalar .doubleQuoted _).trans ?_
    rw [String.ofList_toList]
    rfl
  | _ => exact node_scalar .plain _

private theorem isRead_array {items : List Json} (h : ∀ v ∈ items, IsRead v) :
    IsRead (.array items) := by
  refine ⟨fun handles place ts anchors {fuel ls} hls hfuel => ?_⟩
  have hloops : Loops Json.tokens Node.ofJson .flowSequenceEnd (flowItems handles) items := by
    refine ⟨flowItems_nil _, fun v hv isFirst ts anchors {fuel ls} hls hfuel => ?_,
      fun v _ => colon_notMem_head_tokens v⟩
    obtain ⟨t, more, htokens, ht⟩ := exists_beginsNode hls
    have hnode := (h v hv).run handles .flow ts anchors hls hfuel
    rw [htokens, List.cons_append] at hnode ⊢
    rw [flowItems_cons isFirst ht, hnode]
    cases keysAreNear ls <;> rfl
  rw [Json.tokens, Json.itemTokens_eq] at hls
  obtain ⟨fuel, rfl⟩ := exists_fuel hls hfuel
  obtain ⟨rest, htokens, hrun⟩ := hloops.enclosed hls (by simp) rfl hfuel ts anchors
  rw [htokens]
  refine node_flowSequence.trans ?_
  refine (congrArg (Option.map _) hrun).trans ?_
  rw [Node.ofJson, Node.ofItems_eq]
  cases keysAreNear ls <;> rfl

/-- The key of a member and its colon are read as a key only if they are near each other. -/
private theorem flowEntries_member {m : Json.Literal × Json} (h : IsRead m.2) (isFirst : Bool)
    {ls : List Json.Lexeme}
    (hls : ls.map (·.token) = .scalar (.string m.1) :: .colon :: m.2.tokens)
    (hfuel : 4 * ls.length ≤ fuel) :
    (flowEntries handles isFirst (fuel + 1)).run
        ⟨commaUnless isFirst ++ (tokensOf ls ++ ts), anchors⟩ =
      if keysAreNear ls then
        ((flowEntries handles false fuel).run ⟨ts, anchors⟩).map
          (Prod.map ((.scalar none (.ofJson (.string m.1)), .ofJson m.2) :: ·) id)
      else none := by
  obtain ⟨k, rest, rfl, hk, hrest⟩ := List.map_eq_cons_iff.mp hls
  obtain ⟨c, back, rfl, hc, hback⟩ := List.map_eq_cons_iff.mp hrest
  simp only [List.length_cons] at hfuel
  obtain ⟨fuel, rfl⟩ : ∃ n, fuel = n + 3 := ⟨fuel - 3, by omega⟩
  have hnext : ∀ next ∈ back.head?, next.token ≠ .colon :=
    token_head_ne_colon (hback ▸ colon_notMem_head_tokens m.2)
  obtain ⟨t, more, htokens, ht⟩ := exists_beginsNode hback
  have hspare : 4 * back.length ≤ fuel + 1 := by omega
  have hnode := h.run handles .flow ts anchors hback hspare
  have hkeys : keysAreNear (k :: c :: back) = (isKey k (some c) && keysAreNear back) := by
    rw [keysAreNear, keysAreNear_cons hnext]
    simp [hc]
  rw [tokensOf, tokensOf_cons hnext, List.head?_cons, hkeys, hk, hc, htokens]
  rw [htokens, List.cons_append] at hnode
  cases isKey k (some c) with
  | false => exact flowEntries_late isFirst .doubleQuoted _
  | true =>
    refine (flowEntries_cons isFirst .doubleQuoted _ ht).trans ?_
    refine (congrArg (Option.bind · _) hnode).trans ?_
    rw [String.ofList_toList]
    cases keysAreNear back <;> rfl

private theorem isRead_object {members : List (Json.Literal × Json)}
    (h : ∀ m ∈ members, IsRead m.2) : IsRead (.object members) := by
  refine ⟨fun handles place ts anchors {fuel ls} hls hfuel => ?_⟩
  have hloops : Loops (fun m => .scalar (.string m.1) :: .colon :: m.2.tokens)
      (fun m => (.scalar none (.ofJson (.string m.1)), Node.ofJson m.2)) .flowMappingEnd
      (flowEntries handles) members :=
    ⟨flowEntries_nil _, fun m hm isFirst _ _ => flowEntries_member (h m hm) isFirst,
      fun m _ => by simp⟩
  rw [Json.tokens, Json.memberTokens_eq] at hls
  obtain ⟨fuel, rfl⟩ := exists_fuel hls hfuel
  obtain ⟨rest, htokens, hrun⟩ := hloops.enclosed hls (by simp) rfl hfuel ts anchors
  rw [htokens]
  refine node_flowMapping.trans ?_
  refine (congrArg (Option.map _) hrun).trans ?_
  rw [Node.ofJson, Node.ofMembers_eq]
  cases keysAreNear ls <;> rfl

theorem isRead (v : Json) : IsRead v := by
  induction v using Json.induct with
  | scalar v => exact isRead_scalar v
  | array items ih => exact isRead_array ih
  | object members ih => exact isRead_object ih

end Reading

/-! ### Reading a text -/

theorem length_le_tokensOf (ls : List Json.Lexeme) : ls.length ≤ (tokensOf ls).length := by
  induction ls with
  | nil => exact Nat.le_refl 0
  | cons l rest ih =>
    rw [tokensOf, List.length_append, List.length_cons, List.length_cons]
    omega

private theorem document_flowMapping (ts : List Token) :
    Reading.document.run ⟨.flowMapping :: ts, []⟩ =
      ((Reading.node Reading.defaultHandles .item (4 * (ts.length + 1) + 8)).run
        ⟨.flowMapping :: ts, []⟩).bind fun (root, s) =>
          if s.tokens.any (· ≠ .documentEnd) then none else some (some root, s) := by
  simp only [Reading.document, Reading.theEnd]
  simp only [StateT.run_bind, StateT.run_get, Option.pure_def, Option.bind_eq_bind, Option.bind_some,
    List.head?_cons, List.length_cons, Bool.false_eq_true, if_false]
  refine congrArg (Option.bind _) (funext fun (root, s) => ?_)
  cases s.tokens.any (· ≠ .documentEnd) <;> simp

/-- A JSON text that is an object is a document of YAML if it has tokens and each of its keys is
known as one. -/
theorem parse?_eq_some_iff {text : String} {ls : List Json.Lexeme}
    {members : List (Json.Literal × Json)} {doc : Document}
    (hlexemes : Json.lexemes? (octets text) = some ls)
    (hls : ls.map (·.token) = (Json.object members).tokens)
    (hnarrow : ∀ x ∈ text.toList, isWideBreak x = false) :
    parse? text = some doc ↔
      HasTokens text ls ∧ keysAreNear ls = true ∧ doc = ⟨some (.ofJson (.object members))⟩ := by
  have hdocument : Reading.document.run ⟨tokensOf ls, []⟩ =
      if keysAreNear ls then some (some (.ofJson (.object members)), ⟨[], []⟩) else none := by
    obtain ⟨o, inner, c, rfl, ho, hinner, hc⟩ := exists_enclosed hls
    have hfuel := length_le_tokensOf (o :: (inner ++ [c]))
    have hnext := (enclosed_head_ne_colon (c := c) (hinner ▸ colon_notMem_head_members members)
      (by simp [hc])).2
    have hspare : 4 * (o :: (inner ++ [c])).length ≤
        4 * (tokensOf (o :: (inner ++ [c]))).length + 8 := by omega
    have hread := Reading.isRead (.object members)
    have hnode := hread.run Reading.defaultHandles .item [] [] hls hspare
    rw [tokensOf_cons hnext, ho, List.append_nil] at hnode
    rw [tokensOf_cons hnext, ho]
    refine (document_flowMapping _).trans ?_
    refine (congrArg (Option.bind · _) hnode).trans ?_
    cases keysAreNear (o :: (inner ++ [c])) <;> rfl
  have htokens : ∀ ts, tokens? text = some ts ↔ HasTokens text ls ∧ tokensOf ls = ts := fun ts =>
    tokens?_eq_some_iff hlexemes hls hnarrow
  simp only [parse?, Option.bind_eq_bind, Option.bind_eq_some_iff, htokens]
  constructor
  · rintro ⟨ts, ⟨hhas, rfl⟩, ⟨root, s⟩, hread, hdoc⟩
    rw [hdocument] at hread
    split at hread
    next hnear =>
      obtain ⟨rfl, -⟩ := Prod.mk.inj (Option.some.inj hread)
      exact ⟨hhas, hnear, (Option.some.inj hdoc).symm⟩
    next => contradiction
  · rintro ⟨hhas, hnear, rfl⟩
    exact ⟨_, ⟨hhas, rfl⟩, (some (.ofJson (.object members)), ⟨[], []⟩),
      by rw [hdocument, if_pos hnear], rfl⟩

/-- Whether a text that spells a JSON object is a document of YAML as well. -/
def Takes (text : String) : Prop :=
  ∃ ls, Json.lexemes? (octets text) = some ls ∧ HasTokens text ls ∧ keysAreNear ls = true

/-- An object in JSON is the document of YAML with its node, or none. -/
theorem parse?_object {text : String} {members : List (Json.Literal × Json)}
    (h : Json.parse? (octets text) = some (.object members))
    (hnarrow : ∀ x ∈ text.toList, isWideBreak x = false) :
    (Takes text → parse? text = some ⟨some (.ofJson (.object members))⟩) ∧
      (¬ Takes text → parse? text = none) := by
  obtain ⟨ls, hlexemes, hdocument⟩ := Option.bind_eq_some_iff.mp h
  have hls := Json.ofTokens?_eq_some_iff.mp hdocument
  have hparse : ∀ doc, parse? text = some doc ↔ HasTokens text ls ∧ keysAreNear ls = true ∧
      doc = ⟨some (.ofJson (.object members))⟩ := fun doc =>
    parse?_eq_some_iff hlexemes hls hnarrow
  constructor
  · rintro ⟨_, hsame, hhas, hnear⟩
    obtain rfl := Option.some.inj (hlexemes.symm.trans hsame)
    exact (hparse _).mpr ⟨hhas, hnear, rfl⟩
  · intro hnot
    refine Option.eq_none_iff_forall_ne_some.mpr fun doc hdoc => hnot ?_
    obtain ⟨hhas, hnear, -⟩ := (hparse doc).mp hdoc
    exact ⟨ls, hlexemes, hhas, hnear⟩

end SidecarAdmission.Yaml
