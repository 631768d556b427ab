import SidecarAdmission.Proofs.Json.Canonical
import SidecarAdmission.Proofs.Json.Source

/-!
Sources that can be written. A source that some text gives, and with it each of its parts, is given
by the text that it is written as. A record is written as an object of the sources of its fields,
and they are read from it again by name.
-/

set_option autoImplicit false
set_option relaxedAutoImplicit false

namespace SidecarAdmission.Json.Source

open SidecarAdmission.Text

variable {s part : Source}

/-! ### Fields by name -/

/-- The source of a record, of the names and sources of its fields. -/
def ofFields (members : List (String × Source)) : Source :=
  object (members.map fun m => (.ofText m.1, m.2))

/-- The fields of a record are read by name from an object that is made of their sources. -/
theorem fields?_ofFields {members : List (String × Source)} (hnames : (members.map (·.1)).Nodup)
    (h : ∀ m ∈ members, ∃ v, m.2.value? = some v) (names : List String) :
    (ofFields members).fields? names = some (names.map fun name => members.lookup name) := by
  have hmembers : (ofFields members).members? =
      some (members.map fun m => (.ofText m.1, m.2)) :=
    members?_object (List.forall_mem_map.mpr h)
  have hnamed : namedMembers? (members.map fun m => (.ofText m.1, m.2)) = some members := by
    have hread : (members.map fun m => (Literal.ofText m.1, m.2)).mapM
        (fun m => m.1.text?.map fun name => (name, m.2)) = some (members.map id) :=
      mapM_map_eq_some fun m _ => by simp
    rw [namedMembers?, hread, List.map_id]
  have honce : ∀ name, (members.filter (·.1 == name)).length ≤ 1 := by
    intro name
    have hcount := List.nodup_iff_count.mp hnames name
    rwa [List.count, List.countP_map, List.countP_eq_length_filter] at hcount
  have hall : (names.all fun name => (members.filter (·.1 == name)).length ≤ 1) = true := by
    simpa using fun name _ => honce name
  simp only [fields?, hmembers, hnamed, Option.bind_eq_bind, Option.bind_some, hall, if_true]

/-! ### Writing sources -/

/-- Whether some text gives a source. -/
structure IsSound (s : Source) : Prop where
  lexemes : ∀ l ∈ s.lexemes, l.IsSound
  document : ∃ v, s.value? = some v

theorem isSound_of_ofText? {text : Octets} (h : ofText? text = some s) : s.IsSound := by
  obtain ⟨hlexemes, hdocument⟩ := ofText?_eq_some_iff.mp h
  exact ⟨isSound_of_lexemes? hlexemes, hdocument⟩

theorem IsSound.ofPart (h : s.IsSound) (hpart : s.HasPart part) : part.IsSound := by
  obtain ⟨v, hv⟩ := h.document
  exact ⟨fun l hl => h.lexemes l (hpart.isInfix.subset hl), hpart.exists_value? hv⟩

/-- How a source is written. -/
def written (s : Source) : Octets := s.lexemes.flatMap Lexeme.spell

/-- A source is given by what is written for it. -/
theorem ofText?_written (h : s.IsSound) : ofText? s.written = some s := by
  obtain ⟨v, hv⟩ := h.document
  have hdelimited : Delimited (s.lexemes.map (·.token)) := by
    rw [value?_eq_some_iff.mp hv]
    exact delimited_tokens v
  exact ofText?_eq_some_iff.mpr ⟨lexemes?_flatMap_spell h.lexemes hdelimited, v, hv⟩

theorem isSound_ofJson {v : Json} (hv : v.WellSpelled) : (ofJson v).IsSound :=
  ⟨List.forall_mem_map.mpr fun t ht => Lexeme.isSound_bare (hv t ht), v, value?_ofJson v⟩

theorem written_ofJson (v : Json) : (ofJson v).written = v.print := by
  rw [written, ofJson, flatMap_spell_bare, flatMap_spell_tokens]

theorem mem_joined {parts : List (List Lexeme)} {l : Lexeme} (h : l ∈ joined parts) :
    l = .bare .comma ∨ ∃ ls ∈ parts, l ∈ ls := by
  cases parts with
  | nil => contradiction
  | cons ls later =>
    rcases List.mem_append.mp h with h | h
    · exact .inr ⟨ls, List.mem_cons_self, h⟩
    · obtain ⟨ls', hls', h⟩ := List.mem_flatMap.mp h
      rcases List.mem_cons.mp h with h | h
      · exact .inl h
      · exact .inr ⟨ls', List.mem_cons_of_mem ls hls', h⟩

theorem isSound_ofFields {members : List (String × Source)} (h : ∀ m ∈ members, m.2.IsSound) :
    (ofFields members).IsSound := by
  refine ⟨?_, exists_value?_object (List.forall_mem_map.mpr fun m hm => (h m hm).document)⟩
  have hmembers : ∀ ls ∈ (members.map fun m => (.ofText m.1, m.2)).map memberLexemes,
      ∀ l ∈ ls, l.IsSound := by
    rw [List.map_map]
    refine List.forall_mem_map.mpr fun m hm => ?_
    have hkey := Lexeme.isSound_bare (t := .scalar (.string (.ofText m.1)))
      (Literal.isWellSpelled_ofText m.1)
    have hcolon := Lexeme.isSound_bare (t := .colon) rfl
    exact List.forall_mem_cons.mpr ⟨hkey, List.forall_mem_cons.mpr ⟨hcolon, (h m hm).lexemes⟩⟩
  have hjoined : ∀ l ∈ joined ((members.map fun m => (.ofText m.1, m.2)).map memberLexemes),
      l.IsSound := by
    intro l hl
    rcases mem_joined hl with rfl | ⟨ls, hls, hl⟩
    · exact Lexeme.isSound_bare rfl
    · exact hmembers ls hls l hl
  have hbegin := Lexeme.isSound_bare (t := .beginObject) rfl
  have hend := Lexeme.isSound_bare (t := .endObject) rfl
  exact List.forall_mem_cons.mpr ⟨hbegin,
    List.forall_mem_append.mpr ⟨hjoined, List.forall_mem_singleton.mpr hend⟩⟩

theorem flatMap_spell_joined (parts : List (List Lexeme)) :
    (joined parts).flatMap Lexeme.spell =
      commaSeparated (parts.map (·.flatMap Lexeme.spell)) := by
  cases parts with
  | nil => rfl
  | cons ls later =>
    rw [joined, List.map_cons, commaSeparated_cons, List.flatMap_append, List.flatMap_assoc,
      List.flatMap_map]
    rfl

theorem written_ofFields (members : List (String × Source)) :
    (ofFields members).written =
      writeObject (members.map fun m => (.ofText m.1, m.2.written)) := by
  have hmember : ∀ m : String × Source, (memberLexemes (.ofText m.1, m.2)).flatMap Lexeme.spell =
      writeMember (.ofText m.1) m.2.written := by
    intro m
    simp [memberLexemes, writeMember, written, Lexeme.bare, Lexeme.spell, Token.spell]
  simp [ofFields, object, enclosed, written, writeObject, flatMap_spell_joined, Function.comp_def,
    hmember, Lexeme.bare, Lexeme.spell, Token.spell]

/-- The members of a record, for the fields that have a source. -/
def givenFields (fields : List (String × Option Source)) : List (String × Source) :=
  fields.filterMap fun f => f.2.map fun s => (f.1, s)

theorem keys_givenFields (fields : List (String × Option Source)) :
    ((givenFields fields).map (·.1)).Sublist (fields.map (·.1)) := by
  induction fields with
  | nil => exact List.Sublist.refl _
  | cons f rest ih =>
    obtain ⟨name, source⟩ := f
    cases source with
    | none => exact ih.cons name
    | some s => exact ih.cons_cons name

theorem map_givenFields {α : Type} (g : String × Source → α)
    (fields : List (String × Option Source)) :
    (givenFields fields).map g = fields.flatMap fun f => f.2.toList.map fun s => g (f.1, s) := by
  induction fields with
  | nil => rfl
  | cons f rest ih =>
    obtain ⟨name, source⟩ := f
    rw [List.flatMap_cons, ← ih]
    cases source <;> rfl

/-- A record is written from the sources of those of its fields that have one, and they are read
from it again. -/
theorem exists_record (names : List String) (fields : List (String × Option Source))
    (hfields : fields.map (·.1) = names) (hnames : names.Nodup)
    (h : ∀ f ∈ fields, ∀ s, f.2 = some s → s.IsSound) :
    ∃ s : Source, s.IsSound ∧ s.isNull = false ∧
      s.written = writeObject (fields.flatMap fun f =>
        f.2.toList.map fun s => (.ofText f.1, s.written)) ∧
      s.fields? names = some (fields.map (·.2)) := by
  subst hfields
  have hsound : ∀ m ∈ givenFields fields, m.2.IsSound := by
    intro m hm
    obtain ⟨f, hf, hsource⟩ := List.mem_filterMap.mp hm
    obtain ⟨s, hs, rfl⟩ := Option.map_eq_some_iff.mp hsource
    exact h f hf s hs
  have hgiven : ((givenFields fields).map (·.1)).Nodup := (keys_givenFields fields).nodup hnames
  have hobject : ∀ rest, (Source.mk (.bare .beginObject :: rest)).isNull = false := by
    intro rest
    cases rest <;> rfl
  have hlookup : fields.map (fun f => (givenFields fields).lookup f.1) = fields.map (·.2) :=
    List.map_congr_left fun f hf => lookup_filterMap hnames hf
  refine ⟨ofFields (givenFields fields), isSound_ofFields hsound, hobject _, ?_, ?_⟩
  · rw [written_ofFields, map_givenFields]
  · rw [fields?_ofFields hgiven fun m hm => (hsound m hm).document, List.map_map, ← hlookup]
    rfl

/-- A source without the white space in front of it. -/
def trimmed (s : Source) : Source :=
  match s.lexemes with
  | [] => s
  | l :: ls => ⟨.bare l.token :: ls⟩

theorem written_trimmed (s : Source) : s.trimmed.written = s.spelling := by
  obtain ⟨ls⟩ := s
  cases ls <;> rfl

theorem spelling_trimmed (s : Source) : s.trimmed.spelling = s.spelling := by
  obtain ⟨ls⟩ := s
  cases ls <;> rfl

theorem value?_trimmed (s : Source) : s.trimmed.value? = s.value? := by
  obtain ⟨ls⟩ := s
  cases ls <;> rfl

theorem IsSound.trimmed (h : s.IsSound) : s.trimmed.IsSound := by
  refine ⟨?_, by simpa only [value?_trimmed] using h.document⟩
  have hlexemes := h.lexemes
  obtain ⟨ls⟩ := s
  cases ls with
  | nil => exact hlexemes
  | cons l rest =>
    obtain ⟨hl, hrest⟩ := List.forall_mem_cons.mp hlexemes
    exact List.forall_mem_cons.mpr ⟨Lexeme.isSound_bare hl.wellSpelled, hrest⟩

end SidecarAdmission.Json.Source
