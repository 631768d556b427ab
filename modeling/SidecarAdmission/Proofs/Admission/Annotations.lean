import Mathlib.Data.List.Forall2
import SidecarAdmission.Proofs.Admission.Injection

/-!
Several annotations set in one patch. As long as the keys are those of annotations that are not
empty, these are replaced; the first other key makes a new map of annotations, and what is set from
then on is added to it. Every operation finds what it needs, and nothing but the annotations
changes; but what was replaced before the new map is lost unless it is set again after it.
-/

set_option autoImplicit false
set_option relaxedAutoImplicit false

namespace SidecarAdmission.Admission.Injection

open SidecarAdmission.Json SidecarAdmission.Resource SidecarAdmission.Resource.Pod

/-! ### Annotations that are found -/

/-- The text of an annotation of a document, if it has one. -/
def annotation? (v : Json) (key : String) : Option String :=
  (v.at? (annotationPath key)).bind Json.text?

/-- Whether a document has metadata that hold exactly the annotations that are found under keys. -/
def HasAnnotations (v : Json) (find : String → Option String) : Prop :=
  (∃ metadata, v.at? ["metadata"] = some metadata ∧ metadata.isObject = true) ∧
    ∀ key, (v.at? (annotationPath key)).map Json.text? = (find key).map some

/-- The annotation that a target has under a key. -/
def found (target : Option Annotations) (key : String) : Option String :=
  target.bind (·.lookup key)

/-- The last value that updates give to a key. -/
def lastFor (updates : List (String × String)) (key : String) : Option String :=
  updates.reverse.lookup key

/-- What is found under keys after updates, each of which takes the place of what was there. -/
def overwritten (find : String → Option String) (updates : List (String × String)) (key : String) :
    Option String :=
  (lastFor updates key).or (find key)

section Updates

variable {find : String → Option String} {updates more : List (String × String)}
  {key value : String}

theorem lastFor_append :
    lastFor (updates ++ more) key = (lastFor more key).or (lastFor updates key) := by
  rw [lastFor, List.reverse_append, List.lookup_append]
  rfl

theorem lastFor_cons (u : String × String) :
    lastFor (u :: updates) key =
      (lastFor updates key).or (if key = u.1 then some u.2 else none) := by
  rw [← List.singleton_append, lastFor_append]
  congr 1
  exact lookup_cons_ite key u.1 u.2 []

theorem overwritten_cons (u : String × String) :
    overwritten find (u :: updates) = overwritten (overwritten find [u]) updates := by
  funext key
  rw [overwritten, ← List.singleton_append, lastFor_append, Option.or_assoc]
  rfl

theorem overwritten_single (u : String × String) :
    overwritten find [u] key = if key = u.1 then some u.2 else find key := by
  rw [overwritten, lastFor_cons]
  by_cases hkey : key = u.1
  · simp [hkey, lastFor]
  · simp [hkey, lastFor]

theorem lastFor_eq_none_iff : lastFor updates key = none ↔ key ∉ updates.map Prod.fst := by
  rw [lastFor, List.lookup_eq_none_iff]
  constructor
  · intro hnone hmem
    obtain ⟨u, hu, rfl⟩ := List.mem_map.mp hmem
    simpa using hnone u (List.mem_reverse.mpr hu)
  · intro hkey u hu
    rw [bne_iff_ne]
    rintro rfl
    exact hkey (List.mem_map_of_mem (List.mem_reverse.mp hu))

end Updates

theorem annotation?_of_hasAnnotations {v : Json} {find : String → Option String}
    (h : HasAnnotations v find) (key : String) : annotation? v key = find key := by
  have hkey := h.2 key
  unfold annotation?
  cases hat : v.at? (annotationPath key) with
  | none =>
    rw [hat] at hkey
    exact (Option.map_eq_none_iff.mp hkey.symm).symm
  | some w =>
    rw [hat] at hkey
    obtain ⟨s, hs, htext⟩ := Option.map_eq_some_iff.mp hkey.symm
    rw [hs, Option.bind_some, ← htext]

/-! ### Single operations -/

/-- Whether an operation finds what it needs: an object of which its value becomes a member, and
the member itself if it is to be replaced. -/
def Finds (o : Operation) (v : Json) : Prop :=
  ∃ names name parent, Pointer.names? o.path = some (names ++ [name]) ∧
    v.at? names = some parent ∧ parent.isObject = true ∧
      (o.action = .replace → parent.get? name ≠ none)

/-- Whether all that is apart from the annotations is the same in two documents. -/
def SameApart (v w : Json) : Prop :=
  ∀ names, Apart ["metadata", "annotations"] names → w.at? names = v.at? names

/-- An operation finds what it needs, and makes one document of the other without changing anything
apart from the annotations. -/
structure Step (o : Operation) (v w : Json) : Prop where
  finds : Finds o v
  applied : o.apply? v = some w
  apart : SameApart v w

section Operations

variable {v : Json} {find : String → Option String} {key : String}

/-- If one annotation is found, the annotations are an object. -/
private theorem exists_annotations (h : HasAnnotations v find) (hkey : find key ≠ none) :
    ∃ annotations, v.at? ["metadata", "annotations"] = some annotations ∧
      annotations.isObject = true ∧ annotations.get? key ≠ none := by
  obtain ⟨old, hold⟩ := Option.ne_none_iff_exists'.mp hkey
  have hat := h.2 key
  rw [hold] at hat
  obtain ⟨child, hchild, -⟩ := Option.map_eq_some_iff.mp hat
  rw [annotationPath_eq, at?_concat] at hchild
  obtain ⟨annotations, hannotations, hget⟩ := Option.bind_eq_some_iff.mp hchild
  exact ⟨annotations, hannotations, isObject_of_get? hget, by simp [hget]⟩

/-- What is written into the annotations is found there besides all others. -/
private theorem hasAnnotations_setAt (h : HasAnnotations v find) {annotations : Json}
    (hannotations : v.at? ["metadata", "annotations"] = some annotations)
    (hobject : annotations.isObject = true) (key value : String) :
    HasAnnotations (setAt (.string value) v (annotationPath key))
      (overwritten find [(key, value)]) := by
  obtain ⟨⟨metadata, hmetadata, hmeta⟩, hfind⟩ := h
  refine ⟨isObject_at?_setAt _ ?_ ?_ hmetadata hmeta, fun other => ?_⟩
  · simp [annotationPath]
  · simp [annotationPath]
  · have hother := hfind other
    rw [annotationPath_eq, at?_concat, hannotations, Option.bind_some] at hother
    rw [annotationPath_eq, annotationPath_eq, setAt_concat hannotations, at?_concat,
      at?_setAt_of_at? hannotations, Option.bind_some, overwritten_single]
    by_cases hsame : other = key
    · rw [hsame, get?_set_self hobject, if_pos rfl, Option.map_some, text?_string]
      rfl
    · rw [get?_set_of_ne hsame, if_neg hsame, hother]

/-- A new map of annotations holds the one that it is made for. -/
private theorem hasAnnotations_setAt_new {metadata : Json}
    (hmetadata : v.at? ["metadata"] = some metadata) (hobject : metadata.isObject = true)
    (key value : String) :
    HasAnnotations (setAt (ofMembers [(key, .string value)]) v ["metadata", "annotations"])
      (overwritten (fun _ => none) [(key, value)]) := by
  refine ⟨isObject_at?_setAt _ ?_ ?_ hmetadata hobject, fun other => ?_⟩
  · simp
  · simp
  · have hat : (setAt (ofMembers [(key, .string value)]) v ["metadata", "annotations"]).at?
        ["metadata", "annotations"] = some (ofMembers [(key, .string value)]) :=
      at?_setAt_self hmetadata hobject _
    rw [annotationPath_eq, at?_concat, hat, Option.bind_some, overwritten_single]
    by_cases hsame : other = key
    · simp [ofMembers, member?_cons, hsame, text?_string]
    · simp [ofMembers, member?_cons, hsame, Ne.symm hsame]

/-- A pointer to an annotation leads to the member of the annotations with its key. -/
theorem names?_annotationPlace (key : String) :
    Pointer.names? (annotationPlace key) = some ["metadata", "annotations", key] := by
  rw [annotationPlace_eq, Pointer.names?_ofNames]
  rfl

theorem annotationPlace_injective {key other : String}
    (h : annotationPlace key = annotationPlace other) : key = other := by
  have hnames := names?_annotationPlace key
  rw [h, names?_annotationPlace] at hnames
  simpa using hnames.symm

private theorem sameApart_setAt (value : Json) (v : Json) (back : List String) :
    SameApart v (setAt value v (["metadata", "annotations"] ++ back)) :=
  fun _ hapart => at?_setAt_of_apart (hapart.append back) value v

/-- An annotation that is found can be replaced. -/
theorem step_replace (h : HasAnnotations v find) (hkey : find key ≠ none) (value : String) :
    ∃ w, Step ⟨.replace, annotationPlace key, .string value⟩ v w ∧
      HasAnnotations w (overwritten find [(key, value)]) := by
  obtain ⟨annotations, hannotations, hobject, hget⟩ := exists_annotations h hkey
  obtain ⟨old, hold⟩ := Option.ne_none_iff_exists'.mp hget
  have hat : v.at? (["metadata", "annotations"] ++ [key]) = some old := by
    rw [at?_concat, hannotations, Option.bind_some, hold]
  refine ⟨setAt (.string value) v (annotationPath key), ⟨?_, ?_, ?_⟩,
    hasAnnotations_setAt h hannotations hobject key value⟩
  · exact ⟨["metadata", "annotations"], key, annotations, names?_annotationPlace key, hannotations,
      hobject, fun _ => hget⟩
  · rw [annotationPlace_eq, Operation.apply?_eq, annotationPath_eq, putAt?_replace_member hat]
  · rw [annotationPath_eq]
    exact sameApart_setAt _ v [key]

/-- If any annotation is found, another one can be added. -/
theorem step_add (h : HasAnnotations v find) {other : String} (hother : find other ≠ none)
    (key value : String) :
    ∃ w, Step ⟨.add, annotationPlace key, .string value⟩ v w ∧
      HasAnnotations w (overwritten find [(key, value)]) := by
  obtain ⟨annotations, hannotations, hobject, -⟩ := exists_annotations h hother
  refine ⟨setAt (.string value) v (annotationPath key), ⟨?_, ?_, ?_⟩,
    hasAnnotations_setAt h hannotations hobject key value⟩
  · exact ⟨["metadata", "annotations"], key, annotations, names?_annotationPlace key, hannotations,
      hobject, fun hreplace => nomatch hreplace⟩
  · rw [annotationPlace_eq, Operation.apply?_eq, annotationPath_eq,
      putAt?_add_member hannotations hobject]
  · rw [annotationPath_eq]
    exact sameApart_setAt _ v [key]

/-- A new map of annotations can be made whatever annotations there are, and takes their place. -/
theorem step_create (h : HasAnnotations v find) (key value : String) :
    ∃ w, Step ⟨.add, annotationsPlace, ofMembers [(key, .string value)]⟩ v w ∧
      HasAnnotations w (overwritten (fun _ => none) [(key, value)]) := by
  obtain ⟨⟨metadata, hmetadata, hobject⟩, -⟩ := h
  refine ⟨setAt (ofMembers [(key, .string value)]) v ["metadata", "annotations"], ⟨?_, ?_, ?_⟩,
    hasAnnotations_setAt_new hmetadata hobject key value⟩
  · refine ⟨["metadata"], "annotations", metadata, ?_, hmetadata, hobject,
      fun hreplace => nomatch hreplace⟩
    rw [annotationsPlace_eq, Pointer.names?_ofNames]
    rfl
  · rw [annotationsPlace_eq, Operation.apply?_eq]
    exact putAt?_add_member hmetadata hobject _ _
  · exact sameApart_setAt _ v []

end Operations

/-! ### Operations in order -/

/-- Operations lead from one document to another: all apply, each finds what it needs in the
document that it comes to, and nothing apart from the annotations changes. -/
structure Carries (ops : List Operation) (v w : Json) : Prop where
  applied : applyPatch? ops v = some w
  finds : ∀ before o after, ops = before ++ o :: after →
    ∃ x, applyPatch? before v = some x ∧ Finds o x
  apart : SameApart v w

namespace Carries

theorem nil (v : Json) : Carries [] v v :=
  ⟨rfl, fun _ _ _ h => absurd h.symm (by simp), fun _ _ => rfl⟩

theorem cons {o : Operation} {ops : List Operation} {v x w : Json} (hstep : Step o v x)
    (h : Carries ops x w) : Carries (o :: ops) v w := by
  refine ⟨?_, fun before p after hops => ?_, fun names hapart => ?_⟩
  · rw [applyPatch?_cons, hstep.applied, Option.bind_some, h.applied]
  · cases before with
    | nil =>
      obtain ⟨rfl, -⟩ := List.cons_eq_cons.mp hops
      exact ⟨v, rfl, hstep.finds⟩
    | cons first before =>
      obtain ⟨rfl, hrest⟩ := List.cons_eq_cons.mp hops
      obtain ⟨y, hy, hfinds⟩ := h.finds before p after hrest
      refine ⟨y, ?_, hfinds⟩
      rw [applyPatch?_cons, hstep.applied, Option.bind_some, hy]
  · rw [h.apart names hapart, hstep.apart names hapart]

end Carries

/-- Whether a target has an annotation that is not empty. -/
def isSet (target : Option Annotations) (key : String) : Bool := (found target key).getD "" != ""

/-- The updates before the first one for which a new map of annotations is made. -/
def kept (target : Option Annotations) (updates : List (String × String)) :
    List (String × String) :=
  updates.takeWhile fun u => isSet target u.1

/-- The updates from the first one on for which a new map of annotations is made. -/
def added (target : Option Annotations) (updates : List (String × String)) :
    List (String × String) :=
  updates.dropWhile fun u => isSet target u.1

/-- What is found under keys after all updates: if a new map has been made, only what has been set
since then. -/
def remaining (target : Option Annotations) (find : String → Option String)
    (updates : List (String × String)) : String → Option String :=
  if added target updates = [] then overwritten find updates
  else overwritten (fun _ => none) (added target updates)

section Runs

variable {target : Option Annotations} {v : Json} {find : String → Option String}

theorem kept_append_added (target : Option Annotations) (updates : List (String × String)) :
    kept target updates ++ added target updates = updates :=
  List.takeWhile_append_dropWhile

theorem remaining_cons_of_isSet {u : String × String} (h : isSet target u.1 = true)
    (updates : List (String × String)) :
    remaining target find (u :: updates) = remaining target (overwritten find [u]) updates := by
  have hadded : added target (u :: updates) = added target updates := by simp [added, h]
  rw [remaining, hadded, overwritten_cons]
  rfl

theorem remaining_cons_of_not_isSet {u : String × String} (h : isSet target u.1 = false)
    (updates : List (String × String)) :
    remaining target find (u :: updates) = overwritten (fun _ => none) (u :: updates) := by
  have hadded : added target (u :: updates) = u :: updates := by simp [added, h]
  rw [remaining, hadded, if_neg (List.cons_ne_nil u updates)]

theorem setAnnotations_created (u : String × String) (updates : List (String × String)) :
    setAnnotations target true (u :: updates) =
      ⟨.add, annotationPlace u.1, .string u.2⟩ :: setAnnotations target true updates := rfl

theorem setAnnotations_of_isSet {u : String × String} (h : isSet target u.1 = true)
    (updates : List (String × String)) :
    setAnnotations target false (u :: updates) =
      ⟨.replace, annotationPlace u.1, .string u.2⟩ :: setAnnotations target false updates := by
  have hset : ((target.bind (·.lookup u.1)).getD "" != "") = true := h
  simp [setAnnotations, hset]

theorem setAnnotations_of_not_isSet {u : String × String} (h : isSet target u.1 = false)
    (updates : List (String × String)) :
    setAnnotations target false (u :: updates) =
      ⟨.add, annotationsPlace, ofMembers [(u.1, .string u.2)]⟩ ::
        setAnnotations target true updates := by
  have hset : ((target.bind (·.lookup u.1)).getD "" != "") = false := h
  simp [setAnnotations, hset]

/-- Once there is a map, every update is added to it. -/
theorem carries_created (h : HasAnnotations v find) {other : String} (hother : find other ≠ none)
    (updates : List (String × String)) :
    ∃ w, Carries (setAnnotations target true updates) v w ∧
      HasAnnotations w (overwritten find updates) := by
  induction updates generalizing v find with
  | nil => exact ⟨v, Carries.nil v, h⟩
  | cons u rest ih =>
    obtain ⟨x, hstep, hx⟩ := step_add h hother u.1 u.2
    have hkept : overwritten find [u] other ≠ none := by
      rw [overwritten_single]
      split
      · simp
      · exact hother
    obtain ⟨w, hcarries, hw⟩ := ih hx hkept
    refine ⟨w, ?_, ?_⟩
    · rw [setAnnotations_created]
      exact hcarries.cons hstep
    · rw [overwritten_cons]
      exact hw

/-- Before there is a new map, what is set on the target is found and stays so. -/
theorem carries_setAnnotations (h : HasAnnotations v find)
    (hset : ∀ key, isSet target key = true → find key ≠ none) (updates : List (String × String)) :
    ∃ w, Carries (setAnnotations target false updates) v w ∧
      HasAnnotations w (remaining target find updates) := by
  induction updates generalizing v find with
  | nil => exact ⟨v, Carries.nil v, h⟩
  | cons u rest ih =>
    cases hu : isSet target u.1 with
    | true =>
      obtain ⟨x, hstep, hx⟩ := step_replace h (hset u.1 hu) u.2
      have hset' : ∀ key, isSet target key = true → overwritten find [u] key ≠ none := by
        intro key hkey
        rw [overwritten_single]
        split
        · simp
        · exact hset key hkey
      obtain ⟨w, hcarries, hw⟩ := ih hx hset'
      refine ⟨w, ?_, ?_⟩
      · rw [setAnnotations_of_isSet hu]
        exact hcarries.cons hstep
      · rw [remaining_cons_of_isSet hu]
        exact hw
    | false =>
      obtain ⟨x, hstep, hx⟩ := step_create h u.1 u.2
      have hfirst : overwritten (fun _ => none) [u] u.1 ≠ none := by
        rw [overwritten_single, if_pos rfl]
        simp
      obtain ⟨w, hcarries, hw⟩ := carries_created hx hfirst rest
      refine ⟨w, ?_, ?_⟩
      · rw [setAnnotations_of_not_isSet hu]
        exact hcarries.cons hstep
      · rw [remaining_cons_of_not_isSet hu, overwritten_cons]
        exact hw

/-- Annotations can be set on every document that has those of the target. -/
theorem carries_annotate (h : HasAnnotations v (found target)) (updates : List (String × String)) :
    ∃ w, Carries (annotate target updates) v w ∧
      HasAnnotations w (remaining target (found target) updates) := by
  refine carries_setAnnotations h (fun key hkey hnone => ?_) updates
  simp [isSet, hnone] at hkey

end Runs

/-- Whether an operation sets an annotation: as the member with its key, or as the only one of a new
map. -/
def Sets (u : String × String) (o : Operation) : Prop :=
  (Pointer.names? o.path = some ["metadata", "annotations", u.1] ∧ o.value = .string u.2) ∨
    (o.action = .add ∧ Pointer.names? o.path = some ["metadata", "annotations"] ∧
      o.value = ofMembers [(u.1, .string u.2)])

/-- There is one operation for each update, in their order. -/
theorem forall₂_sets (target : Option Annotations) (created : Bool)
    (updates : List (String × String)) :
    List.Forall₂ Sets updates (setAnnotations target created updates) := by
  induction updates generalizing created with
  | nil => exact .nil
  | cons u rest ih =>
    cases created with
    | true => exact .cons (.inl ⟨names?_annotationPlace u.1, rfl⟩) (ih true)
    | false =>
      cases hu : isSet target u.1 with
      | true =>
        rw [setAnnotations_of_isSet hu]
        exact .cons (.inl ⟨names?_annotationPlace u.1, rfl⟩) (ih false)
      | false =>
        rw [setAnnotations_of_not_isSet hu]
        refine .cons (.inr ⟨rfl, ?_, rfl⟩) (ih true)
        rw [annotationsPlace_eq, Pointer.names?_ofNames]

/-- A document with one annotation and nothing else. -/
def singlyAnnotated (key value : String) : Json :=
  ofMembers [("metadata", ofMembers [("annotations", ofMembers [(key, .string value)])])]

theorem hasAnnotations_singlyAnnotated (key value : String) :
    HasAnnotations (singlyAnnotated key value) (found (some [(key, value)])) := by
  refine ⟨⟨ofMembers [("annotations", ofMembers [(key, .string value)])], ?_, rfl⟩, fun other => ?_⟩
  · simp [singlyAnnotated, ofMembers, member?_cons]
  · by_cases hsame : other = key
    · simp [singlyAnnotated, ofMembers, annotationPath, member?_cons, found, hsame,
        text?_string]
    · simp [singlyAnnotated, ofMembers, annotationPath, member?_cons, found, hsame,
        Ne.symm hsame]

/-- Setting annotations never fails on a document that has those of the target: every operation
finds the object, and the member if it replaces one, that it needs, and nothing apart from the
annotations changes. Each update is set under its very key, and keys that differ have places that
differ. -/
theorem annotate_carries {target : Option Annotations} {v : Json}
    (h : HasAnnotations v (found target)) (updates : List (String × String)) :
    (∃ w metadata, Carries (annotate target updates) v w ∧
      w.at? ["metadata"] = some metadata ∧ metadata.isObject = true) ∧
    List.Forall₂ Sets updates (annotate target updates) ∧
    ∀ key other, annotationPlace key = annotationPlace other → key = other := by
  obtain ⟨w, hcarries, hw⟩ := carries_annotate h updates
  obtain ⟨⟨metadata, hmetadata, hobject⟩, -⟩ := hw
  exact ⟨⟨w, metadata, hcarries, hmetadata, hobject⟩, forall₂_sets target false updates,
    fun _ _ => annotationPlace_injective⟩

theorem annotate_carries_escaped :
    let target : Option Annotations := some [("a/b~1", "1")]
    let updates := [("a/b~1", "x"), ("", "y"), ("~0/", "z")]
    HasAnnotations (singlyAnnotated "a/b~1" "1") (found target) ∧
    (∃ w metadata, Carries (annotate target updates) (singlyAnnotated "a/b~1" "1") w ∧
      w.at? ["metadata"] = some metadata ∧ metadata.isObject = true) ∧
    List.Forall₂ Sets updates (annotate target updates) ∧
    ∀ key other, annotationPlace key = annotationPlace other → key = other :=
  ⟨hasAnnotations_singlyAnnotated _ _, annotate_carries (hasAnnotations_singlyAnnotated _ _) _⟩

/-! ### What is found afterwards -/

/-- Updates keep their last values if and only if no new map is made, or what is set before it is
set again from then on. -/
theorem remaining_eq_lastFor_iff (target : Option Annotations) (find : String → Option String)
    (updates : List (String × String)) :
    (∀ key value, lastFor updates key = some value →
        remaining target find updates key = some value) ↔
      added target updates = [] ∨
        ∀ u ∈ kept target updates, u.1 ∈ (added target updates).map Prod.fst := by
  have hsplit : ∀ key, lastFor updates key =
      (lastFor (added target updates) key).or (lastFor (kept target updates) key) := by
    intro key
    rw [← lastFor_append, kept_append_added]
  by_cases hadded : added target updates = []
  · refine iff_of_true (fun key value hlast => ?_) (.inl hadded)
    rw [remaining, if_pos hadded, overwritten, hlast, Option.some_or]
  · have hremaining : ∀ key, remaining target find updates key =
        lastFor (added target updates) key := by
      intro key
      rw [remaining, if_neg hadded, overwritten, Option.or_none]
    simp only [hremaining, hadded, false_or]
    constructor
    · intro hall u hu
      refine Classical.byContradiction fun hnot => ?_
      have hnone := lastFor_eq_none_iff.mpr hnot
      have hsome : lastFor (kept target updates) u.1 ≠ none :=
        fun h => lastFor_eq_none_iff.mp h (List.mem_map_of_mem hu)
      obtain ⟨value, hvalue⟩ := Option.ne_none_iff_exists'.mp hsome
      have hlast : lastFor updates u.1 = some value := by rw [hsplit, hnone, Option.none_or, hvalue]
      rw [hall u.1 value hlast] at hnone
      contradiction
    · intro hagain key value hlast
      rw [hsplit] at hlast
      cases hlater : lastFor (added target updates) key with
      | some later => rwa [hlater, Option.some_or] at hlast
      | none =>
        have hkept : lastFor (kept target updates) key ≠ none := by
          rw [hlater, Option.none_or] at hlast
          simp [hlast]
        have hmem : key ∈ (kept target updates).map Prod.fst :=
          Classical.byContradiction fun hnot => hkept (lastFor_eq_none_iff.mpr hnot)
        obtain ⟨u, hu, rfl⟩ := List.mem_map.mp hmem
        exact absurd (hagain u hu) (lastFor_eq_none_iff.mp hlater)

/-- After setting annotations a document has those that remain. The updates all keep their last
values if and only if no new map is made, or what is set before it is set again from then on. -/
theorem annotation?_of_annotate {target : Option Annotations} {v : Json}
    (h : HasAnnotations v (found target)) (updates : List (String × String)) :
    ∃ w, applyPatch? (annotate target updates) v = some w ∧
      (∀ key, annotation? w key =
        if added target updates = [] then (lastFor updates key).or (found target key)
        else lastFor (added target updates) key) ∧
      ((∀ key value, lastFor updates key = some value → annotation? w key = some value) ↔
        added target updates = [] ∨
          ∀ u ∈ kept target updates, u.1 ∈ (added target updates).map Prod.fst) := by
  obtain ⟨w, hcarries, hw⟩ := carries_annotate h updates
  have hfound : ∀ key, annotation? w key = remaining target (found target) updates key :=
    annotation?_of_hasAnnotations hw
  refine ⟨w, hcarries.applied, fun key => ?_, ?_⟩
  · rw [hfound, remaining]
    split
    · rfl
    · exact Option.or_none
  · simp only [hfound]
    exact remaining_eq_lastFor_iff target (found target) updates

theorem annotation?_of_annotate_again :
    let target : Option Annotations := some [("a", "1")]
    let updates := [("a", "x"), ("b", "y"), ("a", "z")]
    HasAnnotations (singlyAnnotated "a" "1") (found target) ∧
    ∃ w, applyPatch? (annotate target updates) (singlyAnnotated "a" "1") = some w ∧
      (∀ key, annotation? w key =
        if added target updates = [] then (lastFor updates key).or (found target key)
        else lastFor (added target updates) key) ∧
      ((∀ key value, lastFor updates key = some value → annotation? w key = some value) ↔
        added target updates = [] ∨
          ∀ u ∈ kept target updates, u.1 ∈ (added target updates).map Prod.fst) :=
  ⟨hasAnnotations_singlyAnnotated _ _,
    annotation?_of_annotate (hasAnnotations_singlyAnnotated _ _) _⟩

/-- What has been replaced is lost when another annotation, which the target lacks, is set. -/
theorem update_lost :
    ∃ w, applyPatch? (annotate (some [("a", "1")]) [("a", "x"), ("b", "y")])
        (singlyAnnotated "a" "1") = some w ∧
      HasAnnotations (singlyAnnotated "a" "1") (found (some [("a", "1")])) ∧
      lastFor [("a", "x"), ("b", "y")] "a" = some "x" ∧ annotation? w "a" = none ∧
      annotation? w "b" = some "y" := by
  obtain ⟨w, hcarries, hw⟩ := carries_annotate (hasAnnotations_singlyAnnotated "a" "1")
    [("a", "x"), ("b", "y")]
  refine ⟨w, hcarries.applied, hasAnnotations_singlyAnnotated "a" "1", by decide, ?_, ?_⟩
  · rw [annotation?_of_hasAnnotations hw]
    decide
  · rw [annotation?_of_hasAnnotations hw]
    decide

end SidecarAdmission.Admission.Injection
