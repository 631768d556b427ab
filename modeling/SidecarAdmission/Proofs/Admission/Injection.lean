import SidecarAdmission.Admission.Injection
import SidecarAdmission.Proofs.Json.Patch
import SidecarAdmission.Proofs.Resource.Pod

/-!
What the operations of an injection make of a document. Items end up behind those of the list that
they are added to, whether the list has items, is empty, null or missing; an annotation is put in
place of one that is not empty, and otherwise in place of all annotations.
-/

set_option autoImplicit false
set_option relaxedAutoImplicit false

namespace SidecarAdmission.Admission.Injection

open SidecarAdmission.Json SidecarAdmission.Resource SidecarAdmission.Resource.Pod

/-- The places of the lists that items are added to. -/
theorem containersPlace_eq : containersPlace = Pointer.ofNames ["spec", "containers"] := by
  decide

theorem volumesPlace_eq : volumesPlace = Pointer.ofNames ["spec", "volumes"] := by
  decide

theorem imagePullSecretsPlace_eq :
    imagePullSecretsPlace = Pointer.ofNames ["spec", "imagePullSecrets"] := by
  decide

theorem annotationsPlace_eq : annotationsPlace = Pointer.ofNames ["metadata", "annotations"] := by
  decide

theorem annotationPlace_eq (key : String) :
    annotationPlace key = Pointer.ofNames (annotationPath key) := by
  rw [annotationPlace, annotationsPlace_eq, annotationPath_eq, Pointer.ofNames_concat]

/-! ### Lists -/

/-- A document with items behind those of the list at a place; without any it stays as it is. -/
def extendList (v : Json) (names : List String) (additions : List Json) : Json :=
  if additions.isEmpty then v
  else setAt (.array ((v.listAt? names).getD [] ++ additions)) v names

/-- What is no array, but has the items of a list, has none. -/
private theorem listAt?_eq_some {v : Json} {names : List String} {items : List Json}
    (h : v.listAt? names = some items) : items = [] ∨ v.at? names = some (.array items) := by
  unfold listAt? at h
  split at h
  next => exact .inl (Option.some.inj h).symm
  next found => exact .inr (Option.some.inj h ▸ found)
  next =>
    split at h
    · exact .inl (Option.some.inj h).symm
    · contradiction

/-- The operations that append items to a list do so. -/
theorem applyPatch?_appendItems {v parent : Json} (names : List String) {name : String}
    (hparent : v.at? names = some parent) (hobject : parent.isObject = true) {items : List Json}
    (hitems : v.listAt? (names ++ [name]) = some items) {target : List Value}
    (hlength : target.length = items.length) (additions : List Value) :
    applyPatch? (appendItems target additions (Pointer.ofNames (names ++ [name]))) v =
      some (extendList v (names ++ [name]) (additions.map Value.toJson)) := by
  unfold appendItems extendList
  cases additions with
  | nil => rfl
  | cons x xs =>
    rw [hitems]
    cases target with
    | nil =>
      -- The list may be missing, null or empty; the whole list is put in its place.
      obtain rfl : items = [] := List.length_eq_zero_iff.mp hlength.symm
      simp only [List.isEmpty_cons, List.isEmpty_nil, List.map_cons, Bool.false_eq_true, if_false,
        if_true, applyPatch?_cons, Operation.apply?_eq, putAt?_add_member hparent hobject,
        Option.bind_some, applyPatch?_nil, Option.getD_some, List.nil_append]
    | cons y ys =>
      have hne : items ≠ [] := by
        rintro rfl
        contradiction
      have harray := (listAt?_eq_some hitems).resolve_left hne
      have hpath : Pointer.ofNames (names ++ [name]) ++ "/-" =
          Pointer.ofNames (names ++ [name] ++ ["-"]) := by
        rw [Pointer.ofNames_concat (names ++ [name]), String.append_assoc]
        rfl
      have happly := applyPatch?_map_add_item harray ((x :: xs).map Value.toJson)
      rw [List.map_map] at happly
      simpa [hpath, Function.comp_def] using happly

theorem at?_extendList {v parent : Json} (names : List String) {name : String}
    (hparent : v.at? names = some parent) (hobject : parent.isObject = true)
    (additions : List Json) :
    (extendList v (names ++ [name]) additions).at? (names ++ [name]) =
      if additions.isEmpty then v.at? (names ++ [name])
      else some (.array ((v.listAt? (names ++ [name])).getD [] ++ additions)) := by
  unfold extendList
  split
  · rfl
  · exact at?_setAt_self hparent hobject _

theorem wellSpelled_extendList {v : Json} (hv : v.WellSpelled) (names : List String)
    {additions : List Json} (hadditions : ∀ w ∈ additions, w.WellSpelled) :
    (extendList v names additions).WellSpelled := by
  unfold extendList
  split
  · exact hv
  · apply hv.setAt
    rw [wellSpelled_array, List.forall_mem_append]
    refine ⟨?_, hadditions⟩
    cases hitems : v.listAt? names with
    | none => simp
    | some items =>
      rcases listAt?_eq_some hitems with rfl | hat
      · simp
      · exact wellSpelled_array.mp (hv.at? hat)

theorem at?_extendList_of_apart {names other : List String} (h : Apart names other) (v : Json)
    (additions : List Json) : (extendList v names additions).at? other = v.at? other := by
  unfold extendList
  split
  · rfl
  · exact at?_setAt_of_apart h _ v

theorem isObject_at?_extendList {names front : List String} {v w : Json}
    (hfront : front <+: names) (hne : front ≠ names) (h : v.at? front = some w)
    (hw : w.isObject = true) (additions : List Json) :
    ∃ w', (extendList v names additions).at? front = some w' ∧ w'.isObject = true := by
  unfold extendList
  split
  · exact ⟨w, h, hw⟩
  · exact isObject_at?_setAt _ hfront hne h hw

/-! ### Several lists of a specification -/

/-- A list of the specification of a pod: its name, the items that the pod has, and those that are
added. -/
structure Extension where
  name : String
  target : List Value
  additions : List Value

namespace Extension

/-- The place of a list. -/
def path (e : Extension) : List String := ["spec", e.name]

/-- The operations that extend a list. -/
def operations (e : Extension) : List Operation :=
  appendItems e.target e.additions (Pointer.ofNames e.path)

/-- A document with a list extended. -/
def extend (v : Json) (e : Extension) : Json := extendList v e.path (e.additions.map Value.toJson)

/-- Whether the items that the pod has are as many as those of the document. -/
def Matches (v : Json) (e : Extension) : Prop :=
  ∃ items, v.listAt? e.path = some items ∧ e.target.length = items.length

theorem at?_extend_of_ne {e f : Extension} (h : e.name ≠ f.name) (v : Json) :
    (extend v e).at? f.path = v.at? f.path :=
  at?_extendList_of_apart (apart_cons_cons.mpr (apart_cons_cons_of_ne h [] [])) v _

theorem isObject_extend {v spec : Json} (hspec : v.at? ["spec"] = some spec)
    (hobject : spec.isObject = true) (e : Extension) :
    ∃ spec', (extend v e).at? ["spec"] = some spec' ∧ spec'.isObject = true :=
  isObject_at?_extendList (by simp [path]) (by simp [path]) hspec hobject _

/-- The operations of several lists extend each of them. -/
theorem applyPatch?_operations {es : List Extension} (hnames : (es.map name).Nodup) {v spec : Json}
    (hspec : v.at? ["spec"] = some spec) (hobject : spec.isObject = true)
    (hmatch : ∀ e ∈ es, Matches v e) :
    applyPatch? (es.flatMap operations) v = some (es.foldl extend v) := by
  induction es generalizing v spec with
  | nil => rfl
  | cons e rest ih =>
    obtain ⟨hfresh, hrest⟩ := List.nodup_cons.mp hnames
    obtain ⟨items, hitems, hlength⟩ := hmatch e List.mem_cons_self
    have hstep : applyPatch? e.operations v = some (extend v e) :=
      applyPatch?_appendItems ["spec"] hspec hobject hitems hlength e.additions
    obtain ⟨spec', hspec', hobject'⟩ := isObject_extend hspec hobject e
    -- The lists that are still to be extended have the items that they had: names differ.
    have hmatch' : ∀ f ∈ rest, Matches (extend v e) f := by
      intro f hf
      have hne : e.name ≠ f.name := fun h => hfresh (h ▸ List.mem_map_of_mem hf)
      obtain ⟨items', hitems', hlength'⟩ := hmatch f (List.mem_cons_of_mem e hf)
      refine ⟨items', ?_, hlength'⟩
      rw [listAt?, at?_extend_of_ne hne]
      exact hitems'
    rw [List.flatMap_cons, applyPatch?_append, hstep, Option.bind_some,
      ih hrest hspec' hobject' hmatch']
    rfl

/-- Without a specification nothing can be added to its lists. -/
theorem applyPatch?_operations_eq_none {es : List Extension} {v : Json} (hv : v.isObject = true)
    (hspec : v.given? "spec" = none) (htarget : ∀ e ∈ es, e.target = [])
    (hadd : ∃ e ∈ es, e.additions ≠ []) : applyPatch? (es.flatMap operations) v = none := by
  induction es with
  | nil => simp at hadd
  | cons e rest ih =>
    have hempty : e.target = [] := htarget e List.mem_cons_self
    rw [List.flatMap_cons, applyPatch?_append]
    cases hadditions : e.additions with
    | nil =>
      have hnone : e.operations = [] := by simp [operations, appendItems, hadditions]
      obtain ⟨f, hf, hne⟩ := hadd
      have hrest : f ∈ rest := by
        rcases List.mem_cons.mp hf with rfl | hrest
        · exact absurd hadditions hne
        · exact hrest
      rw [hnone, applyPatch?_nil, Option.bind_some]
      exact ih (fun g hg => htarget g (List.mem_cons_of_mem e hg)) ⟨f, hrest, hne⟩
    | cons x xs =>
      have hscalar : ∀ child, v.get? "spec" = some child → ∃ s, child = .scalar s := by
        intro child hchild
        rcases get?_of_not_given hspec with hnone | hnull
        · rw [hchild] at hnone
          contradiction
        · exact ⟨.null, Option.some.inj (hchild.symm.trans hnull)⟩
      have hfail := putAt?_eq_none hscalar hv .add
        (.array ((x :: xs).map Value.toJson)) e.name []
      simp [operations, appendItems, hadditions, hempty, applyPatch?_cons, Operation.apply?_eq,
        path] at hfail ⊢
      simp [hfail]

/-- Each list ends with its additions, and keeps its value if there are none. -/
theorem at?_foldl_extend {es : List Extension} (hnames : (es.map name).Nodup) {v spec : Json}
    (hspec : v.at? ["spec"] = some spec) (hobject : spec.isObject = true) {e : Extension}
    (he : e ∈ es) :
    (es.foldl extend v).at? e.path =
      if e.additions.isEmpty then v.at? e.path
      else some (.array ((v.listAt? e.path).getD [] ++ e.additions.map Value.toJson)) := by
  -- What comes after the list in question has other names.
  have hkeep : ∀ (fs : List Extension) (w : Json), (∀ f ∈ fs, f.name ≠ e.name) →
      (fs.foldl extend w).at? e.path = w.at? e.path := by
    intro fs
    induction fs with
    | nil => exact fun w _ => rfl
    | cons f fs ih =>
      intro w hne
      rw [List.foldl_cons, ih _ (fun g hg => hne g (List.mem_cons_of_mem f hg)),
        at?_extend_of_ne (hne f List.mem_cons_self)]
  induction es generalizing v spec with
  | nil => contradiction
  | cons f rest ih =>
    obtain ⟨hfresh, hrest⟩ := List.nodup_cons.mp hnames
    obtain ⟨spec', hspec', hobject'⟩ := isObject_extend hspec hobject f
    rw [List.foldl_cons]
    rcases List.mem_cons.mp he with rfl | hmem
    · have hne : ∀ g ∈ rest, g.name ≠ e.name := fun g hg h =>
        hfresh (h ▸ List.mem_map_of_mem hg)
      rw [hkeep rest _ hne]
      simpa [extend, path] using
        at?_extendList ["spec"] hspec hobject (e.additions.map Value.toJson)
    · have hne : f.name ≠ e.name := fun h => hfresh (h ▸ List.mem_map_of_mem hmem)
      rw [ih hrest hspec' hobject' hmem, listAt?, at?_extend_of_ne hne]
      rfl

/-- What is apart from every extended list stays as it is. -/
theorem at?_foldl_extend_of_apart {es : List Extension} {other : List String}
    (h : ∀ e ∈ es, Apart e.path other) (v : Json) :
    (es.foldl extend v).at? other = v.at? other := by
  induction es generalizing v with
  | nil => rfl
  | cons e rest ih =>
    rw [List.foldl_cons, ih fun f hf => h f (List.mem_cons_of_mem e hf)]
    exact at?_extendList_of_apart (h e List.mem_cons_self) v _

/-- The specification of a document is an object after its lists are extended as before. -/
theorem isObject_foldl_extend (es : List Extension) {v spec : Json}
    (hspec : v.at? ["spec"] = some spec) (hobject : spec.isObject = true) :
    ∃ spec', (es.foldl extend v).at? ["spec"] = some spec' ∧ spec'.isObject = true := by
  induction es generalizing v spec with
  | nil => exact ⟨spec, hspec, hobject⟩
  | cons e rest ih =>
    obtain ⟨spec', hspec', hobject'⟩ := isObject_extend hspec hobject e
    exact ih hspec' hobject'

end Extension

/-! ### Annotations -/

/-- The text of an annotation of a document, empty if it has none. -/
def annotationText (v : Json) (key : String) : String :=
  ((v.at? (annotationPath key)).bind Json.text?).getD ""

/-- A document with an annotation in place of the one with that key, or, if that is empty or there
is none, in place of all annotations. -/
def annotated (v : Json) (key value : String) : Json :=
  if annotationText v key = "" then
    setAt (Json.ofMembers [(key, .string value)]) v ["metadata", "annotations"]
  else setAt (.string value) v (annotationPath key)

theorem applyPatch?_annotate {v annotations : Json}
    (h : v.at? ["metadata", "annotations"] = some annotations) {target : Option Annotations}
    {key : String} (htarget : (target.bind (·.lookup key)).getD "" = annotationText v key)
    (value : String) :
    applyPatch? (annotate target [(key, value)]) v = some (annotated v key value) := by
  unfold annotate annotated
  by_cases hempty : annotationText v key = ""
  · obtain ⟨metadata, hmetadata, hget⟩ : ∃ m, v.at? ["metadata"] = some m ∧
        m.get? "annotations" = some annotations := by
      rw [← List.singleton_append, at?_concat] at h
      exact Option.bind_eq_some_iff.mp h
    have hadd := putAt?_add_member hmetadata (isObject_of_get? hget) "annotations"
      (Json.ofMembers [(key, .string value)])
    simpa [setAnnotations, htarget, hempty, annotationsPlace_eq, applyPatch?_cons,
      Operation.apply?_eq] using hadd
  · obtain ⟨old, hold⟩ : ∃ old, v.at? (annotationPath key) = some old := by
      cases hat : v.at? (annotationPath key) with
      | some old => exact ⟨old, rfl⟩
      | none => simp [annotationText, hat] at hempty
    rw [annotationPath_eq] at hold
    have hreplace := putAt?_replace_member hold (.string value)
    simpa [setAnnotations, htarget, hempty, annotationPlace_eq, applyPatch?_cons,
      Operation.apply?_eq, annotationPath_eq] using hreplace

/-- Setting an annotation in place of an empty one, or where there is none, loses the others. -/
theorem get?_annotated {v annotations : Json} {key : String}
    (h : v.at? ["metadata", "annotations"] = some annotations) (hobject : annotations.isObject = true)
    (value : String) :
    ∃ after, (annotated v key value).at? ["metadata", "annotations"] = some after ∧
      after.isObject = true ∧
      ∀ other, after.get? other =
        if other = key then some (.string value)
        else if annotationText v key = "" then none else annotations.get? other := by
  unfold annotated
  by_cases hempty : annotationText v key = ""
  · refine ⟨_, by rw [if_pos hempty, at?_setAt_of_at? h], rfl, ?_⟩
    intro other
    by_cases hother : other = key
    · simp [ofMembers, member?_cons, hother]
    · simp [ofMembers, member?_cons, hother, Ne.symm hother, hempty]
  · refine ⟨annotations.set key (.string value), ?_, by rw [isObject_set, hobject], ?_⟩
    · rw [if_neg hempty, annotationPath_eq, setAt_concat h, at?_setAt_of_at? h]
    · intro other
      by_cases hother : other = key
      · rw [hother, get?_set_self hobject, if_pos rfl]
      · rw [get?_set_of_ne hother, if_neg hother, if_neg hempty]

theorem at?_annotated_of_apart {names : List String} (h : Apart ["metadata", "annotations"] names)
    (v : Json) (key value : String) : (annotated v key value).at? names = v.at? names := by
  have hbelow : Apart (annotationPath key) names := h.append [key]
  unfold annotated
  split
  · exact at?_setAt_of_apart h _ v
  · exact at?_setAt_of_apart hbelow _ v

theorem annotationText_congr {v w : Json} {key : String}
    (h : v.at? (annotationPath key) = w.at? (annotationPath key)) :
    annotationText v key = annotationText w key := by
  rw [annotationText, annotationText, h]

/-- A decoded pod has the annotations of its document. -/
theorem lookup_eq_annotationText {doc : Json} {pod : Value}
    (h : Value.decode? .pod doc = some pod) (key : String) :
    (((metadata pod).annotations?.getD []).lookup key).getD "" = annotationText doc key := by
  have htexts := lookup_annotations h key
  unfold annotationText
  cases hat : doc.at? (annotationPath key) with
  | none =>
    rw [hat] at htexts
    have hnone := Option.map_eq_none_iff.mp htexts.symm
    simp [hnone]
  | some w =>
    rw [hat] at htexts
    obtain ⟨s, hs, htext⟩ := Option.map_eq_some_iff.mp htexts.symm
    simp [hs, ← htext]

/-! ### The whole patch -/

/-- The lists of a specification, under the names that they have in a pod. -/
def lists (sidecar : Sidecar.Spec) : List (String × List Value) :=
  [("containers", sidecar.containers), ("volumes", sidecar.volumes),
    ("imagePullSecrets", sidecar.imagePullSecrets)]

/-- The lists that an injection extends. -/
def extensions (pod : Value) (sidecar : Sidecar.Spec) : List Extension :=
  (lists sidecar).map fun list => ⟨list.1, listNamed pod list.1, list.2⟩

theorem patch_eq (pod : Value) (sidecar : Sidecar.Spec) (updates : List (String × String)) :
    patch pod sidecar updates =
      (extensions pod sidecar).flatMap Extension.operations ++
        annotate (metadata pod).annotations? updates := by
  simp only [patch, containers?_getD, volumes?_getD, imagePullSecrets?_getD, containersPlace_eq,
    volumesPlace_eq, imagePullSecretsPlace_eq, extensions, lists, Extension.operations,
    Extension.path, List.map_cons, List.map_nil, List.flatMap_cons, List.flatMap_nil,
    List.append_nil, List.append_assoc]

theorem nodup_names_extensions (pod : Value) (sidecar : Sidecar.Spec) :
    ((extensions pod sidecar).map Extension.name).Nodup := by
  simp only [extensions, lists, List.map_cons, List.map_nil]
  decide

theorem additions_extensions_eq_nil_iff (pod : Value) (sidecar : Sidecar.Spec) :
    (∀ e ∈ extensions pod sidecar, e.additions = []) ↔ sidecar.isEmpty = true := by
  simp [extensions, lists, Sidecar.Spec.isEmpty, and_assoc]

private theorem matches_extensions {doc spec : Json} {pod : Value}
    (h : Value.decode? .pod doc = some pod) (hspec : doc.given? "spec" = some spec)
    (sidecar : Sidecar.Spec) : ∀ e ∈ extensions pod sidecar, e.Matches doc := by
  have hcontainers : Kind.field? .podSpec "containers" =
      some ⟨"containers", .list (.record .container), true⟩ := rfl
  have hvolumes : Kind.field? .podSpec "volumes" =
      some ⟨"volumes", .list (.record .volume), false⟩ := rfl
  have hsecrets : Kind.field? .podSpec "imagePullSecrets" =
      some ⟨"imagePullSecrets", .list (.record .localObjectReference), false⟩ := rfl
  intro e he
  simp only [extensions, lists, List.map_cons, List.map_nil, List.mem_cons, List.not_mem_nil,
    or_false] at he
  rcases he with rfl | rfl | rfl
  · exact length_listNamed h hspec hcontainers
  · exact length_listNamed h hspec hvolumes
  · exact length_listNamed h hspec hsecrets

/-- The metadata stand apart from the lists of the specification. -/
theorem at?_metadata_foldl_extend (doc : Json) (pod : Value) (sidecar : Sidecar.Spec)
    (names : List String) :
    ((extensions pod sidecar).foldl Extension.extend doc).at? ("metadata" :: names) =
      doc.at? ("metadata" :: names) :=
  Extension.at?_foldl_extend_of_apart
    (fun e _ => apart_cons_cons_of_ne (by decide) [e.name] names) doc

/-- The document that injecting a specification and setting one annotation aim at. -/
def injectedInto (doc : Json) (pod : Value) (sidecar : Sidecar.Spec) (key value : String) : Json :=
  annotated ((extensions pod sidecar).foldl Extension.extend doc) key value

/-- A patch applies to the document of its pod if there is nothing to inject or the document has a
specification, and to no other; it then makes the document that it aims at. -/
theorem applyPatch?_patch {doc annotations : Json} {pod : Value}
    (h : Value.decode? .pod doc = some pod)
    (hannotations : doc.at? ["metadata", "annotations"] = some annotations)
    (sidecar : Sidecar.Spec) (key value : String) :
    applyPatch? (patch pod sidecar [(key, value)]) doc =
      if sidecar.isEmpty = true ∨ (doc.given? "spec").isSome = true then
        some (injectedInto doc pod sidecar key value)
      else none := by
  have hobject : doc.isObject = true := Value.isObject_of_ofJson? h
  have hkept := at?_metadata_foldl_extend doc pod sidecar
  have hmark : applyPatch? (annotate (metadata pod).annotations? [(key, value)])
      ((extensions pod sidecar).foldl Extension.extend doc) =
        some (injectedInto doc pod sidecar key value) := by
    apply applyPatch?_annotate ((hkept _).trans hannotations)
    rw [annotationText_congr (hkept _), ← lookup_eq_annotationText h]
    cases (metadata pod).annotations? <;> rfl
  rw [patch_eq, applyPatch?_append]
  cases hspec : doc.given? "spec" with
  | some spec =>
    have hget : doc.at? ["spec"] = some spec := by
      rw [at?_cons, (get?_of_given? hspec).1]
      rfl
    rw [Extension.applyPatch?_operations (nodup_names_extensions pod sidecar) hget
      (isObject_of_given?_spec h hspec) (matches_extensions h hspec sidecar), Option.bind_some,
      hmark]
    simp
  | none =>
    by_cases hempty : sidecar.isEmpty = true
    · have hnothing := (additions_extensions_eq_nil_iff pod sidecar).mpr hempty
      have hoperations : (extensions pod sidecar).flatMap Extension.operations = [] := by
        apply List.flatMap_eq_nil_iff.mpr
        intro e he
        simp [Extension.operations, appendItems, hnothing e he]
      have hsame : (extensions pod sidecar).foldl Extension.extend doc = doc := by
        simp only [Sidecar.Spec.isEmpty, Bool.and_eq_true, List.isEmpty_iff] at hempty
        simp [extensions, lists, Extension.extend, extendList, hempty]
      rw [hoperations, applyPatch?_nil, Option.bind_some, ← hmark, hsame]
      simp [hempty]
    · -- The first list with additions is looked for below a member that is not there.
      have hadd : ∃ e ∈ extensions pod sidecar, e.additions ≠ [] := by
        apply Classical.byContradiction
        intro hno
        apply hempty
        apply (additions_extensions_eq_nil_iff pod sidecar).mp
        intro e he
        apply Classical.byContradiction
        exact fun hne => hno ⟨e, he, hne⟩
      have htarget : ∀ e ∈ extensions pod sidecar, e.target = [] := by
        intro e he
        simp only [extensions, lists, List.map_cons, List.map_nil, List.mem_cons,
          List.not_mem_nil, or_false] at he
        rcases he with rfl | rfl | rfl <;> exact listNamed_of_given?_spec_eq_none h hspec _
      rw [Extension.applyPatch?_operations_eq_none hobject hspec htarget hadd]
      simp [hempty]

/-! ### The document that a patch aims at -/

/-- The annotations that are aimed at: the others are kept only if the one set was not empty. -/
theorem get?_annotations_injectedInto {doc annotations : Json}
    (h : doc.at? ["metadata", "annotations"] = some annotations)
    (hobject : annotations.isObject = true) (pod : Value) (sidecar : Sidecar.Spec)
    (key value : String) :
    ∃ after, (injectedInto doc pod sidecar key value).at? ["metadata", "annotations"] = some after ∧
      after.isObject = true ∧
      ∀ other, after.get? other =
        if other = key then some (.string value)
        else if annotationText doc key = "" then none else annotations.get? other := by
  have hkept := at?_metadata_foldl_extend doc pod sidecar
  have htext := annotationText_congr (hkept ["annotations", key])
  rw [← htext]
  exact get?_annotated ((hkept _).trans h) hobject value

/-- What is apart from the lists and from the annotations is kept. -/
theorem at?_injectedInto_of_apart {names : List String} {sidecar : Sidecar.Spec}
    (hlists : ∀ list ∈ lists sidecar, Apart ["spec", list.1] names)
    (hannotations : Apart ["metadata", "annotations"] names) (doc : Json) (pod : Value)
    (key value : String) :
    (injectedInto doc pod sidecar key value).at? names = doc.at? names := by
  have hextensions : ∀ e ∈ extensions pod sidecar, Apart e.path names := by
    intro e he
    obtain ⟨list, hlist, rfl⟩ := List.mem_map.mp he
    exact hlists list hlist
  rw [injectedInto, at?_annotated_of_apart hannotations,
    Extension.at?_foldl_extend_of_apart hextensions]

/-- The annotations stand apart from the specification. -/
private theorem at?_spec_injectedInto (doc : Json) (pod : Value) (sidecar : Sidecar.Spec)
    (key value : String) (names : List String) :
    (injectedInto doc pod sidecar key value).at? ("spec" :: names) =
      ((extensions pod sidecar).foldl Extension.extend doc).at? ("spec" :: names) :=
  at?_annotated_of_apart (apart_cons_cons_of_ne (by decide) ["annotations"] names) _ key value

theorem isObject_spec_injectedInto {doc spec : Json} (hspec : doc.get? "spec" = some spec)
    (hobject : spec.isObject = true) (pod : Value) (sidecar : Sidecar.Spec) (key value : String) :
    ∃ after, (injectedInto doc pod sidecar key value).get? "spec" = some after ∧
      after.isObject = true := by
  have hat : doc.at? ["spec"] = some spec := by simp [hspec]
  obtain ⟨after, hafter, hobject'⟩ :=
    Extension.isObject_foldl_extend (extensions pod sidecar) hat hobject
  have hget := (at?_spec_injectedInto doc pod sidecar key value []).trans hafter
  exact ⟨after, by simpa using hget, hobject'⟩

/-- The lists that are aimed at: the items that were there and then those added, if there are any,
and else what was there. -/
theorem at?_list_injectedInto {doc spec : Json} {pod : Value}
    (h : Value.decode? .pod doc = some pod) (hspec : doc.get? "spec" = some spec)
    (hobject : spec.isObject = true) {sidecar : Sidecar.Spec} {name : String}
    {additions : List Value} (hlist : (name, additions) ∈ lists sidecar) (key value : String) :
    ∃ items, doc.listAt? ["spec", name] = some items ∧
      (injectedInto doc pod sidecar key value).at? ["spec", name] =
        if additions = [] then doc.at? ["spec", name]
        else some (.array (items ++ additions.map Value.toJson)) := by
  have hat : doc.at? ["spec"] = some spec := by simp [hspec]
  have he : ⟨name, listNamed pod name, additions⟩ ∈ extensions pod sidecar :=
    List.mem_map.mpr ⟨(name, additions), hlist, rfl⟩
  obtain ⟨items, hmatch, -⟩ :=
    matches_extensions h (given?_of_isObject hspec hobject) sidecar _ he
  have hitems : doc.listAt? ["spec", name] = some items := hmatch
  have hextended :=
    Extension.at?_foldl_extend (nodup_names_extensions pod sidecar) hat hobject he
  refine ⟨items, hitems, ?_⟩
  rw [at?_spec_injectedInto]
  simpa [Extension.path, hitems] using hextended

theorem wellSpelled_injectedInto {doc : Json} (hdoc : doc.WellSpelled) {sidecar : Sidecar.Spec}
    (hsidecar : ∀ list ∈ lists sidecar, ∀ v ∈ list.2, v.toJson.WellSpelled) (pod : Value)
    (key value : String) : (injectedInto doc pod sidecar key value).WellSpelled := by
  have hextended : ∀ (es : List Extension) (v : Json), v.WellSpelled →
      (∀ e ∈ es, ∀ w ∈ e.additions, w.toJson.WellSpelled) →
      (es.foldl Extension.extend v).WellSpelled := by
    intro es
    induction es with
    | nil => exact fun v hv _ => hv
    | cons e rest ih =>
      intro v hv hes
      obtain ⟨he, hrest⟩ := List.forall_mem_cons.mp hes
      exact ih _ (wellSpelled_extendList hv _ (List.forall_mem_map.mpr he)) hrest
  have hlists := hextended (extensions pod sidecar) doc hdoc (List.forall_mem_map.mpr hsidecar)
  unfold injectedInto annotated
  split
  · apply hlists.setAt
    apply wellSpelled_ofMembers
    simpa using wellSpelled_string value
  · exact hlists.setAt (wellSpelled_string value)

end SidecarAdmission.Admission.Injection
