import SidecarAdmission.Proofs.Resource.Decode

/-!
Where a decoded pod has its annotations and lists from. Its annotations are the texts below
`metadata.annotations` of the document, and each of its lists is empty exactly when the list of that
name in the `spec` of the document is empty, missing or null.
-/

set_option autoImplicit false
set_option relaxedAutoImplicit false

namespace SidecarAdmission.Resource.Pod

open SidecarAdmission.Json

/-- The annotation of a document with a key. -/
def annotationPath (key : String) : List String := ["metadata", "annotations", key]

theorem annotationPath_eq (key : String) :
    annotationPath key = ["metadata", "annotations"] ++ [key] := rfl

/-- Nothing stands below a member that is missing or null. -/
private theorem at?_of_given?_eq_none {v : Json} {name : String} (h : v.given? name = none)
    (next : String) (names : List String) : v.at? (name :: next :: names) = none := by
  rcases get?_of_not_given h with hget | hget
  · rw [at?_cons, hget]
    rfl
  · rw [at?_cons, hget]
    rfl

private theorem at?_of_given? {v child : Json} {name : String} (h : v.given? name = some child)
    (names : List String) : v.at? (name :: names) = child.at? names := by
  rw [at?_cons, (get?_of_given? h).1, Option.bind_some]

/-- The metadata that a pod is decoded with, if the document gives any. -/
private theorem metadata_of_given? {doc m : Json} {pod : Value}
    (h : Value.decode? .pod doc = some pod) (hm : doc.given? "metadata" = some m) :
    Value.ofJson? (depthLimit - 1) (.record .objectMeta) m = some (metadata pod) := by
  have hfield : Kind.field? .pod "metadata" = some ⟨"metadata", .record .objectMeta, true⟩ := rfl
  obtain ⟨x, hx, hget⟩ := Value.get?_of_given? h hfield hm
  rw [metadata, hget]
  exact hx

private theorem metadata_of_given?_eq_none {doc : Json} {pod : Value}
    (h : Value.decode? .pod doc = some pod) (hm : doc.given? "metadata" = none) :
    metadata pod = Value.empty .objectMeta := by
  have hfield : Kind.field? .pod "metadata" = some ⟨"metadata", .record .objectMeta, true⟩ := rfl
  rw [metadata, Value.get?_of_given?_eq_none h hfield hm]
  rfl

/-- The annotations of a decoded pod are the texts below `metadata.annotations`. -/
theorem lookup_annotations {doc : Json} {pod : Value} (h : Value.decode? .pod doc = some pod)
    (key : String) :
    (doc.at? (annotationPath key)).map Json.text? =
      (((metadata pod).annotations?.getD []).lookup key).map some := by
  have hfield : Kind.field? .objectMeta "annotations" = some ⟨"annotations", .map .text, false⟩ :=
    rfl
  unfold annotationPath
  cases hm : doc.given? "metadata" with
  | none =>
    rw [at?_of_given?_eq_none hm, metadata_of_given?_eq_none h hm]
    rfl
  | some m =>
    have hmeta := metadata_of_given? h hm
    rw [at?_of_given? hm]
    cases ha : m.given? "annotations" with
    | none =>
      have hget := Value.get?_of_given?_eq_none hmeta hfield ha
      rw [at?_of_given?_eq_none ha, Value.annotations?, hget]
      rfl
    | some a =>
      obtain ⟨x, hx, hget⟩ := Value.get?_of_given? hmeta hfield ha
      rw [at?_of_given? ha, Value.annotations?, hget]
      simpa using (Value.textEntries_of_ofJson? hx).2 key

/-- The list with a name in the specification of a pod, none of it if there is no such list. -/
def listNamed (pod : Value) (name : String) : List Value :=
  ((pod.get? "spec").map (·.itemsAt name)).getD []

theorem containers?_getD (pod : Value) : (containers? pod).getD [] = listNamed pod "containers" :=
  rfl

theorem volumes?_getD (pod : Value) : (volumes? pod).getD [] = listNamed pod "volumes" := by
  unfold volumes? listNamed
  cases pod.get? "spec" <;> rfl

theorem imagePullSecrets?_getD (pod : Value) :
    (imagePullSecrets? pod).getD [] = listNamed pod "imagePullSecrets" := by
  unfold imagePullSecrets? listNamed
  cases pod.get? "spec" <;> rfl

private theorem spec_field : Kind.field? .pod "spec" = some ⟨"spec", .record .podSpec, false⟩ := rfl

/-- The specification that a document gives a pod is an object. -/
theorem isObject_of_given?_spec {doc spec : Json} {pod : Value}
    (h : Value.decode? .pod doc = some pod) (hspec : doc.given? "spec" = some spec) :
    spec.isObject = true := by
  obtain ⟨x, hx, -⟩ := Value.get?_of_given? h spec_field hspec
  exact Value.isObject_of_ofJson? hx

theorem listNamed_of_given?_spec_eq_none {doc : Json} {pod : Value}
    (h : Value.decode? .pod doc = some pod) (hspec : doc.given? "spec" = none) (name : String) :
    listNamed pod name = [] := by
  rw [listNamed, Value.get?_of_given?_eq_none h spec_field hspec]
  rfl

/-- A list of a decoded pod has as many items as the list of that name in the document. -/
theorem length_listNamed {doc spec : Json} {pod : Value} (h : Value.decode? .pod doc = some pod)
    (hspec : doc.given? "spec" = some spec) {name : String} {item : Ty} {required : Bool}
    (hf : Kind.field? .podSpec name = some ⟨name, .list item, required⟩) :
    ∃ items, doc.listAt? ["spec", name] = some items ∧
      (listNamed pod name).length = items.length := by
  obtain ⟨x, hx, hget⟩ := Value.get?_of_given? h spec_field hspec
  simp only [listNamed, listAt?, at?_of_given? hspec, hget, Option.map_some, Option.getD_some,
    Value.itemsAt]
  cases hlist : spec.given? name with
  | none =>
    refine ⟨[], ?_, ?_⟩
    · rcases get?_of_not_given hlist with hchild | hchild
      · simp [hchild]
      · simp [hchild, null, isNull]
    · rw [Value.get?_of_given?_eq_none hx hf hlist]
      cases required <;> rfl
  | some child =>
    obtain ⟨y, hy, hvalue⟩ := Value.get?_of_given? hx hf hlist
    obtain ⟨items, rfl, hlength⟩ := Value.items_of_ofJson? hy
    refine ⟨items, ?_, ?_⟩
    · rw [at?_of_given? hlist]
      rfl
    · rw [hvalue]
      exact hlength

end SidecarAdmission.Resource.Pod
