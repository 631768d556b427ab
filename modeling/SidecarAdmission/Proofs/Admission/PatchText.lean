import SidecarAdmission.Proofs.Admission.Selection
import SidecarAdmission.Proofs.Sidecar.ReadBack

/-!
What the text of a patch says. It is an array with one object for each operation, in order; the
value of each comes back as what it was made from: an annotation as its text or as a map with one
key, and the items of the sidecar material, alone or in a list, as the very items.
-/

set_option autoImplicit false
set_option relaxedAutoImplicit false

namespace SidecarAdmission.Admission.Injection

open SidecarAdmission.Json SidecarAdmission.Resource

/-- Whether a document is that of an operation: an object of an action, a place and a value that is
not null. -/
def Spells (o : Json.Operation) (v : Json) : Prop :=
  ∃ op path value : Literal × Json, v = .object [op, path, value] ∧
    op.1.text? = some "op" ∧
    ((o.action = .add ∧ op.2.text? = some "add") ∨
      (o.action = .replace ∧ op.2.text? = some "replace")) ∧
    path.1.text? = some "path" ∧ path.2.text? = some o.path ∧
    value.1.text? = some "value" ∧ value.2 = o.value ∧ value.2.isNull = false

/-- Whether documents are decoded to items of a kind, in order. -/
def DecodeTo (kind : Kind) : List Value → List Json → Prop :=
  List.Forall₂ fun item v => Value.decode? kind v = some item

/-- Whether values bring items of a kind: none if there are none, else one array, or one value for
each item. -/
inductive Brings (kind : Kind) : List Value → List Json → Prop
  | nothing : Brings kind [] []
  | whole {items : List Value} {docs : List Json} (given : items ≠ [])
      (decoded : DecodeTo kind items docs) : Brings kind items [.array docs]
  | each {items : List Value} {docs : List Json} (given : items ≠ [])
      (decoded : DecodeTo kind items docs) : Brings kind items docs

/-- Whether a value brings an annotation: as its text, or as a map with its key alone. -/
def BringsAnnotation (u : String × String) (v : Json) : Prop :=
  v.text? = some u.2 ∨
    ∃ key value, v = .object [(key, value)] ∧ key.text? = some u.1 ∧ value.text? = some u.2

/-! ### Operations -/

/-- Whether the value of an operation can be written and is not null. -/
structure IsWritten (o : Json.Operation) : Prop where
  spelled : o.value.WellSpelled
  given : o.value.isNull = false

theorem wellSpelled_operation {o : Json.Operation} (h : IsWritten o) : o.toJson.WellSpelled := by
  refine wellSpelled_ofMembers ?_
  simp only [List.forall_mem_cons]
  exact ⟨wellSpelled_string _, wellSpelled_string _, h.spelled, by simp⟩

theorem spells_toJson {o : Json.Operation} (h : IsWritten o) : Spells o o.toJson := by
  refine ⟨_, _, _, rfl, Literal.text?_ofText _, ?_, Literal.text?_ofText _, text?_string _,
    Literal.text?_ofText _, rfl, h.given⟩
  obtain ⟨action, path, value⟩ := o
  cases action with
  | add => exact .inl ⟨rfl, text?_string _⟩
  | replace => exact .inr ⟨rfl, text?_string _⟩

theorem get?_value (o : Json.Operation) : o.toJson.get? "value" = some o.value := by
  simp [Operation.toJson, ofMembers, member?_cons]

/-- The text of a patch is read as the documents of its operations. -/
theorem parse?_patchText {patch : List Json.Operation} (h : ∀ o ∈ patch, IsWritten o) :
    parse? (Decision.patchText patch) = some (.array (patch.map Operation.toJson)) := by
  refine parse?_print (wellSpelled_array.mpr ?_)
  exact List.forall_mem_map.mpr fun o ho => wellSpelled_operation (h o ho)

/-! ### Items -/

section Items

variable {kind : Kind} {place : String} {items : List Value} {ops : List Json.Operation}

theorem decodeTo_map_toJson (h : ∀ v ∈ items, v.IsReadBack depthLimit (.record kind)) :
    DecodeTo kind items (items.map Value.toJson) :=
  List.forall₂_map_right_iff.mpr (List.forall₂_same.mpr fun v hv => (h v hv).decoded)

theorem Appends.brings (h : Appends place items ops)
    (hitems : ∀ v ∈ items, v.IsReadBack depthLimit (.record kind)) :
    Brings kind items (ops.map (·.value)) := by
  cases h with
  | nothing => exact .nothing
  | whole hne => exact .whole hne (decodeTo_map_toJson hitems)
  | each hne =>
    refine .each hne ?_
    rw [List.map_map]
    exact decodeTo_map_toJson hitems

theorem Appends.isWritten (h : Appends place items ops)
    (hitems : ∀ v ∈ items, v.IsReadBack depthLimit (.record kind)) : ∀ o ∈ ops, IsWritten o := by
  cases h with
  | nothing => simp
  | whole hne =>
    refine List.forall_mem_singleton.mpr ⟨wellSpelled_array.mpr ?_, rfl⟩
    exact List.forall_mem_map.mpr fun v hv => (hitems v hv).spelled
  | each hne =>
    refine List.forall_mem_map.mpr fun v hv => ?_
    exact ⟨(hitems v hv).spelled, (hitems v hv).given⟩

end Items

/-! ### Annotations -/

section Annotations

variable {u : String × String} {o : Json.Operation}

theorem Sets.bringsAnnotation (h : Sets u o) : BringsAnnotation u o.value := by
  rcases h with ⟨-, hvalue⟩ | ⟨-, -, hvalue⟩
  · rw [hvalue]
    exact .inl (text?_string u.2)
  · rw [hvalue]
    exact .inr ⟨_, _, rfl, Literal.text?_ofText u.1, text?_string u.2⟩

theorem Sets.isWritten (h : Sets u o) : IsWritten o := by
  rcases h with ⟨-, hvalue⟩ | ⟨-, -, hvalue⟩
  · refine ⟨?_, ?_⟩
    · rw [hvalue]
      exact wellSpelled_string u.2
    · rw [hvalue]
      rfl
  · refine ⟨?_, ?_⟩
    · rw [hvalue]
      exact wellSpelled_ofMembers (List.forall_mem_singleton.mpr (wellSpelled_string u.2))
    · rw [hvalue]
      rfl

theorem isWritten_of_sets {updates : List (String × String)} {ops : List Json.Operation}
    (h : List.Forall₂ Sets updates ops) : ∀ o ∈ ops, IsWritten o := by
  induction h with
  | nil => simp
  | cons hset _ ih => exact List.forall_mem_cons.mpr ⟨hset.isWritten, ih⟩

end Annotations

/-! ### The text -/

/-- The text of a patch that injects what a text gives is an array with one object for each
operation, in order, of an action, a place and a value that is not null. The values of the
annotations come back as what is set, and those of the items, alone or in a list, as the very items,
unless a free-form part of a volume is null or holds a number that is no integer of 64 bits. -/
theorem patchText_brings {text : String} {sidecar : Sidecar.Spec}
    (h : Sidecar.Spec.ofText text = .ok sidecar) (hwhole : ∀ v ∈ sidecar.volumes, v.HasWholeFrees)
    (pod : Value) (annotations : List (String × String)) :
    ∃ docs, parse? (Decision.patchText (patch pod sidecar annotations)) = some (.array docs) ∧
      List.Forall₂ Spells (patch pod sidecar annotations) docs ∧
      ∃ containers volumes secrets updates,
        docs.map (·.get? "value") = (containers ++ volumes ++ secrets ++ updates).map some ∧
        Brings .container sidecar.containers containers ∧
        Brings .volume sidecar.volumes volumes ∧
        Brings .localObjectReference sidecar.imagePullSecrets secrets ∧
        List.Forall₂ BringsAnnotation annotations updates := by
  obtain ⟨hcontainers, hvolumes, hsecrets⟩ := Sidecar.Spec.isReadBack_of_ofText h hwhole
  obtain ⟨cs, vs, ss, us, hpatch, hcs, hvs, hss, hus⟩ := patch_parts pod sidecar annotations
  have hwritten : ∀ o ∈ patch pod sidecar annotations, IsWritten o := by
    simp only [hpatch, List.forall_mem_append]
    exact ⟨⟨⟨hcs.isWritten hcontainers, hvs.isWritten hvolumes⟩, hss.isWritten hsecrets⟩,
      isWritten_of_sets hus⟩
  refine ⟨_, parse?_patchText hwritten, ?_, cs.map (·.value), vs.map (·.value), ss.map (·.value),
    us.map (·.value), ?_, hcs.brings hcontainers, hvs.brings hvolumes, hss.brings hsecrets, ?_⟩
  · exact List.forall₂_map_right_iff.mpr
      (List.forall₂_same.mpr fun o ho => spells_toJson (hwritten o ho))
  · simp only [List.map_map, Function.comp_def, get?_value, hpatch, List.map_append]
  · exact List.forall₂_map_right_iff.mpr (hus.imp fun _ _ hset => hset.bringsAnnotation)

/-- A container, and a volume with a claim template that tells who manages which fields. -/
def managedText : String :=
  "containers:\n- name: proxy\n  image: proxy\n" ++
    "volumes:\n- name: data\n  ephemeral:\n    volumeClaimTemplate:\n      metadata:\n" ++
    "        creationTimestamp: 2024-02-29 23:30:60-01:00\n" ++
    "        managedFields:\n        - fieldsV1:\n            f:spec: [7, true, ~]\n"

theorem patchText_brings_managed :
    let annotations := [("a/b", "café"), ("status", "\"\n")]
    ∃ spec docs, Sidecar.Spec.ofText managedText = .ok spec ∧
      (∀ v ∈ spec.volumes, v.HasWholeFrees) ∧
      parse? (Decision.patchText (patch (Value.empty .pod) spec annotations)) =
        some (.array docs) ∧
      List.Forall₂ Spells (patch (Value.empty .pod) spec annotations) docs ∧
      docs.length = 4 := by
  intro annotations
  have hview : (Sidecar.Spec.ofText managedText).toOption.map (fun spec =>
      (decide (∀ v ∈ spec.volumes, v.HasWholeFrees),
        (patch (Value.empty .pod) spec annotations).length)) = some (true, 4) := by
    decide +kernel
  cases hspec : Sidecar.Spec.ofText managedText with
  | error e =>
    rw [hspec] at hview
    contradiction
  | ok spec =>
    rw [hspec] at hview
    obtain ⟨hdecided, hlength⟩ := Prod.mk.inj (Option.some.inj hview)
    have hwhole := of_decide_eq_true hdecided
    obtain ⟨docs, hdocs, hspells, -⟩ :=
      patchText_brings hspec hwhole (Value.empty .pod) annotations
    exact ⟨spec, docs, rfl, hwhole, hdocs, hspells, hspells.length_eq ▸ hlength⟩

/-! ### What does not come back -/

/-- A volume with a claim template in which a free-form part is null: a scalar that is quoted is not
left out, though its tag says that it is null. -/
def nullText : String :=
  "volumes:\n- name: data\n  ephemeral:\n    volumeClaimTemplate:\n      metadata:\n" ++
    "        managedFields:\n        - fieldsV1: !!null \"~\"\n"

theorem eq_null_of_isNull {v : Json} (h : v.isNull = true) : v = .null := by
  cases v with
  | scalar s =>
    cases s with
    | null => rfl
    | _ => contradiction
  | _ => contradiction

/-- A volume in which a free-form part is null is written with a member that is null, and its
document is decoded to another volume. -/
theorem not_brings_null :
    ∃ spec v doc, Sidecar.Spec.ofText nullText = .ok spec ∧ spec.volumes = [v] ∧
      (∀ w ∈ v.frees, w.IsWhole) ∧
      parse? (Decision.patchText (patch (Value.empty .pod) spec [])) = some (.array [doc]) ∧
      doc.get? "value" = some (.array [v.toJson]) ∧
      Value.decode? .volume v.toJson ≠ some v := by
  have hview : (Sidecar.Spec.ofText nullText).toOption.map (fun spec =>
      (spec.containers.length, spec.imagePullSecrets.length, spec.volumes.map fun v =>
        (v.frees.map isNull, (Value.decode? .volume v.toJson).map (·.frees.length)))) =
      some (0, 0, [([true], some 0)]) := by
    decide +kernel
  cases hspec : Sidecar.Spec.ofText nullText with
  | error e =>
    rw [hspec] at hview
    contradiction
  | ok spec =>
    obtain ⟨containers, volumes, secrets⟩ := spec
    rw [hspec] at hview
    obtain ⟨hcontainers, hmore⟩ := Prod.mk.inj (Option.some.inj hview)
    obtain ⟨hsecrets, hvolumes⟩ := Prod.mk.inj hmore
    obtain rfl := List.length_eq_zero_iff.mp hcontainers
    obtain rfl := List.length_eq_zero_iff.mp hsecrets
    obtain ⟨v, rfl, hv⟩ := List.map_eq_singleton_iff.mp hvolumes
    obtain ⟨hnulls, hdecoded⟩ := Prod.mk.inj hv
    obtain ⟨w, hfrees, hw⟩ := List.map_eq_singleton_iff.mp hnulls
    obtain rfl := eq_null_of_isNull hw
    have hspelled : v.toJson.WellSpelled := by
      refine Value.wellSpelled_toJson v fun u hu => ?_
      obtain rfl := List.mem_singleton.mp (hfrees ▸ hu)
      exact wellSpelled_scalar.mpr rfl
    have hwritten : ∀ o ∈ patch (Value.empty .pod) ⟨[], [v], []⟩ [], IsWritten o := by
      refine List.forall_mem_singleton.mpr ⟨wellSpelled_array.mpr ?_, rfl⟩
      exact List.forall_mem_singleton.mpr hspelled
    refine ⟨_, v, _, rfl, rfl, ?_, parse?_patchText hwritten, get?_value _, fun hsame => ?_⟩
    · rw [hfrees]
      decide
    · rw [hsame, Option.map_some, hfrees] at hdecoded
      exact absurd (Option.some.inj hdecoded) (by decide)

end SidecarAdmission.Admission.Injection
