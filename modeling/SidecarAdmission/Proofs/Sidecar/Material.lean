import Mathlib.Tactic.Tauto
import SidecarAdmission.Sidecar.Defect
import SidecarAdmission.Proofs.Resource.FromYaml

/-!
Material that has no defect. Names are compared with all that came before, so that no defect is told
exactly if every item that needs a name has one, no two containers and no two volumes have the same,
and every container has an image. What is read as material has the shape of its kind, with or
without defects.
-/

set_option autoImplicit false
set_option relaxedAutoImplicit false

namespace SidecarAdmission.Sidecar

open SidecarAdmission.Resource

/-- Whether lists of containers, volumes and image pull secrets are fit to be injected. -/
structure IsFit (containers volumes imagePullSecrets : List Value) : Prop where
  containers_named : ∀ c ∈ containers, c.name ≠ ""
  containers_distinct : (containers.map Value.name).Nodup
  images_given : ∀ c ∈ containers, c.textAt "image" ≠ ""
  volumes_named : ∀ v ∈ volumes, v.name ≠ ""
  volumes_distinct : (volumes.map Value.name).Nodup
  secrets_named : ∀ s ∈ imagePullSecrets, s.name ≠ ""

/-! ### Defects -/

namespace Defect

theorem ofName_eq_nil_iff {empty : Nat → Defect} {duplicate : String → Defect} {seen : List String}
    {index : Nat} {name : String} :
    ofName empty duplicate seen index name = [] ↔ name ≠ "" ∧ name ∉ seen := by
  unfold ofName
  split
  next hempty => simp [hempty]
  next hname =>
    split
    next hseen =>
      have hmem : name ∈ seen := by simpa using hseen
      simp [hmem]
    next hseen =>
      have hmem : name ∉ seen := by simpa using hseen
      simp [hname, hmem]

theorem ofImage_eq_nil_iff {c : Value} : ofImage c = [] ↔ c.textAt "image" ≠ "" := by
  unfold ofImage Value.textAt
  split
  next hempty => simp [hempty]
  next himage => simp [himage]

/-- The names that are still to come are distinct, and none of them has been seen. -/
theorem nodup_cons_unseen {name : String} {names seen : List String} :
    (name ∉ seen ∧ names.Nodup ∧ ∀ n ∈ names, n ∉ name :: seen) ↔
      (name :: names).Nodup ∧ ∀ n ∈ name :: names, n ∉ seen := by
  rw [List.forall_mem_cons, List.nodup_cons]
  simp only [List.mem_cons, not_or]
  constructor
  · rintro ⟨hname, hnames, hall⟩
    exact ⟨⟨fun hmem => (hall name hmem).1 rfl, hnames⟩, hname, fun n hn => (hall n hn).2⟩
  · rintro ⟨⟨hfresh, hnames⟩, hname, hall⟩
    exact ⟨hname, hnames, fun n hn => ⟨fun heq => hfresh (heq ▸ hn), hall n hn⟩⟩

theorem ofContainers_eq_nil_iff {seen : List String} {index : Nat} {containers : List Value} :
    ofContainers seen index containers = [] ↔
      (∀ c ∈ containers, c.name ≠ "" ∧ c.textAt "image" ≠ "") ∧
        (containers.map Value.name).Nodup ∧ ∀ n ∈ containers.map Value.name, n ∉ seen := by
  induction containers generalizing seen index with
  | nil => simp [ofContainers]
  | cons c rest ih =>
    rw [ofContainers, List.append_eq_nil_iff, List.append_eq_nil_iff, ofName_eq_nil_iff,
      ofImage_eq_nil_iff, ih, List.map_cons, ← nodup_cons_unseen, List.forall_mem_cons]
    tauto

theorem ofVolumes_eq_nil_iff {seen : List String} {index : Nat} {volumes : List Value} :
    ofVolumes seen index volumes = [] ↔
      (∀ v ∈ volumes, v.name ≠ "") ∧
        (volumes.map Value.name).Nodup ∧ ∀ n ∈ volumes.map Value.name, n ∉ seen := by
  induction volumes generalizing seen index with
  | nil => simp [ofVolumes]
  | cons v rest ih =>
    rw [ofVolumes, List.append_eq_nil_iff, ofName_eq_nil_iff, ih, List.map_cons,
      ← nodup_cons_unseen, List.forall_mem_cons]
    tauto

theorem ofSecrets_eq_nil_iff {index : Nat} {secrets : List Value} :
    ofSecrets index secrets = [] ↔ ∀ s ∈ secrets, s.name ≠ "" := by
  induction secrets generalizing index with
  | nil => simp [ofSecrets]
  | cons s rest ih =>
    rw [ofSecrets, List.append_eq_nil_iff, ih, List.forall_mem_cons]
    simp

end Defect

/-- Material has no defect exactly if it is fit to be injected. -/
theorem Material.defects_eq_nil_iff {m : Material} :
    m.defects = [] ↔ IsFit m.containers m.volumes m.imagePullSecrets := by
  rw [defects, List.append_eq_nil_iff, List.append_eq_nil_iff, Defect.ofContainers_eq_nil_iff,
    Defect.ofVolumes_eq_nil_iff, Defect.ofSecrets_eq_nil_iff]
  constructor
  · rintro ⟨⟨⟨hcontainers, hdistinct, -⟩, hvolumes, hvolumesDistinct, -⟩, hsecrets⟩
    exact ⟨fun c hc => (hcontainers c hc).1, hdistinct, fun c hc => (hcontainers c hc).2, hvolumes,
      hvolumesDistinct, hsecrets⟩
  · intro h
    exact ⟨⟨⟨fun c hc => ⟨h.containers_named c hc, h.images_given c hc⟩, h.containers_distinct,
      by simp⟩, h.volumes_named, h.volumes_distinct, by simp⟩, h.secrets_named⟩

/-! ### What is read -/

namespace Material

open FromYaml

/-- Whether all items of the lists that have been read have a property that goes with their kind. -/
def AreAll (P : Kind → Value → Prop) (lists : List (String × List Value)) : Prop :=
  ∀ l ∈ lists, ∀ kind, kind? l.1 = some kind → ∀ v ∈ l.2, P kind v

section AreAll

variable {P : Kind → Value → Prop}

theorem yields_lists {doc : Yaml.Document}
    (hP : ∀ kind n, Yields (value doc (depthLimit - 2) (.record kind) n) (P kind))
    {done : List (String × List Value)} (h : AreAll P done)
    (entries : List (Yaml.Node × Yaml.Node)) : Yields (lists doc done entries) (AreAll P) := by
  induction entries generalizing done with
  | nil => exact yields_pure h
  | cons entry rest ih =>
    obtain ⟨k, v⟩ := entry
    refine yields_bind fun name => ?_
    cases hkind : kind? name with
    | none => exact ih h
    | some kind =>
      have hrest : Yields (value doc (depthLimit - 1) (.list (.record kind)) v >>= fun items =>
          lists doc ((name, items.items) :: done) rest) (AreAll P) := by
        refine yields_bind_of (yields_value_list (hP kind) v) fun items hitems =>
          ih (List.forall_mem_cons.mpr ⟨?_, h⟩)
        intro other hother
        obtain rfl : kind = other := Option.some.inj (hkind.symm.trans hother)
        exact hitems
      dsimp only
      split
      · exact yields_bind fun _ => hrest
      · exact hrest

theorem AreAll.listAt {lists : List (String × List Value)} (h : AreAll P lists) {name : String}
    {kind : Kind} (hkind : kind? name = some kind) : ∀ v ∈ listAt lists name, P kind v := by
  intro v hv
  unfold Material.listAt at hv
  cases hlookup : lists.lookup name with
  | none => simp [hlookup] at hv
  | some items =>
    rw [hlookup, Option.getD_some] at hv
    obtain ⟨front, back, hlists, -⟩ := List.lookup_eq_some_iff.mp hlookup
    exact h (name, items) (by simp [hlists]) kind hkind v hv

/-- Whether all items of material have a property that goes with their kind. -/
structure HasAll (P : Kind → Value → Prop) (m : Material) : Prop where
  containers : ∀ c ∈ m.containers, P .container c
  volumes : ∀ v ∈ m.volumes, P .volume v
  imagePullSecrets : ∀ s ∈ m.imagePullSecrets, P .localObjectReference s

theorem hasAll_empty : HasAll P empty := ⟨by simp [empty], by simp [empty], by simp [empty]⟩

/-- The items of material have every property of what is read for them. -/
theorem hasAll_of_ofText?
    (hP : ∀ doc kind n, Yields (value doc (depthLimit - 2) (.record kind) n) (P kind))
    {text : String} {m : Material} (h : ofText? text = some m) : m.HasAll P := by
  unfold ofText? at h
  split at h
  · exact Option.some.inj h ▸ hasAll_empty
  · obtain ⟨doc, -, hdoc⟩ := Option.bind_eq_some_iff.mp h
    unfold ofDocument? at hdoc
    split at hdoc
    next => exact Option.some.inj hdoc ▸ hasAll_empty
    next s hroot =>
      split at hdoc
      · exact Option.some.inj hdoc ▸ hasAll_empty
      · contradiction
    next entries hroot =>
      obtain ⟨⟨read, jumps⟩, hread, hm⟩ := Option.bind_eq_some_iff.mp hdoc
      have hall : AreAll P read :=
        yields_lists (hP doc) (by simp [AreAll]) entries 0 read jumps hread
      obtain rfl := Option.some.inj hm
      exact ⟨hall.listAt rfl, hall.listAt rfl, hall.listAt rfl⟩
    next => contradiction

end AreAll

/-- Whether all items of material are records of their kinds. -/
structure IsShaped (m : Material) : Prop where
  containers : ∀ c ∈ m.containers, c.IsRecord .container
  volumes : ∀ v ∈ m.volumes, v.IsRecord .volume
  imagePullSecrets : ∀ s ∈ m.imagePullSecrets, s.IsRecord .localObjectReference

theorem isShaped_of_ofText? {text : String} {m : Material} (h : ofText? text = some m) :
    m.IsShaped := by
  have hall := hasAll_of_ofText? (fun _ kind n => yields_value_record _ kind n) h
  exact ⟨hall.containers, hall.volumes, hall.imagePullSecrets⟩

end Material

end SidecarAdmission.Sidecar
