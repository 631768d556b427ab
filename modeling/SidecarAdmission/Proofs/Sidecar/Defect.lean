import Mathlib.Data.List.Nodup
import Mathlib.Data.List.Range
import SidecarAdmission.Proofs.Sidecar.ReadBack

/-!
Everything that is wrong with material is told once and in order. What can be wrong is the name of
an item or the image of a container; these are checked in the order of the lists, each list by
itself. The defects that are told are exactly those of the checks that material fails, so a text is
accepted if its material fails none, and refused with all of them otherwise. What an item is
compared with are all items before it in its list, whatever is wrong with them.
-/

set_option autoImplicit false
set_option relaxedAutoImplicit false

namespace SidecarAdmission.Sidecar

open SidecarAdmission.Resource

/-- A check of material: of the name of an item, or of the image of a container. -/
inductive Check where
  | containerName (index : Nat)
  | containerImage (index : Nat)
  | volumeName (index : Nat)
  | secretName (index : Nat)
deriving DecidableEq, Repr

namespace Material

/-- The checks of material, in the order of its lists. -/
def checks (m : Material) : List Check :=
  (List.range m.containers.length).flatMap (fun i => [.containerName i, .containerImage i])
    ++ (List.range m.volumes.length).map .volumeName
    ++ (List.range m.imagePullSecrets.length).map .secretName

/-- Whether material fails a check, with the defect that says so. A name repeats only an earlier one
of the same list, and an empty name repeats none. -/
inductive Fails (m : Material) : Check → Defect → Prop where
  | emptyContainerName {i : Nat} {c : Value} (found : m.containers[i]? = some c)
      (unnamed : c.name = "") : Fails m (.containerName i) (.emptyContainerName i)
  | duplicateContainer {i j : Nat} {c earlier : Value} (found : m.containers[i]? = some c)
      (named : c.name ≠ "") (before : j < i) (other : m.containers[j]? = some earlier)
      (same : earlier.name = c.name) : Fails m (.containerName i) (.duplicateContainer c.name)
  | missingImage {i : Nat} {c : Value} (found : m.containers[i]? = some c)
      (imageless : c.textAt "image" = "") : Fails m (.containerImage i) (.missingImage c.name)
  | emptyVolumeName {i : Nat} {v : Value} (found : m.volumes[i]? = some v)
      (unnamed : v.name = "") : Fails m (.volumeName i) (.emptyVolumeName i)
  | duplicateVolume {i j : Nat} {v earlier : Value} (found : m.volumes[i]? = some v)
      (named : v.name ≠ "") (before : j < i) (other : m.volumes[j]? = some earlier)
      (same : earlier.name = v.name) : Fails m (.volumeName i) (.duplicateVolume v.name)
  | emptyPullSecretName {i : Nat} {s : Value} (found : m.imagePullSecrets[i]? = some s)
      (unnamed : s.name = "") : Fails m (.secretName i) (.emptyPullSecretName i)

/-- Whether a list tells what is wrong with material: the checks that it fails and no others, in
their order, each with its defect. -/
structure Tells (m : Material) (told : List (Check × Defect)) : Prop where
  ordered : (told.map Prod.fst).Sublist m.checks
  failed : ∀ check d, (check, d) ∈ told ↔ m.Fails check d

end Material

/-! ### Defects by position -/

namespace Defect

/-- What is wrong with the name of the item at a position, given all items. -/
def nameDefect? (empty : Nat → Defect) (duplicate : String → Defect) (items : List Value)
    (i : Nat) : Option Defect :=
  (items[i]?).bind fun v =>
    if v.name = "" then some (empty i)
    else if v.name ∈ (items.take i).map Value.name then some (duplicate v.name) else none

/-- What is wrong with the image of the container at a position. -/
def imageDefect? (containers : List Value) (i : Nat) : Option Defect :=
  (containers[i]?).bind fun c => if c.textAt "image" = "" then some (.missingImage c.name) else none

/-- What is wrong with the name of the image pull secret at a position. -/
def secretDefect? (secrets : List Value) (i : Nat) : Option Defect :=
  (secrets[i]?).bind fun s => if s.name = "" then some (.emptyPullSecretName i) else none

variable {empty : Nat → Defect} {duplicate : String → Defect} {items : List Value} {i : Nat}
  {d : Defect}

theorem mem_names_take_iff {name : String} :
    name ∈ (items.take i).map Value.name ↔
      ∃ j < i, ∃ earlier, items[j]? = some earlier ∧ earlier.name = name := by
  rw [List.mem_map]
  constructor
  · rintro ⟨earlier, hmem, hname⟩
    obtain ⟨j, hj⟩ := List.mem_iff_getElem?.mp hmem
    rw [List.getElem?_take] at hj
    split at hj
    next hlt => exact ⟨j, hlt, earlier, hj, hname⟩
    next => contradiction
  · rintro ⟨j, hlt, earlier, hj, hname⟩
    have htaken : (items.take i)[j]? = some earlier := by rw [List.getElem?_take, if_pos hlt, hj]
    exact ⟨earlier, List.mem_iff_getElem?.mpr ⟨j, htaken⟩, hname⟩

theorem nameDefect?_eq_some_iff :
    nameDefect? empty duplicate items i = some d ↔
      ∃ v, items[i]? = some v ∧ ((v.name = "" ∧ empty i = d) ∨
        (v.name ≠ "" ∧ (∃ j < i, ∃ earlier, items[j]? = some earlier ∧ earlier.name = v.name) ∧
          duplicate v.name = d)) := by
  unfold nameDefect?
  rw [Option.bind_eq_some_iff]
  refine exists_congr fun v => and_congr_right fun _ => ?_
  simp only [mem_names_take_iff]
  by_cases hname : v.name = ""
  · simp [hname]
  · simp [hname]

theorem imageDefect?_eq_some_iff {containers : List Value} :
    imageDefect? containers i = some d ↔
      ∃ c, containers[i]? = some c ∧ c.textAt "image" = "" ∧ .missingImage c.name = d := by
  simp [imageDefect?, Option.bind_eq_some_iff]

theorem secretDefect?_eq_some_iff {secrets : List Value} :
    secretDefect? secrets i = some d ↔
      ∃ s, secrets[i]? = some s ∧ s.name = "" ∧ .emptyPullSecretName i = d := by
  simp [secretDefect?, Option.bind_eq_some_iff]

end Defect

/-! ### Defects that are told -/

namespace Defect

section Lists

variable {empty : Nat → Defect} {duplicate : String → Defect} {seen : List String}

/-- The names that have been seen are those of the items before a position. -/
theorem ofName_eq {before rest : List Value} {v : Value}
    (hseen : ∀ n, n ∈ seen ↔ n ∈ before.map Value.name) :
    ofName empty duplicate seen before.length v.name =
      (nameDefect? empty duplicate (before ++ v :: rest) before.length).toList := by
  have hfound : (before ++ v :: rest)[before.length]? = some v := by simp
  have htake : (before ++ v :: rest).take before.length = before := by simp
  unfold ofName nameDefect?
  rw [hfound, htake, Option.bind_some]
  simp only [List.contains_iff_mem, hseen]
  split
  · rfl
  · split <;> rfl

theorem ofImage_eq (before rest : List Value) (c : Value) :
    ofImage c = (imageDefect? (before ++ c :: rest) before.length).toList := by
  have hfound : (before ++ c :: rest)[before.length]? = some c := by simp
  unfold ofImage imageDefect? Value.textAt
  rw [hfound, Option.bind_some]
  split <;> rfl

private theorem mem_seen_cons {before : List Value} {v : Value}
    (hseen : ∀ n, n ∈ seen ↔ n ∈ before.map Value.name) (n : String) :
    n ∈ v.name :: seen ↔ n ∈ (before ++ [v]).map Value.name := by
  simp [hseen, or_comm]

/-- What is wrong with containers is told position by position. -/
theorem ofContainers_eq {before containers : List Value}
    (hseen : ∀ n, n ∈ seen ↔ n ∈ before.map Value.name) :
    ofContainers seen before.length containers =
      (List.range' before.length containers.length).flatMap fun i =>
        (nameDefect? .emptyContainerName .duplicateContainer (before ++ containers) i).toList
          ++ (imageDefect? (before ++ containers) i).toList := by
  -- A step moves a container to those before it, where its name has been seen and its position has
  -- been counted.
  induction containers generalizing before seen with
  | nil => rfl
  | cons c rest ih =>
    have hrest := ih (mem_seen_cons (v := c) hseen)
    rw [List.length_append, List.length_singleton, List.append_assoc,
      List.singleton_append] at hrest
    rw [ofContainers, ofName_eq hseen, ofImage_eq before rest, hrest, List.length_cons,
      List.range'_succ, List.flatMap_cons]

theorem ofVolumes_eq {before volumes : List Value}
    (hseen : ∀ n, n ∈ seen ↔ n ∈ before.map Value.name) :
    ofVolumes seen before.length volumes =
      (List.range' before.length volumes.length).filterMap
        (nameDefect? .emptyVolumeName .duplicateVolume (before ++ volumes)) := by
  induction volumes generalizing before seen with
  | nil => rfl
  | cons v rest ih =>
    have hrest := ih (mem_seen_cons (v := v) hseen)
    rw [List.length_append, List.length_singleton, List.append_assoc,
      List.singleton_append] at hrest
    rw [ofVolumes, ofName_eq hseen, hrest, List.length_cons, List.range'_succ,
      List.filterMap_cons]
    cases nameDefect? .emptyVolumeName .duplicateVolume (before ++ v :: rest) before.length <;> rfl

theorem ofSecrets_eq {before secrets : List Value} :
    ofSecrets before.length secrets =
      (List.range' before.length secrets.length).filterMap (secretDefect? (before ++ secrets)) := by
  induction secrets generalizing before with
  | nil => rfl
  | cons s rest ih =>
    have hfound : (before ++ s :: rest)[before.length]? = some s := by simp
    have hrest := @ih (before ++ [s])
    rw [List.length_append, List.length_singleton, List.append_assoc,
      List.singleton_append] at hrest
    rw [ofSecrets, hrest, List.length_cons, List.range'_succ, List.filterMap_cons, secretDefect?,
      hfound, Option.bind_some]
    by_cases hname : s.name = "" <;> simp [hname]

end Lists

end Defect

namespace Material

variable (m : Material)

/-- The defect with which material fails a check, if it fails it. -/
def failure? : Check → Option Defect
  | .containerName i =>
    Defect.nameDefect? .emptyContainerName .duplicateContainer m.containers i
  | .containerImage i => Defect.imageDefect? m.containers i
  | .volumeName i => Defect.nameDefect? .emptyVolumeName .duplicateVolume m.volumes i
  | .secretName i => Defect.secretDefect? m.imagePullSecrets i

theorem failure?_eq_some_iff {check : Check} {d : Defect} :
    m.failure? check = some d ↔ m.Fails check d := by
  cases check with
  | containerName i =>
    rw [failure?, Defect.nameDefect?_eq_some_iff]
    constructor
    · rintro ⟨c, hc, ⟨hname, rfl⟩ | ⟨hname, ⟨j, hj, earlier, hearlier, hsame⟩, rfl⟩⟩
      · exact .emptyContainerName hc hname
      · exact .duplicateContainer hc hname hj hearlier hsame
    · intro h
      cases h with
      | emptyContainerName hc hname => exact ⟨_, hc, .inl ⟨hname, rfl⟩⟩
      | duplicateContainer hc hname hj hearlier hsame =>
        exact ⟨_, hc, .inr ⟨hname, ⟨_, hj, _, hearlier, hsame⟩, rfl⟩⟩
  | containerImage i =>
    rw [failure?, Defect.imageDefect?_eq_some_iff]
    constructor
    · rintro ⟨c, hc, himage, rfl⟩
      exact .missingImage hc himage
    · intro h
      cases h with
      | missingImage hc himage => exact ⟨_, hc, himage, rfl⟩
  | volumeName i =>
    rw [failure?, Defect.nameDefect?_eq_some_iff]
    constructor
    · rintro ⟨v, hv, ⟨hname, rfl⟩ | ⟨hname, ⟨j, hj, earlier, hearlier, hsame⟩, rfl⟩⟩
      · exact .emptyVolumeName hv hname
      · exact .duplicateVolume hv hname hj hearlier hsame
    · intro h
      cases h with
      | emptyVolumeName hv hname => exact ⟨_, hv, .inl ⟨hname, rfl⟩⟩
      | duplicateVolume hv hname hj hearlier hsame =>
        exact ⟨_, hv, .inr ⟨hname, ⟨_, hj, _, hearlier, hsame⟩, rfl⟩⟩
  | secretName i =>
    rw [failure?, Defect.secretDefect?_eq_some_iff]
    constructor
    · rintro ⟨s, hs, hname, rfl⟩
      exact .emptyPullSecretName hs hname
    · intro h
      cases h with
      | emptyPullSecretName hs hname => exact ⟨_, hs, hname, rfl⟩

theorem mem_checks_of_fails {check : Check} {d : Defect} (h : m.Fails check d) :
    check ∈ m.checks := by
  have hlt : ∀ {items : List Value} {i : Nat} {v : Value}, items[i]? = some v → i < items.length :=
    fun h => (List.getElem?_eq_some_iff.mp h).1
  cases h with
  | emptyContainerName found => simp [checks, hlt found]
  | duplicateContainer found => simp [checks, hlt found]
  | missingImage found => simp [checks, hlt found]
  | emptyVolumeName found => simp [checks, hlt found]
  | duplicateVolume found => simp [checks, hlt found]
  | emptyPullSecretName found => simp [checks, hlt found]

/-- No check is made twice. -/
theorem nodup_checks : m.checks.Nodup := by
  have hcontainers : ((List.range m.containers.length).flatMap fun i =>
      [Check.containerName i, Check.containerImage i]).Nodup := by
    refine List.nodup_flatMap.mpr ⟨by simp, ?_⟩
    refine List.nodup_range.imp fun hne => ?_
    simp [Function.onFun, Ne.symm hne]
  have hvolumes : ((List.range m.volumes.length).map Check.volumeName).Nodup :=
    List.nodup_range.map fun _ _ h => Check.volumeName.inj h
  have hsecrets : ((List.range m.imagePullSecrets.length).map Check.secretName).Nodup :=
    List.nodup_range.map fun _ _ h => Check.secretName.inj h
  refine List.nodup_append'.mpr ⟨List.nodup_append'.mpr ⟨hcontainers, hvolumes, ?_⟩, hsecrets, ?_⟩
  · intro check hfirst hsecond
    obtain ⟨i, -, rfl⟩ := List.mem_map.mp hsecond
    simp at hfirst
  · intro check hfirst hsecond
    obtain ⟨i, -, rfl⟩ := List.mem_map.mp hsecond
    simp at hfirst

theorem defects_eq : m.defects = m.checks.filterMap m.failure? := by
  have hcontainers := @Defect.ofContainers_eq [] [] m.containers (fun _ => Iff.rfl)
  have hvolumes := @Defect.ofVolumes_eq [] [] m.volumes (fun _ => Iff.rfl)
  have hsecrets := @Defect.ofSecrets_eq [] m.imagePullSecrets
  simp only [List.length_nil, List.nil_append,
    ← List.range_eq_range'] at hcontainers hvolumes hsecrets
  rw [defects, hcontainers, hvolumes, hsecrets, checks, List.filterMap_append,
    List.filterMap_append, List.filterMap_flatMap, List.filterMap_map, List.filterMap_map]
  have hpair : ∀ i, [Check.containerName i, Check.containerImage i].filterMap m.failure? =
      (m.failure? (.containerName i)).toList ++ (m.failure? (.containerImage i)).toList := by
    intro i
    cases hname : m.failure? (.containerName i) <;>
      cases himage : m.failure? (.containerImage i) <;> simp [hname, himage]
  simp only [hpair]
  rfl

/-! ### Accounts of what is wrong -/

/-- The checks that material fails, with their defects. -/
def failures : List (Check × Defect) :=
  m.checks.filterMap fun check => (m.failure? check).map (check, ·)

theorem defects_eq_failures : m.defects = m.failures.map Prod.snd := by
  have hkept : ∀ check, ((m.failure? check).map (check, ·)).map Prod.snd = m.failure? check := by
    intro check
    cases m.failure? check <;> rfl
  rw [defects_eq, failures, List.map_filterMap]
  simp only [hkept]

theorem tells_failures : m.Tells m.failures where
  ordered := by
    have hkept : ∀ check, ((m.failure? check).map (check, ·)).map Prod.fst =
        Option.guard (fun check => (m.failure? check).isSome) check := by
      intro check
      cases hcheck : m.failure? check <;> simp [Option.guard, hcheck]
    rw [failures, List.map_filterMap]
    simp only [hkept]
    rw [List.filterMap_eq_filter]
    exact List.filter_sublist
  failed check d := by
    rw [failures, List.mem_filterMap, ← failure?_eq_some_iff]
    constructor
    · rintro ⟨other, -, hother⟩
      obtain ⟨e, he, heq⟩ := Option.map_eq_some_iff.mp hother
      obtain ⟨rfl, rfl⟩ := Prod.mk.inj heq
      exact he
    · intro h
      exact ⟨check, m.mem_checks_of_fails (m.failure?_eq_some_iff.mp h), by rw [h, Option.map_some]⟩

/-- Nothing is told exactly if material fails no check. -/
theorem defects_eq_nil_iff_not_fails : m.defects = [] ↔ ∀ check d, ¬ m.Fails check d := by
  rw [defects_eq_failures, List.map_eq_nil_iff, List.eq_nil_iff_forall_not_mem]
  simp only [Prod.forall, m.tells_failures.failed]

/-- The lists of material are checked by themselves. -/
theorem defects_eq_append : m.defects = (mk m.containers [] []).defects ++
    (mk [] m.volumes []).defects ++ (mk [] [] m.imagePullSecrets).defects := by
  simp [defects, Defect.ofContainers, Defect.ofVolumes, Defect.ofSecrets]

theorem ne_empty_of_duplicate {name : String}
    (h : .duplicateContainer name ∈ m.defects ∨ .duplicateVolume name ∈ m.defects) :
    name ≠ "" := by
  have hfails : ∀ d ∈ m.defects, ∃ check, m.Fails check d := by
    intro d hd
    rw [defects_eq_failures] at hd
    obtain ⟨⟨check, e⟩, hmem, rfl⟩ := List.mem_map.mp hd
    exact ⟨check, (m.tells_failures.failed check e).mp hmem⟩
  rcases h with h | h
  · obtain ⟨check, hcheck⟩ := hfails _ h
    cases hcheck with
    | duplicateContainer found named => exact named
  · obtain ⟨check, hcheck⟩ := hfails _ h
    cases hcheck with
    | duplicateVolume found named => exact named

theorem name_secret {text : String} {m : Material} (h : ofText? text = some m) :
    ∀ s ∈ m.imagePullSecrets, s.name = ((s.toJson.get? "name").bind Json.text?).getD "" := by
  intro s hs
  have hfield : Kind.localObjectReference.field? "name" = some ⟨"name", .text, true⟩ := by decide
  have htyped := (hasAll_isOf h).imagePullSecrets s hs
  rw [Value.name, Value.textAt, htyped.textAt?_eq hfield]

/-- What a text is refused for: all that is wrong with its material. -/
theorem ofText_of_material {text : String} {m : Material} (h : ofText? text = some m) :
    (m.defects = [] →
      Spec.ofText text = .ok (.ofMaterial m.containers m.volumes m.imagePullSecrets)) ∧
    (m.defects ≠ [] → Spec.ofText text = .error (.invalid m.defects)) := by
  unfold Spec.ofText
  rw [h]
  dsimp only
  constructor
  · intro hnone
    rw [hnone]
  · intro hsome
    split
    next hnone => contradiction
    next => rfl

/-- All that is wrong with material is told, each check that it fails once and in order; no list
counts for another, and a name that repeats is not empty. A text with material is accepted exactly
if nothing is told, and else refused with all of it; and the name of an image pull secret is the one
that its document has. -/
theorem defects_told (m : Material) :
    (m.checks.Nodup ∧ ∃ told, m.Tells told ∧ m.defects = told.map Prod.snd) ∧
    (m.defects = [] ↔ ∀ check d, ¬ m.Fails check d) ∧
    m.defects = (mk m.containers [] []).defects ++ (mk [] m.volumes []).defects ++
      (mk [] [] m.imagePullSecrets).defects ∧
    (∀ name, .duplicateContainer name ∈ m.defects ∨ .duplicateVolume name ∈ m.defects →
      name ≠ "") ∧
    ∀ text, ofText? text = some m →
      (m.defects = [] →
        Spec.ofText text = .ok (.ofMaterial m.containers m.volumes m.imagePullSecrets)) ∧
      (m.defects ≠ [] → Spec.ofText text = .error (.invalid m.defects)) ∧
      ∀ s ∈ m.imagePullSecrets, s.name = ((s.toJson.get? "name").bind Json.text?).getD "" := by
  refine ⟨⟨m.nodup_checks, m.failures, m.tells_failures, m.defects_eq_failures⟩,
    m.defects_eq_nil_iff_not_fails, m.defects_eq_append, fun _ => m.ne_empty_of_duplicate,
    fun text h => ?_⟩
  obtain ⟨haccepted, hrefused⟩ := m.ofText_of_material h
  exact ⟨haccepted, hrefused, m.name_secret h⟩

/-- Material with all that can be wrong, in which a container and a volume have the same name. -/
def unfitText : String :=
  "containers:\n- name: proxy\n  image: p\n- name: proxy\n- name: ~\n  image: ~\n" ++
    "volumes:\n- name: ~\n- name: proxy\n- name: proxy\nimagePullSecrets:\n- name: ~\n"

theorem defects_told_unfitText :
    ∃ m, ofText? unfitText = some m ∧
      Spec.ofText unfitText = .error (.invalid m.defects) ∧
      m.defects = [.duplicateContainer "proxy", .missingImage "proxy", .emptyContainerName 2,
        .missingImage "", .emptyVolumeName 0, .duplicateVolume "proxy", .emptyPullSecretName 0] ∧
      (∀ s ∈ m.imagePullSecrets, s.name = ((s.toJson.get? "name").bind Json.text?).getD "") ∧
      "proxy" ≠ "" := by
  have hview : (ofText? unfitText).map defects = some [.duplicateContainer "proxy",
      .missingImage "proxy", .emptyContainerName 2, .missingImage "", .emptyVolumeName 0,
      .duplicateVolume "proxy", .emptyPullSecretName 0] := by
    decide +kernel
  obtain ⟨m, hm, hdefects⟩ := Option.map_eq_some_iff.mp hview
  obtain ⟨-, -, -, hnames, htext⟩ := defects_told m
  obtain ⟨-, hrefused, hsecrets⟩ := htext unfitText hm
  refine ⟨m, hm, hrefused ?_, hdefects, hsecrets, hnames "proxy" (.inl ?_)⟩
  · rw [hdefects]
    exact List.cons_ne_nil _ _
  · rw [hdefects]
    exact List.mem_cons_self

end Material

end SidecarAdmission.Sidecar
