import SidecarAdmission.Sidecar.Configuration
import SidecarAdmission.Proofs.Sidecar.Completion
import SidecarAdmission.Proofs.Sidecar.Material

/-!
What a specification can be relied on for. It is made only of material without a defect, and filling
in defaults leaves alone all that was checked for: the items, their names and their images. What it
holds is complete, so that nothing is filled in a second time, and every volume has a source.
-/

set_option autoImplicit false
set_option relaxedAutoImplicit false

namespace SidecarAdmission.Sidecar.Spec

open SidecarAdmission.Resource

theorem name_container (c : Value) : (Completion.container c).name = c.name := by
  unfold Value.name Value.textAt Value.textAt?
  rw [Completion.get?_container (by decide)]

theorem image_container (c : Value) :
    (Completion.container c).textAt "image" = c.textAt "image" := by
  unfold Value.textAt Value.textAt?
  rw [Completion.get?_container (by decide)]

theorem name_volume (v : Value) : (Completion.volume v).name = v.name := by
  unfold Value.name Value.textAt Value.textAt?
  rw [Completion.get?_volume (by decide) (by decide)]

/-- Whether defaults have been filled in, so that there are none left to fill in. -/
structure IsComplete (spec : Spec) : Prop where
  containers : ∀ c ∈ spec.containers, Completion.container c = c
  volumes : ∀ v ∈ spec.volumes, Completion.volume v = v
  sources : ∀ v ∈ spec.volumes, Completion.HasSource v

/-- Whether a specification has the items of material, in their order, with their names and
images. -/
structure Keeps (spec : Spec) (m : Material) : Prop where
  containers : spec.containers.map Value.name = m.containers.map Value.name
  images : spec.containers.map (·.textAt "image") = m.containers.map (·.textAt "image")
  volumes : spec.volumes.map Value.name = m.volumes.map Value.name
  imagePullSecrets : spec.imagePullSecrets = m.imagePullSecrets

section OfMaterial

variable {m : Material}

theorem keeps_ofMaterial (m : Material) :
    (ofMaterial m.containers m.volumes m.imagePullSecrets).Keeps m := by
  refine ⟨?_, ?_, ?_, rfl⟩
  · simp [ofMaterial, name_container]
  · simp [ofMaterial, image_container]
  · simp [ofMaterial, name_volume]

theorem isComplete_ofMaterial (h : m.IsShaped) :
    (ofMaterial m.containers m.volumes m.imagePullSecrets).IsComplete := by
  refine ⟨?_, ?_, ?_⟩
  · exact List.forall_mem_map.mpr fun c _ => Completion.settles_container c
  · exact List.forall_mem_map.mpr fun v _ => Completion.settles_volume v
  · refine List.forall_mem_map.mpr fun v hv => Completion.hasSource_volume ?_
    rw [(h.volumes v hv).names_slots]
    decide

private theorem forall_ne_empty_of_map_eq {f : Value → String} {xs ys : List Value}
    (h : xs.map f = ys.map f) (hys : ∀ y ∈ ys, f y ≠ "") : ∀ x ∈ xs, f x ≠ "" := by
  intro x hx hempty
  have hmem : f x ∈ ys.map f := h ▸ List.mem_map_of_mem hx
  obtain ⟨y, hy, hsame⟩ := List.mem_map.mp hmem
  exact hys y hy (hsame.trans hempty)

/-- Filling in defaults leaves fit what was fit. -/
theorem isFit_of_keeps {spec : Spec} (h : IsFit m.containers m.volumes m.imagePullSecrets)
    (hkeeps : spec.Keeps m) : IsFit spec.containers spec.volumes spec.imagePullSecrets where
  containers_named := forall_ne_empty_of_map_eq hkeeps.containers h.containers_named
  containers_distinct := hkeeps.containers ▸ h.containers_distinct
  images_given := forall_ne_empty_of_map_eq hkeeps.images h.images_given
  volumes_named := forall_ne_empty_of_map_eq hkeeps.volumes h.volumes_named
  volumes_distinct := hkeeps.volumes ▸ h.volumes_distinct
  secrets_named := hkeeps.imagePullSecrets ▸ h.secrets_named

end OfMaterial

/-- A text gives a specification exactly if it is material that is fit, and it gives that material
with defaults filled in. -/
theorem ofText_eq_ok_iff {text : String} {spec : Spec} :
    ofText text = .ok spec ↔ ∃ m, Material.ofText? text = some m ∧
      IsFit m.containers m.volumes m.imagePullSecrets ∧
        spec = ofMaterial m.containers m.volumes m.imagePullSecrets := by
  unfold ofText
  cases hm : Material.ofText? text with
  | none => simp
  | some m =>
    by_cases hdefects : m.defects = []
    · have hfit := Material.defects_eq_nil_iff.mp hdefects
      simp only [hdefects, Except.ok.injEq, Option.some.injEq]
      constructor
      · rintro rfl
        exact ⟨m, rfl, hfit, rfl⟩
      · rintro ⟨_, rfl, -, hspec⟩
        exact hspec.symm
    · have hunfit : ¬ IsFit m.containers m.volumes m.imagePullSecrets :=
        fun hfit => hdefects (Material.defects_eq_nil_iff.mpr hfit)
      simp only [Option.some.injEq]
      constructor
      · intro h
        contradiction
      · rintro ⟨_, rfl, hfit, -⟩
        exact absurd hfit hunfit

/-- A specification that a text gives is fit and complete and keeps what the text says; and every
text whose material is fit gives one. -/
theorem ofText_fit_and_complete (text : String) :
    (∀ spec, ofText text = .ok spec → ∃ m, Material.ofText? text = some m ∧
      IsFit spec.containers spec.volumes spec.imagePullSecrets ∧ spec.IsComplete ∧ spec.Keeps m) ∧
    ∀ m, Material.ofText? text = some m → IsFit m.containers m.volumes m.imagePullSecrets →
      ∃ spec, ofText text = .ok spec := by
  constructor
  · intro spec h
    obtain ⟨m, hm, hfit, rfl⟩ := ofText_eq_ok_iff.mp h
    have hkeeps := keeps_ofMaterial m
    exact ⟨m, hm, isFit_of_keeps hfit hkeeps,
      isComplete_ofMaterial (Material.isShaped_of_ofText? hm), hkeeps⟩
  · intro m hm hfit
    exact ⟨_, ofText_eq_ok_iff.mpr ⟨m, hm, hfit, rfl⟩⟩

/-- A container, a volume without a source and an image pull secret. -/
def smallText : String :=
  "containers: [{name: proxy, image: proxy}]\nvolumes: [{name: data}]\n" ++
    "imagePullSecrets: [{name: key}]\n"

theorem ofText_fit_and_complete_smallText :
    ∃ spec, ofText smallText = .ok spec ∧
      IsFit spec.containers spec.volumes spec.imagePullSecrets ∧ spec.IsComplete ∧
        spec.containers.map Value.name = ["proxy"] := by
  have hok : (ofText smallText).toOption.isSome = true := by decide +kernel
  cases hspec : ofText smallText with
  | error e =>
    rw [hspec] at hok
    contradiction
  | ok spec =>
    obtain ⟨m, hm, hfit, hcomplete, hkeeps⟩ := (ofText_fit_and_complete smallText).1 spec hspec
    have hnames : (Material.ofText? smallText).map (·.containers.map Value.name) =
        some ["proxy"] := by decide +kernel
    rw [hm] at hnames
    refine ⟨spec, rfl, hfit, hcomplete, ?_⟩
    rw [hkeeps.containers]
    exact Option.some.inj hnames

/-! ### Filling in defaults again -/

/-- The specifications that can be made: nothing gets into one before its defaults are filled in. -/
inductive IsMade : Spec → Prop where
  | empty : IsMade Spec.empty
  | ofMaterial (containers volumes imagePullSecrets : List Value) :
      IsMade (ofMaterial containers volumes imagePullSecrets)

theorem isMade_of_ofText {text : String} {spec : Spec} (h : ofText text = .ok spec) :
    spec.IsMade := by
  obtain ⟨m, -, -, rfl⟩ := ofText_eq_ok_iff.mp h
  exact .ofMaterial m.containers m.volumes m.imagePullSecrets

private theorem map_map_of_settles {f : Value → Value} (hf : Settles f) (values : List Value) :
    (values.map f).map f = values.map f := by
  rw [List.map_map]
  exact List.map_congr_left fun v _ => hf v

/-- What defaults have been filled in to stays as it is if they are filled in again, whatever it has
been, and so a specification is made again of what it holds. -/
theorem filled_in_once_and_for_all :
    (∀ c, Completion.container (Completion.container c) = Completion.container c) ∧
      (∀ v, Completion.volume (Completion.volume v) = Completion.volume v) ∧
      ∀ spec : Spec, spec.IsMade →
        ofMaterial spec.containers spec.volumes spec.imagePullSecrets = spec := by
  refine ⟨Completion.settles_container, Completion.settles_volume, fun spec hmade => ?_⟩
  cases hmade with
  | empty => rfl
  | ofMaterial containers volumes imagePullSecrets =>
    simp only [ofMaterial, map_map_of_settles Completion.settles_container,
      map_map_of_settles Completion.settles_volume]

theorem filled_in_once_and_for_all_smallText :
    ∃ spec, ofText smallText = .ok spec ∧
      ofMaterial spec.containers spec.volumes spec.imagePullSecrets = spec := by
  have hok : (ofText smallText).toOption.isSome = true := by decide +kernel
  cases hspec : ofText smallText with
  | error e =>
    rw [hspec] at hok
    contradiction
  | ok spec => exact ⟨spec, rfl, filled_in_once_and_for_all.2.2 spec (isMade_of_ofText hspec)⟩

end SidecarAdmission.Sidecar.Spec
