import SidecarAdmission.Proofs.Resource.Reading
import SidecarAdmission.Proofs.Sidecar.Container
import SidecarAdmission.Proofs.Sidecar.Spec
import SidecarAdmission.Proofs.Sidecar.Volume

/-!
What is injected comes back from its own documents. Containers and image pull secrets always do; in
a volume only the metadata of a claim template have times and free-form parts, which the filling in
of defaults leaves alone.
-/

set_option autoImplicit false
set_option relaxedAutoImplicit false

namespace SidecarAdmission.Sidecar

open SidecarAdmission.Resource SidecarAdmission.Resource.Value

namespace Material

theorem hasAll_isOf {text : String} {m : Material} (h : ofText? text = some m) :
    m.HasAll fun kind v => v.IsOf (.record kind) :=
  hasAll_of_ofText? (fun _ kind n => FromYaml.yields_isOf _ (.record kind) n) h

theorem hasAll_isReadBack {text : String} {m : Material} (h : ofText? text = some m) :
    m.HasAll fun kind v => ∀ loose, (Ty.record kind).fits Json.depthLimit loose = true →
      v.HasWholeFrees → v.IsReadBack Json.depthLimit (.record kind) :=
  hasAll_of_ofText? (fun _ kind n => FromYaml.yields_isReadBack _ (.record kind) n) h

end Material

/-- The one slot of a volume that may lead to times and free-form parts is kept. -/
theorem sameLooseSlots_volume (v : Value) :
    SameLooseSlots (Json.depthLimit - 1) .volume v (Completion.volume v) := by
  have hfields : ∀ f ∈ Kind.volume.fields,
      f.type.fits (Json.depthLimit - 1) false = true ∨ f.name = "ephemeral" := by decide +kernel
  intro f hf
  rcases hfields f hf with hclosed | hname
  · exact .inl hclosed
  · rw [hname]
    exact .inr (Completion.get?_volume (by decide) (by decide) v)

/-- The items of a specification that a text gives are decoded from their own documents again,
unless a free-form part of a volume is null or holds a number that is no integer of 64 bits. -/
theorem Spec.isReadBack_of_ofText {text : String} {spec : Spec} (h : ofText text = .ok spec)
    (hwhole : ∀ v ∈ spec.volumes, v.HasWholeFrees) :
    (∀ c ∈ spec.containers, c.IsReadBack Json.depthLimit (.record .container)) ∧
      (∀ v ∈ spec.volumes, v.IsReadBack Json.depthLimit (.record .volume)) ∧
      ∀ s ∈ spec.imagePullSecrets,
        s.IsReadBack Json.depthLimit (.record .localObjectReference) := by
  obtain ⟨m, hm, -, rfl⟩ := ofText_eq_ok_iff.mp h
  have htyped := Material.hasAll_isOf hm
  refine ⟨?_, ?_, fun s hs => (htyped.imagePullSecrets s hs).isReadBack (by decide +kernel)⟩
  · refine List.forall_mem_map.mpr fun c hc => ?_
    have hcompleted := (Completion.completes_container (htyped.containers c hc)).1
    exact hcompleted.isReadBack (by decide +kernel)
  · refine List.forall_mem_map.mpr fun v hv => ?_
    have hv' := htyped.volumes v hv
    have hsame := sameLooseSlots_volume v
    have hfrees := hsame.hasWholeFrees hv' (hwhole _ (List.mem_map_of_mem hv))
    have hback := (Material.hasAll_isReadBack hm).volumes v hv true (by decide +kernel) hfrees
    exact hsame.isReadBack hback hfrees (Completion.completes_volume.preserves v hv')

end SidecarAdmission.Sidecar
