import SidecarAdmission.Proofs.Sidecar.Container

/-!
What completing a volume does to it. A volume is given an empty directory exactly if it has no source
at all, which shows in its document as well: nothing but its name is written. Otherwise its sources
stay the same ones, and a value is added to them only at a place that has a default.
-/

set_option autoImplicit false
set_option relaxedAutoImplicit false

namespace SidecarAdmission.Sidecar.Completion

open SidecarAdmission.Json SidecarAdmission.Resource SidecarAdmission.Resource.Value

/-! ### What is added -/

def downwardItemDefaults : List Default := fieldReferenceDefaults.map (.within [.slot "fieldRef"])

def projectionDefaults : List Default :=
  ⟨[.slot "serviceAccountToken", .slot "expirationSeconds"], .int 3600⟩ ::
    downwardItemDefaults.map (.within [.slot "downwardAPI", .slot "items", .items])

def volumeDefaults : List Default :=
  -- The directory is one only for a volume without a source, see sources_volume.
  [⟨[.slot "emptyDir"], Value.empty .emptyDirVolumeSource⟩,
    ⟨[.slot "secret", .slot "defaultMode"], defaultMode⟩,
    ⟨[.slot "configMap", .slot "defaultMode"], defaultMode⟩,
    ⟨[.slot "projected", .slot "defaultMode"], defaultMode⟩,
    ⟨[.slot "downwardAPI", .slot "defaultMode"], defaultMode⟩,
    ⟨[.slot "hostPath", .slot "type"], .text ""⟩] ++
    projectionDefaults.map (.within [.slot "projected", .slot "sources", .items]) ++
    downwardItemDefaults.map (.within [.slot "downwardAPI", .slot "items", .items])

theorem completes_downwardItem : Completes (.record .downwardAPIVolumeFile)
    (IsDefault downwardItemDefaults) downwardItem :=
  completes_map_within rfl completes_fieldReference

theorem completes_projection :
    Completes (.record .volumeProjection) (IsDefault projectionDefaults) projection := by
  have htoken : Completes (.record .serviceAccountTokenProjection)
      (IsDefault [⟨[.slot "expirationSeconds"], .int 3600⟩])
      (Value.fill "expirationSeconds" (.int 3600)) :=
    completes_filledWith rfl (.scalar rfl) (isBare_int _) (by simp)
  have hdownward : Completes (.record .downwardAPIProjection) _
      (Value.modifyEach "items" downwardItem) :=
    completes_map_within rfl (completes_each completes_downwardItem)
  suffices h : Completes (.record .volumeProjection) (IsDefault projectionDefaults)
      (updateSlots projectionChanges) from h
  refine completes_updateSlots ?_
  simp only [projectionChanges, List.forall_mem_cons]
  refine ⟨?_, ?_, by simp⟩
  · refine (completes_map_within rfl htoken).among ?_
    simp [projectionDefaults, Default.within]
  · refine (completes_map_within rfl hdownward).among ?_
    simp [projectionDefaults, downwardItemDefaults, fieldReferenceDefaults, Default.within]

theorem completes_mode {kind : Kind}
    (hmode : kind.field? "defaultMode" = some ⟨"defaultMode", .int32, false⟩) :
    Completes (.record kind) (IsDefault [⟨[.slot "defaultMode"], defaultMode⟩])
      (Value.fill "defaultMode" defaultMode) :=
  completes_filledWith hmode (.scalar rfl) (isBare_int _) (by simp)

/-- A source of files is given a mode besides what its parts are given. -/
theorem completes_filesChanges {kind : Kind} {parts : String} {item : Ty} {part : List Default}
    {f : Value → Value} {required : Bool}
    (hmode : kind.field? "defaultMode" = some ⟨"defaultMode", .int32, false⟩)
    (hparts : kind.field? parts = some ⟨parts, .list item, required⟩)
    (hf : Completes item (IsDefault part) f) :
    Completes (.record kind)
      (IsDefault (⟨[.slot "defaultMode"], defaultMode⟩ ::
        part.map (.within [.slot parts, .items])))
      (updateSlots (filesChanges parts f)) := by
  refine completes_updateSlots ?_
  simp only [filesChanges, List.forall_mem_cons]
  refine ⟨?_, ?_, by simp⟩
  · exact (completes_mode hmode).among (by simp)
  · refine (completes_map_within hparts (completes_each hf)).among ?_
    rw [List.map_map]
    exact List.subset_cons_self _ _

theorem completes_volumeChanges : Completes (.record .volume) (IsDefault volumeDefaults)
    (updateSlots volumeChanges) := by
  have htype : Completes (.record .hostPathVolumeSource) (IsDefault [⟨[.slot "type"], .text ""⟩])
      (Value.fill "type" (.text "")) :=
    completes_filledWith rfl (.scalar rfl) (isBare_text _) (by simp)
  refine completes_updateSlots ?_
  simp only [volumeChanges, List.forall_mem_cons]
  refine ⟨?_, ?_, ?_, ?_, ?_, by simp⟩
  · refine (completes_map_within rfl (completes_mode rfl)).among ?_
    simp [volumeDefaults, Default.within]
  · refine (completes_map_within rfl (completes_mode rfl)).among ?_
    simp [volumeDefaults, Default.within]
  · refine (completes_map_within rfl (completes_filesChanges rfl rfl completes_projection)).among ?_
    simp [volumeDefaults, projectionDefaults, downwardItemDefaults, fieldReferenceDefaults,
      Default.within]
  · refine (completes_map_within rfl (completes_filesChanges rfl rfl completes_downwardItem)).among
      ?_
    simp [volumeDefaults, downwardItemDefaults, fieldReferenceDefaults, Default.within]
  · refine (completes_map_within rfl htype).among ?_
    simp [volumeDefaults, Default.within]

theorem isBare_emptyDir : (Value.empty .emptyDirVolumeSource).IsBare := by
  have hslots : (Value.empty .emptyDirVolumeSource).slots = [("medium", none), ("sizeLimit", none)] :=
    rfl
  intro step
  cases step with
  | slot name =>
    rw [part?, Value.get?, hslots, lookup_cons_ite, lookup_cons_ite]
    split
    · rfl
    · split <;> rfl
  | item i => rfl
  | entry key => rfl

theorem completes_sourced : Completes (.record .volume) (IsDefault volumeDefaults) sourced := by
  have htyped : (Value.empty .emptyDirVolumeSource).IsOf (.record .emptyDirVolumeSource) :=
    isOf_initial _ _ (by decide)
  have hfill : Completes (.record .volume) (IsDefault volumeDefaults)
      (Value.fill "emptyDir" (Value.empty .emptyDirVolumeSource)) :=
    completes_filledWith rfl htyped isBare_emptyDir (by simp [volumeDefaults])
  constructor
  · intro v hv
    unfold sourced
    split
    · exact hfill.preserves v hv
    · exact hv
  · intro v hv
    unfold sourced
    split
    · exact hfill.fills v hv
    · exact .refl _ v

theorem completes_volume : Completes (.record .volume) (IsDefault volumeDefaults) volume := by
  constructor
  · intro v hv
    exact completes_volumeChanges.preserves _ (completes_sourced.preserves v hv)
  · intro v hv
    have hsourced := completes_sourced.preserves v hv
    exact (completes_sourced.fills v hv).trans (completes_volumeChanges.fills _ hsourced)

/-! ### Sources -/

/-- The names of the sources that a volume can have. -/
def sourceNames : List String := (Kind.volume.fields.map (·.name)).filter (· != "name")

def sources (v : Value) : List String := sourceNames.filter fun name => (v.get? name).isSome

/-- A volume has no source exactly if none of its slots but the one for its name has a value. -/
theorem lacksSource_iff {v : Value} (h : v.IsOf (.record .volume)) :
    lacksSource v = true ↔ sources v = [] := by
  constructor
  · intro hlacks
    refine List.filter_eq_nil_iff.mpr fun name hname hsome => ?_
    obtain ⟨source, hsource⟩ := Option.isSome_iff_exists.mp hsome
    have hne : name ≠ "name" := by simpa using (List.mem_filter.mp hname).2
    rw [lacksSource_of_get? hsource hne] at hlacks
    contradiction
  · intro hnone
    by_contra hgiven
    obtain ⟨name, source, hmem, hne⟩ := hasSource_of_lacksSource (by simpa using hgiven)
    obtain ⟨slot, rfl, -, -⟩ := h.exists_slots
    obtain ⟨f, hf, heq⟩ := List.mem_map.mp hmem
    obtain ⟨rfl, hslot⟩ := Prod.mk.inj heq
    have hname : f.name ∈ sourceNames :=
      List.mem_filter.mpr ⟨List.mem_map_of_mem hf, by simpa using hne⟩
    have hfield := Kind.volume.field?_of_mem (Kind.nodup_names _) hf
    refine List.filter_eq_nil_iff.mp hnone f.name hname ?_
    rw [Value.get?, Value.slots, lookup_map_field _ slot hfield, hslot]
    rfl

theorem all_slotsToJson (slots : List (String × Option Value)) (name : String) :
    (∀ m ∈ slotsToJson slots, m.1.text? = some name) ↔
      (slots.all fun (n, s) => n == name || s.isNone) = true := by
  induction slots with
  | nil => simp [slotsToJson]
  | cons s rest ih =>
    obtain ⟨n, v⟩ := s
    cases v with
    | none => simpa [slotsToJson] using ih
    | some v =>
      simp only [slotsToJson, List.forall_mem_cons, Literal.text?_ofText, Option.some.injEq, ih,
        List.all_cons, Option.isNone_some, Bool.or_false, Bool.and_eq_true, beq_iff_eq]

/-- A volume without a source is one whose document has no key but that of its name. -/
theorem sources_eq_nil_iff {v : Value} (h : v.IsOf (.record .volume))
    {members : List (Literal × Json)} (hmembers : v.toJson = .object members) :
    sources v = [] ↔ ∀ m ∈ members, m.1.text? = some "name" := by
  rw [← lacksSource_iff h]
  obtain ⟨slot, rfl, -, -⟩ := h.exists_slots
  obtain rfl := Json.object.inj hmembers
  exact (all_slotsToJson _ "name").symm

theorem get?_emptyDir_volume {v : Value} (h : v.IsOf (.record .volume)) :
    (volume v).get? "emptyDir" =
      if sources v = [] then some (Value.empty .emptyDirVolumeSource) else v.get? "emptyDir" := by
  rw [volume_eq, get?_updateSlots (by decide), sourced]
  by_cases hnone : sources v = []
  · have habsent : v.get? "emptyDir" = none := by
      have hsource := List.filter_eq_nil_iff.mp hnone "emptyDir" (by decide)
      simpa using hsource
    rw [if_pos ((lacksSource_iff h).mpr hnone), if_pos hnone,
      get?_fill (h.names_slots ▸ by decide), habsent, Option.getD_none]
  · rw [if_neg (mt (lacksSource_iff h).mp hnone), if_neg hnone]

theorem isSome_get?_updateSlots {changes : List (String × (Option Value → Option Value))}
    (h : ∀ change ∈ changes, ∃ f, change.2 = Option.map f) (name : String) (v : Value) :
    ((updateSlots changes v).get? name).isSome = (v.get? name).isSome := by
  induction changes generalizing v with
  | nil => rfl
  | cons change rest ih =>
    obtain ⟨⟨f, hf⟩, hrest⟩ := List.forall_mem_cons.mp h
    have hcons : updateSlots (change :: rest) v =
        updateSlots rest (v.updateSlot change.1 change.2) := rfl
    have hmodify : v.updateSlot change.1 change.2 = v.modify change.1 f := by rw [hf]; rfl
    rw [hcons, hmodify, ih hrest]
    by_cases hname : name = change.1
    · rw [hname, get?_modify_self, Option.isSome_map]
    · exact congrArg Option.isSome (get?_updateSlot_of_ne hname v)

/-- A volume keeps its sources; without any it gets an empty directory. -/
theorem sources_volume {v : Value} (h : v.IsOf (.record .volume)) :
    sources (volume v) = if sources v = [] then ["emptyDir"] else sources v := by
  have hchanges : sources (volume v) = sources (sourced v) :=
    List.filter_congr fun name _ => isSome_get?_updateSlots exists_map_of_mem_volumeChanges name _
  rw [hchanges, sourced]
  by_cases hnone : sources v = []
  · -- Only the slot that is filled has a value now, besides that of the name.
    rw [if_pos ((lacksSource_iff h).mpr hnone), if_pos hnone]
    have honly : ∀ name ∈ sourceNames,
        ((Value.fill "emptyDir" (Value.empty .emptyDirVolumeSource) v).get? name).isSome =
          (name == "emptyDir") := by
      intro name hname
      by_cases hdir : name = "emptyDir"
      · rw [hdir, get?_fill (h.names_slots ▸ by decide)]
        rfl
      · have habsent := List.filter_eq_nil_iff.mp hnone name hname
        rw [Value.fill, get?_updateSlot_of_ne hdir, Bool.eq_false_iff.mpr habsent,
          beq_false_of_ne hdir]
    rw [sources, List.filter_congr honly]
    decide
  · rw [if_neg (mt (lacksSource_iff h).mp hnone), if_neg hnone]

/-! ### What is not left out -/

/-- Whether nothing is left to be filled in the items of a downward API. -/
def IsFilledDownward (d : Value) : Prop :=
  ∀ i ∈ d.itemsAt "items", ∀ r, i.get? "fieldRef" = some r → Gives ["apiVersion"] r

/-- Whether nothing is left to be filled in a source of a projected volume. -/
structure IsFilledProjection (p : Value) : Prop where
  token : ∀ t, p.get? "serviceAccountToken" = some t → Gives ["expirationSeconds"] t
  downwardAPI : ∀ d, p.get? "downwardAPI" = some d → IsFilledDownward d

def filesNames : List String := ["secret", "configMap", "projected", "downwardAPI"]

/-- Whether nothing is left to be filled in a volume. -/
structure IsFilledVolume (v : Value) : Prop where
  modes : ∀ name ∈ filesNames, ∀ s, v.get? name = some s → Gives ["defaultMode"] s
  projected : ∀ p, v.get? "projected" = some p → ∀ s ∈ p.itemsAt "sources", IsFilledProjection s
  downwardAPI : ∀ d, v.get? "downwardAPI" = some d → IsFilledDownward d
  hostPath : ∀ h, v.get? "hostPath" = some h → Gives ["type"] h

theorem isFilled_downward {d w : Value}
    (htyped : ∀ i ∈ d.itemsAt "items", i.IsOf (.record .downwardAPIVolumeFile))
    (hitems : w.itemsAt "items" = (d.itemsAt "items").map downwardItem) : IsFilledDownward w := by
  intro i hi r hr
  rw [hitems] at hi
  obtain ⟨i, hmem, rfl⟩ := List.mem_map.mp hi
  rw [downwardItem, get?_modify_self] at hr
  obtain ⟨r, hselector, rfl⟩ := Option.map_eq_some_iff.mp hr
  exact gives_fieldReference ((htyped i hmem).get? rfl hselector)

theorem isFilled_projection {p : Value} (h : p.IsOf (.record .volumeProjection)) :
    IsFilledProjection (projection p) := by
  have hget : ∀ {name : String} {f : Value → Value}, (name, Option.map f) ∈ projectionChanges →
      (projection p).get? name = (p.get? name).map f := by
    intro name f hmem
    rw [projection_eq]
    exact get?_updateSlots_map (by decide) hmem p
  constructor
  · intro t ht
    rw [hget (List.mem_cons_self)] at ht
    obtain ⟨t, htoken, rfl⟩ := Option.map_eq_some_iff.mp ht
    exact gives_fill (by decide) (h.get? rfl htoken) _
  · intro d hd
    rw [hget (List.mem_cons_of_mem _ List.mem_cons_self)] at hd
    obtain ⟨d, hdownward, rfl⟩ := Option.map_eq_some_iff.mp hd
    have hd : d.IsOf (.record .downwardAPIProjection) := h.get? rfl hdownward
    exact isFilled_downward (hd.itemsAt rfl) (itemsAt_of_map_each (get?_modify_self _ _ d))

theorem gives_filesChanges {parts : String} (hparts : "defaultMode" ≠ parts) (f : Value → Value)
    {kind : Kind} (hmode : "defaultMode" ∈ kind.fields.map (·.name)) {v : Value}
    (h : v.IsOf (.record kind)) : Gives ["defaultMode"] (updateSlots (filesChanges parts f) v) := by
  refine gives_updateSlots (by simpa [filesChanges] using hparts) ?_ (by simpa using hmode) h
  exact List.forall_mem_singleton.mpr ⟨defaultMode, List.mem_cons_self⟩

theorem itemsAt_filesChanges {parts : String} (hparts : "defaultMode" ≠ parts) (f : Value → Value)
    (v : Value) :
    (updateSlots (filesChanges parts f) v).itemsAt parts = (v.itemsAt parts).map f := by
  refine itemsAt_of_map_each (get?_updateSlots_map (by simpa [filesChanges] using hparts) ?_ v)
  simp [filesChanges]

/-- A source that a volume has in the end is one that it has had, changed. -/
theorem exists_of_get?_volume {v s : Value} {name : String} (h : (volume v).get? name = some s)
    {f : Value → Value} (hchange : (name, Option.map f) ∈ volumeChanges) :
    ∃ source, v.get? name = some source ∧ f source = s := by
  have hname : name ≠ "emptyDir" := by
    rintro rfl
    have hmem : "emptyDir" ∈ volumeChanges.map Prod.fst :=
      List.mem_map_of_mem (f := Prod.fst) hchange
    exact absurd hmem (by decide)
  rw [volume_eq, get?_updateSlots_map (by decide) hchange, get?_sourced hname] at h
  exact Option.map_eq_some_iff.mp h

theorem isFilled_volume {v : Value} (h : v.IsOf (.record .volume)) :
    IsFilledVolume (volume v) := by
  have hprojected : ("projected", Option.map (updateSlots (filesChanges "sources" projection))) ∈
      volumeChanges := by simp [volumeChanges]
  have hdownward : ("downwardAPI", Option.map (updateSlots (filesChanges "items" downwardItem))) ∈
      volumeChanges := by simp [volumeChanges]
  have hhostPath : ("hostPath", Option.map (Value.fill "type" (.text ""))) ∈ volumeChanges := by
    simp [volumeChanges]
  have hmode : ∀ name ∈ ["secret", "configMap"],
      (name, Option.map (Value.fill "defaultMode" defaultMode)) ∈ volumeChanges := by
    simp [volumeChanges]
  constructor
  · simp only [filesNames, List.forall_mem_cons]
    refine ⟨?_, ?_, ?_, ?_, by simp⟩
    · intro s hs
      obtain ⟨s, hgiven, rfl⟩ := exists_of_get?_volume hs (hmode _ (by decide))
      exact gives_fill (by decide) (h.get? rfl hgiven) _
    · intro s hs
      obtain ⟨s, hgiven, rfl⟩ := exists_of_get?_volume hs (hmode _ (by decide))
      exact gives_fill (by decide) (h.get? rfl hgiven) _
    · intro s hs
      obtain ⟨s, hgiven, rfl⟩ := exists_of_get?_volume hs hprojected
      exact gives_filesChanges (by decide) _ (by decide) (h.get? rfl hgiven)
    · intro s hs
      obtain ⟨s, hgiven, rfl⟩ := exists_of_get?_volume hs hdownward
      exact gives_filesChanges (by decide) _ (by decide) (h.get? rfl hgiven)
  · intro p hp s hs
    obtain ⟨p, hgiven, rfl⟩ := exists_of_get?_volume hp hprojected
    rw [itemsAt_filesChanges (by decide)] at hs
    obtain ⟨s, hmem, rfl⟩ := List.mem_map.mp hs
    have hp : p.IsOf (.record .projectedVolumeSource) := h.get? rfl hgiven
    exact isFilled_projection (hp.itemsAt rfl s hmem)
  · intro d hd
    obtain ⟨d, hgiven, rfl⟩ := exists_of_get?_volume hd hdownward
    have hd : d.IsOf (.record .downwardAPIVolumeSource) := h.get? rfl hgiven
    exact isFilled_downward (hd.itemsAt rfl) (itemsAt_filesChanges (by decide) _ d)
  · intro p hp
    obtain ⟨p, hgiven, rfl⟩ := exists_of_get?_volume hp hhostPath
    exact gives_fill (by decide) (h.get? rfl hgiven) _

/-- Completing a volume keeps all that it gives and adds values only at places that have a default,
none of which is left without one. An empty directory is added exactly if there is no source, when
the name is all that the document of the volume has; otherwise the sources stay the same ones. -/
theorem volume_filled_in {v : Value} (h : v.IsOf (.record .volume)) :
    (volume v).IsOf (.record .volume) ∧ Fills (IsDefault volumeDefaults) v (volume v) ∧
      IsFilledVolume (volume v) ∧
      sources (volume v) = (if sources v = [] then ["emptyDir"] else sources v) ∧
      (volume v).get? "emptyDir" =
        (if sources v = [] then some (Value.empty .emptyDirVolumeSource) else v.get? "emptyDir") ∧
      ∃ members, v.toJson = .object members ∧
        (sources v = [] ↔ ∀ m ∈ members, m.1.text? = some "name") := by
  refine ⟨completes_volume.preserves v h, completes_volume.fills v h, isFilled_volume h,
    sources_volume h, get?_emptyDir_volume h, ?_⟩
  obtain ⟨slot, rfl, -, -⟩ := h.exists_slots
  exact ⟨_, rfl, sources_eq_nil_iff h rfl⟩

/-- A volume that projects a token and, behind it, a field of the pod. -/
def projectedVolume : Json :=
  .ofMembers [("name", .string "info"), ("projected", .ofMembers [("sources", .array [
    .ofMembers [("serviceAccountToken", .ofMembers [("path", .string "token")])],
    .ofMembers [("downwardAPI", .ofMembers [("items", .array [.ofMembers [
      ("path", .string "name"),
      ("fieldRef", .ofMembers [("fieldPath", .string "metadata.name")])]])])]])])]

def namedVolume : Json := .ofMembers [("name", .string "work")]

theorem volume_filled_in_small :
    ∃ v w, Value.decode? .volume projectedVolume = some v ∧
      Value.decode? .volume namedVolume = some w ∧ v.IsOf (.record .volume) ∧
      w.IsOf (.record .volume) ∧ IsFilledVolume (volume v) ∧
      sources (volume v) = ["projected"] ∧ (volume v).get? "emptyDir" = none ∧
      sources (volume w) = ["emptyDir"] := by
  have hprojected : (Value.decode? .volume projectedVolume).map
      (fun v => (sources v, (v.get? "emptyDir").isNone)) = some (["projected"], true) := by
    decide +kernel
  have hnamed : (Value.decode? .volume namedVolume).map sources = some [] := by decide +kernel
  obtain ⟨v, hv, hsources⟩ := Option.map_eq_some_iff.mp hprojected
  obtain ⟨w, hw, hnone⟩ := Option.map_eq_some_iff.mp hnamed
  obtain ⟨hsource, habsent⟩ := Prod.mk.inj hsources
  obtain ⟨-, -, hfilled, hkept, hdirectory, -⟩ := volume_filled_in (isOf_of_ofJson? hv)
  obtain ⟨-, -, -, hgained, -, -⟩ := volume_filled_in (isOf_of_ofJson? hw)
  rw [hsource, if_neg (List.cons_ne_nil _ _)] at hkept hdirectory
  rw [if_pos hnone] at hgained
  exact ⟨v, w, hv, hw, isOf_of_ofJson? hv, isOf_of_ofJson? hw, hfilled, hkept,
    hdirectory.trans (Option.isNone_iff_eq_none.mp habsent), hgained⟩

end SidecarAdmission.Sidecar.Completion
