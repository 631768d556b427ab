import SidecarAdmission.Sidecar.Completion
import SidecarAdmission.Proofs.Json.Canonical
import SidecarAdmission.Proofs.Resource.Slots

/-!
Defaults are filled in once and for all. Each of them is put into a slot of its own, where it stays
if it is put there again; what decides about a default, the image of a container, the limits of its
resources and the sources of a volume, is not changed by any other one.
-/

set_option autoImplicit false
set_option relaxedAutoImplicit false

namespace SidecarAdmission.Sidecar.Completion

open SidecarAdmission.Json SidecarAdmission.Resource SidecarAdmission.Resource.Value

/-! ### Parts of containers -/

theorem settles_fieldReference : Settles fieldReference := settles_fill _ _

/-- The slots of a request that are filled. -/
def httpRequestChanges : List (String × (Option Value → Option Value)) :=
  [("path", filledWith (.text "/")), ("scheme", filledWith (.text "HTTP"))]

theorem httpRequest_eq (v : Value) : httpRequest v = updateSlots httpRequestChanges v := rfl

theorem settles_httpRequest : Settles httpRequest := by
  refine settles_updateSlots (by decide : (httpRequestChanges.map Prod.fst).Nodup) ?_
  simp [httpRequestChanges, settles_filledWith]

/-- The slots of a probe that are filled or changed. -/
def probeChanges : List (String × (Option Value → Option Value)) :=
  [("timeoutSeconds", filledWith (.int 1)), ("periodSeconds", filledWith (.int 10)),
    ("successThreshold", filledWith (.int 1)), ("failureThreshold", filledWith (.int 3)),
    ("httpGet", Option.map httpRequest)]

theorem probe_eq (v : Value) : probe v = updateSlots probeChanges v := rfl

theorem settles_probe : Settles probe := by
  refine settles_updateSlots (by decide : (probeChanges.map Prod.fst).Nodup) ?_
  simp [probeChanges, settles_filledWith, settles_map settles_httpRequest]

theorem settles_handler : Settles handler := settles_modify _ settles_httpRequest

theorem settles_envVar : Settles envVar :=
  settles_modify _ (settles_modify _ settles_fieldReference)

theorem addMissing_cons (entries rest : List (String × Value)) (m : String × Value) :
    addMissing entries (m :: rest) =
      addMissing (if (entries.lookup m.1).isSome then entries
        else insertSorted m.1 m.2 entries) rest := rfl

/-- Entries that are added where they are missing are found under their keys besides all others. -/
theorem lookup_addMissing (entries more : List (String × Value)) (key : String) :
    (addMissing entries more).lookup key = (entries.lookup key).or (more.lookup key) := by
  induction more generalizing entries with
  | nil => simp [addMissing]
  | cons m rest ih =>
    obtain ⟨k, v⟩ := m
    rw [addMissing_cons, ih, lookup_cons_ite]
    by_cases hk : key = k
    · subst k
      cases hkey : entries.lookup key with
      | some w => simp [hkey]
      | none => simp [lookup_insertSorted]
    · cases entries.lookup k with
      | some w => simp [hk]
      | none => simp [lookup_insertSorted, hk]

/-- Entries that are there already are not added. -/
theorem addMissing_eq_self {entries more : List (String × Value)}
    (h : ∀ m ∈ more, (entries.lookup m.1).isSome = true) : addMissing entries more = entries := by
  induction more with
  | nil => rfl
  | cons m rest ih =>
    obtain ⟨hfirst, hrest⟩ := List.forall_mem_cons.mp h
    rw [addMissing_cons, if_pos hfirst, ih hrest]

/-- What is requested, with what is limited added. -/
def requested (limits : List (String × Value)) (requests : Option Value) : Option Value :=
  some (.map (addMissing ((requests.map Value.entries).getD []) limits))

theorem settles_requested (limits : List (String × Value)) : Settles (requested limits) := by
  intro requests
  have hall : ∀ m ∈ limits, ((addMissing ((requests.map Value.entries).getD []) limits).lookup
      m.1).isSome = true := by
    intro m hm
    have hfound : limits.lookup m.1 ≠ none := by
      intro hnone
      simpa using List.lookup_eq_none_iff.mp hnone m hm
    rw [lookup_addMissing, Option.isSome_or, Option.isSome_iff_ne_none.mpr hfound, Bool.or_true]
  simp only [requested, Option.map_some, Option.getD_some, Value.entries, addMissing_eq_self hall]

theorem resources_of_no_limits {v : Value}
    (h : ((v.get? "limits").map Value.entries).getD [] = []) : resources v = v := by
  unfold resources
  split
  · rfl
  · rfl
  next limits hne hlimits =>
    rw [hlimits, Option.getD_some] at h
    subst h
    exact absurd rfl hne

theorem resources_of_limits {v : Value} {limits : List (String × Value)}
    (h : (v.get? "limits").map Value.entries = some limits) (hne : limits ≠ []) :
    resources v = v.updateSlot "requests" (requested limits) := by
  unfold resources
  cases limits with
  | nil => contradiction
  | cons l ls => rw [h]; rfl

theorem resources_cases (v : Value) :
    (((v.get? "limits").map Value.entries).getD [] = [] ∧ resources v = v) ∨
      ∃ limits, (v.get? "limits").map Value.entries = some limits ∧ limits ≠ [] ∧
        resources v = v.updateSlot "requests" (requested limits) := by
  by_cases hempty : ((v.get? "limits").map Value.entries).getD [] = []
  · exact .inl ⟨hempty, resources_of_no_limits hempty⟩
  · cases hlimits : (v.get? "limits").map Value.entries with
    | none => exact absurd (by simp [hlimits]) hempty
    | some limits =>
      have hne : limits ≠ [] := fun h => hempty (by simp [hlimits, h])
      exact .inr ⟨limits, rfl, hne, resources_of_limits hlimits hne⟩

theorem settles_resources : Settles resources := by
  intro v
  rcases resources_cases v with ⟨-, hsame⟩ | ⟨limits, hlimits, hne, hrequested⟩
  · rw [hsame, hsame]
  · -- The limits are not among what is changed, and so the same is requested again.
    have hkept : ((v.updateSlot "requests" (requested limits)).get? "limits").map Value.entries =
        some limits := by
      rw [get?_updateSlot_of_ne (by decide), hlimits]
    rw [hrequested, resources_of_limits hkept hne, settles_updateSlot (settles_requested limits)]

/-! ### Containers -/

/-- The handlers of a lifecycle that are changed. -/
def lifecycleChanges : List (String × (Option Value → Option Value)) :=
  [("postStart", Option.map handler), ("preStop", Option.map handler)]

theorem settles_lifecycle : Settles (updateSlots lifecycleChanges) := by
  refine settles_updateSlots (by decide) ?_
  simp [lifecycleChanges, settles_map settles_handler]

/-- The slots of a container that are filled or changed, given its image. -/
def containerChanges (image : String) : List (String × (Option Value → Option Value)) :=
  [("terminationMessagePath", filledWith (.text "/dev/termination-log")),
    ("terminationMessagePolicy", filledWith (.text "File")),
    ("imagePullPolicy", filledWith (.text (Image.pullPolicy image).text)),
    ("ports", Option.map (Value.each (Value.fill "protocol" (.text "TCP")))),
    ("env", Option.map (Value.each envVar)), ("livenessProbe", Option.map probe),
    ("readinessProbe", Option.map probe), ("startupProbe", Option.map probe),
    ("lifecycle", Option.map (updateSlots lifecycleChanges)),
    ("resources", Option.map resources)]

theorem container_eq (v : Value) :
    container v = updateSlots (containerChanges (v.textAt "image")) v := rfl

/-- What is not among the slots that are filled or changed stays as it is. -/
theorem get?_container {name : String} (h : name ∉ (containerChanges "").map Prod.fst) (v : Value) :
    (container v).get? name = v.get? name := by
  have hnames : name ∉ (containerChanges (v.textAt "image")).map Prod.fst := h
  exact get?_updateSlots hnames v

theorem nodup_containerChanges (image : String) : ((containerChanges image).map Prod.fst).Nodup :=
  (by decide : ((containerChanges "").map Prod.fst).Nodup)

theorem settles_containerChanges (image : String) :
    Settles (updateSlots (containerChanges image)) := by
  refine settles_updateSlots (nodup_containerChanges image) ?_
  simp [containerChanges, settles_filledWith, settles_map, settles_each, settles_fill,
    settles_envVar, settles_probe, settles_lifecycle, settles_resources]

/-- A container is completed for the same image again, and so to the same container. -/
theorem settles_container : Settles container := by
  intro v
  have himage : (container v).textAt "image" = v.textAt "image" := by
    rw [Value.textAt, Value.textAt?, get?_container (by decide)]
    rfl
  rw [container_eq (container v), himage, container_eq, settles_containerChanges]

/-! ### Volumes -/

theorem settles_downwardItem : Settles downwardItem := settles_modify _ settles_fieldReference

/-- The slots of a projection that are changed. -/
def projectionChanges : List (String × (Option Value → Option Value)) :=
  [("serviceAccountToken", Option.map (Value.fill "expirationSeconds" (.int 3600))),
    ("downwardAPI", Option.map (Value.modifyEach "items" downwardItem))]

theorem projection_eq (v : Value) : projection v = updateSlots projectionChanges v := rfl

theorem settles_modifyEach (name : String) {f : Value → Value} (hf : Settles f) :
    Settles (Value.modifyEach name f) :=
  settles_modify name (settles_each hf)

theorem settles_projection : Settles projection := by
  refine settles_updateSlots (by decide : (projectionChanges.map Prod.fst).Nodup) ?_
  simp [projectionChanges, settles_map, settles_fill, settles_modifyEach, settles_downwardItem]

/-- The slots of a source of files that are filled or changed, given its list of parts. -/
def filesChanges (parts : String) (f : Value → Value) :
    List (String × (Option Value → Option Value)) :=
  [("defaultMode", filledWith defaultMode), (parts, Option.map (Value.each f))]

theorem settles_filesChanges {parts : String} (hparts : "defaultMode" ≠ parts) {f : Value → Value}
    (hf : Settles f) : Settles (updateSlots (filesChanges parts f)) := by
  refine settles_updateSlots (by simpa [filesChanges] using hparts) ?_
  simp [filesChanges, settles_filledWith, settles_map, settles_each, hf]

/-- The sources of a volume that are changed. -/
def volumeChanges : List (String × (Option Value → Option Value)) :=
  [("secret", Option.map (Value.fill "defaultMode" defaultMode)),
    ("configMap", Option.map (Value.fill "defaultMode" defaultMode)),
    ("projected", Option.map (updateSlots (filesChanges "sources" projection))),
    ("downwardAPI", Option.map (updateSlots (filesChanges "items" downwardItem))),
    ("hostPath", Option.map (Value.fill "type" (.text "")))]

/-- A volume with an empty directory as its source, if it has none. -/
def sourced (v : Value) : Value :=
  if lacksSource v then Value.fill "emptyDir" (Value.empty .emptyDirVolumeSource) v else v

theorem volume_eq (v : Value) : volume v = updateSlots volumeChanges (sourced v) := rfl

theorem settles_volumeChanges : Settles (updateSlots volumeChanges) := by
  refine settles_updateSlots (by decide) ?_
  simp [volumeChanges, settles_map, settles_fill, settles_filesChanges, settles_projection,
    settles_downwardItem]

/-- A change of a value in a slot neither makes nor takes away a source. -/
theorem lacksSource_updateSlot (name : String) (f : Value → Value) (v : Value) :
    lacksSource (v.updateSlot name (Option.map f)) = lacksSource v := by
  cases v with
  | record slots =>
    simp only [lacksSource, Value.updateSlot, Value.slots, List.all_map]
    congr 1
    funext s
    simp only [Function.comp_apply]
    by_cases hs : s.1 = name <;> simp [hs]
  | _ => rfl

theorem lacksSource_updateSlots {changes : List (String × (Option Value → Option Value))}
    (h : ∀ change ∈ changes, ∃ f, change.2 = Option.map f) (v : Value) :
    lacksSource (updateSlots changes v) = lacksSource v := by
  induction changes generalizing v with
  | nil => rfl
  | cons change rest ih =>
    obtain ⟨⟨f, hf⟩, hrest⟩ := List.forall_mem_cons.mp h
    have hcons : updateSlots (change :: rest) v =
        updateSlots rest (v.updateSlot change.1 change.2) := rfl
    rw [hcons, ih hrest, hf, lacksSource_updateSlot]

theorem exists_map_of_mem_volumeChanges :
    ∀ change ∈ volumeChanges, ∃ f, change.2 = Option.map f := by
  simp only [volumeChanges, List.forall_mem_cons]
  exact ⟨⟨_, rfl⟩, ⟨_, rfl⟩, ⟨_, rfl⟩, ⟨_, rfl⟩, ⟨_, rfl⟩, by simp⟩

theorem lacksSource_volumeChanges (v : Value) :
    lacksSource (updateSlots volumeChanges v) = lacksSource v :=
  lacksSource_updateSlots exists_map_of_mem_volumeChanges v

/-- Whether a volume has a source. -/
def HasSource (v : Value) : Prop := ∃ name source, (name, some source) ∈ v.slots ∧ name ≠ "name"

theorem hasSource_of_lacksSource {v : Value} (h : lacksSource v = false) : HasSource v := by
  obtain ⟨⟨name, slot⟩, hslot, hfails⟩ := List.all_eq_false.mp h
  cases slot with
  | none => simp at hfails
  | some source => exact ⟨name, source, hslot, by simpa using hfails⟩

theorem lacksSource_of_get? {v source : Value} {name : String} (h : v.get? name = some source)
    (hname : name ≠ "name") : lacksSource v = false := by
  have hslot : v.slots.lookup name = some (some source) := Option.join_eq_some_iff.mp h
  obtain ⟨front, back, hslots, -⟩ := List.lookup_eq_some_iff.mp hslot
  rw [lacksSource, List.all_eq_false]
  refine ⟨(name, some source), by simp [hslots], ?_⟩
  simp [hname]

theorem settles_sourced : Settles sourced := by
  intro v
  by_cases hv : lacksSource v = true
  · have hsourced : sourced v = Value.fill "emptyDir" (Value.empty .emptyDirVolumeSource) v :=
      if_pos hv
    rw [hsourced]
    unfold sourced
    split
    · exact settles_fill _ _ v
    · rfl
  · have hsourced : sourced v = v := if_neg hv
    rw [hsourced, hsourced]

theorem sourced_updateSlots (v : Value) :
    sourced (updateSlots volumeChanges v) = updateSlots volumeChanges (sourced v) := by
  unfold sourced
  rw [lacksSource_volumeChanges]
  split
  · exact (updateSlots_updateSlot (by decide) _ v).symm
  · rfl

/-- A volume is given a source before its sources are changed, and none is lost then. -/
theorem settles_volume : Settles volume := by
  intro v
  rw [volume_eq v, volume_eq, sourced_updateSlots, settles_sourced, settles_volumeChanges]

theorem get?_sourced {name : String} (h : name ≠ "emptyDir") (v : Value) :
    (sourced v).get? name = v.get? name := by
  unfold sourced
  split
  · exact get?_updateSlot_of_ne h v
  · rfl

theorem get?_volume {name : String} (h : name ∉ volumeChanges.map Prod.fst)
    (hname : name ≠ "emptyDir") (v : Value) : (volume v).get? name = v.get? name := by
  rw [volume_eq, get?_updateSlots h, get?_sourced hname]

/-- A volume that has a slot for an empty directory ends up with a source. -/
theorem hasSource_volume {v : Value} (h : "emptyDir" ∈ v.slots.map Prod.fst) :
    HasSource (volume v) := by
  apply hasSource_of_lacksSource
  rw [volume_eq, lacksSource_volumeChanges, sourced]
  split
  · exact lacksSource_of_get? (get?_fill h _) (by decide)
  next hv => simpa using hv

end SidecarAdmission.Sidecar.Completion
