import SidecarAdmission.Proofs.Resource.Parts
import SidecarAdmission.Proofs.Sidecar.Completion

/-!
What completing a container does to it. All that the container gives is kept, list by list and entry
by entry; a value is added only at a place that has a default, and then it is that default, or as a
request for what is limited and not requested. Behind that none of these places is left without a
value.
-/

set_option autoImplicit false
set_option relaxedAutoImplicit false

namespace SidecarAdmission.Sidecar.Completion

open SidecarAdmission.Json SidecarAdmission.Resource SidecarAdmission.Resource.Value

/-! ### The defaults of a container -/

def fieldReferenceDefaults : List Default := [⟨[.slot "apiVersion"], .text "v1"⟩]

def httpRequestDefaults : List Default :=
  [⟨[.slot "path"], .text "/"⟩, ⟨[.slot "scheme"], .text "HTTP"⟩]

def probeDefaults : List Default :=
  [⟨[.slot "timeoutSeconds"], .int 1⟩, ⟨[.slot "periodSeconds"], .int 10⟩,
    ⟨[.slot "successThreshold"], .int 1⟩, ⟨[.slot "failureThreshold"], .int 3⟩] ++
    httpRequestDefaults.map (.within [.slot "httpGet"])

def probeNames : List String := ["livenessProbe", "readinessProbe", "startupProbe"]

def handlerNames : List String := ["postStart", "preStop"]

def containerDefaults (image : String) : List Default :=
  [⟨[.slot "terminationMessagePath"], .text "/dev/termination-log"⟩,
    ⟨[.slot "terminationMessagePolicy"], .text "File"⟩,
    ⟨[.slot "imagePullPolicy"], .text (Image.pullPolicy image).text⟩,
    ⟨[.slot "ports", .items, .slot "protocol"], .text "TCP"⟩] ++
    fieldReferenceDefaults.map (.within [.slot "env", .items, .slot "valueFrom", .slot "fieldRef"]) ++
    probeNames.flatMap (fun name => probeDefaults.map (.within [.slot name])) ++
    handlerNames.flatMap fun name =>
      httpRequestDefaults.map (.within [.slot "lifecycle", .slot name, .slot "httpGet"])

/-- The places of the requests of a container. -/
def IsRequest (path : List Step) : Prop :=
  path = [.slot "resources", .slot "requests"] ∨
    ∃ key, path = [.slot "resources", .slot "requests", .entry key]

/-! ### What is added -/

theorem completes_fieldReference :
    Completes (.record .objectFieldSelector) (IsDefault fieldReferenceDefaults) fieldReference :=
  completes_filledWith rfl (.scalar rfl) (isBare_text _) (by simp [fieldReferenceDefaults])

theorem completes_httpRequest :
    Completes (.record .httpGetAction) (IsDefault httpRequestDefaults) httpRequest := by
  suffices h : Completes (.record .httpGetAction) (IsDefault httpRequestDefaults)
      (updateSlots httpRequestChanges) from h
  refine completes_updateSlots ?_
  simp only [httpRequestChanges, List.forall_mem_cons]
  refine ⟨?_, ?_, by simp⟩
  · exact completes_filledWith rfl (.scalar rfl) (isBare_text _) (by simp [httpRequestDefaults])
  · exact completes_filledWith rfl (.scalar rfl) (isBare_text _) (by simp [httpRequestDefaults])

theorem completes_probe : Completes (.record .probe) (IsDefault probeDefaults) probe := by
  suffices h : Completes (.record .probe) (IsDefault probeDefaults) (updateSlots probeChanges) from h
  refine completes_updateSlots ?_
  simp only [probeChanges, List.forall_mem_cons]
  refine ⟨?_, ?_, ?_, ?_, ?_, by simp⟩
  · exact completes_filledWith rfl (.scalar rfl) (isBare_int _) (by simp [probeDefaults])
  · exact completes_filledWith rfl (.scalar rfl) (isBare_int _) (by simp [probeDefaults])
  · exact completes_filledWith rfl (.scalar rfl) (isBare_int _) (by simp [probeDefaults])
  · exact completes_filledWith rfl (.scalar rfl) (isBare_int _) (by simp [probeDefaults])
  · exact (completes_map_within rfl completes_httpRequest).among (List.subset_append_right _ _)

theorem completes_lifecycle : Completes (.record .lifecycle)
    (IsDefault (handlerNames.flatMap fun name =>
      httpRequestDefaults.map (.within [.slot name, .slot "httpGet"])))
    (updateSlots lifecycleChanges) := by
  have hhandler : Completes (.record .lifecycleHandler) _ handler :=
    completes_map_within rfl completes_httpRequest
  refine completes_updateSlots ?_
  simp only [lifecycleChanges, List.forall_mem_cons]
  refine ⟨?_, ?_, by simp⟩
  · refine (completes_map_within rfl hhandler).among ?_
    simp [handlerNames, httpRequestDefaults, Default.within]
  · refine (completes_map_within rfl hhandler).among ?_
    simp [handlerNames, httpRequestDefaults, Default.within]

/-! ### Requests -/

theorem mem_addMissing {entries more : List (String × Value)} {e : String × Value}
    (h : e ∈ addMissing entries more) : e ∈ entries ∨ e ∈ more := by
  induction more generalizing entries with
  | nil => exact .inl h
  | cons m rest ih =>
    rw [addMissing_cons] at h
    rcases ih h with h | h
    · split at h
      · exact .inl h
      · rcases mem_insertSorted h with rfl | h
        · exact .inr List.mem_cons_self
        · exact .inl h
    · exact .inr (List.mem_cons_of_mem m h)

theorem keysAscend_addMissing {entries : List (String × Value)} (h : KeysAscend entries)
    (more : List (String × Value)) : KeysAscend (addMissing entries more) := by
  induction more generalizing entries with
  | nil => exact h
  | cons m rest ih =>
    rw [addMissing_cons]
    refine ih ?_
    split
    · exact h
    · exact h.insertSorted m.1 m.2

theorem preservesSlot_requested {limits : List (String × Value)}
    (h : ∀ e ∈ limits, e.2.IsOf .quantity) : PreservesSlot (.map .quantity) (requested limits) := by
  refine ⟨fun slot hslot y hy => ?_, fun _ => rfl⟩
  obtain rfl := Option.some.inj hy
  cases slot with
  | none =>
    refine .map (keysAscend_addMissing List.Pairwise.nil limits) fun e he => ?_
    exact h e ((mem_addMissing he).resolve_left List.not_mem_nil)
  | some x =>
    obtain ⟨entries, rfl, hascend, htyped⟩ := (hslot x rfl).exists_entries
    refine .map (keysAscend_addMissing hascend limits) fun e he => ?_
    exact (mem_addMissing he).elim (htyped e) (h e)

theorem isBare_of_quantity {v : Value} (h : v.IsOf .quantity) : v.IsBare := by
  cases h with
  | scalar allowed =>
    cases v with
    | text s => exact isBare_text s
    | _ => simp [Ty.allows] at allowed

/-- What is put into a map of requests stands under the key of a limit. -/
theorem fillsPart_requested {limits : List (String × Value)}
    (hlimits : ∀ e ∈ limits, e.2.IsOf .quantity) {slot : Option Value}
    (hslot : ∀ x, slot = some x → x.IsOf (.map .quantity)) :
    FillsPart (fun path _ => IsRequest (.slot "resources" :: path)) (.slot "requests") slot
      (requested limits slot) := by
  have hlimit : ∀ key q, limits.lookup key = some q → q.IsBare := by
    intro key q hq
    obtain ⟨front, back, hsplit, -⟩ := List.lookup_eq_some_iff.mp hq
    exact isBare_of_quantity (hlimits (key, q) (by simp [hsplit]))
  have hfills : ∀ entries, Fills
      (fun path _ => IsRequest (.slot "resources" :: .slot "requests" :: path)) (.map entries)
      (.map (addMissing entries limits)) := by
    intro entries
    refine fills_of_parts rfl fun step => ?_
    cases step with
    | slot name => exact .absent
    | item i => exact .absent
    | entry key =>
      simp only [part?, Value.entries, lookup_addMissing]
      cases entries.lookup key with
      | some x => exact .refl _ _
      | none =>
        rw [Option.none_or]
        cases hq : limits.lookup key with
        | none => exact .absent
        | some q =>
          refine .added fun path z hz => ?_
          obtain ⟨rfl, -⟩ := (hlimit key q hq).at?_eq hz
          exact .inr ⟨key, rfl⟩
  cases slot with
  | none =>
    -- A map that was not there is filled like an empty one.
    have hbare : (Value.map []).IsBare := fun step => by cases step <;> rfl
    exact .added fun path z hz => (hfills []).may_of_isBare hbare (.inl rfl) hz
  | some x =>
    obtain ⟨entries, rfl, -, -⟩ := (hslot x rfl).exists_entries
    exact .kept (hfills entries)

theorem completes_resources : Completes (.record .resourceRequirements)
    (fun path _ => IsRequest (.slot "resources" :: path)) resources := by
  have htyped : ∀ v : Value, v.IsOf (.record .resourceRequirements) → ∀ limits,
      (v.get? "limits").map Value.entries = some limits → ∀ e ∈ limits, e.2.IsOf .quantity := by
    intro v hv limits hlimits
    obtain ⟨l, hl, rfl⟩ := Option.map_eq_some_iff.mp hlimits
    obtain ⟨entries, rfl, -, hentries⟩ := (hv.get? rfl hl).exists_entries
    exact hentries
  constructor
  · intro v hv
    rcases resources_cases v with ⟨-, hsame⟩ | ⟨limits, hlimits, -, hrequested⟩
    · rwa [hsame]
    · rw [hrequested]
      exact preserves_updateSlot rfl (preservesSlot_requested (htyped v hv limits hlimits)) v hv
  · intro v hv
    rcases resources_cases v with ⟨-, hsame⟩ | ⟨limits, hlimits, -, hrequested⟩
    · rw [hsame]
      exact .refl _ v
    · rw [hrequested]
      refine fills_updateSlot (fillsPart_requested (htyped v hv limits hlimits) fun x hx => ?_)
      exact hv.get? rfl hx

theorem completes_envVar : Completes (.record .envVar)
    (IsDefault (fieldReferenceDefaults.map (.within [.slot "valueFrom", .slot "fieldRef"])))
    envVar := by
  have hsource : Completes (.record .envVarSource) _ (Value.modify "fieldRef" fieldReference) :=
    completes_map_within rfl completes_fieldReference
  refine (completes_map_within rfl hsource).among ?_
  simp [fieldReferenceDefaults, Default.within]

/-- The places of a container at which a value may be added, and the values. -/
def MayAdd (image : String) (path : List Step) (o : Outline) : Prop :=
  IsDefault (containerDefaults image) path o ∨ IsRequest path

theorem completes_containerChanges (image : String) :
    Completes (.record .container) (MayAdd image) (updateSlots (containerChanges image)) := by
  have hlisted : ∀ {f : Value → Value},
      Completes (.record .container) (IsDefault (containerDefaults image)) f →
        Completes (.record .container) (MayAdd image) f :=
    fun h => h.mono fun _ _ => .inl
  have hport : Completes (.record .containerPort) (IsDefault [⟨[.slot "protocol"], .text "TCP"⟩])
      (Value.fill "protocol" (.text "TCP")) :=
    completes_filledWith rfl (.scalar rfl) (isBare_text _) (by simp)
  have hprobe : ∀ name ∈ probeNames,
      probeDefaults.map (.within [.slot name]) ⊆ containerDefaults image := by
    intro name hname d hd
    have hmem : d ∈ probeNames.flatMap fun name => probeDefaults.map (.within [.slot name]) :=
      List.mem_flatMap.mpr ⟨name, hname, hd⟩
    exact List.mem_append_left _ (List.mem_append_right _ hmem)
  refine completes_updateSlots ?_
  simp only [containerChanges, List.forall_mem_cons]
  refine ⟨hlisted ?_, hlisted ?_, hlisted ?_, hlisted ?_, hlisted ?_, hlisted ?_, hlisted ?_,
    hlisted ?_, hlisted ?_, ?_, by simp⟩
  · exact completes_filledWith rfl (.scalar rfl) (isBare_text _) (by simp [containerDefaults])
  · exact completes_filledWith rfl (.scalar rfl) (isBare_text _) (by simp [containerDefaults])
  · exact completes_filledWith rfl (.scalar rfl) (isBare_text _) (by simp [containerDefaults])
  · refine (completes_map_within rfl (completes_each hport)).among ?_
    simp [containerDefaults, Default.within]
  · refine (completes_map_within rfl (completes_each completes_envVar)).among ?_
    simp [containerDefaults, fieldReferenceDefaults, Default.within]
  · exact (completes_map_within rfl completes_probe).among (hprobe _ (by decide))
  · exact (completes_map_within rfl completes_probe).among (hprobe _ (by decide))
  · exact (completes_map_within rfl completes_probe).among (hprobe _ (by decide))
  · refine (completes_map_within rfl completes_lifecycle).among ?_
    simp [containerDefaults, handlerNames, httpRequestDefaults, Default.within]
  · exact completes_map rfl (completes_resources.mono fun _ _ h => .inr h)

theorem completes_container {c : Value} (h : c.IsOf (.record .container)) :
    (container c).IsOf (.record .container) ∧
      Fills (MayAdd (c.textAt "image")) c (container c) := by
  have hchanges := completes_containerChanges (c.textAt "image")
  exact ⟨hchanges.preserves c h, hchanges.fills c h⟩

/-! ### What is not left out -/

/-- Whether a record has a value in each slot with one of some names. -/
def Gives (names : List String) (v : Value) : Prop := ∀ name ∈ names, (v.get? name).isSome = true

theorem gives_updateSlots {changes : List (String × (Option Value → Option Value))}
    (hnames : (changes.map Prod.fst).Nodup) {names : List String}
    (h : ∀ name ∈ names, ∃ value, (name, filledWith value) ∈ changes) {kind : Kind}
    (hkind : ∀ name ∈ names, name ∈ kind.fields.map (·.name)) {v : Value}
    (hv : v.IsOf (.record kind)) : Gives names (updateSlots changes v) := by
  intro name hname
  obtain ⟨value, hchange⟩ := h name hname
  have hslot : name ∈ v.slots.map Prod.fst := hv.names_slots ▸ hkind name hname
  rw [get?_updateSlots_filledWith hnames hchange hslot]
  rfl

theorem gives_fill {kind : Kind} {name : String} (hkind : name ∈ kind.fields.map (·.name))
    {v : Value} (hv : v.IsOf (.record kind)) (value : Value) :
    Gives [name] (Value.fill name value v) := by
  intro other hother
  obtain rfl := List.mem_singleton.mp hother
  rw [get?_fill (hv.names_slots ▸ hkind)]
  rfl

theorem gives_fieldReference {v : Value} (h : v.IsOf (.record .objectFieldSelector)) :
    Gives ["apiVersion"] (fieldReference v) := gives_fill (by decide) h _

theorem gives_httpRequest {v : Value} (h : v.IsOf (.record .httpGetAction)) :
    Gives ["path", "scheme"] (httpRequest v) := by
  rw [httpRequest_eq]
  exact gives_updateSlots (by decide) (by simp [httpRequestChanges]) (by decide) h

/-- Whether nothing is left to be filled in a probe. -/
structure IsFilledProbe (p : Value) : Prop where
  given : Gives ["timeoutSeconds", "periodSeconds", "successThreshold", "failureThreshold"] p
  httpGet : ∀ a, p.get? "httpGet" = some a → Gives ["path", "scheme"] a

/-- Whether nothing is left to be filled in a container, its requests apart. -/
structure IsFilledContainer (c : Value) : Prop where
  given : Gives ["terminationMessagePath", "terminationMessagePolicy", "imagePullPolicy"] c
  ports : ∀ p ∈ c.itemsAt "ports", Gives ["protocol"] p
  env : ∀ e ∈ c.itemsAt "env", ∀ s, e.get? "valueFrom" = some s →
    ∀ r, s.get? "fieldRef" = some r → Gives ["apiVersion"] r
  probes : ∀ name ∈ probeNames, ∀ p, c.get? name = some p → IsFilledProbe p
  handlers : ∀ l, c.get? "lifecycle" = some l → ∀ name ∈ handlerNames, ∀ h, l.get? name = some h →
    ∀ a, h.get? "httpGet" = some a → Gives ["path", "scheme"] a

theorem isFilled_probe {p : Value} (h : p.IsOf (.record .probe)) : IsFilledProbe (probe p) := by
  have hrequest : (probe p).get? "httpGet" = (p.get? "httpGet").map httpRequest :=
    get?_updateSlots_map (by decide : (probeChanges.map Prod.fst).Nodup) (by simp [probeChanges]) p
  constructor
  · rw [probe_eq]
    exact gives_updateSlots (by decide) (by simp [probeChanges]) (by decide) h
  · intro a ha
    rw [hrequest] at ha
    obtain ⟨a, hget, rfl⟩ := Option.map_eq_some_iff.mp ha
    exact gives_httpRequest (h.get? rfl hget)

theorem get?_container_of_map {name : String} {f : Value → Value}
    (h : ∀ image, (name, Option.map f) ∈ containerChanges image) (c : Value) :
    (container c).get? name = (c.get? name).map f :=
  get?_updateSlots_map (nodup_containerChanges _) (h _) c

theorem get?_lifecycle : ∀ name ∈ handlerNames, ∀ l : Value,
    (updateSlots lifecycleChanges l).get? name = (l.get? name).map handler ∧
      ∃ required, Kind.field? .lifecycle name = some ⟨name, .record .lifecycleHandler, required⟩ := by
  have hnames : (lifecycleChanges.map Prod.fst).Nodup := by decide
  simp only [handlerNames, List.forall_mem_cons]
  refine ⟨fun l => ⟨?_, _, rfl⟩, fun l => ⟨?_, _, rfl⟩, by simp⟩
  · exact get?_updateSlots_map hnames (by simp [lifecycleChanges]) l
  · exact get?_updateSlots_map hnames (by simp [lifecycleChanges]) l

theorem isFilled_container {c : Value} (h : c.IsOf (.record .container)) :
    IsFilledContainer (container c) := by
  have hports : (container c).itemsAt "ports" =
      (c.itemsAt "ports").map (Value.fill "protocol" (.text "TCP")) :=
    itemsAt_of_map_each (get?_container_of_map (by simp [containerChanges]) c)
  have henv : (container c).itemsAt "env" = (c.itemsAt "env").map envVar :=
    itemsAt_of_map_each (get?_container_of_map (by simp [containerChanges]) c)
  have hprobes : ∀ name ∈ probeNames, (container c).get? name = (c.get? name).map probe ∧
      ∃ required, Kind.field? .container name = some ⟨name, .record .probe, required⟩ := by
    simp only [probeNames, List.forall_mem_cons]
    refine ⟨⟨?_, _, rfl⟩, ⟨?_, _, rfl⟩, ⟨?_, _, rfl⟩, by simp⟩
    · exact get?_container_of_map (by simp [containerChanges]) c
    · exact get?_container_of_map (by simp [containerChanges]) c
    · exact get?_container_of_map (by simp [containerChanges]) c
  have hlifecycle : (container c).get? "lifecycle" =
      (c.get? "lifecycle").map (updateSlots lifecycleChanges) :=
    get?_container_of_map (by simp [containerChanges]) c
  constructor
  · rw [container_eq]
    exact gives_updateSlots (nodup_containerChanges _) (by simp [containerChanges]) (by decide) h
  · intro p hp
    rw [hports] at hp
    obtain ⟨p, hmem, rfl⟩ := List.mem_map.mp hp
    exact gives_fill (by decide) (h.itemsAt rfl p hmem) _
  · intro e he s hs r hr
    rw [henv] at he
    obtain ⟨e, hmem, rfl⟩ := List.mem_map.mp he
    rw [envVar, get?_modify_self] at hs
    obtain ⟨s, hsource, rfl⟩ := Option.map_eq_some_iff.mp hs
    rw [get?_modify_self] at hr
    obtain ⟨r, hselector, rfl⟩ := Option.map_eq_some_iff.mp hr
    have hvar : e.IsOf (.record .envVar) := h.itemsAt rfl e hmem
    exact gives_fieldReference ((hvar.get? rfl hsource).get? rfl hselector)
  · intro name hname p hp
    obtain ⟨hprobe, required, hfield⟩ := hprobes name hname
    rw [hprobe] at hp
    obtain ⟨p, hget, rfl⟩ := Option.map_eq_some_iff.mp hp
    exact isFilled_probe (h.get? hfield hget)
  · intro l hl name hname g hg a ha
    rw [hlifecycle] at hl
    obtain ⟨l, hget, rfl⟩ := Option.map_eq_some_iff.mp hl
    have hl : l.IsOf (.record .lifecycle) := h.get? rfl hget
    obtain ⟨hhandler, required, hfield⟩ := get?_lifecycle name hname l
    rw [hhandler] at hg
    obtain ⟨g, hgiven, rfl⟩ := Option.map_eq_some_iff.mp hg
    rw [handler, get?_modify_self] at ha
    obtain ⟨a, hrequest, rfl⟩ := Option.map_eq_some_iff.mp ha
    exact gives_httpRequest ((hl.get? hfield hgiven).get? rfl hrequest)

/-! ### What is requested -/

def request? (c : Value) (key : String) : Option Value :=
  c.at? [.slot "resources", .slot "requests", .entry key]

def limit? (c : Value) (key : String) : Option Value :=
  c.at? [.slot "resources", .slot "limits", .entry key]

theorem at?_slot_entry (v : Value) (name key : String) :
    v.at? [.slot name, .entry key] = (((v.get? name).map Value.entries).getD []).lookup key := by
  rw [Value.at?_cons, part?]
  cases v.get? name with
  | none => rfl
  | some m => simp [part?, Value.at?]

theorem at?_resources_container (c : Value) (rest : List Step) :
    (container c).at? (.slot "resources" :: rest) =
      ((c.get? "resources").map resources).bind (Value.at? rest) := by
  have hresources : (container c).get? "resources" = (c.get? "resources").map resources :=
    get?_container_of_map (by simp [containerChanges]) c
  rw [Value.at?_cons, part?, hresources]

theorem requests_resources {r : Value} (h : r.IsOf (.record .resourceRequirements)) (key : String) :
    (resources r).at? [.slot "requests", .entry key] =
      (r.at? [.slot "requests", .entry key]).or (r.at? [.slot "limits", .entry key]) := by
  rw [at?_slot_entry, at?_slot_entry, at?_slot_entry]
  rcases resources_cases r with ⟨hempty, hsame⟩ | ⟨limits, hlimits, -, hrequested⟩
  · rw [hsame, hempty, List.lookup_nil, Option.or_none]
  · have hslot : "requests" ∈ r.slots.map Prod.fst := by
      rw [h.names_slots]
      decide
    obtain ⟨slot, hfound⟩ := exists_lookup hslot
    have hget : r.get? "requests" = slot := by rw [Value.get?, hfound, Option.join_some]
    rw [hrequested, get?_updateSlot_self, hfound, hlimits, hget]
    exact lookup_addMissing _ _ key

/-- What is requested is kept, and what is limited but not requested is requested too. -/
theorem request?_container {c : Value} (h : c.IsOf (.record .container)) (key : String) :
    request? (container c) key = (request? c key).or (limit? c key) := by
  rw [request?, request?, limit?, at?_resources_container, Value.at?_cons, Value.at?_cons, part?]
  cases hr : c.get? "resources" with
  | none => rfl
  | some r => exact requests_resources (h.get? rfl hr) key

/-- Where nothing is limited, there are the requests that there were, if any. -/
theorem requests_of_no_limits {c : Value} (hlimits : ∀ key, limit? c key = none) :
    (container c).at? [.slot "resources", .slot "requests"] =
      c.at? [.slot "resources", .slot "requests"] := by
  rw [at?_resources_container, Value.at?_cons _ _ c, part?]
  cases hr : c.get? "resources" with
  | none => rfl
  | some r =>
    rcases resources_cases r with ⟨-, hsame⟩ | ⟨limits, hfound, hne, -⟩
    · rw [Option.map_some, hsame]
    · obtain ⟨⟨key, q⟩, rest, rfl⟩ := List.exists_cons_of_ne_nil hne
      have hlimit := hlimits key
      rw [limit?, Value.at?_cons, part?, hr, Option.bind_some, at?_slot_entry, hfound] at hlimit
      simp at hlimit

/-- Completing a container keeps all that it gives, adds values only at places that have a default,
and leaves none of them without a value. -/
theorem container_filled_in {c : Value} (h : c.IsOf (.record .container)) :
    (container c).IsOf (.record .container) ∧
      Fills (MayAdd (c.textAt "image")) c (container c) ∧ IsFilledContainer (container c) ∧
      (∀ key, request? (container c) key = (request? c key).or (limit? c key)) ∧
      ((∀ key, limit? c key = none) →
        (container c).at? [.slot "resources", .slot "requests"] =
          c.at? [.slot "resources", .slot "requests"]) := by
  obtain ⟨htyped, hfills⟩ := completes_container h
  exact ⟨htyped, hfills, isFilled_container h, request?_container h, requests_of_no_limits⟩

/-- A container with a port, a probe and a resource that is limited but not requested. -/
def smallContainer : Json :=
  .ofMembers [("name", .string "proxy"),
    ("ports", .array [.ofMembers [("containerPort", .integer 80)]]),
    ("livenessProbe", .ofMembers [("periodSeconds", .integer 5),
      ("httpGet", .ofMembers [("port", .integer 80)])]),
    ("resources", .ofMembers [("limits", .ofMembers [("cpu", .string "1"), ("memory", .string "2")]),
      ("requests", .ofMembers [("cpu", .string "3")])])]

theorem container_filled_in_small :
    ∃ c, Value.decode? .container smallContainer = some c ∧ c.IsOf (.record .container) ∧
      Fills (MayAdd (c.textAt "image")) c (container c) ∧ IsFilledContainer (container c) ∧
      (request? (container c) "cpu").bind Value.text? = some "3" ∧
      (request? (container c) "memory").bind Value.text? = some "2" := by
  have hsome : (Value.decode? .container smallContainer).isSome = true := by decide +kernel
  obtain ⟨c, hc⟩ := Option.isSome_iff_exists.mp hsome
  have htyped : c.IsOf (.record .container) := isOf_of_ofJson? hc
  obtain ⟨-, hfills, hfilled, hrequests, -⟩ := container_filled_in htyped
  have hamounts : (Value.decode? .container smallContainer).map (fun c =>
      (((request? c "cpu").or (limit? c "cpu")).bind Value.text?,
        ((request? c "memory").or (limit? c "memory")).bind Value.text?)) =
      some (some "3", some "2") := by decide +kernel
  rw [hc, Option.map_some, Option.some.injEq, Prod.mk.injEq, ← hrequests, ← hrequests] at hamounts
  exact ⟨c, hc, htyped, hfills, hfilled, hamounts.1, hamounts.2⟩

end SidecarAdmission.Sidecar.Completion
