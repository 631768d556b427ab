import SidecarAdmission.Proofs.Admission.Decision
import SidecarAdmission.Proofs.Json.Source

/-!
What a text that is read as a pod says it is. Its version and kind are read first, by a reader that
skips all else and takes no name twice, and the pod by another one, of which the last of several
members with a name counts. Both find the same in every text that is accepted: at most one version
and one kind, those of a pod. What claims a kind that is not known is refused for that, whatever
else it holds.
-/

set_option autoImplicit false
set_option relaxedAutoImplicit false

namespace SidecarAdmission

open SidecarAdmission.Text

namespace Json

/-- The values of the members with a name. -/
def valuesNamed (name : String) (members : List (Literal × Json)) : List Json :=
  (members.filter fun m => m.1.text? = some name).map (·.2)

/-- What an object says under a name, if it is at most one text: the text, if there is one. -/
def said? (name : String) (members : List (Literal × Json)) : Option (Option String) :=
  match valuesNamed name members with
  | [] => some none
  | [v] => v.text?.map some
  | _ => none

theorem valuesNamed_cons (name : String) (m : Literal × Json) (rest : List (Literal × Json)) :
    valuesNamed name (m :: rest) =
      if m.1.text? = some name then m.2 :: valuesNamed name rest else valuesNamed name rest := by
  by_cases hname : m.1.text? = some name <;> simp [valuesNamed, hname]

theorem length_of_said? {name : String} {members : List (Literal × Json)} {s : Option String}
    (h : said? name members = some s) : (valuesNamed name members).length ≤ 1 := by
  unfold said? at h
  split at h
  next hvalues => simp [hvalues]
  next v hvalues => simp [hvalues]
  next => contradiction

namespace Source

/-- Whether a named source is in the place of a member, under its name and with its document. -/
def Names (n : String × Source) (m : Literal × Json) : Prop :=
  m.1.text? = some n.1 ∧ n.2.value? = some m.2

section Named

variable {parts : List (Literal × Source)} {named : List (String × Source)}
  {docs : List (Literal × Json)}

/-- The members of an object are named unless one of their keys spells no text. -/
theorem namedMembers?_cases
    (h : List.Forall₂ (fun p m => p.1 = m.1 ∧ p.2.value? = some m.2) parts docs) :
    (∃ named, namedMembers? parts = some named ∧ List.Forall₂ Names named docs ∧
      ∀ m ∈ docs, m.1.text?.isSome = true) ∨
    (namedMembers? parts = none ∧ ∃ m ∈ docs, m.1.text? = none) := by
  induction h with
  | nil => exact .inl ⟨[], rfl, .nil, by simp⟩
  | @cons p m parts docs hfirst hrest ih =>
    obtain ⟨key, part⟩ := p
    obtain ⟨rfl, hvalue⟩ := hfirst
    have hcons : namedMembers? ((m.1, part) :: parts) =
        (m.1.text?.map fun name => (name, part)).bind fun n =>
          (namedMembers? parts).bind fun named => some (n :: named) :=
      List.mapM_cons
    cases hname : m.1.text? with
    | none =>
      refine .inr ⟨?_, m, List.mem_cons_self, hname⟩
      rw [hcons, hname, Option.map_none, Option.bind_none]
    | some name =>
      rw [hname, Option.map_some, Option.bind_some] at hcons
      rcases ih with ⟨named, hnamed, hnames, hkeys⟩ | ⟨hnone, other, hmem, hkey⟩
      · refine .inl ⟨(name, part) :: named, by rw [hcons, hnamed, Option.bind_some],
          .cons ⟨hname, hvalue⟩ hnames, List.forall_mem_cons.mpr ⟨by rw [hname]; rfl, hkeys⟩⟩
      · exact .inr ⟨by rw [hcons, hnone, Option.bind_none], other,
          List.mem_cons_of_mem m hmem, hkey⟩

theorem forall₂_valuesNamed (h : List.Forall₂ Names named docs) (name : String) :
    List.Forall₂ (fun n v => n.2.value? = some v) (named.filter (·.1 == name))
      (valuesNamed name docs) := by
  induction h with
  | nil => exact .nil
  | @cons n m named docs hfirst hrest ih =>
    obtain ⟨htext, hvalue⟩ := hfirst
    rw [valuesNamed_cons, htext]
    by_cases hname : n.1 = name
    · simpa [hname] using ⟨hvalue, ih⟩
    · simpa [hname] using ih

theorem lookup_eq_head?_filter (name : String) (named : List (String × Source)) :
    named.lookup name = (named.filter (·.1 == name)).head?.map (·.2) := by
  induction named with
  | nil => rfl
  | cons n rest ih =>
    rw [lookup_cons_ite]
    by_cases hname : n.1 = name
    · simp [hname]
    · have hne : ¬ name = n.1 := fun heq => hname heq.symm
      simpa [hname, hne] using ih

/-- A field that is given at most once is read as what is said under its name. -/
theorem readText_eq_said? (h : List.Forall₂ Names named docs) {name : String}
    (honce : (named.filter (·.1 == name)).length ≤ 1) :
    readOr? "" text? (named.lookup name) = (said? name docs).map (·.getD "") := by
  have hvalues := forall₂_valuesNamed h name
  rw [lookup_eq_head?_filter, said?]
  revert honce hvalues
  generalize named.filter (·.1 == name) = found
  generalize valuesNamed name docs = values
  intro honce hvalues
  cases hvalues with
  | nil => rfl
  | @cons n v found values hvalue hrest =>
    cases hrest with
    | nil =>
      simp only [List.head?_cons, Option.map_some, readOr?, text?, hvalue, Option.bind_some]
      cases v.text? <;> rfl
    | cons => simp at honce

end Named

end Source

end Json

namespace Admission

open SidecarAdmission.Json SidecarAdmission.Resource

/-- The claim of an object whose members are named is what it says under two names. -/
theorem Claim.ofSource?_of_named {source : Source} {parts : List (Literal × Source)}
    {named : List (String × Source)} {members : List (Literal × Json)}
    (hparts : source.members? = some parts) (hnamed : Source.namedMembers? parts = some named)
    (hnames : List.Forall₂ Source.Names named members) :
    Claim.ofSource? source =
      (said? "apiVersion" members).bind fun version =>
        (said? "kind" members).map fun kind => ⟨version.getD "", kind.getD ""⟩ := by
  have hlength : ∀ name, (named.filter (·.1 == name)).length = (valuesNamed name members).length :=
    fun name => (Source.forall₂_valuesNamed hnames name).length_eq
  by_cases honce : (valuesNamed "apiVersion" members).length ≤ 1 ∧
      (valuesNamed "kind" members).length ≤ 1
  · rw [← hlength, ← hlength] at honce
    obtain ⟨hversion, hkind⟩ := honce
    have hread : Claim.ofSource? source =
        ((said? "apiVersion" members).map (·.getD "")).bind fun apiVersion =>
          ((said? "kind" members).map (·.getD "")).bind fun kind => some ⟨apiVersion, kind⟩ := by
      rw [← Source.readText_eq_said? hnames hversion, ← Source.readText_eq_said? hnames hkind]
      simp [Claim.ofSource?, Source.fields?, hparts, hnamed, hversion, hkind, Source.fieldAt]
    rw [hread]
    cases said? "apiVersion" members with
    | none => rfl
    | some version => cases said? "kind" members <;> rfl
  · -- A name that is given twice is refused by the reader, and nothing is said under it.
    have hunread : Claim.ofSource? source = none := by
      simp only [← hlength] at honce
      simp [Claim.ofSource?, Source.fields?, hparts, hnamed, honce]
    rw [hunread]
    cases hversion : said? "apiVersion" members with
    | none => rfl
    | some version =>
      cases hkind : said? "kind" members with
      | none => rfl
      | some kind => exact absurd ⟨length_of_said? hversion, length_of_said? hkind⟩ honce

/-- An object has a claim if all its keys spell texts and it says at most one version and one
kind. -/
theorem Claim.ofSource?_eq_some_iff {source : Source} {members : List (Literal × Json)}
    (h : source.value? = some (.object members)) {claim : Claim} :
    Claim.ofSource? source = some claim ↔
      (∀ m ∈ members, m.1.text?.isSome = true) ∧ ∃ version kind,
        said? "apiVersion" members = some version ∧ said? "kind" members = some kind ∧
          claim = ⟨version.getD "", kind.getD ""⟩ := by
  obtain ⟨parts, hparts, hspell⟩ := Source.exists_members?_of_value? h
  rcases Source.namedMembers?_cases hspell with ⟨named, hnamed, hnames, hkeys⟩ | ⟨hnone, m, hm, hkey⟩
  · rw [Claim.ofSource?_of_named hparts hnamed hnames]
    constructor
    · intro hclaim
      obtain ⟨version, hversion, hmore⟩ := Option.bind_eq_some_iff.mp hclaim
      obtain ⟨kind, hkind, hboth⟩ := Option.map_eq_some_iff.mp hmore
      exact ⟨hkeys, version, kind, hversion, hkind, hboth.symm⟩
    · rintro ⟨-, version, kind, hversion, hkind, rfl⟩
      rw [hversion, hkind]
      rfl
  · have hunread : Claim.ofSource? source = none := by
      simp [Claim.ofSource?, Source.fields?, hparts, hnone]
    rw [hunread]
    constructor
    · intro h
      contradiction
    · rintro ⟨hkeys, -⟩
      have hspells := hkeys m hm
      rw [hkey] at hspells
      contradiction

/-- What an object from which a record is decoded says under the name of a constant is the
constant. -/
theorem eq_of_said? {kind : Kind} {members : List (Literal × Json)} {w : Value}
    (h : Value.decode? kind (.object members) = some w) {name s t : String} {required : Bool}
    (hfield : kind.field? name = some ⟨name, .constant s, required⟩)
    (hsaid : said? name members = some (some t)) : t = s := by
  unfold said? at hsaid
  split at hsaid
  next => simp at hsaid
  next v hvalues =>
    have hmem : v ∈ valuesNamed name members := by simp [hvalues]
    obtain ⟨m, hm, rfl⟩ := List.mem_map.mp hmem
    obtain ⟨hm, hkey⟩ := List.mem_filter.mp hm
    obtain ⟨other, hother, hconstant⟩ := Value.constants_of_ofJson? h m hm
    obtain rfl : other = name := Option.some.inj (hother.symm.trans (by simpa using hkey))
    rw [hconstant _ s hfield rfl] at hsaid
    simpa [eq_comm] using hsaid
  next => contradiction

/-- Whether an object says at most one version and one kind, and only those of a pod; if it says a
kind, then one that is known with its version. -/
def SuitsPod (registry : Registry) (members : List (Literal × Json)) : Prop :=
  ∃ version kind, said? "apiVersion" members = some version ∧ said? "kind" members = some kind ∧
    (∀ s, version = some s → s = "v1") ∧
    ∀ s, kind = some s → s = "Pod" ∧ registry.knows (version.getD "") "Pod" = true

namespace Registry

theorem exists_source_of_parse? {raw : Octets} {doc : Json} (h : parse? raw = some doc) :
    ∃ source, Source.ofText? raw = some source ∧ source.value? = some doc := by
  obtain ⟨lexemes, hlexemes, hdoc⟩ := Option.bind_eq_some_iff.mp h
  exact ⟨⟨lexemes⟩, Source.ofText?_eq_some_iff.mpr ⟨hlexemes, doc, hdoc⟩, hdoc⟩

theorem readPod_eq_ok_iff_suitsPod (registry : Registry) (raw : Octets) (pod : Value) :
    registry.readPod raw = .ok pod ↔
      ∃ members, parse? raw = some (.object members) ∧ SuitsPod registry members ∧
        Value.decode? .pod (.object members) = some pod := by
  constructor
  · intro h
    obtain ⟨source, claim, hsource, hclaim, hknown, hpod⟩ := readPod_eq_ok_iff.mp h
    obtain ⟨doc, hdoc, hdecode⟩ := Option.bind_eq_some_iff.mp hpod
    obtain ⟨members, rfl⟩ := isObject_iff.mp (Value.isObject_of_ofJson? hdecode)
    obtain ⟨-, version, kind, hversion, hkind, rfl⟩ :=
      (Claim.ofSource?_eq_some_iff hdoc).mp hclaim
    refine ⟨members, value?_of_ofText? hsource ▸ hdoc, ⟨version, kind, hversion, hkind, ?_, ?_⟩,
      hdecode⟩
    · rintro s rfl
      exact eq_of_said? hdecode rfl hversion
    · rintro s rfl
      obtain rfl : s = "Pod" := eq_of_said? hdecode rfl hkind
      exact ⟨rfl, hknown (by simp)⟩
  · rintro ⟨members, hparse, ⟨version, kind, hversion, hkind, -, hpod⟩, hdecode⟩
    obtain ⟨source, hsource, hdoc⟩ := exists_source_of_parse? hparse
    -- The decoder reads every key, so the first reader can read them too.
    have hkeys : ∀ m ∈ members, m.1.text?.isSome = true := by
      intro m hm
      obtain ⟨name, hname, -⟩ := Value.constants_of_ofJson? hdecode m hm
      rw [hname]
      rfl
    refine readPod_eq_ok_iff.mpr ⟨source, ⟨version.getD "", kind.getD ""⟩, hsource,
      (Claim.ofSource?_eq_some_iff hdoc).mpr ⟨hkeys, version, kind, hversion, hkind, rfl⟩, ?_, ?_⟩
    · intro hne
      cases kind with
      | none => simp at hne
      | some s =>
        obtain ⟨rfl, hknown⟩ := hpod s rfl
        exact hknown
    · rw [hdoc, Option.bind_some, hdecode]

/-- A text is read as a pod exactly if it is an object that suits a pod and from which one is
decoded, and as that pod. An object that claims one kind that is not known is refused for its kind
and version, whatever else it holds. -/
theorem readPod_agrees (registry : Registry) (raw : Octets) :
    (∀ pod, registry.readPod raw = .ok pod ↔
      ∃ members, parse? raw = some (.object members) ∧ SuitsPod registry members ∧
        Value.decode? .pod (.object members) = some pod) ∧
    ∀ members version kind, parse? raw = some (.object members) →
      (∀ m ∈ members, m.1.text?.isSome = true) → said? "apiVersion" members = some version →
      said? "kind" members = some (some kind) → kind ≠ "" →
      registry.knows (version.getD "") kind = false →
        registry.readPod raw = .error (.unknownKind (version.getD "") kind) := by
  refine ⟨readPod_eq_ok_iff_suitsPod registry raw, ?_⟩
  intro members version kind hparse hkeys hversion hkind hne hunknown
  obtain ⟨source, hsource, hdoc⟩ := exists_source_of_parse? hparse
  have hclaim : Claim.ofSource? source = some ⟨version.getD "", kind⟩ :=
    (Claim.ofSource?_eq_some_iff hdoc).mpr ⟨hkeys, version, some kind, hversion, hkind, rfl⟩
  exact readPod_of_unknown hsource hclaim hne hunknown

/-- The members of a deployment that is no pod in any other respect either. -/
def deployment : List (String × Json) :=
  [("spec", .integer 3), ("kind", .string "Deployment"), ("apiVersion", .string "apps/v1")]

/-- The members of a pod that says what it is. -/
def typedPod : List (String × Json) :=
  [("metadata", ofMembers [("name", .string "web")]), ("kind", .string "Pod"),
    ("apiVersion", .string "v1")]

theorem readPod_agrees_small :
    (∃ pod, Registry.standard.readPod (ofMembers typedPod).print = .ok pod) ∧
      Registry.standard.readPod (ofMembers deployment).print =
        .error (.unknownKind "apps/v1" "Deployment") := by
  have hpodTokens : ∀ t ∈ (ofMembers typedPod).tokens, t.isWellSpelled = true := by decide +kernel
  have hdeploymentTokens : ∀ t ∈ (ofMembers deployment).tokens, t.isWellSpelled = true := by
    decide +kernel
  have hdecode : (Value.decode? .pod (ofMembers typedPod)).isSome = true := by decide +kernel
  constructor
  · obtain ⟨pod, hpod⟩ := Option.isSome_iff_exists.mp hdecode
    have hknown : Registry.standard.knows "v1" "Pod" = true := by decide
    refine ⟨pod, ((readPod_agrees .standard _).1 pod).mpr
      ⟨_, parse?_print hpodTokens, ⟨some "v1", some "Pod", ?_, ?_, ?_, ?_⟩, hpod⟩⟩
    · decide +kernel
    · decide +kernel
    · exact fun s hs => (Option.some.inj hs).symm
    · exact fun s hs => ⟨(Option.some.inj hs).symm, hknown⟩
  · exact (readPod_agrees .standard _).2 _ (some "apps/v1") "Deployment"
      (parse?_print hdeploymentTokens) (by decide +kernel) (by decide +kernel) (by decide +kernel)
      (by decide) (by decide)

end Registry

end Admission

end SidecarAdmission
