import SidecarAdmission.Proofs.Resource.Agreement
import SidecarAdmission.Proofs.Sidecar.Spec

/-!
A configuration that is written as JSON. Its material is what its members are decoded to, and where
the text is a document of YAML too, that is the material that is read. What is JSON need not be
YAML: a string in which surrogates are escaped is refused, and so are a key that is not near its
colon, tabs around the object and characters that may not stand in YAML.
-/

set_option autoImplicit false
set_option relaxedAutoImplicit false

namespace SidecarAdmission.Sidecar

open SidecarAdmission.Text SidecarAdmission.Resource

namespace Material

/-! ### Decoding -/

/-- The lists in the members of an object, given those already read. -/
def listsOfJson? (done : List (String × List Value)) :
    List (Json.Literal × Json) → Option (List (String × List Value))
  | [] => some done
  | (k, v) :: rest =>
    match k.text? with
    | none => none
    | some name =>
      match kind? name with
      | none => listsOfJson? done rest
      | some kind =>
        if (done.lookup name).isSome then none
        else
          match Value.ofJson? (Json.depthLimit - 1) (.list (.record kind)) v with
          | some items => listsOfJson? ((name, items.items) :: done) rest
          | none => none

/-- The material that a JSON document is decoded to; members with other names are skipped, and a
list must not be declared twice. -/
def ofJson? : Json → Option Material
  | .object members => (listsOfJson? [] members).map fun lists =>
    ⟨listAt lists "containers", listAt lists "volumes", listAt lists "imagePullSecrets"⟩
  | _ => none

/-- The numbers in the free-form parts of material. -/
def freeNumerals : Json → List Json.Numeral
  | .object members => members.flatMap fun m =>
    Resource.freeNumerals ((m.1.text?.bind kind?).map fun kind => .list (.record kind)) m.2
  | _ => []

theorem lists_ofJson {doc : Yaml.Document} {done read : List (String × List Value)}
    {members : List (Json.Literal × Json)} (h : listsOfJson? done members = some read)
    (hspelled : ∀ m ∈ members, m.2.WellSpelled)
    (halike : ∀ n ∈ freeNumerals (.object members), n.ReadsAlike) :
    lists doc done (Yaml.Node.ofMembers members) = pure read := by
  induction members generalizing done with
  | nil =>
    obtain rfl : done = read := Option.some.inj h
    rfl
  | cons m rest ih =>
    obtain ⟨k, v⟩ := m
    obtain ⟨hv, hrest⟩ := List.forall_mem_cons.mp hspelled
    rw [freeNumerals, List.flatMap_cons, List.forall_mem_append] at halike
    obtain ⟨hfirst, hmore⟩ := halike
    rw [listsOfJson?] at h
    cases hname : k.text? with
    | none =>
      rw [hname] at h
      contradiction
    | some name =>
      simp only [hname] at h
      rw [Yaml.Node.ofMembers, lists, FromYaml.text_key hname, pure_bind]
      cases hkind : kind? name with
      | none =>
        simp only [hkind] at h ⊢
        exact ih h hrest hmore
      | some kind =>
        simp only [hkind, Option.ite_none_left_eq_some] at h ⊢
        obtain ⟨hfresh, h⟩ := h
        cases hitems : Value.ofJson? (Json.depthLimit - 1) (.list (.record kind)) v with
        | none =>
          rw [hitems] at h
          contradiction
        | some items =>
          rw [hitems] at h
          have hnumerals : ReadsAlike (.list (.record kind)) v := fun n hn =>
            hfirst n (by simpa [hname, hkind] using hn)
          have hread : FromYaml.value doc (depthLimit - 1) (.list (.record kind)) (.ofJson v) =
              pure items := FromYaml.value_ofJson hv hnumerals hitems
          rw [if_neg hfresh, hread, pure_bind]
          exact ih h hrest hmore

/-- The material that an object is decoded to is that of its node. -/
theorem ofDocument?_ofJson {members : List (Json.Literal × Json)} {m : Material}
    (h : ofJson? (.object members) = some m) (hspelled : (Json.object members).WellSpelled)
    (halike : ∀ n ∈ freeNumerals (.object members), n.ReadsAlike) :
    ofDocument? ⟨some (.ofJson (.object members))⟩ = some m := by
  obtain ⟨read, hread, rfl⟩ := Option.map_eq_some_iff.mp h
  have hlists : ∀ doc, lists doc [] (Yaml.Node.ofMembers members) = pure read := fun doc =>
    lists_ofJson hread (fun m hm => (Json.wellSpelled_object.mp hspelled m hm).2) halike
  rw [Yaml.Node.ofJson]
  show ((lists _ [] (Yaml.Node.ofMembers members)).run 0).bind _ = _
  rw [hlists]
  rfl

/-- An object has a visible character. -/
theorem exists_visible {text : String} {members : List (Json.Literal × Json)}
    (h : Json.parse? (octets text) = some (.object members)) :
    text.toList.all Text.Class.isBlank = false := by
  obtain ⟨ls, hlexemes, hdocument⟩ := Option.bind_eq_some_iff.mp h
  obtain ⟨o, rest, rfl, ho, -⟩ :=
    List.map_eq_cons_iff.mp (Json.ofTokens?_eq_some_iff.mp hdocument)
  obtain ⟨-, trail, -, -, hlist⟩ := Json.toList_of_lexemes? hlexemes
  have hchars : o.token.chars = ['{'] := by rw [ho]; decide +kernel
  refine List.all_eq_false.mpr ⟨'{', ?_, by decide⟩
  rw [hlist, List.flatMap_cons, hchars]
  simp

end Material

namespace Spec

/-- A JSON text that is decoded to fit material gives the specification of that material exactly if
it is a document of YAML as well, and else it is refused as malformed. -/
theorem ofText_of_json {text : String} {v : Json} {m : Material}
    (hparse : Json.parse? (octets text) = some v) (hm : Material.ofJson? v = some m)
    (hfit : IsFit m.containers m.volumes m.imagePullSecrets)
    (hnarrow : ∀ x ∈ text.toList, Yaml.isWideBreak x = false)
    (halike : ∀ n ∈ Material.freeNumerals v, n.ReadsAlike) :
    (Yaml.Takes text → ofText text = .ok (ofMaterial m.containers m.volumes m.imagePullSecrets)) ∧
      (¬ Yaml.Takes text → ofText text = .error .malformed) := by
  cases v with
  | scalar v => contradiction
  | array items => contradiction
  | object members =>
    have hspelled := Json.exists_parse?_iff.mp ⟨octets text, hparse⟩
    have hmaterial : Material.ofText? text = (Yaml.parse? text).bind Material.ofDocument? := by
      rw [Material.ofText?, Material.exists_visible hparse, if_neg Bool.false_ne_true]
    obtain ⟨htakes, hrefuses⟩ := Yaml.parse?_object hparse hnarrow
    constructor
    · intro h
      have hread : Material.ofText? text = some m := by
        rw [hmaterial, htakes h, Option.bind_some, Material.ofDocument?_ofJson hm hspelled halike]
      exact ofText_eq_ok_iff.mpr ⟨m, hread, hfit, rfl⟩
    · intro h
      have hread : Material.ofText? text = none := by rw [hmaterial, hrefuses h, Option.bind_none]
      rw [ofText, hread]

/-- A container with escapes and a field that is null, and a volume with a number in a free-form
part, on two lines. -/
def smallJson : String :=
  "\x7b\"containers\":[\x7b\"name\":\"p\",\"image\":\"\\u0041\\/😀\",\"args\":null\x7d],\r\n\t" ++
    "\"volumes\":[\x7b\"name\":\"d\",\"ephemeral\":\x7b\"volumeClaimTemplate\":\x7b\"metadata\":" ++
    "\x7b\"managedFields\":[\x7b\"fieldsV1\":12\x7d]\x7d\x7d\x7d\x7d]\x7d"

theorem ofText_of_json_smallJson :
    ∃ v m, Json.parse? (octets smallJson) = some v ∧ Material.ofJson? v = some m ∧
      Material.freeNumerals v = [⟨octets "12"⟩] ∧ Yaml.Takes smallJson ∧
      ofText smallJson = .ok (ofMaterial m.containers m.volumes m.imagePullSecrets) := by
  have hdecoded : (Json.parse? (octets smallJson)).any (fun v =>
      Material.freeNumerals v = [⟨octets "12"⟩] &&
        (Material.ofJson? v).any (·.defects.isEmpty)) = true := by
    decide +kernel
  have hlexemes : (Json.lexemes? (octets smallJson)).any (fun ls =>
      ls.all (fun l => !Yaml.hasSurrogate l) && Yaml.keysAreNear ls) = true := by decide +kernel
  have hpermitted : smallJson.toList.all Yaml.isPermitted = true := by decide +kernel
  have hnarrow : smallJson.toList.any Yaml.isWideBreak = false := by decide +kernel
  simp only [Option.any_eq_true, Bool.and_eq_true, List.isEmpty_iff, decide_eq_true_eq]
    at hdecoded hlexemes
  obtain ⟨v, hparse, hnumerals, m, hm, hdefects⟩ := hdecoded
  obtain ⟨ls, hls, hliterals, hnear⟩ := hlexemes
  have htakes : Yaml.Takes smallJson :=
    ⟨ls, hls, ⟨List.all_eq_true.mp hpermitted, by decide +kernel, by decide +kernel,
      by simpa using hliterals⟩, hnear⟩
  have halike : ∀ n ∈ Material.freeNumerals v, n.ReadsAlike := by
    rw [hnumerals, List.forall_mem_singleton]
    exact Json.Numeral.readsAlike_of_integer? (k := 12) (by decide +kernel) (by decide +kernel)
      (by decide)
  have hcases := ofText_of_json hparse hm (Material.defects_eq_nil_iff.mp hdefects)
    (by simpa using hnarrow) halike
  exact ⟨v, m, hparse, hm, hnumerals, htakes, hcases.1 htakes⟩

/-- A container with an argument outside the basic plane, whose surrogates are escaped. -/
def surrogateJson : String :=
  "\x7b\"containers\":[\x7b\"name\":\"proxy\",\"image\":\"i:1\"," ++
    "\"args\":[\"\\ud83d\\ude00\"]\x7d]\x7d"

/-- Escaped surrogates are a character in JSON, and the text is refused all the same. -/
theorem ofText_surrogateJson :
    ∃ v m, Json.parse? (octets surrogateJson) = some v ∧ Material.ofJson? v = some m ∧
      IsFit m.containers m.volumes m.imagePullSecrets ∧
      (m.containers.map fun c => (c.itemsAt "args").map Value.text?) = [[some "😀"]] ∧
      ofText surrogateJson ≠ .ok (ofMaterial m.containers m.volumes m.imagePullSecrets) := by
  have hdecoded : (Json.parse? (octets surrogateJson)).any (fun v =>
      (Material.ofJson? v).any fun m => m.defects.isEmpty &&
        (m.containers.map fun c => (c.itemsAt "args").map Value.text?) = [[some "😀"]]) = true := by
    decide +kernel
  have hrefused : (Material.ofText? surrogateJson).isNone = true := by decide +kernel
  simp only [Option.any_eq_true, Bool.and_eq_true, List.isEmpty_iff, decide_eq_true_eq] at hdecoded
  obtain ⟨v, hparse, m, hm, hdefects, hargs⟩ := hdecoded
  refine ⟨v, m, hparse, hm, Material.defects_eq_nil_iff.mp hdefects, hargs, fun h => ?_⟩
  obtain ⟨read, hread, -⟩ := ofText_eq_ok_iff.mp h
  rw [hread] at hrefused
  contradiction

end Spec

end SidecarAdmission.Sidecar
