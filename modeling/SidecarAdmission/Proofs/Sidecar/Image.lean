import SidecarAdmission.Proofs.Resource.Typed
import SidecarAdmission.Proofs.Sidecar.Completion

/-!
References of images by their parts. A reference is written from a registry, a path, a name, a tag
and a digest, each with its mark; when its image is pulled depends on the digest and the tag alone,
because the text after the last slash that is not behind a digest is the name with its tag.
-/

set_option autoImplicit false
set_option relaxedAutoImplicit false

namespace SidecarAdmission.Sidecar.Image

open SidecarAdmission.Resource

/-! ### References -/

/-- The host of a registry, maybe with a port. -/
structure Registry where
  host : List Char
  port : Option (List Char)
  host_plain : '/' ∉ host ∧ '@' ∉ host
  port_plain : ∀ p, port = some p → '/' ∉ p ∧ '@' ∉ p

/-- Whether a text has none of the characters that divide a reference. -/
def IsPlain (s : List Char) : Prop := '/' ∉ s ∧ ':' ∉ s ∧ '@' ∉ s

structure Reference where
  registry : Option Registry
  path : List (List Char)
  name : List Char
  tag : Option (List Char)
  digest : Option (List Char)
  path_plain : ∀ segment ∈ path, IsPlain segment
  name_plain : IsPlain name
  tag_plain : ∀ t, tag = some t → IsPlain t

/-- A part with its mark before it, nothing if it is not given. -/
def marked (mark : Char) (part : Option (List Char)) : List Char := part.elim [] (mark :: ·)

def Registry.text (r : Registry) : List Char := r.host ++ marked ':' r.port

namespace Reference

/-- What stands before the last slash of a reference without a digest, part by part. -/
def directories (r : Reference) : List (List Char) :=
  (r.registry.map Registry.text).toList ++ r.path

/-- The name with its tag. -/
def label (r : Reference) : List Char := r.name ++ marked ':' r.tag

def undigested (r : Reference) : List Char := r.directories.flatMap (· ++ ['/']) ++ r.label

/-- A reference as it is written. -/
def text (r : Reference) : String := .ofList (r.undigested ++ marked '@' r.digest)

/-- When the image of a reference is to be pulled: always, if neither a digest fixes it nor a tag
other than `latest`. -/
def policy (r : Reference) : PullPolicy :=
  match r.digest, r.tag with
  | some _, _ => .ifNotPresent
  | none, none => .always
  | none, some tag => if tag = [] ∨ tag = "latest".toList then .always else .ifNotPresent

end Reference

/-! ### After the last of a character -/

section AfterLast

variable {c : Char} {s t : List Char}

private theorem forall_mem_reverse_ne (h : c ∉ s) : ∀ x ∈ s.reverse, (x != c) = true := by
  intro x hx
  have hne : x ≠ c := fun heq => h (heq ▸ List.mem_reverse.mp hx)
  simpa using hne

theorem afterLast_of_not_mem (h : c ∉ s) : afterLast c s = s := by
  have hall := forall_mem_reverse_ne h
  rw [afterLast, List.takeWhile_eq_self_iff.mpr hall, List.reverse_reverse]

theorem afterLast_append (h : c ∉ t) : afterLast c (s ++ c :: t) = t := by
  have hall := forall_mem_reverse_ne h
  have hreverse : (s ++ c :: t).reverse = t.reverse ++ c :: s.reverse := by simp
  rw [afterLast, hreverse, List.takeWhile_append_of_pos hall, List.takeWhile_cons_of_neg (by simp),
    List.append_nil, List.reverse_reverse]

/-- What is written behind parts that each end with a character is what stands after its last. -/
theorem afterLast_flatMap (h : c ∉ t) (parts : List (List Char)) :
    afterLast c (parts.flatMap (· ++ [c]) ++ t) = t := by
  rcases List.eq_nil_or_concat parts with rfl | ⟨front, last, rfl⟩
  · exact afterLast_of_not_mem h
  · have hsplit : (front.concat last).flatMap (· ++ [c]) ++ t =
        (front.flatMap (· ++ [c]) ++ last) ++ c :: t := by simp
    rw [hsplit, afterLast_append h]

end AfterLast

/-! ### What a reference is read as -/

namespace Reference

variable (r : Reference)

theorem not_mem_label : '/' ∉ r.label ∧ '@' ∉ r.label := by
  have hname := r.name_plain
  unfold label marked
  cases htag : r.tag with
  | none => simpa using ⟨hname.1, hname.2.2⟩
  | some t =>
    have ht := r.tag_plain t htag
    simp [hname.1, hname.2.2, ht.1, ht.2.2]

theorem not_mem_directories : ∀ d ∈ r.directories, '@' ∉ d := by
  intro d hd
  rcases List.mem_append.mp hd with hregistry | hpath
  · obtain ⟨registry, -, rfl⟩ := Option.map_eq_some_iff.mp (Option.mem_toList.mp hregistry)
    have hhost := registry.host_plain.2
    unfold Registry.text marked
    cases hport : registry.port with
    | none => simpa using hhost
    | some p =>
      have hp := (registry.port_plain p hport).2
      simp [hhost, hp]
  · exact (r.path_plain d hpath).2.2

/-- Nothing but a digest brings an `@` into a reference. -/
theorem mem_text_iff : '@' ∈ r.text.toList ↔ r.digest.isSome = true := by
  have hplain : '@' ∉ r.undigested := by
    rw [undigested, List.mem_append, List.mem_flatMap]
    rintro (⟨d, hd, hmem⟩ | hmem)
    · have hnot := r.not_mem_directories d hd
      simp [hnot] at hmem
    · exact r.not_mem_label.2 hmem
  rw [text, String.toList_ofList, List.mem_append]
  cases r.digest with
  | none => simp [hplain, marked]
  | some d => simp [marked]

/-- The tag is found again: no colon of a port stands after the last slash. -/
theorem tag_undigested : Image.tag r.undigested = r.tag.getD [] := by
  have hlabel : afterLast '/' r.undigested = r.label := afterLast_flatMap r.not_mem_label.1 _
  have hname := r.name_plain.2.1
  unfold Image.tag
  simp only [hlabel]
  unfold label marked
  cases htag : r.tag with
  | none => simp [hname]
  | some t =>
    have ht := (r.tag_plain t htag).2.1
    have hcolon : (r.name ++ ':' :: t).contains ':' = true := by simp
    simp only [Option.elim_some, hcolon, if_true, Option.getD_some]
    exact afterLast_append ht

theorem pullPolicy_text : pullPolicy r.text = r.policy := by
  have hat : r.text.toList.contains '@' = r.digest.isSome := by
    rw [Bool.eq_iff_iff, List.contains_iff_mem, mem_text_iff]
  unfold pullPolicy policy
  simp only [hat]
  cases hdigest : r.digest with
  | some d => rfl
  | none =>
    have hplain : r.text.toList = r.undigested := by
      simp [text, hdigest, marked]
    rw [hplain, tag_undigested]
    cases r.tag with
    | none => rfl
    | some t => rfl

theorem get?_imagePullPolicy {c : Value} (hc : c.IsOf (.record .container))
    (hunset : c.get? "imagePullPolicy" = none) (himage : c.get? "image" = some (.text r.text)) :
    (Completion.container c).get? "imagePullPolicy" = some (.text r.policy.text) := by
  have hslot : "imagePullPolicy" ∈ c.slots.map Prod.fst := by
    rw [hc.names_slots]
    decide
  have hreference : c.textAt "image" = r.text := by
    rw [Value.textAt, Value.textAt?, himage]
    rfl
  have hchange : ("imagePullPolicy", Value.filledWith (.text r.policy.text)) ∈
      Completion.containerChanges (c.textAt "image") := by
    simp [Completion.containerChanges, hreference, pullPolicy_text]
  have hnames := Completion.nodup_containerChanges (c.textAt "image")
  rw [Completion.container_eq, Value.get?_updateSlots_filledWith hnames hchange hslot, hunset,
    Option.getD_none]

/-- A container without a policy of its own gets the one that the digest and the tag of its image
call for, whatever registry, port and path the image comes from. -/
theorem policy_filled_in {c : Value} (hc : c.IsOf (.record .container))
    (hunset : c.get? "imagePullPolicy" = none) (himage : c.get? "image" = some (.text r.text)) :
    (r.digest ≠ none →
      (Completion.container c).get? "imagePullPolicy" = some (.text "IfNotPresent")) ∧
    (r.digest = none → r.tag = none ∨ r.tag = some [] ∨ r.tag = some "latest".toList →
      (Completion.container c).get? "imagePullPolicy" = some (.text "Always")) ∧
    ∀ t, r.digest = none → r.tag = some t → t ≠ [] → t ≠ "latest".toList →
      (Completion.container c).get? "imagePullPolicy" = some (.text "IfNotPresent") := by
  rw [r.get?_imagePullPolicy hc hunset himage]
  refine ⟨?_, ?_, ?_⟩
  · intro hdigest
    obtain ⟨d, hd⟩ := Option.ne_none_iff_exists'.mp hdigest
    simp [policy, hd, PullPolicy.text]
  · rintro hdigest (htag | htag | htag)
    · simp [policy, hdigest, htag, PullPolicy.text]
    · simp [policy, hdigest, htag, PullPolicy.text]
    · simp [policy, hdigest, htag, PullPolicy.text]
  · intro t hdigest htag hempty hlatest
    have hother : ¬ (t = [] ∨ t = "latest".toList) := not_or.mpr ⟨hempty, hlatest⟩
    simp only [policy, hdigest, htag, if_neg hother, PullPolicy.text]

/-- An image of a registry with a port, without a tag. -/
def ported : Reference where
  registry := some ⟨"registry".toList, some "5000".toList, by decide, by simp⟩
  path := ["team".toList]
  name := "proxy".toList
  tag := none
  digest := none
  path_plain := by simp [IsPlain]
  name_plain := by simp [IsPlain]
  tag_plain := by simp

theorem policy_filled_in_ported :
    ∃ c, Value.decode? .container (.ofMembers [("name", .string "proxy"),
        ("image", .string "registry:5000/team/proxy")]) = some c ∧
      c.get? "imagePullPolicy" = none ∧ c.get? "image" = some (.text ported.text) ∧
      (Completion.container c).get? "imagePullPolicy" = some (.text "Always") := by
  let v : Json := .ofMembers [("name", .string "proxy"),
    ("image", .string "registry:5000/team/proxy")]
  have hslots : (Value.decode? .container v).map (fun c =>
      ((c.get? "imagePullPolicy").isNone, (c.get? "image").bind Value.text?)) =
      some (true, some ported.text) := by decide +kernel
  obtain ⟨c, hc, hpair⟩ := Option.map_eq_some_iff.mp hslots
  obtain ⟨hpolicy, hfound⟩ := Prod.mk.inj hpair
  have hunset : c.get? "imagePullPolicy" = none := Option.isNone_iff_eq_none.mp hpolicy
  have himage : c.get? "image" = some (.text ported.text) := by
    obtain ⟨image, hget, htext⟩ := Option.bind_eq_some_iff.mp hfound
    cases image with
    | text s =>
      obtain rfl := Option.some.inj htext
      exact hget
    | _ => contradiction
  obtain ⟨-, halways, -⟩ := ported.policy_filled_in (Value.isOf_of_ofJson? hc) hunset himage
  exact ⟨c, hc, hunset, himage, halways rfl (.inl rfl)⟩

end Reference

end SidecarAdmission.Sidecar.Image
