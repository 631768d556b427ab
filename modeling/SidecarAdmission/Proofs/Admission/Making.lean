import Mathlib.Data.List.DropRight
import SidecarAdmission.Proofs.Admission.Review

/-!
Responses that are made in steps. An admission or a refusal begins anew and drops whatever was said
before it; a patch and a uid are added to what is there, in any order. So a response is told by its
last verdict, and by the last patch and the last uid that came after that verdict.
-/

set_option autoImplicit false
set_option relaxedAutoImplicit false

namespace SidecarAdmission.Admission.Response

open SidecarAdmission.Text SidecarAdmission.Resource

/-- What is said about an object: it is admitted, or refused with a message. -/
inductive Verdict where
  | admission
  | refusal (message : String)
deriving DecidableEq, Repr

/-- A step in the making of a response. -/
inductive Step where
  | accept
  | refuse (message : String)
  | attach (patch : Octets)
  | address (uid : String)
deriving DecidableEq, Repr

namespace Step

/-- A response after a step. -/
def apply (r : Response) : Step → Response
  | .accept => admitted
  | .refuse message => refused message
  | .attach patch => r.attach patch
  | .address uid => r.addressed uid

/-- The verdict with which a step begins anew. -/
def verdict? : Step → Option Verdict
  | .accept => some .admission
  | .refuse message => some (.refusal message)
  | _ => none

/-- The patch that a step adds. -/
def patch? : Step → Option Octets
  | .attach patch => some patch
  | _ => none

/-- The uid that a step adds. -/
def uid? : Step → Option String
  | .address uid => some uid
  | _ => none

/-- Whether a step adds to what is there. -/
def extends? (s : Step) : Bool := s.verdict?.isNone

end Step

/-- The response that steps make. -/
def build (steps : List Step) : Response := steps.foldl Step.apply blank

/-- The last thing that steps give of a kind. -/
def lastOf {α : Type} (give? : Step → Option α) (steps : List Step) : Option α :=
  (steps.filterMap give?).getLast?

/-- The steps after the last verdict. -/
def sinceVerdict (steps : List Step) : List Step := steps.rtakeWhile Step.extends?

/-- The status that goes with what may be a verdict. -/
def statusOf : Option Verdict → Option Value
  | some (.refusal message) => some (refusal message)
  | _ => none

/-- The response with the given parts, none of which need be there. -/
def ofParts (verdict : Option Verdict) (patch : Option Octets) (uid : Option String) : Response where
  uid := uid.getD ""
  allowed := verdict == some .admission
  status := statusOf verdict
  patch := patch
  patchType := patch.map fun _ => .jsonPatch

section LastOf

variable {α : Type} (give? : Step → Option α) (steps : List Step)

@[simp] theorem lastOf_nil : lastOf give? [] = none := rfl

@[simp] theorem lastOf_concat (s : Step) :
    lastOf give? (steps ++ [s]) = (give? s).or (lastOf give? steps) := by
  unfold lastOf
  cases hgive : give? s with
  | none => simp [List.filterMap_append, hgive]
  | some a => simp [List.filterMap_append, hgive]

theorem sinceVerdict_concat_of_verdict {s : Step} {v : Verdict} (h : s.verdict? = some v) :
    sinceVerdict (steps ++ [s]) = [] := by
  have hends : ¬ s.extends? = true := by simp [Step.extends?, h]
  exact List.rtakeWhile_concat_neg _ _ _ hends

theorem sinceVerdict_concat_of_extends {s : Step} (h : s.verdict? = none) :
    sinceVerdict (steps ++ [s]) = sinceVerdict steps ++ [s] := by
  have hends : s.extends? = true := by simp [Step.extends?, h]
  exact List.rtakeWhile_concat_pos _ _ _ hends

theorem sinceVerdict_append {more : List Step} (h : ∀ s ∈ more, s.verdict? = none) :
    sinceVerdict (steps ++ more) = sinceVerdict steps ++ more := by
  induction more using List.reverseRecOn with
  | nil => simp
  | append_singleton more s ih =>
    have hmore : ∀ s ∈ more, s.verdict? = none := fun s hs => h s (by simp [hs])
    rw [← List.append_assoc, sinceVerdict_concat_of_extends _ (h s (by simp)), ih hmore,
      List.append_assoc]

theorem lastOf_append_of_none {more : List Step} (h : ∀ s ∈ more, give? s = none) :
    lastOf give? (steps ++ more) = lastOf give? steps := by
  have hnone : more.filterMap give? = [] := List.filterMap_eq_nil_iff.mpr h
  rw [lastOf, lastOf, List.filterMap_append, hnone, List.append_nil]

/-- What is last depends only on what is given. -/
theorem lastOf_append_congr {more other : List Step}
    (h : more.filterMap give? = other.filterMap give?) :
    lastOf give? (steps ++ more) = lastOf give? (steps ++ other) := by
  rw [lastOf, lastOf, List.filterMap_append, List.filterMap_append, h]

end LastOf

@[simp] theorem build_concat (steps : List Step) (s : Step) :
    build (steps ++ [s]) = s.apply (build steps) := by
  rw [build, List.foldl_concat]
  rfl

/-- A step changes the parts that it is about, and a verdict drops the others. -/
theorem apply_ofParts (verdict : Option Verdict) (patch : Option Octets) (uid : Option String)
    (s : Step) : s.apply (ofParts verdict patch uid) =
      match s with
      | .accept => ofParts (some .admission) none none
      | .refuse message => ofParts (some (.refusal message)) none none
      | .attach patch => ofParts verdict (some patch) uid
      | .address uid => ofParts verdict patch (some uid) := by
  cases s <;> rfl

/-- The response that steps make, by its parts. -/
theorem build_eq_ofParts (steps : List Step) :
    build steps = ofParts (lastOf Step.verdict? steps) (lastOf Step.patch? (sinceVerdict steps))
      (lastOf Step.uid? (sinceVerdict steps)) := by
  induction steps using List.reverseRecOn with
  | nil => rfl
  | append_singleton steps s ih =>
    rw [build_concat, ih, apply_ofParts]
    -- a verdict begins anew, and nothing has been added since
    cases s with
    | accept =>
      rw [sinceVerdict_concat_of_verdict steps (v := .admission) rfl]
      simp [Step.verdict?]
    | refuse message =>
      rw [sinceVerdict_concat_of_verdict steps (v := .refusal message) rfl]
      simp [Step.verdict?]
    | attach patch =>
      rw [sinceVerdict_concat_of_extends steps rfl]
      simp [Step.verdict?, Step.patch?, Step.uid?]
    | address uid =>
      rw [sinceVerdict_concat_of_extends steps rfl]
      simp [Step.verdict?, Step.patch?, Step.uid?]

section Parts

variable (verdict : Option Verdict) (patch : Option Octets) (uid : Option String)

theorem isSome_patch_ofParts : (ofParts verdict patch uid).patch.isSome = true ↔
    (ofParts verdict patch uid).patchType = some .jsonPatch := by
  cases patch with
  | none => simp [ofParts]
  | some patch => simp [ofParts]

theorem isSome_status_ofParts : (ofParts verdict patch uid).status.isSome = true ↔
    ∃ message, verdict = some (.refusal message) := by
  rcases verdict with _ | _ | message
  · simp [ofParts, statusOf]
  · simp [ofParts, statusOf]
  · simp [ofParts, statusOf]

theorem status_ofParts_of_allowed (h : (ofParts verdict patch uid).allowed = true) :
    (ofParts verdict patch uid).status = none := by
  have hverdict : verdict = some .admission := beq_iff_eq.mp h
  subst hverdict
  rfl

theorem ofParts_refusal (message : String) :
    (ofParts (some (.refusal message)) patch uid).allowed = false ∧
      (ofParts (some (.refusal message)) patch uid).status = some (refusal message) ∧
      (ofParts (some (.refusal message)) patch uid).message? = some message :=
  ⟨rfl, rfl, message?_refused message⟩

end Parts

/-- The order of patches and uids among each other does not matter. -/
theorem build_append_congr (steps : List Step) {more other : List Step}
    (hmore : ∀ s ∈ more, s.verdict? = none) (hother : ∀ s ∈ other, s.verdict? = none)
    (hpatches : more.filterMap Step.patch? = other.filterMap Step.patch?)
    (huids : more.filterMap Step.uid? = other.filterMap Step.uid?) :
    build (steps ++ more) = build (steps ++ other) := by
  rw [build_eq_ofParts, build_eq_ofParts, lastOf_append_of_none _ _ hmore,
    lastOf_append_of_none _ _ hother, sinceVerdict_append _ hmore, sinceVerdict_append _ hother,
    lastOf_append_congr _ _ hpatches, lastOf_append_congr _ _ huids]

/-- What steps make, whatever they are. The patch and its type come together; there is a status
exactly if the last verdict is a refusal, which it then carries; an admission has none; the patch
and the uid are the last ones since the last verdict; and what is added may be added in any order.
-/
theorem build_tells (steps : List Step) :
    ((build steps).patch.isSome = true ↔ (build steps).patchType = some .jsonPatch) ∧
    ((build steps).status.isSome = true ↔
      ∃ message, lastOf Step.verdict? steps = some (.refusal message)) ∧
    (∀ message, lastOf Step.verdict? steps = some (.refusal message) →
      (build steps).allowed = false ∧ (build steps).status = some (refusal message) ∧
        (build steps).message? = some message) ∧
    ((build steps).allowed = true ↔ lastOf Step.verdict? steps = some .admission) ∧
    ((build steps).allowed = true → (build steps).status = none) ∧
    (build steps).patch = lastOf Step.patch? (sinceVerdict steps) ∧
    (build steps).uid = (lastOf Step.uid? (sinceVerdict steps)).getD "" ∧
    ∀ more other : List Step, (∀ s ∈ more, s.verdict? = none) → (∀ s ∈ other, s.verdict? = none) →
      more.filterMap Step.patch? = other.filterMap Step.patch? →
      more.filterMap Step.uid? = other.filterMap Step.uid? →
      build (steps ++ more) = build (steps ++ other) := by
  refine ⟨?_, ?_, ?_, ?_, ?_, ?_, ?_, fun more other => build_append_congr steps⟩
  · rw [build_eq_ofParts]
    exact isSome_patch_ofParts _ _ _
  · rw [build_eq_ofParts]
    exact isSome_status_ofParts _ _ _
  · intro message hlast
    rw [build_eq_ofParts, hlast]
    exact ofParts_refusal _ _ message
  · rw [build_eq_ofParts]
    exact beq_iff_eq
  · rw [build_eq_ofParts]
    exact status_ofParts_of_allowed _ _ _
  · rw [build_eq_ofParts]
    rfl
  · rw [build_eq_ofParts]
    rfl

/-- An admission that is taken back, and what is added before and after. -/
def takenBack : List Step :=
  [.accept, .attach [0x5b, 0x5d], .address "a", .refuse "no", .address "b", .attach [], .address "c"]

theorem build_tells_takenBack :
    (build takenBack).status = some (refusal "no") ∧ (build takenBack).message? = some "no" ∧
    (build takenBack).allowed = false ∧ (build takenBack).patch = some [] ∧
    (build takenBack).patchType = some .jsonPatch ∧ (build takenBack).uid = "c" ∧
    (build (takenBack ++ [.accept])).status = none ∧
    build (takenBack ++ [.attach [0x5b], .address "d"]) =
      build (takenBack ++ [.address "d", .attach [0x5b]]) := by
  obtain ⟨htype, -, hrefused, -, -, hpatch, huid, horder⟩ := build_tells takenBack
  obtain ⟨-, -, -, -, hadmitted, -, -, -⟩ := build_tells (takenBack ++ [.accept])
  obtain ⟨hallowed, hstatus, hmessage⟩ := hrefused "no" (by decide)
  refine ⟨hstatus, hmessage, hallowed, hpatch, htype.mp ?_, huid, hadmitted rfl, ?_⟩
  · rw [hpatch]
    rfl
  · exact horder _ _ (by decide) (by decide) rfl rfl

end SidecarAdmission.Admission.Response
