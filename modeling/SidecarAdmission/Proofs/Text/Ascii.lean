import Mathlib.Data.List.Forall2
import SidecarAdmission.Text.Ascii

/-!
Texts that are the same but for the case of ASCII letters. They have the same characters, each an
ASCII letter in either case or the very same one, so no character outside of ASCII stands for a
letter.
-/

set_option autoImplicit false
set_option relaxedAutoImplicit false

namespace SidecarAdmission.Text.Ascii

/-- Whether two characters are the same or an ASCII letter in its two cases. -/
def SameLetter (c d : Char) : Prop :=
  c = d ∨ ∃ k < 26, (c.toNat = 'A'.toNat + k ∧ d.toNat = 'a'.toNat + k) ∨
    (c.toNat = 'a'.toNat + k ∧ d.toNat = 'A'.toNat + k)

/-- Whether two texts are the same but for the case of ASCII letters. -/
def SameLetters (s t : String) : Prop := List.Forall₂ SameLetter s.toList t.toList

theorem toNat_lowerChar (c : Char) :
    (lowerChar c).toNat = if 65 ≤ c.toNat ∧ c.toNat ≤ 90 then c.toNat + 32 else c.toNat := by
  have hupper : ('A' ≤ c ∧ c ≤ 'Z') ↔ (65 ≤ c.toNat ∧ c.toNat ≤ 90) := Iff.rfl
  unfold lowerChar
  by_cases h : 65 ≤ c.toNat ∧ c.toNat ≤ 90
  · have hvalid : (c.toNat + 32).isValidChar := by
      left
      omega
    have hsmall : (Char.ofNat (c.toNat + 32)).toNat = c.toNat + 32 := by
      unfold Char.ofNat
      rw [dif_pos hvalid]
      rfl
    rw [if_pos (hupper.mpr h), if_pos h, hsmall]
  · rw [if_neg (fun hc => h (hupper.mp hc)), if_neg h]

theorem lowerChar_eq_iff {c d : Char} : lowerChar c = lowerChar d ↔ SameLetter c d := by
  have hA : 'A'.toNat = 65 := rfl
  have ha : 'a'.toNat = 97 := rfl
  rw [← Char.toNat_inj, toNat_lowerChar, toNat_lowerChar, SameLetter, ← Char.toNat_inj, hA, ha]
  constructor
  · intro h
    by_cases hsame : c.toNat = d.toNat
    · exact .inl hsame
    · right
      by_cases hc : 65 ≤ c.toNat ∧ c.toNat ≤ 90
      · refine ⟨c.toNat - 65, by omega, .inl ?_⟩
        rw [if_pos hc] at h
        split at h <;> omega
      · refine ⟨c.toNat - 97, ?_, .inr ?_⟩
        · rw [if_neg hc] at h
          split at h <;> omega
        · rw [if_neg hc] at h
          split at h <;> omega
  · rintro (h | ⟨k, hk, ⟨hc, hd⟩ | ⟨hc, hd⟩⟩)
    · rw [h]
    · rw [if_pos (by omega), if_neg (by omega)]
      omega
    · rw [if_neg (by omega), if_pos (by omega)]
      omega

theorem equalsIgnoringCase_iff {s t : String} :
    equalsIgnoringCase s t = true ↔ SameLetters s t := by
  have hmaps : s.toList.map lowerChar = t.toList.map lowerChar ↔
      List.Forall₂ (fun c d => lowerChar c = lowerChar d) s.toList t.toList := by
    rw [← List.forall₂_eq_eq_eq, List.forall₂_map_left_iff, List.forall₂_map_right_iff]
  rw [equalsIgnoringCase, beq_iff_eq, hmaps]
  simp only [lowerChar_eq_iff, SameLetters]

/-- The long s is no ASCII letter. -/
example : equalsIgnoringCase "yeſ" "yes" = false ∧ equalsIgnoringCase "yES" "yes" = true := by
  decide

/-- What is the same as an ASCII text but for the case of letters is an ASCII text. -/
theorem SameLetters.isAscii {s t : String} (h : SameLetters s t)
    (ht : ∀ d ∈ t.toList, d.toNat < 128) : ∀ c ∈ s.toList, c.toNat < 128 := by
  have ha : 'a'.toNat = 97 := rfl
  have hA : 'A'.toNat = 65 := rfl
  unfold SameLetters at h
  revert ht
  generalize s.toList = cs, t.toList = ds at h
  intro ht
  induction h with
  | nil => simp
  | @cons c d cs ds hfirst hrest ih =>
    obtain ⟨hd, hds⟩ := List.forall_mem_cons.mp ht
    refine List.forall_mem_cons.mpr ⟨?_, ih hds⟩
    rcases hfirst with rfl | ⟨k, hk, ⟨hc, -⟩ | ⟨hc, -⟩⟩
    · exact hd
    · omega
    · omega

end SidecarAdmission.Text.Ascii
