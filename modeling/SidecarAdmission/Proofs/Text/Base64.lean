import SidecarAdmission.Proofs.Text.Octets
import SidecarAdmission.Text.Base64

/-!
Writing octets in base64 and reading them back. Three octets and their four letters determine each
other, and so do the one or two octets of a last group and its letters with their padding.
-/

set_option autoImplicit false
set_option relaxedAutoImplicit false

namespace SidecarAdmission.Text.Base64

theorem value?_letter {n : Nat} (h : n < 64) : value? (letter n) = some n := by
  have table : ∀ n < 64, value? (letter n) = some n := by decide
  exact table n h

theorem letter_ne_pad {n : Nat} (h : n < 64) : letter n ≠ pad := by
  have table : ∀ n < 64, letter n ≠ pad := by decide
  exact table n h

private theorem toUInt8_eq {n : Nat} {c : UInt8} (h : n = c.toNat) : n.toUInt8 = c := by
  rw [h]
  exact UInt8.ofNat_toNat

theorem group?_letters (a b c : UInt8) :
    group? (letter (a.toNat / 4)) (letter (a.toNat % 4 * 16 + b.toNat / 16))
      (letter (b.toNat % 16 * 4 + c.toNat / 64)) (letter (c.toNat % 64)) = some [a, b, c] := by
  have ha := a.toNat_lt
  have hb := b.toNat_lt
  have hc := c.toNat_lt
  have hfirst : (a.toNat / 4 * 4 + (a.toNat % 4 * 16 + b.toNat / 16) / 16).toUInt8 = a :=
    toUInt8_eq (by omega)
  have hsecond : ((a.toNat % 4 * 16 + b.toNat / 16) % 16 * 16
      + (b.toNat % 16 * 4 + c.toNat / 64) / 4).toUInt8 = b := toUInt8_eq (by omega)
  have hthird : ((b.toNat % 16 * 4 + c.toNat / 64) % 4 * 64 + c.toNat % 64).toUInt8 = c :=
    toUInt8_eq (by omega)
  have h₁ : a.toNat / 4 < 64 := by omega
  have h₂ : a.toNat % 4 * 16 + b.toNat / 16 < 64 := by omega
  have h₃ : b.toNat % 16 * 4 + c.toNat / 64 < 64 := by omega
  have h₄ : c.toNat % 64 < 64 := by omega
  simp only [group?, value?_letter h₁, value?_letter h₂, value?_letter h₃, value?_letter h₄,
    Option.bind_eq_bind, Option.bind_some, hfirst, hsecond, hthird]

theorem decodeOnto_encode (done bs : Octets) :
    decodeOnto done (encode bs) = some (done.reverse ++ bs) := by
  induction bs using encode.induct generalizing done with
  | case1 => simp [encode, decodeOnto]
  | case2 a =>
    have ha := a.toNat_lt
    have hbyte : (a.toNat / 4 * 4 + a.toNat % 4 * 16 / 16).toUInt8 = a := toUInt8_eq (by omega)
    have h₁ : a.toNat / 4 < 64 := by omega
    have h₂ : a.toNat % 4 * 16 < 64 := by omega
    have hbits : a.toNat % 4 * 16 % 16 = 0 := by omega
    simp only [encode, decodeOnto, lastGroup?, if_true, value?_letter h₁, value?_letter h₂, hbits,
      hbyte, Option.bind_eq_bind, Option.bind_some, Option.map_some]
  | case3 a b =>
    have ha := a.toNat_lt
    have hb := b.toNat_lt
    have hfirst : (a.toNat / 4 * 4 + (a.toNat % 4 * 16 + b.toNat / 16) / 16).toUInt8 = a :=
      toUInt8_eq (by omega)
    have hsecond : ((a.toNat % 4 * 16 + b.toNat / 16) % 16 * 16 + b.toNat % 16 * 4 / 4).toUInt8 =
        b := toUInt8_eq (by omega)
    have h₁ : a.toNat / 4 < 64 := by omega
    have h₂ : a.toNat % 4 * 16 + b.toNat / 16 < 64 := by omega
    have h₃ : b.toNat % 16 * 4 < 64 := by omega
    have hbits : b.toNat % 16 * 4 % 4 = 0 := by omega
    simp only [encode, decodeOnto, lastGroup?, if_true, if_neg (letter_ne_pad h₃), value?_letter h₁,
      value?_letter h₂, value?_letter h₃, hbits, hfirst, hsecond, Option.bind_eq_bind,
      Option.bind_some, Option.map_some]
  | case4 a b c rest ih =>
    have h₄ : c.toNat % 64 < 64 := by omega
    -- The last four letters may be padded, and are read apart from those before them.
    cases hrest : encode rest with
    | nil =>
      obtain rfl : rest = [] := by
        unfold encode at hrest
        split at hrest <;> simp_all
      simp only [encode, decodeOnto, lastGroup?, if_neg (letter_ne_pad h₄), group?_letters,
        Option.map_some]
    | cons x more =>
      simp only [encode, hrest, decodeOnto, group?_letters]
      rw [← hrest, ih]
      simp

/-- Octets are read back from their letters. -/
theorem decode?_encode (bs : Octets) : decode? (encode bs) = some bs := decodeOnto_encode [] bs

theorem mem_encode {bs : Octets} {c : UInt8} (h : c ∈ encode bs) :
    c = pad ∨ ∃ n < 64, c = letter n := by
  induction bs using encode.induct with
  | case1 => contradiction
  | case2 a =>
    have ha := a.toNat_lt
    simp only [encode, List.mem_cons, List.not_mem_nil, or_false] at h
    rcases h with rfl | rfl | rfl | rfl
    · exact .inr ⟨_, by omega, rfl⟩
    · exact .inr ⟨_, by omega, rfl⟩
    · exact .inl rfl
    · exact .inl rfl
  | case3 a b =>
    have ha := a.toNat_lt
    have hb := b.toNat_lt
    simp only [encode, List.mem_cons, List.not_mem_nil, or_false] at h
    rcases h with rfl | rfl | rfl | rfl
    · exact .inr ⟨_, by omega, rfl⟩
    · exact .inr ⟨_, by omega, rfl⟩
    · exact .inr ⟨_, by omega, rfl⟩
    · exact .inl rfl
  | case4 a b c rest ih =>
    have ha := a.toNat_lt
    have hb := b.toNat_lt
    have hc := c.toNat_lt
    simp only [encode, List.mem_cons] at h
    rcases h with rfl | rfl | rfl | rfl | h
    · exact .inr ⟨_, by omega, rfl⟩
    · exact .inr ⟨_, by omega, rfl⟩
    · exact .inr ⟨_, by omega, rfl⟩
    · exact .inr ⟨_, by omega, rfl⟩
    · exact ih h

end SidecarAdmission.Text.Base64
