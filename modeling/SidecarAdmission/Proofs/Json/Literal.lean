import SidecarAdmission.Json.Literal
import SidecarAdmission.Proofs.Text.Octets

/-!
Writing a text as a literal and an integer as a numeral, and reading them back. Each octet of a text
is escaped by itself, so the octets of the text come back one by one, and with them the text; the
value of the digits of a number is the number.
-/

set_option autoImplicit false
set_option relaxedAutoImplicit false

namespace SidecarAdmission.Json

open SidecarAdmission.Text

namespace Literal

/-- The escape of a control character reads back as that character. -/
private theorem fourDigits?_hexDigits (n : Nat) (hn : n < 0x20) :
    fourDigits? 0x30 0x30 (hexDigit (n / 16)).toUInt8 (hexDigit (n % 16)).toUInt8 = some n := by
  have table : ∀ n < 0x20,
      fourDigits? 0x30 0x30 (hexDigit (n / 16)).toUInt8 (hexDigit (n % 16)).toUInt8 = some n := by
    decide
  exact table n hn

private theorem encodeCode_control (n : Nat) (hn : n < 0x20) : encodeCode n = [n.toUInt8] := by
  have table : ∀ n < 0x20, encodeCode n = [n.toUInt8] := by decide
  exact table n hn

/-- An octet that is escaped as itself is read as itself. -/
theorem unescapeOnto_plain (done rest : Octets) {c : UInt8} (hc : c ≠ 0x5c) :
    unescapeOnto done (c :: rest) = unescapeOnto (c :: done) rest := by
  rw [unescapeOnto.eq_def]
  split <;> simp_all

theorem unescapeOnto_escape (done rest : Octets) (c : UInt8) :
    unescapeOnto done (escape c ++ rest) = unescapeOnto (c :: done) rest := by
  unfold escape
  split
  · subst c; rfl
  split
  · subst c; rfl
  split
  · subst c; rfl
  split
  · subst c; rfl
  split
  · subst c; rfl
  split
  · subst c; rfl
  split
  · subst c; rfl
  split
  next control =>
    have small : c.toNat < 0x20 := control
    have notHigh : isHighSurrogate c.toNat = false := by
      simp only [isHighSurrogate, Bool.and_eq_false_iff, decide_eq_false_iff_not]
      omega
    have notLow : isLowSurrogate c.toNat = false := by
      simp only [isLowSurrogate, Bool.and_eq_false_iff, decide_eq_false_iff_not]
      omega
    simp only [List.cons_append, List.nil_append, unescapeOnto,
      fourDigits?_hexDigits c.toNat small, notHigh, notLow, encodeCode_control c.toNat small]
    simp
  next backslash _ _ _ _ _ _ =>
    exact unescapeOnto_plain done rest backslash

theorem unescapeOnto_flatMap_escape (done bs : Octets) :
    unescapeOnto done (bs.flatMap escape) = some (done.reverse ++ bs) := by
  induction bs generalizing done with
  | nil => simp [unescapeOnto]
  | cons c bs ih =>
    rw [List.flatMap_cons, unescapeOnto_escape, ih]
    simp

/-- The literal that spells a text spells that text. -/
@[simp] theorem text?_ofText (s : String) : (ofText s).text? = some s := by
  simp only [text?, ofText, unescapeOnto_flatMap_escape, List.reverse_nil, List.nil_append,
    Option.bind_some]
  exact ofOctets?_octets s

end Literal

theorem text?_string (s : String) : (string s).text? = some s := Literal.text?_ofText s

namespace Numeral

theorem utf8EncodeChar_digitChar (d : Nat) (hd : d < 10) :
    ∃ c, String.utf8EncodeChar d.digitChar = [c] ∧ isDigit c = true ∧ (c = 0x30 ↔ d = 0) ∧
      c.toNat - 0x30 = d := by
  have table : ∀ d < 10, String.utf8EncodeChar d.digitChar = [0x30 + d.toUInt8] ∧
      isDigit (0x30 + d.toUInt8) = true ∧ (0x30 + d.toUInt8 = 0x30 ↔ d = 0) ∧
      (0x30 + d.toUInt8).toNat - 0x30 = d := by decide
  exact ⟨_, table d hd⟩

theorem digitsValue_concat (ds : Octets) (c : UInt8) :
    digitsValue (ds ++ [c]) = digitsValue ds * 10 + (c.toNat - 0x30) := by
  simp [digitsValue]

/-- The octets of a number are digits with its value. -/
private theorem digitsValue_toDigits (n : Nat) :
    (Nat.toDigits 10 n).flatMap String.utf8EncodeChar ≠ [] ∧
      ((Nat.toDigits 10 n).flatMap String.utf8EncodeChar).all isDigit = true ∧
      digitsValue ((Nat.toDigits 10 n).flatMap String.utf8EncodeChar) = n := by
  induction n using Nat.strongRecOn with
  | ind n ih =>
    by_cases hsmall : n < 10
    · obtain ⟨c, hc, hdigit, -, hvalue⟩ := utf8EncodeChar_digitChar n hsmall
      rw [Nat.toDigits_of_lt_base hsmall, List.flatMap_singleton, hc]
      simp [digitsValue, hdigit, hvalue]
    · obtain ⟨c, hc, hdigit, -, hvalue⟩ :=
        utf8EncodeChar_digitChar (n % 10) (Nat.mod_lt n (by decide))
      obtain ⟨-, hdigits, hrest⟩ := ih (n / 10) (by omega)
      rw [Nat.toDigits_of_base_le (by decide) (by omega), List.flatMap_append,
        List.flatMap_singleton, hc]
      refine ⟨by simp, by simp only [List.all_append, hdigits, List.all_cons, hdigit,
        List.all_nil, Bool.and_self], ?_⟩
      rw [digitsValue_concat, hrest, hvalue]
      omega

theorem digitsValue_repr (n : Nat) :
    octets n.repr ≠ [] ∧ (octets n.repr).all isDigit = true ∧ digitsValue (octets n.repr) = n := by
  rw [Nat.repr_eq_ofList_toDigits, octets_ofList]
  exact digitsValue_toDigits n

theorem spelling_ofInt_ofNat (n : Nat) : (ofInt (.ofNat n)).spelling = octets n.repr := rfl

theorem spelling_ofInt_negSucc (n : Nat) :
    (ofInt (.negSucc n)).spelling = 0x2d :: octets (n + 1).repr := by
  show octets ("-" ++ (n + 1).repr) = _
  simp [octets]
  rfl

/-- The numeral that spells an integer spells that integer. -/
@[simp] theorem integer?_ofInt (n : Int) : (ofInt n).integer? = some n := by
  cases n with
  | ofNat m =>
    obtain ⟨hne, hdigits, hvalue⟩ := digitsValue_repr m
    rw [integer?, spelling_ofInt_ofNat]
    split
    next hnil => exact absurd hnil hne
    next ds hsign =>
      rw [hsign] at hdigits
      contradiction
    next => simp [hdigits, hvalue]
  | negSucc m =>
    obtain ⟨hne, hdigits, hvalue⟩ := digitsValue_repr (m + 1)
    have hsome : (octets (m + 1).repr).isEmpty = false := List.isEmpty_eq_false_iff.mpr hne
    rw [integer?, spelling_ofInt_negSucc]
    simp [hdigits, hvalue, hsome, Int.negSucc_eq]

end Numeral

end SidecarAdmission.Json
