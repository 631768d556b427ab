import SidecarAdmission.Proofs.Json.Characters
import SidecarAdmission.Proofs.Json.Whole
import SidecarAdmission.Yaml.Meaning

/-!
What the words of JSON mean as plain scalars. Null and truth values are spelled alike, and digits
without a needless zero are an integer here and there; other numbers are no text, null or truth
value either.
-/

set_option autoImplicit false
set_option relaxedAutoImplicit false

namespace SidecarAdmission

open SidecarAdmission.Text

namespace Json.Numeral

/-- A numeral that is nothing but digits begins with a zero only if that is all of it. -/
theorem eq_zero_of_isWellSpelled {n : Numeral} (h : n.isWellSpelled = true) {ds : Octets}
    (hspelling : n.spelling = 0x30 :: ds ∨ n.spelling = 0x2d :: 0x30 :: ds)
    (hds : ds.all isDigit = true) : ds = [] := by
  obtain ⟨spelling⟩ := n
  obtain ⟨last, hlast, -⟩ := (Option.any_eq_true _ _).mp h
  have hzero : Lexer.NumberPhase.follow? .zero ds = some last := by
    rcases hspelling with rfl | rfl <;> exact hlast
  cases ds with
  | nil => rfl
  | cons c rest =>
    obtain ⟨next, hnext, -⟩ := Option.bind_eq_some_iff.mp hzero
    have hdigit : isDigit c = true := List.all_eq_true.mp hds c List.mem_cons_self
    rw [Lexer.NumberPhase.next?] at hnext
    split at hnext
    next hpoint =>
      rw [hpoint] at hdigit
      contradiction
    next =>
      split at hnext
      next hmark => rcases hmark with rfl | rfl <;> contradiction
      next => contradiction

end Json.Numeral

namespace Yaml.Meaning

open Json (Numeral)

/-! ### Digits -/

/-- The characters of octets below 128. -/
def codes (ds : Octets) : List Char := ds.map fun o => Char.ofNat o.toNat

private theorem digit_table {o : UInt8} (h : Numeral.isDigit o = true) :
    digitValue? (Char.ofNat o.toNat) = some (o.toNat - 0x30) ∧ o.toNat - 0x30 < 10 ∧
      (Char.ofNat o.toNat).isDigit = true ∧ (Char.ofNat o.toNat = '0' → o = 0x30) := by
  have table : ∀ k < 256, Numeral.isDigit (UInt8.ofNat k) = true →
      digitValue? (Char.ofNat k) = some (k - 0x30) ∧ k - 0x30 < 10 ∧
        (Char.ofNat k).isDigit = true ∧ (Char.ofNat k = '0' → UInt8.ofNat k = 0x30) := by
    decide +kernel
  have hentry := table o.toNat o.toNat_lt
  rw [UInt8.ofNat_toNat] at hentry
  exact hentry h

theorem digits?_codes {ds : Octets} (hne : ds ≠ []) (h : ds.all Numeral.isDigit = true) :
    digits? 10 (codes ds) = some (Numeral.digitsValue ds) := by
  have onto : ∀ (n : Nat), (codes ds).foldlM
      (fun n d => (digitValue? d).bind fun v => if v < 10 then some (n * 10 + v) else none) n =
        some (ds.foldl (fun n c => n * 10 + (c.toNat - 0x30)) n) := by
    clear hne
    induction ds with
    | nil => exact fun n => rfl
    | cons o rest ih =>
      intro n
      rw [List.all_cons, Bool.and_eq_true] at h
      obtain ⟨hvalue, hlt, -⟩ := digit_table h.1
      rw [codes, List.map_cons, List.foldlM_cons, hvalue]
      simp only [Option.bind_some, if_pos hlt, Option.bind_eq_bind]
      exact ih h.2 _
  have hsome : (codes ds).isEmpty = false := by simp [codes, hne]
  rw [digits?, hsome]
  exact onto 0

/-- Digits without a needless zero spell their value. -/
theorem magnitude?_codes {ds : Octets} (hne : ds ≠ []) (h : ds.all Numeral.isDigit = true)
    (hzero : ∀ more, ds = 0x30 :: more → more = []) :
    magnitude? (codes ds) = some (Numeral.digitsValue ds) := by
  have hall : ∀ c ∈ codes ds, c.isDigit = true := by
    intro c hc
    obtain ⟨o, ho, rfl⟩ := List.mem_map.mp hc
    exact (digit_table (List.all_eq_true.mp h o ho)).2.2.1
  have hpadded : isPadded (codes ds) = false := by
    cases ds with
    | nil => contradiction
    | cons o rest =>
      by_cases hfirst : Char.ofNat o.toNat = '0'
      · obtain rfl := (digit_table (List.all_eq_true.mp h o List.mem_cons_self)).2.2.2 hfirst
        obtain rfl := hzero rest rfl
        rfl
      · simp [isPadded, codes, hfirst]
  unfold magnitude?
  split
  next ds' heq => exact absurd (hall 'x' (by simp [heq])) (by decide)
  next ds' heq => exact absurd (hall 'o' (by simp [heq])) (by decide)
  next ds' heq => exact absurd (hall 'b' (by simp [heq])) (by decide)
  next => rw [hpadded, if_neg (by simp), digits?_codes hne h]

/-! ### Numbers -/

theorem toList_word {n : Numeral} (h : n.isWellSpelled = true) :
    (Json.Scalar.number n).word.toList = codes n.spelling := by
  rw [Json.Scalar.word, String.toList_ofList, Json.Token.chars_number h]
  rfl

/-- An integer is the same integer in YAML. -/
theorem integer?_word {n : Numeral} (h : n.isWellSpelled = true) {k : Int}
    (hk : n.integer? = some k) : integer? (Json.Scalar.number n).word = some k := by
  obtain ⟨ds, hne, hdigits, hn⟩ := Numeral.exists_digits_of_integer? hk
  have hmagnitude : magnitude? (codes ds) = some (Numeral.digitsValue ds) := by
    refine magnitude?_codes hne hdigits ?_
    rintro more rfl
    rw [List.all_cons, Bool.and_eq_true] at hdigits
    exact Numeral.eq_zero_of_isWellSpelled h (hn.imp And.left And.left) hdigits.2
  unfold integer?
  rw [toList_word h]
  rcases hn with ⟨hspelling, rfl⟩ | ⟨hspelling, -, rfl⟩
  · rw [hspelling]
    have hsign : ∀ c ∈ (codes ds).head?, c.isDigit = true := by
      intro c hc
      obtain ⟨o, ho, rfl⟩ := List.mem_map.mp (List.mem_of_mem_head? hc)
      exact (digit_table (List.all_eq_true.mp hdigits o ho)).2.2.1
    split
    next heq => exact absurd (hsign '+' (by simp [heq])) (by decide)
    next heq => exact absurd (hsign '-' (by simp [heq])) (by decide)
    next => rw [hmagnitude]; rfl
  · have hcodes : codes n.spelling = '-' :: codes ds := by
      rw [hspelling]
      rfl
    simp only [hcodes, hmagnitude]
    rfl

/-- A number begins with a digit or a minus, so it is no word of letters. -/
private theorem word_ne {n : Numeral} (h : n.isWellSpelled = true) {s : String}
    (hs : (s.toList.head?.all fun c => !c.isDigit && c ≠ '-') = true) :
    (Json.Scalar.number n).word ≠ s := by
  rintro rfl
  obtain ⟨-, first, rest, hspelling, hfirst⟩ := Numeral.octets_of_isWellSpelled h
  rw [toList_word h, hspelling, codes, List.map_cons, List.head?_cons, Option.all_some] at hs
  rcases hfirst with hdigit | ⟨rfl, -⟩
  · simp [(digit_table hdigit).2.2.1] at hs
  · contradiction

theorem isEmpty_word {n : Numeral} (h : n.isWellSpelled = true) :
    (Json.Scalar.number n).word.isEmpty = false := by
  have hne := word_ne h (s := "") (by simp)
  rwa [Bool.eq_false_iff, ne_eq, String.isEmpty_iff]

theorem isNull_word {n : Numeral} (h : n.isWellSpelled = true) :
    isNull (Json.Scalar.number n).word = false := by
  simp [isNull, word_ne h (s := "~") (by decide), word_ne h (s := "null") (by decide),
    word_ne h (s := "Null") (by decide), word_ne h (s := "NULL") (by decide)]

theorem bool?_word {n : Numeral} (h : n.isWellSpelled = true) :
    bool? (Json.Scalar.number n).word = none := by
  simp [bool?, word_ne h (s := "true") (by decide), word_ne h (s := "True") (by decide),
    word_ne h (s := "TRUE") (by decide), word_ne h (s := "false") (by decide),
    word_ne h (s := "False") (by decide), word_ne h (s := "FALSE") (by decide)]

/-- An integer of 64 bits is read as itself. -/
theorem ofPlain?_word {n : Numeral} (h : n.isWellSpelled = true) {k : Int}
    (hk : n.integer? = some k) (hbits : isOf64Bits k = true) :
    ofPlain? (Json.Scalar.number n).word = some (.integer k) := by
  simp [ofPlain?, isEmpty_word h, isNull_word h, bool?_word h, bounded?, integer?_word h hk, hbits]

end Yaml.Meaning

end SidecarAdmission
