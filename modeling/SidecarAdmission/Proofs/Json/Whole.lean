import Mathlib.Algebra.Group.Int.Defs
import Mathlib.Data.List.TakeWhile
import SidecarAdmission.Proofs.Json.Canonical
import SidecarAdmission.Proofs.Json.Reader

/-!
Documents in which every number is an integer of 64 bits. The canonical form of such a document
depends on no rounding: what is made of texts, truth values, such integers, lists and members whose
keys ascend is its own canonical form.
-/

set_option autoImplicit false
set_option relaxedAutoImplicit false

namespace SidecarAdmission.Json

open SidecarAdmission.Text

/-! ### Integers -/

namespace Numeral

theorem spanDigits_eq {ds : Octets} (h : ds.all isDigit = true) :
    spanDigits ds = (ds.map fun c => c.toNat - 0x30, []) := by
  have hall : ∀ c ∈ ds, isDigit c = true := List.all_eq_true.mp h
  have htake : ds.takeWhile isDigit = ds := List.takeWhile_eq_self_iff.mpr hall
  have hdrop : ds.dropWhile isDigit = [] := List.dropWhile_eq_nil_iff.mpr hall
  rw [spanDigits, htake, hdrop]

theorem foldl_digits (ds : Octets) :
    (ds.map fun c => c.toNat - 0x30).foldl (fun v d => v * 10 + d) 0 = digitsValue ds := by
  rw [List.foldl_map, digitsValue]

theorem parts_of_digits {ds : Octets} (hne : ds ≠ []) (h : ds.all isDigit = true) :
    parts ⟨ds⟩ = ⟨false, ds.map fun c => c.toNat - 0x30, [], 0, true⟩ := by
  have hspan := spanDigits_eq h
  unfold parts
  split
  next negative spelling hsign =>
    split at hsign
    next rest hminus =>
      obtain rfl : ds = 0x2d :: rest := hminus
      contradiction
    next =>
      obtain ⟨rfl, rfl⟩ := Prod.mk.inj hsign
      rw [hspan]
      rfl

theorem parts_of_minus {ds : Octets} (h : ds.all isDigit = true) :
    parts ⟨0x2d :: ds⟩ = ⟨true, ds.map fun c => c.toNat - 0x30, [], 0, true⟩ := by
  have hspan := spanDigits_eq h
  unfold parts
  split
  next negative spelling hsign =>
    obtain ⟨rfl, rfl⟩ := Prod.mk.inj (show (true, ds) = (negative, spelling) from hsign)
    rw [hspan]
    rfl

/-- The numeral of an integer is digits, perhaps after a minus. -/
theorem exists_digits_of_integer? {n : Numeral} {k : Int} (h : n.integer? = some k) :
    ∃ ds, ds ≠ [] ∧ ds.all isDigit = true ∧ (n.spelling = ds ∧ k = digitsValue ds ∨
      n.spelling = 0x2d :: ds ∧ 0 < digitsValue ds ∧ k = -(digitsValue ds : Int)) := by
  unfold integer? at h
  split at h
  next => contradiction
  next ds hspelling =>
    obtain ⟨hds, hvalue⟩ := Option.ite_none_right_eq_some.mp h
    simp only [Bool.and_eq_true, Bool.not_eq_true', List.isEmpty_eq_false_iff, bne_iff_ne] at hds
    obtain ⟨⟨hdigits, hne⟩, hpos⟩ := hds
    exact ⟨ds, hne, hdigits, .inr ⟨hspelling, Nat.pos_of_ne_zero hpos, (Option.some.inj hvalue).symm⟩⟩
  next ds hne hminus =>
    obtain ⟨hdigits, hvalue⟩ := Option.ite_none_right_eq_some.mp h
    exact ⟨n.spelling, hne, hdigits, .inl ⟨rfl, (Option.some.inj hvalue).symm⟩⟩

/-- An integer of 64 bits has its own text in canonical form. -/
theorem canonicalText?_of_integer? {n : Numeral} {k : Int} (h : n.integer? = some k)
    (hlow : -(2 ^ 63 : Int) ≤ k) (hhigh : k < 2 ^ 64) : n.canonicalText? = some (toString k) := by
  obtain ⟨ds, hne, hdigits, hn⟩ := exists_digits_of_integer? h
  obtain ⟨spelling⟩ := n
  obtain ⟨rfl, rfl⟩ | ⟨rfl, hpos, rfl⟩ := hn
  · have hle : digitsValue spelling ≤ greatestSignificand := by
      have hbound : (digitsValue spelling : Int) < 2 ^ 64 := hhigh
      simp only [greatestSignificand, Nat.pow_eq]
      omega
    rw [canonicalText?, parts_of_digits hne hdigits]
    dsimp only
    rw [foldl_digits, if_pos (by simp [hle])]
    rfl
  · obtain ⟨m, hm⟩ := Nat.exists_eq_succ_of_ne_zero (Nat.ne_of_gt hpos)
    have hle : digitsValue ds ≤ Nat.pow 2 63 := by
      simp only [Nat.pow_eq]
      omega
    rw [canonicalText?, parts_of_minus hdigits]
    dsimp only
    rw [foldl_digits, if_neg (by simp), if_pos (by simp [hle, hpos]), hm]
    rfl

/-- The numeral of an integer of 64 bits is canonical. -/
theorem canonicalText?_ofInt {k : Int} (hlow : -(2 ^ 63 : Int) ≤ k) (hhigh : k < 2 ^ 64) :
    (ofInt k).canonicalText? = some (toString k) :=
  canonicalText?_of_integer? (integer?_ofInt k) hlow hhigh

/-- Whether a numeral is that of an integer of 64 bits. -/
def isWhole (n : Numeral) : Bool :=
  n.integer?.any fun k => decide (-(2 ^ 63 : Int) ≤ k ∧ k < 2 ^ 64) && n == .ofInt k

theorem isWhole_iff {n : Numeral} :
    n.isWhole = true ↔ ∃ k : Int, (-(2 ^ 63 : Int) ≤ k ∧ k < 2 ^ 64) ∧ n = .ofInt k := by
  rw [isWhole, Option.any_eq_true]
  constructor
  · rintro ⟨k, -, hk⟩
    obtain ⟨hrange, hn⟩ := Bool.and_eq_true_iff.mp hk
    exact ⟨k, of_decide_eq_true hrange, beq_iff_eq.mp hn⟩
  · rintro ⟨k, hrange, rfl⟩
    exact ⟨k, integer?_ofInt k, by simpa using hrange⟩

end Numeral

/-! ### Documents -/

/-- Whether a token is no number, or an integer of 64 bits. -/
def Token.isWhole : Token → Bool
  | .scalar (.number n) => n.isWhole
  | _ => true

/-- Whether every number of a document is an integer of 64 bits. -/
def IsWhole (v : Json) : Prop := ∀ t ∈ v.tokens, t.isWhole = true

instance (v : Json) : Decidable v.IsWhole :=
  inferInstanceAs (Decidable (∀ t ∈ v.tokens, t.isWhole = true))

theorem isWhole_number {n : Numeral} :
    (Json.scalar (.number n)).IsWhole ↔
      ∃ k : Int, (-(2 ^ 63 : Int) ≤ k ∧ k < 2 ^ 64) ∧ n = .ofInt k := by
  rw [← Numeral.isWhole_iff]
  simp [IsWhole, tokens, Token.isWhole]

theorem isWhole_array {items : List Json} :
    (Json.array items).IsWhole ↔ ∀ v ∈ items, v.IsWhole := by
  simp only [IsWhole, tokens, List.forall_mem_cons, List.forall_mem_append,
    forall_mem_separate (P := fun t => t.isWhole = true) rfl, itemTokens_eq, List.forall_mem_map]
  simp [Token.isWhole]

theorem isWhole_object {members : List (Literal × Json)} :
    (Json.object members).IsWhole ↔ ∀ m ∈ members, m.2.IsWhole := by
  simp only [IsWhole, tokens, List.forall_mem_cons, List.forall_mem_append,
    forall_mem_separate (P := fun t => t.isWhole = true) rfl, memberTokens_eq, List.forall_mem_map]
  simp [Token.isWhole]

theorem canonicalItems?_of_forall {depth : Nat} {items : List Json}
    (h : ∀ v ∈ items, canonical? depth v = some v) : canonicalItems? depth items = some items := by
  induction items with
  | nil => rfl
  | cons v rest ih =>
    obtain ⟨hv, hrest⟩ := List.forall_mem_cons.mp h
    simp only [canonicalItems?, hv, ih hrest, Option.map_some]

theorem canonicalMembers?_of_forall {depth : Nat} {members : List (String × Json)}
    (h : ∀ m ∈ members, canonical? depth m.2 = some m.2) :
    canonicalMembers? depth (members.map fun m => (.ofText m.1, m.2)) = some members := by
  induction members with
  | nil => rfl
  | cons m rest ih =>
    obtain ⟨hv, hrest⟩ := List.forall_mem_cons.mp h
    simp only [List.map_cons, canonicalMembers?, Literal.text?_ofText, hv, ih hrest,
      Option.map_some]

variable {depth : Nat}

theorem canonical?_array {items : List Json} (h : ∀ v ∈ items, canonical? (depth + 1) v = some v) :
    canonical? (depth + 2) (.array items) = some (.array items) := by
  rw [canonical?]
  simp only [Nat.add_eq_zero_iff, Nat.one_ne_zero, and_false, if_false,
    canonicalItems?_of_forall h, Option.map_some]

theorem canonical?_ofMembers {members : List (String × Json)} (hkeys : KeysAscend members)
    (h : ∀ m ∈ members, canonical? (depth + 1) m.2 = some m.2) :
    canonical? (depth + 2) (ofMembers members) = some (ofMembers members) := by
  rw [ofMembers, canonical?]
  simp only [Nat.add_eq_zero_iff, Nat.one_ne_zero, and_false, if_false]
  rw [canonicalMembers?_of_forall h, Option.map_some, sortMembers_of_keysAscend hkeys, ofMembers]

theorem canonical?_integer {k : Int} (hlow : -(2 ^ 63 : Int) ≤ k) (hhigh : k < 2 ^ 64) :
    canonical? depth (integer k) = some (integer k) := by
  rw [integer, canonical?, Scalar.canonical?, Numeral.canonicalText?_ofInt hlow hhigh]
  rfl

theorem canonical?_string (s : String) : canonical? depth (string s) = some (string s) := by
  rw [string, canonical?, Scalar.canonical?, Literal.text?_ofText]
  rfl

end SidecarAdmission.Json
