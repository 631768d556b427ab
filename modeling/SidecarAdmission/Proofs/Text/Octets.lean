import SidecarAdmission.Text.Octets

/-!
The octets of a text character by character. A text of characters below 128 has one octet for each
of them, so any octets below 128 are those of a text. Every character begins with an octet that
continues none, so octets can be cut in front of such an octet without cutting a character.
-/

set_option autoImplicit false
set_option relaxedAutoImplicit false

namespace SidecarAdmission.Text

theorem octets_ofList (cs : List Char) :
    octets (String.ofList cs) = cs.flatMap String.utf8EncodeChar := by
  simp [octets, List.utf8Encode]

theorem octets_eq_flatMap (s : String) : octets s = s.toList.flatMap String.utf8EncodeChar := by
  rw [← octets_ofList, String.ofList_toList]

/-- The text whose characters have the given codes. -/
def ofCodes (bs : Octets) : String := String.ofList (bs.map fun c => Char.ofNat c.toNat)

private theorem utf8EncodeChar_ofNat {c : UInt8} (h : c < 0x80) :
    String.utf8EncodeChar (Char.ofNat c.toNat) = [c] := by
  have table : ∀ n < 0x80, String.utf8EncodeChar (Char.ofNat n) = [n.toUInt8] := by decide +kernel
  have hoctet : c.toNat.toUInt8 = c := UInt8.ofNat_toNat
  rw [table c.toNat h, hoctet]

theorem flatMap_codes {bs : Octets} (h : ∀ c ∈ bs, c < 0x80) :
    (bs.map fun c => Char.ofNat c.toNat).flatMap String.utf8EncodeChar = bs := by
  induction bs with
  | nil => rfl
  | cons c rest ih =>
    obtain ⟨hc, hrest⟩ := List.forall_mem_cons.mp h
    rw [List.map_cons, List.flatMap_cons, utf8EncodeChar_ofNat hc, ih hrest, List.singleton_append]

theorem octets_ofCodes {bs : Octets} (h : ∀ c ∈ bs, c < 0x80) : octets (ofCodes bs) = bs := by
  rw [ofCodes, octets_ofList, flatMap_codes h]

/-- The characters that octets encode, none if they encode no text. -/
def chars (os : Octets) : List Char := ((ofOctets? os).getD "").toList

@[simp] theorem chars_flatMap (cs : List Char) :
    chars (cs.flatMap String.utf8EncodeChar) = cs := by
  rw [chars, ← octets_ofList, ofOctets?_octets, Option.getD_some, String.toList_ofList]

theorem chars_of_lt {bs : Octets} (h : ∀ c ∈ bs, c < 0x80) :
    chars bs = bs.map fun c => Char.ofNat c.toNat := by
  have hchars := chars_flatMap (bs.map fun c => Char.ofNat c.toNat)
  rwa [flatMap_codes h] at hchars

/-! ### The octets of one character -/

/-- Whether an octet continues a character that another octet begins. -/
def isContinuation (o : UInt8) : Bool := 0x80 ≤ o && o < 0xc0

theorem isContinuation_eq_false {o : UInt8} (h : o < 0x80) : isContinuation o = false := by
  simp only [isContinuation, Bool.and_eq_false_iff, decide_eq_false_iff_not]
  exact .inl (UInt8.not_le.mpr h)

theorem utf8EncodeChar_of_lt {c : Char} (h : c.toNat < 0x80) :
    String.utf8EncodeChar c = [c.toNat.toUInt8] := by
  have hle : c.val.toNat ≤ 127 := Nat.le_of_lt_succ h
  simp only [String.utf8EncodeChar, if_pos hle]
  rfl

private theorem isContinuation_ofNat (n : Nat) :
    isContinuation (UInt8.ofNat (n % 64 + 128)) = true := by
  simp only [isContinuation, Bool.and_eq_true, decide_eq_true_eq, UInt8.le_iff_toNat_le,
    UInt8.lt_iff_toNat_lt, UInt8.toNat_ofNat']
  have hmod := Nat.mod_lt n (show 0 < 64 by decide)
  have hlow : (0x80 : UInt8).toNat = 128 := rfl
  have hhigh : (0xc0 : UInt8).toNat = 192 := rfl
  omega

/-- A character that is not ASCII begins with an octet of its own range, and the other octets
continue it. -/
theorem utf8EncodeChar_of_le {c : Char} (h : 0x80 ≤ c.toNat) :
    ∃ first rest, String.utf8EncodeChar c = first :: rest ∧ 0xc0 ≤ first ∧
      ∀ o ∈ rest, isContinuation o = true := by
  have hlead : ∀ n k : Nat, 192 ≤ k → n + k < 256 → (0xc0 : UInt8) ≤ UInt8.ofNat (n + k) := by
    intro n k hk hn
    rw [UInt8.le_iff_toNat_le, UInt8.toNat_ofNat', Nat.mod_eq_of_lt hn]
    have hlow : (0xc0 : UInt8).toNat = 192 := rfl
    omega
  have hone : ¬ c.val.toNat ≤ 127 := Nat.not_le.mpr h
  simp only [String.utf8EncodeChar, if_neg hone]
  split
  · refine ⟨_, _, rfl, hlead _ _ (by decide) (by omega), ?_⟩
    simp only [List.forall_mem_cons, isContinuation_ofNat, true_and]
    exact fun _ ho => absurd ho List.not_mem_nil
  split
  · refine ⟨_, _, rfl, hlead _ _ (by decide) (by omega), ?_⟩
    simp only [List.forall_mem_cons, isContinuation_ofNat, true_and]
    exact fun _ ho => absurd ho List.not_mem_nil
  · refine ⟨_, _, rfl, hlead _ _ (by decide) (by omega), ?_⟩
    simp only [List.forall_mem_cons, isContinuation_ofNat, true_and]
    exact fun _ ho => absurd ho List.not_mem_nil

/-- A character begins with an octet that continues none, and the other octets continue it. -/
theorem utf8EncodeChar_eq_cons (c : Char) :
    ∃ first rest, String.utf8EncodeChar c = first :: rest ∧ isContinuation first = false ∧
      ∀ o ∈ rest, isContinuation o = true := by
  by_cases h : c.toNat < 0x80
  · refine ⟨_, _, utf8EncodeChar_of_lt h, isContinuation_eq_false ?_, by simp⟩
    have hsmall : c.toNat % 256 < 128 := by omega
    simpa [UInt8.lt_iff_toNat_lt] using hsmall
  · obtain ⟨first, rest, hoctets, hfirst, hrest⟩ := utf8EncodeChar_of_le (Nat.le_of_not_lt h)
    refine ⟨first, rest, hoctets, ?_, hrest⟩
    simp only [isContinuation, Bool.and_eq_false_iff, decide_eq_false_iff_not]
    exact .inr (UInt8.not_lt.mpr hfirst)

theorem le_of_mem_utf8EncodeChar {c : Char} (h : 0x80 ≤ c.toNat) {o : UInt8}
    (ho : o ∈ String.utf8EncodeChar c) : 0x80 ≤ o := by
  obtain ⟨first, rest, hoctets, hfirst, hrest⟩ := utf8EncodeChar_of_le h
  rw [hoctets] at ho
  rcases List.mem_cons.mp ho with rfl | ho
  · exact UInt8.le_trans (by decide) hfirst
  · have hcontinues := hrest o ho
    simp only [isContinuation, Bool.and_eq_true, decide_eq_true_eq] at hcontinues
    exact hcontinues.1

/-- Octets that begin with one below 128 begin with the character of that code. -/
theorem exists_cons_of_flatMap {cs : List Char} {o : UInt8} {tail : Octets} (ho : o < 0x80)
    (h : cs.flatMap String.utf8EncodeChar = o :: tail) :
    ∃ rest, cs = Char.ofNat o.toNat :: rest ∧ rest.flatMap String.utf8EncodeChar = tail := by
  rcases cs with _ | ⟨c, rest⟩
  · contradiction
  rw [List.flatMap_cons] at h
  by_cases hc : c.toNat < 0x80
  · rw [utf8EncodeChar_of_lt hc, List.singleton_append, List.cons.injEq] at h
    have hcode : c.toNat.toUInt8.toNat = c.toNat := Nat.mod_eq_of_lt (by omega)
    refine ⟨rest, ?_, h.2⟩
    rw [← h.1, hcode, Char.ofNat_toNat]
  · obtain ⟨first, more, hoctets, hfirst, -⟩ := utf8EncodeChar_of_le (Nat.le_of_not_lt hc)
    rw [hoctets, List.cons_append, List.cons.injEq] at h
    rw [h.1] at hfirst
    exact absurd ho (UInt8.not_lt.mpr (UInt8.le_trans (by decide) hfirst))

/-! ### Cutting -/

/-- No character is cut in front of an octet that continues none. -/
theorem exists_chars_of_append {cs : List Char} {os tail : Octets}
    (htail : ∀ o ∈ tail.head?, isContinuation o = false)
    (h : cs.flatMap String.utf8EncodeChar = os ++ tail) :
    ∃ before after, cs = before ++ after ∧ before.flatMap String.utf8EncodeChar = os ∧
      after.flatMap String.utf8EncodeChar = tail := by
  induction cs generalizing os with
  | nil =>
    obtain ⟨rfl, rfl⟩ := List.append_eq_nil_iff.mp h.symm
    exact ⟨[], [], rfl, rfl, rfl⟩
  | cons c rest ih =>
    obtain ⟨first, more, hoctets, -, hmore⟩ := utf8EncodeChar_eq_cons c
    rcases os with _ | ⟨o, os⟩
    · exact ⟨[], c :: rest, rfl, rfl, h⟩
    rw [List.flatMap_cons] at h
    rcases List.append_eq_append_iff.mp h with ⟨os', hos, hrest⟩ | ⟨cut, hcut, hrest⟩
    · obtain ⟨before, after, rfl, rfl, hafter⟩ := ih hrest
      exact ⟨c :: before, after, rfl, by rw [List.flatMap_cons, hos], hafter⟩
    · -- what is left of the character would have to begin the tail
      rcases cut with _ | ⟨o', cut⟩
      · have hempty : rest.flatMap String.utf8EncodeChar = [] ++ tail := hrest.symm
        obtain ⟨before, after, rfl, hbefore, hafter⟩ := ih hempty
        refine ⟨c :: before, after, rfl, ?_, hafter⟩
        rw [List.flatMap_cons, hbefore, hcut, List.append_nil, List.append_nil]
      · rw [hoctets, List.cons_append, List.cons.injEq] at hcut
        have hinside : isContinuation o' = true := hmore o' (by rw [hcut.2]; simp)
        have hfirst := htail o' (by rw [hrest]; rfl)
        rw [hinside] at hfirst
        contradiction

end SidecarAdmission.Text
