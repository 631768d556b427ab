import Mathlib.Algebra.Group.Nat.Defs
import SidecarAdmission.Resource.Timestamp

/-!
Times that are read from their own text. What is read is a date of the calendar and a time of day in
UTC, and its text is one of those that are read, without white space or fractions and with an offset
of none.
-/

set_option autoImplicit false
set_option relaxedAutoImplicit false

namespace SidecarAdmission.Resource.Timestamp

open SidecarAdmission.Text

/-! ### Digits -/

/-- The number that digits spell. -/
def digitsValue (ds : List Char) : Nat := ds.foldl (fun n c => n * 10 + (c.toNat - '0'.toNat)) 0

/-- Whether a text does not go on with a digit. -/
def EndsNumber (s : List Char) : Prop := ∀ c ∈ s.head?, c.isDigit = false

theorem endsNumber_cons {c : Char} (h : c.isDigit = false) (s : List Char) :
    EndsNumber (c :: s) := by
  intro d hd
  obtain rfl := Option.some.inj hd
  exact h

theorem isBlank_of_isDigit {c : Char} (h : c.isDigit = true) : Class.isBlank c = false := by
  have hrange : 48 ≤ c.toNat ∧ c.toNat ≤ 57 := by
    simpa [Char.isDigit, UInt32.le_iff_toNat_le] using h
  have hnone : ∀ n < 58, 48 ≤ n → Class.inRanges n Class.blankRanges = false := by decide
  exact hnone c.toNat (by omega) hrange.1

theorem skipBlank_cons {c : Char} (h : Class.isBlank c = false) (s : List Char) :
    skipBlank (c :: s) = c :: s := by
  rw [skipBlank, List.dropWhile_cons, h]
  rfl

theorem skipBlank_digits {ds : List Char} (hne : ds ≠ []) (hds : ∀ c ∈ ds, c.isDigit = true)
    (s : List Char) : skipBlank (ds ++ s) = ds ++ s := by
  obtain ⟨c, rest, rfl⟩ := List.exists_cons_of_ne_nil hne
  exact skipBlank_cons (isBlank_of_isDigit (hds c List.mem_cons_self)) (rest ++ s)

/-- Digits that do not go on are read as the number that they spell. -/
theorem number?_append {width : Nat} {ds s : List Char} (hne : ds ≠ [])
    (hds : ∀ c ∈ ds, c.isDigit = true) (hlength : ds.length ≤ width) (hs : EndsNumber s) :
    number? width (ds ++ s) = some (digitsValue ds, s) := by
  have hrest : (s.take (width - ds.length)).takeWhile Char.isDigit = [] := by
    cases s with
    | nil => simp
    | cons c rest =>
      have hc : c.isDigit = false := hs c rfl
      cases width - ds.length <;> simp [hc]
  have htake : ((ds ++ s).take width).takeWhile Char.isDigit = ds := by
    rw [List.take_append, List.take_of_length_le hlength, List.takeWhile_append_of_pos hds, hrest,
      List.append_nil]
  have hempty : ds.isEmpty = false := List.isEmpty_eq_false_iff.mpr hne
  simp only [number?, htake, hempty, List.drop_left, digitsValue, Bool.false_eq_true, if_false]

/-! ### Padded numbers -/

section Padded

variable (width n : Nat)

theorem toList_padded : (padded width n).toList =
    List.replicate (width - (Nat.toDigits 10 n).length) '0' ++ Nat.toDigits 10 n := by
  simp [padded]

theorem isDigit_padded : ∀ c ∈ (padded width n).toList, c.isDigit = true := by
  intro c hc
  rw [toList_padded] at hc
  rcases List.mem_append.mp hc with hzero | hdigit
  · rw [List.eq_of_mem_replicate hzero]
    rfl
  · exact Nat.isDigit_of_mem_toDigits (by decide) (by decide) hdigit

theorem padded_ne_nil : (padded width n).toList ≠ [] := by
  simp [toList_padded, Nat.toDigits_ne_nil]

theorem digitsValue_padded : digitsValue (padded width n).toList = n := by
  have hzeros : ∀ k, digitsValue (List.replicate k '0') = 0 := by
    intro k
    induction k with
    | zero => rfl
    | succ k ih =>
      rw [List.replicate_succ', digitsValue, List.foldl_append]
      change digitsValue (List.replicate k '0') * 10 + 0 = 0
      rw [ih]
  have hdigits : digitsValue (Nat.toDigits 10 n) = n := by
    have h := Nat.ofDigitChars_toDigits (b := 10) (n := n) (by decide) (by decide)
    simpa [Nat.ofDigitChars, digitsValue, Nat.mul_comm] using h
  rw [toList_padded, digitsValue, List.foldl_append]
  change (Nat.toDigits 10 n).foldl _ (digitsValue (List.replicate _ '0')) = n
  rw [hzeros]
  exact hdigits

theorem length_padded {width n : Nat} (hwidth : 0 < width) (h : n < 10 ^ width) :
    (padded width n).toList.length = width := by
  have hlength := (Nat.length_toDigits_le_iff (b := 10) (by decide) hwidth).mpr h
  rw [toList_padded, List.length_append, List.length_replicate]
  omega

end Padded

/-! ### Dates and times of day -/

/-- A date of the calendar in a year that has dates, and a time of day. -/
structure IsValid (t : Timestamp) : Prop where
  year : isYear t.year = true
  month : 1 ≤ t.month ∧ t.month ≤ 12
  day : 1 ≤ t.day ∧ t.day ≤ daysIn t.year t.month
  hour : t.hour ≤ 23
  minute : t.minute ≤ 59
  second : t.second ≤ 60

theorem daysIn_le (year : Int) (month : Nat) : 28 ≤ daysIn year month ∧ daysIn year month ≤ 31 := by
  unfold daysIn
  split
  · split <;> omega
  · split <;> omega

/-- Whether three numbers are a date of the calendar. -/
def IsDate (date : Int × Nat × Nat) : Prop :=
  (1 ≤ date.2.1 ∧ date.2.1 ≤ 12) ∧ 1 ≤ date.2.2 ∧ date.2.2 ≤ daysIn date.1 date.2.1

section Dates

variable {year : Int} {month day : Nat}

theorem isDate_nextDate (h : IsDate (year, month, day)) : IsDate (nextDate year month day) := by
  obtain ⟨hmonth, hday⟩ := h
  dsimp only at hmonth hday
  unfold nextDate
  split
  next hlt => exact ⟨hmonth, by dsimp only; omega⟩
  next =>
    have hleast : ∀ y m, 1 ≤ daysIn y m := fun y m => by have := daysIn_le y m; omega
    split
    next hlt => exact ⟨by dsimp only; omega, Nat.le_refl 1, hleast _ _⟩
    next => exact ⟨by dsimp only; omega, Nat.le_refl 1, hleast _ _⟩

theorem isDate_previousDate (h : IsDate (year, month, day)) :
    IsDate (previousDate year month day) := by
  obtain ⟨hmonth, hday⟩ := h
  dsimp only at hmonth hday
  unfold previousDate
  split
  next hlt => exact ⟨hmonth, by dsimp only; omega⟩
  next =>
    split
    next hlt =>
      have hleast := daysIn_le year (month - 1)
      exact ⟨by dsimp only; omega, by dsimp only; omega, Nat.le_refl _⟩
    next => exact ⟨by dsimp only; omega, by dsimp only; omega, by simp [daysIn]⟩

end Dates

/-- Moving a time to UTC by less than a day leaves it one of the calendar and of the day. -/
theorem isDate_shift {t : Timestamp} {offset : Int} (hdate : IsDate (t.year, t.month, t.day))
    (hhour : t.hour ≤ 23) (hminute : t.minute ≤ 59) (hoffset : -1440 < offset ∧ offset < 1440) :
    IsDate ((shift t offset).year, (shift t offset).month, (shift t offset).day) ∧
      (shift t offset).hour ≤ 23 ∧ (shift t offset).minute ≤ 59 ∧
      (shift t offset).second = t.second := by
  have hminutes : ∀ m : Int, 0 ≤ m → m < 1440 → (m / 60).toNat ≤ 23 ∧ (m % 60).toNat ≤ 59 := by
    intro m hlow hhigh
    omega
  -- The time of day falls on the day before, on the day after, or on the day itself.
  unfold shift
  dsimp only
  split
  next hbefore =>
    obtain ⟨hh, hm⟩ := hminutes (((t.hour * 60 + t.minute : Nat) : Int) - offset + 1440)
      (by omega) (by omega)
    exact ⟨isDate_previousDate hdate, hh, hm, rfl⟩
  next hnot =>
    split
    next hafter =>
      obtain ⟨hh, hm⟩ := hminutes (((t.hour * 60 + t.minute : Nat) : Int) - offset - 1440)
        (by omega) (by omega)
      exact ⟨isDate_nextDate hdate, hh, hm, rfl⟩
    next hsame =>
      obtain ⟨hh, hm⟩ := hminutes (((t.hour * 60 + t.minute : Nat) : Int) - offset)
        (by omega) (by omega)
      exact ⟨hdate, hh, hm, rfl⟩

/-- A time in UTC stays as it is. -/
theorem shift_zero {t : Timestamp} (hhour : t.hour ≤ 23) (hminute : t.minute ≤ 59) :
    shift t 0 = t := by
  unfold shift
  dsimp only
  rw [if_neg (by omega), if_neg (by omega)]
  have hh : ((((t.hour * 60 + t.minute : Nat) : Int) - 0) / 60).toNat = t.hour := by omega
  have hm : ((((t.hour * 60 + t.minute : Nat) : Int) - 0) % 60).toNat = t.minute := by omega
  rw [hh, hm]

/-! ### What is read -/

theorem range_of_bounded? {width low high n : Nat} {s rest : List Char}
    (h : bounded? width low high s = some (n, rest)) : low ≤ n ∧ n ≤ high := by
  obtain ⟨⟨m, after⟩, -, hrange⟩ := Option.bind_eq_some_iff.mp h
  dsimp only at hrange
  split at hrange
  next hin =>
    obtain ⟨rfl, -⟩ := Prod.mk.inj (Option.some.inj hrange)
    exact hin
  next => contradiction

theorem range_of_signedOffset? {sign offset : Int} (hsign : sign = 1 ∨ sign = -1)
    {s rest : List Char} (h : signedOffset? sign s = some (offset, rest)) :
    -1440 < offset ∧ offset < 1440 := by
  obtain ⟨⟨hours, _⟩, -, h⟩ := Option.bind_eq_some_iff.mp h
  obtain ⟨⟨minutes, _⟩, -, h⟩ := Option.bind_eq_some_iff.mp h
  dsimp only at h
  split at h
  next hrange =>
    obtain ⟨rfl, -⟩ := Prod.mk.inj (Option.some.inj h)
    rcases hsign with rfl | rfl <;> omega
  next => contradiction

theorem range_of_offset? {offset : Int} {s rest : List Char} (h : offset? s = some (offset, rest)) :
    -1440 < offset ∧ offset < 1440 := by
  unfold offset? at h
  split at h
  · obtain ⟨rfl, -⟩ := Prod.mk.inj (Option.some.inj h)
    decide
  · obtain ⟨rfl, -⟩ := Prod.mk.inj (Option.some.inj h)
    decide
  · exact range_of_signedOffset? (.inl rfl) h
  · exact range_of_signedOffset? (.inr rfl) h
  · exact range_of_signedOffset? (.inr rfl) h
  · split at h
    · obtain ⟨rfl, -⟩ := Prod.mk.inj (Option.some.inj h)
      decide
    · contradiction
  · contradiction

/-- The text after the mark between a date and a time of day. -/
def timeMark? : List Char → Option (List Char)
  | 'T' :: s | 't' :: s | ' ' :: s => some s
  | _ => none

/-- The time on a date that a text gives, moved to UTC. -/
def timeOn? (year : Int) (month day : Nat) (s : List Char) : Option Timestamp := do
  let (hour, s) ← bounded? 2 0 23 s
  let s ← mark? ':' s
  let (minute, s) ← bounded? 2 0 59 s
  let s ← mark? ':' s
  let (second, s) ← bounded? 2 0 60 s
  let s ← skipFraction? s
  let (offset, s) ← offset? (skipBlank s)
  if !(skipBlank s).isEmpty || !isYear year || daysIn year month < day then none
  else
    let t := shift ⟨year, month, day, hour, minute, second⟩ offset
    if isYear t.year then some t else none

theorem parse?_eq (text : String) : parse? text = (do
    let (year, s) ← year? text.toList
    let s ← mark? '-' s
    let (month, s) ← bounded? 2 1 12 s
    let s ← mark? '-' s
    let (day, s) ← bounded? 2 1 31 s
    let s ← timeMark? s
    timeOn? year month day s) := by
  unfold parse?
  refine bind_congr fun ⟨year, s⟩ => bind_congr fun s => bind_congr fun ⟨month, s⟩ => ?_
  refine bind_congr fun s => bind_congr fun ⟨day, s⟩ => ?_
  -- What follows the mark is a continuation of each alternative there, and comes after all of them
  -- here.
  cases s with
  | nil => rfl
  | cons c rest =>
    by_cases hupper : c = 'T'
    · subst hupper
      rfl
    by_cases hlower : c = 't'
    · subst hlower
      rfl
    by_cases hblank : c = ' '
    · subst hblank
      rfl
    simp [timeMark?, hupper, hlower, hblank]

theorem isValid_of_parse? {text : String} {t : Timestamp} (h : parse? text = some t) :
    t.IsValid := by
  rw [parse?_eq] at h
  obtain ⟨⟨year, _⟩, -, h⟩ := Option.bind_eq_some_iff.mp h
  obtain ⟨_, -, h⟩ := Option.bind_eq_some_iff.mp h
  obtain ⟨⟨month, _⟩, hmonth, h⟩ := Option.bind_eq_some_iff.mp h
  obtain ⟨_, -, h⟩ := Option.bind_eq_some_iff.mp h
  obtain ⟨⟨day, _⟩, hday, h⟩ := Option.bind_eq_some_iff.mp h
  obtain ⟨_, -, h⟩ := Option.bind_eq_some_iff.mp h
  obtain ⟨⟨hour, _⟩, hhour, h⟩ := Option.bind_eq_some_iff.mp h
  obtain ⟨_, -, h⟩ := Option.bind_eq_some_iff.mp h
  obtain ⟨⟨minute, _⟩, hminute, h⟩ := Option.bind_eq_some_iff.mp h
  obtain ⟨_, -, h⟩ := Option.bind_eq_some_iff.mp h
  obtain ⟨⟨second, _⟩, hsecond, h⟩ := Option.bind_eq_some_iff.mp h
  obtain ⟨_, -, h⟩ := Option.bind_eq_some_iff.mp h
  obtain ⟨⟨offset, _⟩, hoffset, h⟩ := Option.bind_eq_some_iff.mp h
  dsimp only at h
  split at h
  next => contradiction
  next hdate =>
    split at h
    next hyear =>
      obtain rfl := Option.some.inj h
      have hday' : day ≤ daysIn year month := by
        simp only [Bool.or_eq_true, decide_eq_true_eq, not_or, Nat.not_lt] at hdate
        exact hdate.2
      obtain ⟨⟨hm, hd⟩, hh, hmin, hsec⟩ := isDate_shift
        (t := ⟨year, month, day, hour, minute, second⟩)
        ⟨range_of_bounded? hmonth, (range_of_bounded? hday).1, hday'⟩
        (range_of_bounded? hhour).2 (range_of_bounded? hminute).2 (range_of_offset? hoffset)
      exact ⟨hyear, hm, hd, hh, hmin, hsec ▸ (range_of_bounded? hsecond).2⟩
    next => contradiction

/-! ### What is written -/

theorem bounded?_padded {low high n : Nat} (hlow : low ≤ n) (hhigh : n ≤ high)
    (hhundred : high < 100) {s : List Char} (hs : EndsNumber s) :
    bounded? 2 low high ((padded 2 n).toList ++ s) = some (n, s) := by
  have hlength : (padded 2 n).toList.length ≤ 2 :=
    Nat.le_of_eq (length_padded (by decide) (by omega))
  rw [bounded?, skipBlank_digits (padded_ne_nil 2 n) (isDigit_padded 2 n),
    number?_append (padded_ne_nil 2 n) (isDigit_padded 2 n) hlength hs, digitsValue_padded]
  simp [hlow, hhigh]

theorem mark?_cons {c : Char} (h : Class.isBlank c = false) (s : List Char) :
    mark? c (c :: s) = some s := by
  rw [mark?, skipBlank_cons h]
  simp

/-- The natural numbers that a year is made of are read from digits of any number. -/
theorem number?_padded {width : Nat} {n : Nat} {s : List Char}
    (hwidth : (padded 4 n).toList.length ≤ width) (hs : EndsNumber s) :
    number? width ((padded 4 n).toList ++ s) = some (n, s) := by
  rw [number?_append (padded_ne_nil 4 n) (isDigit_padded 4 n) hwidth hs, digitsValue_padded]

theorem year?_of_digits {n : Nat} (h : n ≤ 9999) {s : List Char} (hs : EndsNumber s) :
    year? ((padded 4 n).toList ++ s) = some ((n : Int), s) := by
  have hnumber : number? 4 ((padded 4 n).toList ++ s) = some (n, s) :=
    number?_padded (Nat.le_of_eq (length_padded (by decide) (by omega))) hs
  obtain ⟨c, rest, hpadded⟩ := List.exists_cons_of_ne_nil (padded_ne_nil 4 n)
  have hdigit : c.isDigit = true := isDigit_padded 4 n c (by simp [hpadded])
  rw [year?, skipBlank_digits (padded_ne_nil 4 n) (isDigit_padded 4 n)]
  rw [hpadded] at hnumber ⊢
  split
  next hsign =>
    obtain ⟨rfl, -⟩ := List.cons.inj hsign
    contradiction
  next hsign =>
    obtain ⟨rfl, -⟩ := List.cons.inj hsign
    contradiction
  next =>
    rw [hnumber]
    rfl

theorem year?_minus (n : Nat) {s : List Char} (hs : EndsNumber s) :
    year? ('-' :: ((padded 4 n).toList ++ s)) = some (-(n : Int), s) := by
  rw [year?, skipBlank_cons (by decide)]
  change (number? _ ((padded 4 n).toList ++ s)).map (fun p => (-(p.1 : Int), p.2)) = _
  rw [number?_padded (by simp) hs]
  rfl

theorem year?_plus (n : Nat) {s : List Char} (hs : EndsNumber s) :
    year? ('+' :: ((padded 4 n).toList ++ s)) = some ((n : Int), s) := by
  rw [year?, skipBlank_cons (by decide)]
  change (number? _ ((padded 4 n).toList ++ s)).map (fun p => ((p.1 : Int), p.2)) = _
  rw [number?_padded (by simp) hs]
  rfl

/-- A year is read from its text. -/
theorem year?_yearText (year : Int) {s : List Char} (hs : EndsNumber s) :
    year? ((yearText year).toList ++ s) = some (year, s) := by
  have hminus : "-".toList = ['-'] := rfl
  have hplus : "+".toList = ['+'] := rfl
  unfold yearText
  split
  next hsmall =>
    rw [year?_of_digits (by omega) hs, Int.toNat_of_nonneg hsmall.1]
  next hlarge =>
    rw [String.toList_append, List.append_assoc]
    split
    next hnegative =>
      have hyear : -((year.natAbs : Nat) : Int) = year := by omega
      rw [hminus, List.singleton_append, year?_minus _ hs, hyear]
    next hpositive =>
      have hyear : ((year.natAbs : Nat) : Int) = year := by omega
      rw [hplus, List.singleton_append, year?_plus _ hs, hyear]

theorem timeOn?_text {t : Timestamp} (h : t.IsValid) :
    timeOn? t.year t.month t.day ((padded 2 t.hour).toList ++
      ':' :: ((padded 2 t.minute).toList ++ ':' :: ((padded 2 t.second).toList ++ ['Z']))) =
        some t := by
  have hcolon : ∀ s, EndsNumber (':' :: s) := endsNumber_cons rfl
  have hzone : EndsNumber ['Z'] := endsNumber_cons rfl []
  have hmark : ∀ s, mark? ':' (':' :: s) = some s := mark?_cons (by decide)
  have hdate : ¬ (!(skipBlank []).isEmpty || !isYear t.year ||
      decide (daysIn t.year t.month < t.day)) = true := by
    simp [skipBlank, h.year, h.day.2]
  refine Option.bind_eq_some_iff.mpr ⟨_, bounded?_padded (Nat.zero_le _) h.hour (by decide)
    (hcolon _), ?_⟩
  refine Option.bind_eq_some_iff.mpr ⟨_, hmark _, ?_⟩
  refine Option.bind_eq_some_iff.mpr ⟨_, bounded?_padded (Nat.zero_le _) h.minute (by decide)
    (hcolon _), ?_⟩
  refine Option.bind_eq_some_iff.mpr ⟨_, hmark _, ?_⟩
  refine Option.bind_eq_some_iff.mpr ⟨_, bounded?_padded (Nat.zero_le _) h.second (by decide)
    hzone, ?_⟩
  refine Option.bind_eq_some_iff.mpr ⟨['Z'], rfl, ?_⟩
  refine Option.bind_eq_some_iff.mpr ⟨(0, []), rfl, ?_⟩
  dsimp only
  rw [if_neg hdate, shift_zero h.hour h.minute, if_pos h.year]

/-- A time is read from its text. -/
theorem parse?_text {t : Timestamp} (h : t.IsValid) : parse? t.text = some t := by
  have htext : t.text.toList = (yearText t.year).toList ++ '-' :: ((padded 2 t.month).toList ++
      '-' :: ((padded 2 t.day).toList ++ 'T' :: ((padded 2 t.hour).toList ++
        ':' :: ((padded 2 t.minute).toList ++ ':' :: ((padded 2 t.second).toList ++ ['Z']))))) := by
    simp [text]
  have hdash : ∀ s, EndsNumber ('-' :: s) := endsNumber_cons rfl
  have htime : ∀ s, EndsNumber ('T' :: s) := endsNumber_cons rfl
  have hmark : ∀ s, mark? '-' ('-' :: s) = some s := mark?_cons (by decide)
  have hday : t.day ≤ 31 := Nat.le_trans h.day.2 (daysIn_le t.year t.month).2
  rw [parse?_eq, htext]
  refine Option.bind_eq_some_iff.mpr ⟨_, year?_yearText t.year (hdash _), ?_⟩
  refine Option.bind_eq_some_iff.mpr ⟨_, hmark _, ?_⟩
  refine Option.bind_eq_some_iff.mpr ⟨_, bounded?_padded h.month.1 h.month.2 (by decide)
    (hdash _), ?_⟩
  refine Option.bind_eq_some_iff.mpr ⟨_, hmark _, ?_⟩
  refine Option.bind_eq_some_iff.mpr ⟨_, bounded?_padded h.day.1 hday (by decide) (htime _), ?_⟩
  exact Option.bind_eq_some_iff.mpr ⟨_, rfl, timeOn?_text h⟩

end SidecarAdmission.Resource.Timestamp
