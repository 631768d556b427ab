import SidecarAdmission.Number.Binary64

/-!
The shortest decimal text of a number: the fewest digits that read back as the number, and of those
the ones nearest to it. Up to sixteen digits before the point and five zeros after it are written in
full, other numbers with an exponent.
-/

set_option autoImplicit false
set_option relaxedAutoImplicit false

namespace SidecarAdmission.Number.Shortest

open SidecarAdmission.Number

/-- The bounds of what rounds to a positive number, in quarters of the unit of its last digit, and
the number itself between them. -/
def bounds (x : Binary64) : Nat × Nat × Nat :=
  let low := if x.mantissa = Nat.pow 2 52 ∧ x.exponent ≠ Binary64.leastExponent then 1 else 2
  (4 * x.mantissa - low, 4 * x.mantissa, 4 * x.mantissa + 2)

/-- A power of ten that is no smaller than the unit of the first digit of a positive ratio, and at
most one step too large. -/
def firstUnit (num den : Nat) : Int :=
  if den ≤ num then ((Nat.toDigits 10 (num / den)).length : Int) - 1
  else 1 - ((Nat.toDigits 10 (den / num)).length : Int)

/-- The ratio `num / den` in units of `10 ^ unit`, as a numerator and a denominator. -/
def gridRatio (num den : Nat) (unit : Int) : Nat × Nat :=
  if 0 ≤ unit then (num, den * Nat.pow 10 unit.toNat) else (num * Nat.pow 10 (-unit).toNat, den)

/-- The digits of the grid with the given unit that lie nearest to the number, among those that read
back as it. -/
def candidate? (x : Binary64) (unit : Int) : Option Nat :=
  let (low, mid, high) := bounds x
  let e := x.exponent - 2
  let scale (q : Nat) : Nat × Nat :=
    if 0 ≤ e then gridRatio (q * Nat.pow 2 e.toNat) 1 unit
    else gridRatio q (Nat.pow 2 (-e).toNat) unit
  let (lowNum, den) := scale low
  let (midNum, _) := scale mid
  let (highNum, _) := scale high
  let isIn (d : Nat) : Bool :=
    if x.mantissa % 2 = 0 then lowNum ≤ d * den && d * den ≤ highNum
    else lowNum < d * den && d * den < highNum
  let below := midNum / den
  let above := below + 1
  match isIn below, isIn above with
  | true, true =>
    let down := midNum - below * den
    let up := above * den - midNum
    if down < up then some below
    else if up < down then some above
    else if below % 2 = 0 then some below else some above
  | true, false => some below
  | false, true => some above
  | false, false => none

/-- The first grid, from coarse to fine, that holds digits which read back. -/
def search (x : Binary64) (unit : Int) : Nat → Nat × Int
  | 0 => ((candidate? x unit).getD 0, unit)
  | more + 1 =>
    match candidate? x unit with
    | some d => if d = 0 then search x (unit - 1) more else (d, unit)
    | none => search x (unit - 1) more

/-- Digits without zeros at their end, and the unit of the last of them. -/
def strip (d : Nat) (unit : Int) : Nat → Nat × Int
  | 0 => (d, unit)
  | more + 1 => if d % 10 = 0 ∧ d ≠ 0 then strip (d / 10) (unit + 1) more else (d, unit)

/-- The shortest digits of a positive number and the power of ten that they count. -/
def digits (x : Binary64) : Nat × Int :=
  let (num, den) := x.ratio
  let (d, unit) := search x (firstUnit num den) 18
  strip d unit 17

/-- A row of zeros. -/
def zeros (n : Nat) : List Char := List.replicate n '0'

/-- The text of a number that is not negative. -/
def text (x : Binary64) : String :=
  if x.mantissa = 0 then "0.0"
  else
    let (d, unit) := digits x
    let ds := Nat.toDigits 10 d
    let point : Int := ds.length + unit
    if 0 ≤ unit ∧ point ≤ 16 then String.ofList (ds ++ zeros unit.toNat ++ ['.', '0'])
    else if 0 < point ∧ point ≤ 16 then
      String.ofList (ds.take point.toNat ++ '.' :: ds.drop point.toNat)
    else if -5 < point ∧ point ≤ 0 then
      String.ofList ('0' :: '.' :: (zeros (-point).toNat ++ ds))
    else
      match ds with
      | [c] => String.ofList [c] ++ "e" ++ toString (point - 1)
      | c :: rest => String.ofList (c :: '.' :: rest) ++ "e" ++ toString (point - 1)
      | [] => "0.0"

end SidecarAdmission.Number.Shortest
