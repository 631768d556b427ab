/-!
Binary floating point numbers of 53 digits, without sign, infinity or not-a-number, in exact
arithmetic. Every operation rounds the exact result to the nearest number, a tie to the even one,
and has no result where that number would be too large.
-/

set_option autoImplicit false
set_option relaxedAutoImplicit false

namespace SidecarAdmission.Number

/-- The number `mantissa * 2 ^ exponent`, with a mantissa below `2 ^ 53` and an exponent of at least
-1074; the mantissa has 53 digits unless the exponent is the least. -/
structure Binary64 where
  mantissa : Nat
  exponent : Int
deriving DecidableEq, Repr, Inhabited

namespace Binary64

/-- The least exponent. -/
def leastExponent : Int := -1074

/-- The greatest exponent. -/
def greatestExponent : Int := 971

/-- The quotient to the nearest integer, a tie to the even one. -/
def roundDiv (num den : Nat) : Nat :=
  let q := num / den
  let twice := 2 * (num % den)
  if twice < den then q
  else if den < twice then q + 1
  else if q % 2 = 0 then q else q + 1

/-- The quotient of `num / den` and a power of two, to the nearest integer. -/
def scaledDiv (num den : Nat) (e : Int) : Nat :=
  if 0 ≤ e then roundDiv num (den * Nat.pow 2 e.toNat)
  else roundDiv (num * Nat.pow 2 (-e).toNat) den

/-- The exponent that leaves 53 digits of a positive ratio before the point. -/
def ratioExponent (num den : Nat) : Int :=
  let guess : Int := (num.log2 : Int) - (den.log2 : Int) - 52
  let small : Bool :=
    if 0 ≤ guess then num < den * Nat.pow 2 guess.toNat * Nat.pow 2 52
    else num * Nat.pow 2 (-guess).toNat < den * Nat.pow 2 52
  max leastExponent (if small then guess - 1 else guess)

/-- The number nearest to the ratio of two integers, unless it is too large. -/
def ofRatio? (num den : Nat) : Option Binary64 :=
  if num = 0 then some ⟨0, leastExponent⟩
  else
    let e := ratioExponent num den
    let m := scaledDiv num den e
    let r : Binary64 := if m = Nat.pow 2 53 then ⟨Nat.pow 2 52, e + 1⟩ else ⟨m, e⟩
    if greatestExponent < r.exponent then none else some r

/-- The number nearest to a decimal fraction `digits * 10 ^ exponent`. -/
def ofDecimal? (digits : Nat) (exponent : Int) : Option Binary64 :=
  if 0 ≤ exponent then ofRatio? (digits * Nat.pow 10 exponent.toNat) 1
  else ofRatio? digits (Nat.pow 10 (-exponent).toNat)

/-- A number as a ratio of integers. -/
def ratio (x : Binary64) : Nat × Nat :=
  if 0 ≤ x.exponent then (x.mantissa * Nat.pow 2 x.exponent.toNat, 1)
  else (x.mantissa, Nat.pow 2 (-x.exponent).toNat)

/-- The product of two numbers. -/
def mul? (x y : Binary64) : Option Binary64 :=
  ofRatio? (x.ratio.1 * y.ratio.1) (x.ratio.2 * y.ratio.2)

/-- The quotient of two numbers, the second of them positive. -/
def div? (x y : Binary64) : Option Binary64 :=
  ofRatio? (x.ratio.1 * y.ratio.2) (x.ratio.2 * y.ratio.1)

end Binary64

end SidecarAdmission.Number
