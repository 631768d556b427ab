import SidecarAdmission.Text.Octets

/-!
The standard base64 alphabet with padding. Reading is strict: the length is a multiple of four, only
the last group may be padded, and the bits that padding leaves over are zero, so that no octet
string has two spellings.
-/

set_option autoImplicit false
set_option relaxedAutoImplicit false

namespace SidecarAdmission.Text.Base64

open SidecarAdmission.Text

/-- The letter for a number below sixty-four. -/
def letter (n : Nat) : UInt8 :=
  if n < 26 then (0x41 + n).toUInt8
  else if n < 52 then (0x61 + (n - 26)).toUInt8
  else if n < 62 then (0x30 + (n - 52)).toUInt8
  else if n = 62 then 0x2b
  else 0x2f

/-- The number that a letter of the alphabet stands for. -/
def value? (c : UInt8) : Option Nat :=
  if 0x41 ≤ c ∧ c ≤ 0x5a then some (c.toNat - 0x41)
  else if 0x61 ≤ c ∧ c ≤ 0x7a then some (c.toNat - 0x61 + 26)
  else if 0x30 ≤ c ∧ c ≤ 0x39 then some (c.toNat - 0x30 + 52)
  else if c = 0x2b then some 62
  else if c = 0x2f then some 63
  else none

/-- The padding mark, an equals sign. -/
def pad : UInt8 := 0x3d

/-- The letters of an octet string, three octets to four letters. -/
def encode : Octets → Octets
  | [] => []
  | [a] => [letter (a.toNat / 4), letter (a.toNat % 4 * 16), pad, pad]
  | [a, b] =>
    [letter (a.toNat / 4), letter (a.toNat % 4 * 16 + b.toNat / 16), letter (b.toNat % 16 * 4), pad]
  | a :: b :: c :: rest =>
    letter (a.toNat / 4) :: letter (a.toNat % 4 * 16 + b.toNat / 16)
      :: letter (b.toNat % 16 * 4 + c.toNat / 64) :: letter (c.toNat % 64) :: encode rest

/-- The octets of four letters without padding. -/
def group? (a b c d : UInt8) : Option Octets := do
  let a ← value? a
  let b ← value? b
  let c ← value? c
  let d ← value? d
  some [(a * 4 + b / 16).toUInt8, (b % 16 * 16 + c / 4).toUInt8, (c % 4 * 64 + d).toUInt8]

/-- The octets of the last four letters, which may be padded. -/
def lastGroup? (a b c d : UInt8) : Option Octets :=
  if d = pad then
    if c = pad then do
      let a ← value? a
      let b ← value? b
      if b % 16 = 0 then some [(a * 4 + b / 16).toUInt8] else none
    else do
      let a ← value? a
      let b ← value? b
      let c ← value? c
      if c % 4 = 0 then some [(a * 4 + b / 16).toUInt8, (b % 16 * 16 + c / 4).toUInt8] else none
  else group? a b c d

/-- The octets that the letters spell, read onto those already read, which stand reversed. -/
def decodeOnto (done : Octets) : Octets → Option Octets
  | [] => some done.reverse
  | [a, b, c, d] => (lastGroup? a b c d).map (done.reverse ++ ·)
  | a :: b :: c :: d :: rest =>
    match group? a b c d with
    | some octets => decodeOnto (octets.reverse ++ done) rest
    | none => none
  | _ => none

/-- The octets that the letters spell, if they spell any. -/
def decode? (letters : Octets) : Option Octets := decodeOnto [] letters

/-- The octets that letters without padding spell; bits that are left over do not count. -/
def decodeUnpadded? (letters : Octets) : Option Octets :=
  match letters with
  | [] => some []
  | [_] => none
  | [a, b] => do
    let a ← value? a
    let b ← value? b
    some [(a * 4 + b / 16).toUInt8]
  | [a, b, c] => do
    let a ← value? a
    let b ← value? b
    let c ← value? c
    some [(a * 4 + b / 16).toUInt8, (b % 16 * 16 + c / 4).toUInt8]
  | a :: b :: c :: d :: rest => do
    let octets ← group? a b c d
    let more ← decodeUnpadded? rest
    some (octets ++ more)

end SidecarAdmission.Text.Base64
