import SidecarAdmission.Text.Base64

/-!
Armoured blocks in a text. A block stands between two lines that name its label; lines outside of
blocks and blocks with other labels are passed over. Blocks are read up to the first that is wrong:
one without an end, with a bad first line, or whose letters spell no octets.
-/

set_option autoImplicit false
set_option relaxedAutoImplicit false

namespace SidecarAdmission.Tls.Pem

open SidecarAdmission.Text

/-- What a block holds. -/
inductive Label where
  | certificate
  | publicKey
  | rsaPrivateKey
  | privateKey
  | ecPrivateKey
  | revocationList
  | certificateRequest
  | echConfigurations
deriving DecidableEq, Repr, Inhabited

/-- A block that has been read. -/
structure Block where
  label : Label
  content : Octets
deriving DecidableEq, Repr, Inhabited

/-- The blocks before the first that is wrong, and whether there is no such block. -/
structure Reading where
  blocks : List Block
  isSound : Bool
deriving DecidableEq, Repr, Inhabited

/-- The label that a name stands for. -/
def label? (name : Octets) : Option Label :=
  if name = octets "CERTIFICATE" then some .certificate
  else if name = octets "PUBLIC KEY" then some .publicKey
  else if name = octets "RSA PRIVATE KEY" then some .rsaPrivateKey
  else if name = octets "PRIVATE KEY" then some .privateKey
  else if name = octets "EC PRIVATE KEY" then some .ecPrivateKey
  else if name = octets "X509 CRL" then some .revocationList
  else if name = octets "CERTIFICATE REQUEST" then some .certificateRequest
  else if name = octets "ECHCONFIG" then some .echConfigurations
  else none

/-- Whether an octet ends a line. -/
def isBreak (c : UInt8) : Bool := c == 0x0a || c == 0x0d

/-- The lines of a text, read onto a line begun and onto the lines before it, both reversed. -/
def linesOnto (line : Octets) (done : List Octets) : Octets → List Octets
  | [] => (line.reverse :: done).reverse
  | c :: rest =>
    if isBreak c then linesOnto [] (line.reverse :: done) rest else linesOnto (c :: line) done rest

/-- The lines of a text. -/
def lines (text : Octets) : List Octets := linesOnto [] [] text

/-- The marks before the name in the first line of a block. -/
def opening : Octets := octets "-----BEGIN "

/-- The marks before the name in the last line of a block. -/
def closing : Octets := octets "-----END "

/-- The marks after the name. -/
def dashes : Octets := octets "-----"

/-- The number of dashes at the end of a line, spaces left out, and what stands before them; the
line is reversed. -/
def trailer (count : Nat) (before : Octets) : Octets → Nat × Octets
  | 0x2d :: rest => trailer (count + 1) rest rest
  | 0x20 :: rest => trailer count before rest
  | _ => (count, before)

/-- The name in the first line of a block, if that ends with five dashes. -/
def nameOf? (line : Octets) : Option Octets :=
  match trailer 0 line.reverse line.reverse with
  | (5, before) => some (before.reverse.drop opening.length)
  | _ => none

/-- The octets that the letters of a block spell: blanks do not count, and padding may be
missing. -/
def content? (letters : Octets) : Option Octets :=
  let letters := letters.filter fun c => !(isBreak c || c == 0x20 || c == 0x09)
  let body := letters.takeWhile (· != Base64.pad)
  let padding := letters.drop body.length
  let isPadded :=
    padding.all (· == Base64.pad)
      && (padding.isEmpty || (body.length + padding.length) % 4 == 0)
  if isPadded && padding.length ≤ 2 then Base64.decodeUnpadded? body else none

/-- The blocks of lines, read onto those already read, which stand reversed: the name of the block
that has begun and the letters kept for it. -/
def blocksOnto (name : Option Octets) (letters : Octets) (done : List Block) : List Octets → Reading
  | [] => ⟨done.reverse, name.isNone⟩
  | line :: rest =>
    if opening.isPrefixOf line then
      match nameOf? line with
      | some n => blocksOnto (some n) letters done rest
      | none => ⟨done.reverse, false⟩
    else
      match name with
      | none => blocksOnto none letters done rest
      | some n =>
        if (closing ++ n ++ dashes).isPrefixOf line then
          match label? n with
          | none => blocksOnto none [] done rest
          | some label =>
            match content? letters with
            | some content => blocksOnto none [] (⟨label, content⟩ :: done) rest
            | none => ⟨done.reverse, false⟩
        else blocksOnto (some n) (letters ++ line) done rest

/-- The blocks of a text. -/
def read (text : Octets) : Reading := blocksOnto none [] [] (lines text)

end SidecarAdmission.Tls.Pem
