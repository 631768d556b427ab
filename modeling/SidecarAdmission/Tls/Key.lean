import SidecarAdmission.Tls.Der
import SidecarAdmission.Tls.Pem

/-!
Private keys. A key is usable if it is well formed and of a known algorithm, and its numbers are
those of a key: a number below the order of the curve, or numbers of RSA that belong together. A
public key that is written beside a private one is not looked at.
-/

set_option autoImplicit false
set_option relaxedAutoImplicit false

namespace SidecarAdmission.Tls

open SidecarAdmission.Text

/-- The algorithms with which a key can sign. -/
inductive Algorithm where
  | rsa
  | ecdsa
  | ed25519
deriving DecidableEq, Repr, Inhabited

/-- The name of an algorithm. -/
def Algorithm.name : Algorithm → String
  | .rsa => "RSA"
  | .ecdsa => "ECDSA"
  | .ed25519 => "ED25519"

namespace Key

open SidecarAdmission.Tls.Der

/-- The identifier of RSA. -/
def rsaIdentifier : Octets := [0x2a, 0x86, 0x48, 0x86, 0xf7, 0x0d, 0x01, 0x01, 0x01]

/-- The identifier of keys on elliptic curves. -/
def ecIdentifier : Octets := [0x2a, 0x86, 0x48, 0xce, 0x3d, 0x02, 0x01]

/-- The identifier of Ed25519. -/
def ed25519Identifier : Octets := [0x2b, 0x65, 0x70]

/-- A curve: its identifier, the length of its private keys in octets, and its order. -/
structure Curve where
  identifier : Octets
  length : Nat
  order : Nat
deriving DecidableEq, Repr, Inhabited

namespace Curve

/-- The curve P-256. -/
def p256 : Curve where
  identifier := [0x2a, 0x86, 0x48, 0xce, 0x3d, 0x03, 0x01, 0x07]
  length := 32
  order := 0xffffffff00000000ffffffffffffffffbce6faada7179e84f3b9cac2fc632551

/-- The curve P-384. -/
def p384 : Curve where
  identifier := [0x2b, 0x81, 0x04, 0x00, 0x22]
  length := 48
  order := Nat.pow 2 384 - 0x389cb27e0bc8d220a7e5f24db74f58851313e695333ad68d

/-- The curve P-521. -/
def p521 : Curve where
  identifier := [0x2b, 0x81, 0x04, 0x00, 0x23]
  length := 66
  order := Nat.pow 2 521 - 0x5ae79787c40d069948033feb708f65a2fc44a36477663b851449048e16ec79bf7

/-- The curves in use. -/
def all : List Curve := [p256, p384, p521]

/-- Whether octets are a private key of a curve: a number from 1 on and below the order. -/
def isKey (c : Curve) (bs : Octets) : Bool :=
  bs.length == c.length && 0 < number bs && number bs < c.order

end Curve

/-- Whether an integer is the given one of one octet. -/
def isSmall (n : UInt8) (e : Element) : Bool := e == ⟨integerTag, [n]⟩

/-- The numbers of an RSA key, as they are written one after the other. -/
structure RsaNumbers where
  modulus : Nat
  publicExponent : Nat
  privateExponent : Nat
  factor : Nat
  cofactor : Nat
  exponent : Nat
  coexponent : Nat
  coefficient : Nat
deriving DecidableEq, Repr, Inhabited

/-- Whether the numbers of an RSA key belong together and are as large as they may be: the modulus
is the product of the factors; modulo each factor less one the public exponent is undone by the
private one and by the one of that factor; and the coefficient is the inverse of the cofactor. -/
def RsaNumbers.isKey (k : RsaNumbers) : Bool :=
  Nat.pow 2 2047 ≤ k.modulus && k.modulus < Nat.pow 2 8192
    && 1 < k.publicExponent && k.publicExponent < Nat.pow 2 33 && k.publicExponent % 2 == 1
    && k.modulus == k.factor * k.cofactor
    && k.publicExponent * k.privateExponent % (k.factor - 1) == 1
    && k.publicExponent * k.privateExponent % (k.cofactor - 1) == 1
    && k.exponent == k.privateExponent % (k.factor - 1)
    && k.coexponent == k.privateExponent % (k.cofactor - 1)
    && k.coefficient < k.factor && k.cofactor * k.coefficient % k.factor == 1

/-- Whether a text is an RSA key: a version and eight numbers. -/
def isRsa (bs : Octets) : Bool :=
  match sequence? bs with
  | some (version :: numbers) =>
    isSmall 0 version
      && (match numbers.mapM natural? with
          | some [n, e, d, p, q, dp, dq, r] => RsaNumbers.isKey ⟨n, e, d, p, q, dp, dq, r⟩
          | _ => false)
  | _ => false

/-- The curve that a parameter names. -/
def curve? (e : Element) : Option Curve :=
  if e.tag = identifierTag then Curve.all.find? (·.identifier == e.content) else none

/-- Whether a text is a key on one of some curves; if it names a curve itself, it must be that. -/
def isEc (curves : List Curve) (bs : Octets) : Bool :=
  match sequence? bs with
  | some (version :: key :: rest) =>
    let named :=
      (rest.find? (·.tag == 0xa0)).map fun e => (element? e.content).bind fun p => curve? p.1
    isSmall 1 version && key.tag == octetsTag
      && curves.any fun c => c.isKey key.content && named.all (· == some c)
  | _ => false

/-- The algorithm of a key that names its own. -/
def wrapped? (bs : Octets) : Option Algorithm :=
  match sequence? bs with
  | some (version :: algorithm :: key :: _) =>
    if version.tag = integerTag ∧ algorithm.tag = sequenceTag ∧ key.tag = octetsTag then
      match elements? algorithm.content.length algorithm.content with
      | some (identifier :: parameters) =>
        if identifier.tag ≠ identifierTag then none
        else if identifier.content = rsaIdentifier then
          if isRsa key.content then some .rsa else none
        else if identifier.content = ecIdentifier then
          match (parameters.head?).bind curve? with
          | some c => if isEc [c] key.content then some .ecdsa else none
          | none => none
        else if identifier.content = ed25519Identifier then
          match element? key.content with
          | some (e, []) =>
            if e.tag = octetsTag ∧ e.content.length = 32 then some .ed25519 else none
          | _ => none
        else none
      | _ => none
    else none
  | _ => none

/-- Whether a block holds a private key. -/
def isPrivate (b : Pem.Block) : Bool :=
  b.label == .rsaPrivateKey || b.label == .privateKey || b.label == .ecPrivateKey

/-- The algorithm of the private key in a block, if the key is usable. -/
def algorithm? (b : Pem.Block) : Option Algorithm :=
  match b.label with
  | .rsaPrivateKey => if isRsa b.content then some .rsa else none
  | .ecPrivateKey => if isEc Curve.all b.content then some .ecdsa else none
  | .privateKey => wrapped? b.content
  | _ => none

end Key

end SidecarAdmission.Tls
