/-!
Addresses of sockets: four numbers and a port, or eight in brackets and a port.
-/

set_option autoImplicit false
set_option relaxedAutoImplicit false

namespace SidecarAdmission.Network

/-- An address of a host. -/
inductive Host where
  | v4 (a b c d : Nat)
  | v6 (groups : List Nat)
deriving DecidableEq, Repr, Inhabited

/-- An address of a socket. -/
structure Address where
  host : Host
  port : Nat
deriving DecidableEq, Repr, Inhabited

namespace Address

/-- The value of a digit in a base. -/
def digit? (base : Nat) (c : Char) : Option Nat :=
  let v? : Option Nat :=
    if '0' ≤ c ∧ c ≤ '9' then some (c.toNat - '0'.toNat)
    else if 'a' ≤ c ∧ c ≤ 'z' then some (c.toNat - 'a'.toNat + 10)
    else if 'A' ≤ c ∧ c ≤ 'Z' then some (c.toNat - 'A'.toNat + 10)
    else none
  v?.bind fun v => if v < base then some v else none

/-- The number at the head of a text, of at most some digits and below a limit, and what follows. -/
def number? (base limit : Nat) (width : Option Nat) (padded : Bool) (s : List Char) :
    Option (Nat × List Char) :=
  let ds := s.takeWhile fun c => (digit? base c).isSome
  let n := ds.foldl (fun n c => n * base + (digit? base c).getD 0) 0
  if ds.isEmpty || width.any (· < ds.length) || limit ≤ n
      || (!padded && 1 < ds.length && ds.head? == some '0') then none
  else some (n, s.drop ds.length)

/-- What follows a mark. -/
def after? (c : Char) : List Char → Option (List Char)
  | d :: rest => if d = c then some rest else none
  | [] => none

/-- One of four numbers. -/
def octet? (s : List Char) : Option (Nat × List Char) := number? 10 256 (some 3) false s

/-- Four numbers with points between them. -/
def fourNumbers? (s : List Char) : Option ((Nat × Nat × Nat × Nat) × List Char) := do
  let (a, s) ← octet? s
  let (b, s) ← octet? (← after? '.' s)
  let (c, s) ← octet? (← after? '.' s)
  let (d, s) ← octet? (← after? '.' s)
  some ((a, b, c, d), s)

/-- At most `limit` numbers with colons between them, the last two perhaps written as four, whether
they are, and what follows. -/
def groups (isFirst : Bool) : Nat → List Char → List Nat × Bool × List Char
  | 0, s => ([], false, s)
  | limit + 1, s =>
    match if isFirst then some s else after? ':' s with
    | none => ([], false, s)
    | some t =>
      match if limit = 0 then none else fourNumbers? t with
      | some ((a, b, c, d), rest) => ([a * 256 + b, c * 256 + d], true, rest)
      | none =>
        match number? 16 65536 (some 4) true t with
        | some (g, rest) =>
          let (more, isFour, rest) := groups false limit rest
          (g :: more, isFour, rest)
        | none => ([], false, s)

/-- Eight numbers, a row of zeros of which may be left out. -/
def eightNumbers? (s : List Char) : Option (List Nat × List Char) := do
  let (head, isFour, rest) := groups true 8 s
  if head.length = 8 then some (head, rest)
  else if isFour then none
  else
    let rest ← after? ':' rest
    let rest ← after? ':' rest
    let (tail, _, rest) := groups true (7 - head.length) rest
    some (head ++ List.replicate (8 - head.length - tail.length) 0 ++ tail, rest)

/-- The port after a host, which must be the end. -/
def port? (s : List Char) : Option Nat := do
  let (port, rest) ← number? 10 65536 none true (← after? ':' s)
  if rest.isEmpty then some port else none

/-- The zone of a host in brackets, which does not matter. -/
def skipZone? (s : List Char) : Option (List Char) :=
  match s with
  | '%' :: rest => (number? 10 (Nat.pow 2 32) none true rest).map (·.2)
  | s => some s

/-- The address that a text spells, if it spells one. -/
def parse? (text : String) : Option Address :=
  match text.toList with
  | '[' :: s => do
    let (groups, s) ← eightNumbers? s
    let s ← skipZone? s
    let port ← port? (← after? ']' s)
    some ⟨.v6 groups, port⟩
  | s => do
    let ((a, b, c, d), s) ← fourNumbers? s
    let port ← port? s
    some ⟨.v4 a b c d, port⟩

end Address

end SidecarAdmission.Network
