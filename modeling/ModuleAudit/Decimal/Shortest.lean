import ModuleAudit.Decimal.Binary64

/-
The shortest decimal that reads back as a given number.

The numbers that round to a given one form an interval around it, its ends included if the
mantissa is even.  For a growing count of digits the two decimals with that many digits next to
the number are compared with the interval; the first that lies in it is taken, and of two the
nearer.
-/

namespace ModuleAudit
namespace Decimal

/-- The digits of a number and the place of its point: `0.digits * 10 ^ point`. -/
structure Digits where
  digits : List Char
  point : Int
  deriving DecidableEq, Repr

/-- The fraction `m * 2 ^ e`. -/
def fraction (m : Nat) (e : Int) : Nat × Nat :=
  if e < 0 then (m, Nat.pow 2 e.natAbs) else (m * Nat.pow 2 e.natAbs, 1)

/-- `10 ^ k` as a fraction. -/
def powerOfTen (k : Int) : Nat × Nat :=
  if k < 0 then (1, Nat.pow 10 k.natAbs) else (Nat.pow 10 k.natAbs, 1)

/-- `a ≤ b` for fractions. -/
def le (a b : Nat × Nat) : Bool := a.1 * b.2 ≤ b.1 * a.2

def lt (a b : Nat × Nat) : Bool := a.1 * b.2 < b.1 * a.2

/-- The decimals `q * 10 ^ k` that round to a number. -/
structure Interval where
  low : Nat × Nat
  high : Nat × Nat
  closed : Bool

/-- The interval around `m * 2 ^ e`.  Below a power of two the next smaller number is nearer. -/
def Interval.around (m : Nat) (e : Int) : Interval :=
  let narrow := m == Nat.pow 2 52 && Binary64.leastExponent < e
  { low := if narrow then fraction (4 * m - 1) (e - 2) else fraction (2 * m - 1) (e - 1)
    high := fraction (2 * m + 1) (e - 1)
    closed := m % 2 == 0 }

def Interval.contains (i : Interval) (x : Nat × Nat) : Bool :=
  if i.closed then le i.low x && le x i.high else lt i.low x && lt x i.high

/-- The decimal `q * 10 ^ k` as a fraction. -/
def point (q : Nat) (k : Int) : Nat × Nat :=
  let (n, d) := powerOfTen k
  (q * n, d)

/-- The power of ten of the first digit of a fraction, found from a guess at or above it. -/
def leading (value : Nat × Nat) : (room : Nat) → Int → Int
  | 0, guess => guess
  | room + 1, guess =>
    if le (powerOfTen guess) value then guess else leading value room (guess - 1)

/-- The decimal with unit `10 ^ k` next to the value that lies in the interval, if one does. -/
def candidate (i : Interval) (value : Nat × Nat) (k : Int) : Option Nat :=
  let (n, d) := powerOfTen k
  let q := value.1 * d / (value.2 * n)
  let lower := i.contains (point q k) && 0 < q
  let upper := i.contains (point (q + 1) k)
  -- Twice the value against the middle of the two candidates.
  let middle := point (2 * q + 1) k
  let twice := (2 * value.1, value.2)
  if lower && upper then
    if lt twice middle then some q
    else if lt middle twice then some (q + 1)
    else some (if q % 2 == 0 then q else q + 1)
  else if lower then some q
  else if upper then some (q + 1)
  else none

/-- Tries one more digit at a time, from the unit `10 ^ k` down. -/
def search (i : Interval) (value : Nat × Nat) : (room : Nat) → Int → Nat × Int
  | 0, k => (0, k)
  | room + 1, k =>
    match candidate i value k with
    | some q => (q, k)
    | none => search i value room (k - 1)

/-- The shortest digits of `m * 2 ^ e`. -/
def shortest (m : Nat) (e : Int) : Digits :=
  if m == 0 then { digits := ['0'], point := 1 }
  else
    let value := fraction m e
    let first := leading value 700 310
    let (q, k) := search (Interval.around m e) value 20 first
    let all := Nat.toDigits 10 q
    let kept := (all.reverse.dropWhile (· == '0')).reverse
    { digits := kept, point := all.length + k }

end Decimal
end ModuleAudit
