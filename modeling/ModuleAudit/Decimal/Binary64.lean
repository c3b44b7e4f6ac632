/-
Binary floating point numbers of 64 bits, as exact values.

A finite number is a sign, a whole number below `2 ^ 53` and a power of two.  Reading a decimal
rounds to the nearest number of this kind, an exact half to the even neighbour.
-/

namespace ModuleAudit

inductive Binary64 where
  /-- The number `mantissa * 2 ^ exponent`, negated if `negative`. -/
  | finite (negative : Bool) (mantissa : Nat) (exponent : Int)
  | infinity (negative : Bool)
  | notANumber
  deriving DecidableEq, Repr

namespace Binary64

/-- The exponent of the smallest numbers. -/
def leastExponent : Int := -1074

/-- The exponent of the largest numbers. -/
def greatestExponent : Int := 971

/-- A quotient rounded to the nearest whole number, a half to the even one. -/
def roundQuotient (num den : Nat) : Nat :=
  let q := num / den
  let r := num % den
  if 2 * r < den then q
  else if den < 2 * r then q + 1
  else if q % 2 == 0 then q else q + 1

/-- `num / den / 2 ^ exponent` as a fraction. -/
def scale (num den : Nat) (exponent : Int) : Nat × Nat :=
  let power := Nat.pow 2 exponent.natAbs
  if exponent < 0 then (num * power, den) else (num, den * power)

/-- An exponent for which the scaled fraction is below `2 ^ 53` and, unless the exponent is the
least one, not below `2 ^ 52`. -/
def exponentFor (num den : Nat) : Int :=
  let guess : Int := (num.log2 : Int) - (den.log2 : Int) - 52
  let (n, d) := scale num den guess
  let exact := if n < d * Nat.pow 2 52 then guess - 1 else guess
  max exact leastExponent

/-- The number nearest to a positive fraction. -/
def ofFraction (negative : Bool) (num den : Nat) : Binary64 :=
  let exponent := exponentFor num den
  let (n, d) := scale num den exponent
  let m := roundQuotient n d
  let (m, exponent) := if m == Nat.pow 2 53 then (Nat.pow 2 52, exponent + 1) else (m, exponent)
  if greatestExponent < exponent then .infinity negative else .finite negative m exponent

/-- The number nearest to `digits * 10 ^ power`.  Numbers far out of range are settled by their
size alone. -/
def ofDecimal (negative : Bool) (digits : Nat) (power : Int) : Binary64 :=
  let size : Int := (Nat.toDigits 10 digits).length + power
  if digits == 0 || size < -330 then .finite negative 0 leastExponent
  else if 310 < size then .infinity negative
  else if power < 0 then ofFraction negative digits (Nat.pow 10 power.natAbs)
  else ofFraction negative (digits * Nat.pow 10 power.natAbs) 1

end Binary64
end ModuleAudit
