import ModuleAudit.Decimal.Shortest

/-
The text of a floating point number: the shortest digits that read back, in one of two notations.
-/

namespace ModuleAudit
namespace Decimal

/-- How numbers are written out. -/
structure Format where
  /-- Points above this are positional. -/
  leastPoint : Int
  /-- Points up to this are positional. -/
  greatestPoint : Int
  /-- The least number of digits of an exponent. -/
  exponentWidth : Nat
  infinity : String
  notANumber : String

/-- Positional notation for numbers from `0.0001` up to sixteen places, with a place after the
point; otherwise an exponent of at least two digits with its sign. -/
def format : Format :=
  { leastPoint := -4, greatestPoint := 16, exponentWidth := 2, infinity := "inf",
    notANumber := "nan" }

namespace Format

/-- Digits with the point among them, zeros filled in. -/
def positional (d : Digits) : List Char :=
  if d.point ≤ 0 then ['0', '.'] ++ List.replicate d.point.natAbs '0' ++ d.digits
  else
    let whole := d.point.natAbs
    let fraction := d.digits.drop whole
    d.digits.take whole ++ List.replicate (whole - d.digits.length) '0' ++ ['.'] ++
      (if fraction.isEmpty then ['0'] else fraction)

/-- One digit before the point, and the exponent. -/
def exponential (f : Format) (d : Digits) : List Char :=
  let exponent := d.point - 1
  let sign := if exponent < 0 then '-' else '+'
  let digits := Nat.toDigits 10 exponent.natAbs
  let fraction := d.digits.drop 1
  d.digits.take 1 ++ (if fraction.isEmpty then [] else '.' :: fraction) ++
    ['e', sign] ++ List.replicate (f.exponentWidth - digits.length) '0' ++ digits

def digits (f : Format) (d : Digits) : List Char :=
  if f.leastPoint < d.point && d.point ≤ f.greatestPoint then positional d else f.exponential d

/-- The text of a number. -/
def write (f : Format) (x : Binary64) : String :=
  let signed := fun (negative : Bool) (text : String) => if negative then "-" ++ text else text
  match x with
  | .finite negative m e => signed negative (String.ofList (f.digits (shortest m e)))
  | .infinity negative => signed negative f.infinity
  | .notANumber => f.notANumber

end Format
end Decimal
end ModuleAudit
