/-
  Decimal numbers as the engine carries them: a coefficient and a power of ten.

  Two decimals may be numerically equal and still be written differently
  (`10.5` and `10.50`), so the structure keeps the exponent and `Decimal.numEq`
  is the numeric comparison the code makes with `==`. Comparisons align the
  exponents and compare integers; no rounding is involved.

  `numeric` is the store's `NUMERIC(18,6)` column (half away from zero); `quantize` and
  `quantizeDiv`, `(amount / n).quantize(0.000001)`, round half to even. The division rounds to
  the 28 digits of the default context first, and a `quantize` that needs more than those
  raises (`fitsQuantum`). Products are exact: the context is not modelled for them.
-/
import Mathlib.Algebra.Order.Ring.Int

namespace ExecutionEngine

/-- `coeff * 10 ^ exp`. -/
structure Decimal where
  coeff : Int
  exp : Int
  deriving DecidableEq, Repr

namespace Decimal

/-- An integer as a decimal. -/
def ofInt (n : Int) : Decimal := ⟨n, 0⟩

def zero : Decimal := ofInt 0

/-- The coefficient after lowering the exponent to `e` (meant for `e ≤ d.exp`). -/
def scaledTo (d : Decimal) (e : Int) : Int := d.coeff * 10 ^ (d.exp - e).toNat

/-- `a == b` on values. -/
def numEq (a b : Decimal) : Bool :=
  a.scaledTo (min a.exp b.exp) = b.scaledTo (min a.exp b.exp)

/-- `a < b` on values. -/
def lt (a b : Decimal) : Bool :=
  a.scaledTo (min a.exp b.exp) < b.scaledTo (min a.exp b.exp)

/-- `d > 0`. -/
def isPos (d : Decimal) : Bool := 0 < d.coeff

/-- `d * n` for an integer `n`. -/
def mulInt (d : Decimal) (n : Int) : Decimal := ⟨d.coeff * n, d.exp⟩

def mul (a b : Decimal) : Decimal := ⟨a.coeff * b.coeff, a.exp + b.exp⟩

def add (a b : Decimal) : Decimal :=
  ⟨a.scaledTo (min a.exp b.exp) + b.scaledTo (min a.exp b.exp), min a.exp b.exp⟩

/-- `abs (a - b)`. -/
def absSub (a b : Decimal) : Decimal :=
  ⟨((a.scaledTo (min a.exp b.exp) - b.scaledTo (min a.exp b.exp)).natAbs : Int), min a.exp b.exp⟩

/-- `a / b` rounded to the nearest integer, halves away from zero (`0 < b`). -/
def divHalfUp (a b : Int) : Int :=
  if 0 ≤ a then (2 * a + b) / (2 * b) else -((2 * (-a) + b) / (2 * b))

/-- `a / b` rounded to the nearest integer, halves to even (`0 < b`). -/
def divHalfEven (a b : Int) : Int :=
  let q := a / b
  let r := a % b
  if 2 * r < b then q
  else if b < 2 * r then q + 1
  else if q % 2 = 0 then q else q + 1

/-- The value in units of `10 ^ (-6)`, as a quotient of integers. -/
def microParts (d : Decimal) : Int × Int :=
  if 0 ≤ d.exp + 6 then (d.coeff * 10 ^ (d.exp + 6).toNat, 1)
  else (d.coeff, 10 ^ (-(d.exp + 6)).toNat)

/-- What a `NUMERIC(18,6)` column stores. -/
def numeric (d : Decimal) : Decimal := ⟨divHalfUp d.microParts.1 d.microParts.2, -6⟩

/-- A `NUMERIC(18,6)` column holds at most twelve digits before the point. -/
def fitsNumeric (d : Decimal) : Bool := d.numeric.coeff.natAbs < 10 ^ 18

/-- `d.quantize(Decimal(1).scaleb(-places))`: half to even. -/
def quantize (d : Decimal) (places : Nat) : Decimal :=
  if 0 ≤ d.exp + places then ⟨d.coeff * 10 ^ (d.exp + places).toNat, -(places : Int)⟩
  else ⟨divHalfEven d.coeff (10 ^ (-(d.exp + places)).toNat), -(places : Int)⟩

/-- Significant digits of the default context. -/
def contextDigits : Nat := 28

/-- The value in units of `10 ^ e`, as a quotient of integers. -/
def partsAt (d : Decimal) (e : Int) : Int × Int :=
  if e ≤ d.exp then (d.coeff * 10 ^ (d.exp - e).toNat, 1) else (d.coeff, 10 ^ (e - d.exp).toNat)

/-- `amount / n` in the default context, for positive numbers: rounded half to even to 28 digits. -/
def quotient (amount : Decimal) (n : Int) : Decimal :=
  let length (m : Int) : Int := (Nat.toDigits 10 m.natAbs).length
  -- in these units the quotient has 28 digits or 29
  let low := amount.exp + length amount.coeff - length n - contextDigits
  let wide := (amount.partsAt low).1 / ((amount.partsAt low).2 * n)
  let e := if 10 ^ contextDigits ≤ wide then low + 1 else low
  ⟨divHalfEven (amount.partsAt e).1 ((amount.partsAt e).2 * n), e⟩

/-- `(amount / n).quantize(Decimal("0.000001"))`. -/
def quantizeDiv (amount : Decimal) (n : Int) : Decimal := (amount.quotient n).quantize 6

/-- `d.quantize(Decimal("0.000001"))` does not raise `InvalidOperation`. -/
def fitsQuantum (d : Decimal) : Bool := (d.quantize 6).coeff.natAbs < 10 ^ contextDigits

/-- `format(d, "f")` for a non-negative decimal: no exponent, the digits as carried. -/
def formatF (d : Decimal) : String :=
  if 0 ≤ d.exp then toString (d.coeff * 10 ^ d.exp.toNat)
  else
    let places := (-d.exp).toNat
    let digits := (toString d.coeff).toList
    let padded := List.replicate (places + 1 - digits.length) '0' ++ digits
    String.ofList (padded.take (padded.length - places) ++
      '.' :: padded.drop (padded.length - places))

/-- `str(d)`: plain digits, or scientific notation outside `10 ^ (-6)` and for a positive
    exponent. -/
def str (d : Decimal) : String :=
  let digits := (toString d.coeff.natAbs).toList
  let left := d.exp + digits.length
  let dot := if d.exp ≤ 0 && -6 < left then left else 1
  let body :=
    if dot ≤ 0 then "0." ++ String.ofList (List.replicate (-dot).toNat '0' ++ digits)
    else if digits.length ≤ dot then
      String.ofList (digits ++ List.replicate (dot.toNat - digits.length) '0')
    else String.ofList (digits.take dot.toNat ++ '.' :: digits.drop dot.toNat)
  let power := left - dot
  (if d.coeff < 0 then "-" else "") ++ body ++
    if power = 0 then "" else "E" ++ (if 0 ≤ power then "+" else "") ++ toString power

@[simp] theorem numEq_self (d : Decimal) : d.numEq d = true := by
  simp [numEq]

end Decimal

end ExecutionEngine
