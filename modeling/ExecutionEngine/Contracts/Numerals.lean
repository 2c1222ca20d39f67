/-
  The numbers that Python makes of a decoded value: `Decimal(str(v))` and `int(v)`.

  A `Decimal` of the source may be NaN or infinite, and each of these conversions and
  comparisons has exceptions of its own (`PyError`). `Decimal` drops the blanks around a
  numeral and the underscores in it, and takes the digits of every script. A float is carried
  as the decimal that its shortest text spells.
-/
import ExecutionEngine.Contracts.Value
import ExecutionEngine.Contracts.Orders

namespace ExecutionEngine

/-- The classes of the exceptions that conversions and comparisons raise. -/
inductive PyError where
  | typeError | valueError | keyError | overflowError | invalidOperation | validationError
  | recursionError
  deriving DecidableEq, Repr

/-! ## Text -/

namespace Decimal

/-- The exponent part of a numeral. -/
def exponentOf : List Char → Option Int
  | [] => some 0
  | c :: cs =>
    let (neg, digits) := splitSign cs
    if (c = 'e' || c = 'E') && !digits.isEmpty && digits.all Char.isDigit then
      some (signed neg (Nat.ofDigitChars 10 digits 0))
    else none

/-- A numeral without its sign. -/
def ofUnsigned (cs : List Char) : Option Decimal :=
  let whole := cs.takeWhile Char.isDigit
  let rest := cs.dropWhile Char.isDigit
  let point := rest.head? = some '.'
  let places := if point then (rest.drop 1).takeWhile Char.isDigit else []
  let tail := if point then (rest.drop 1).dropWhile Char.isDigit else rest
  if (whole ++ places).isEmpty then none
  else (exponentOf tail).map fun e => ⟨Nat.ofDigitChars 10 (whole ++ places) 0, e - places.length⟩

/-- What the constructor takes exactly: `MAX_EMAX`, `MIN_ETINY` and `MAX_PREC`. -/
def fitsContext (d : Decimal) : Bool :=
  let digits := (Nat.toDigits 10 d.coeff.natAbs).length
  digits ≤ 999999999999999999 && d.exp + digits - 1 ≤ 999999999999999999 &&
    -1999999999999999997 ≤ d.exp

/-- `int(x)` of a float: a large one is the nearest double, which its text only approaches. -/
def floatToInt (d : Decimal) : Int :=
  let truncated := if 0 ≤ d.exp then d.coeff * 10 ^ d.exp.toNat
    else Int.tdiv d.coeff (10 ^ (-d.exp).toNat)
  if truncated.natAbs < 2 ^ 53 then truncated
  else
    let unit := 2 ^ (Nat.log2 truncated.natAbs - 52)
    signed (truncated < 0) (divHalfEven truncated.natAbs unit * unit)

end Decimal

/-- A `decimal.Decimal`. -/
inductive AnyDecimal where
  | finite (d : Decimal)
  | special (x : NonFinite)
  deriving DecidableEq, Repr

namespace AnyDecimal

/-- `NaN` and `sNaN`, in lower case, with the digits that may follow. -/
def isNan (word : List Char) : Bool :=
  let rest := if word.head? = some 's' then word.drop 1 else word
  rest.take 3 = ['n', 'a', 'n'] && (rest.drop 3).all Char.isDigit

/-- `Decimal(text)`, if that does not raise `InvalidOperation`. -/
def ofText (text : String) : Option AnyDecimal :=
  let (neg, body) := splitSign (((trim isSpace text.toList).filter (· ≠ '_')).map plainChar)
  let word := String.ofList (body.map Char.toLower)
  if word = "inf" || word = "infinity" then some (.special (if neg then .negInf else .inf))
  else if isNan word.toList then some (.special .nan)
  else (Decimal.ofUnsigned body).bind fun d =>
    let d : Decimal := ⟨signed neg d.coeff, d.exp⟩
    if d.fitsContext then some (.finite d) else none

/-- `a < b`: a comparison with NaN signals. -/
def lt : AnyDecimal → AnyDecimal → Except PyError Bool
  | .special .nan, _ => .error .invalidOperation
  | _, .special .nan => .error .invalidOperation
  | .finite a, .finite b => .ok (a.lt b)
  | .special .inf, _ => .ok false
  | _, .special .negInf => .ok false
  | _, _ => .ok true

/-- `d <= 0`. -/
def leZero : AnyDecimal → Except PyError Bool
  | .finite d => .ok (!d.isPos)
  | .special .nan => .error .invalidOperation
  | .special .inf => .ok false
  | .special .negInf => .ok true

end AnyDecimal

/-! ## Decoded values -/

namespace Json

/-- `Decimal(str(v))`, if that does not raise. -/
def toDecimal : Json → Option AnyDecimal
  | .int n => some (.finite (.ofInt n))
  | .num d => some (.finite d)
  | .special x => some (.special x)
  | .str s => AnyDecimal.ofText s
  | _ => none

/-- `int(v)`. -/
def toInt : Json → Except PyError Int
  | .bool b => .ok (if b then 1 else 0)
  | .int n => .ok n
  | .num d => .ok d.floatToInt
  | .special .nan => .error .valueError
  | .special _ => .error .overflowError
  | .str s => match intOfText s with
    | some n => .ok n
    | none => .error .valueError
  | _ => .error .typeError

/-- An infinite float. -/
def isInfinite : Json → Bool
  | .special x => x ≠ .nan
  | _ => false

/-- Of the exceptions of `int`, the callers' handlers miss that of an infinite float. -/
theorem toInt_cases (v : Json) :
    (v.isInfinite = true ∧ v.toInt = .error .overflowError) ∨
    v.isInfinite = false ∧ ((∃ n, v.toInt = .ok n) ∨ v.toInt = .error .typeError ∨
      v.toInt = .error .valueError) := by
  cases v with
  | bool b => exact .inr ⟨rfl, .inl ⟨_, rfl⟩⟩
  | int n => exact .inr ⟨rfl, .inl ⟨_, rfl⟩⟩
  | num d => exact .inr ⟨rfl, .inl ⟨_, rfl⟩⟩
  | special x =>
    cases x with
    | nan => exact .inr ⟨rfl, .inr (.inr rfl)⟩
    | inf => exact .inl ⟨rfl, rfl⟩
    | negInf => exact .inl ⟨rfl, rfl⟩
  | str s =>
    cases h : intOfText s with
    | some n => exact .inr ⟨rfl, .inl ⟨n, by rw [toInt, h]⟩⟩
    | none => exact .inr ⟨rfl, .inr (.inr (by rw [toInt, h]))⟩
  | null => exact .inr ⟨rfl, .inr (.inl rfl)⟩
  | arr items => exact .inr ⟨rfl, .inr (.inl rfl)⟩
  | obj fields => exact .inr ⟨rfl, .inr (.inl rfl)⟩

end Json

end ExecutionEngine
