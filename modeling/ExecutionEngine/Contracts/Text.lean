/-
  Text as Python reads and shows it: blanks and decimal digits, `strip` and `upper`, the
  digits of `int`, and `repr` of a text and of a float.

  Blanks and digits are those of Unicode 14. Of the letters beyond ASCII, `upperChar` knows
  the ones that have a letter of ASCII among their capitals; the others stay as they are,
  which no comparison with a word of ASCII can tell.
-/
import Mathlib.Tactic.Linarith
import Mathlib.Tactic.Ring
import ExecutionEngine.Contracts.Decimal

namespace ExecutionEngine

/-! ## Characters -/

/-- `c.isspace()`. -/
def isSpace (c : Char) : Bool :=
  (9 ≤ c.toNat && c.toNat ≤ 13) || (28 ≤ c.toNat && c.toNat ≤ 32) ||
    (0x2000 ≤ c.toNat && c.toNat ≤ 0x200A) ||
    c.toNat ∈ [0x85, 0xA0, 0x1680, 0x2028, 0x2029, 0x202F, 0x205F, 0x3000]

/-- The blanks that the number parser of `int` skips. -/
def isBlank (c : Char) : Bool := (9 ≤ c.toNat && c.toNat ≤ 13) || c = ' '

/-- The zeros of the decimal digits beyond ASCII; the digits from 1 to 9 follow each. -/
def digitZeros : List Nat :=
  [0x660, 0x6F0, 0x7C0, 0x966, 0x9E6, 0xA66, 0xAE6, 0xB66, 0xBE6, 0xC66, 0xCE6, 0xD66, 0xDE6,
   0xE50, 0xED0, 0xF20, 0x1040, 0x1090, 0x17E0, 0x1810, 0x1946, 0x19D0, 0x1A80, 0x1A90, 0x1B50,
   0x1BB0, 0x1C40, 0x1C50, 0xA620, 0xA8D0, 0xA900, 0xA9D0, 0xA9F0, 0xAA50, 0xABF0, 0xFF10,
   0x104A0, 0x10D30, 0x11066, 0x110F0, 0x11136, 0x111D0, 0x112F0, 0x11450, 0x114D0, 0x11650,
   0x116C0, 0x11730, 0x118E0, 0x11950, 0x11C50, 0x11D50, 0x11DA0, 0x16A60, 0x16AC0, 0x16B50,
   0x1D7CE, 0x1D7D8, 0x1D7E2, 0x1D7EC, 0x1D7F6, 0x1E140, 0x1E2F0, 0x1E950, 0x1FBF0]

/-- A character as numerals are read: a blank or a digit beyond ASCII stands for that of ASCII. -/
def plainChar (c : Char) : Char :=
  if c.toNat < 127 then c
  else if isSpace c then ' '
  else match digitZeros.find? fun z => z ≤ c.toNat && c.toNat < z + 10 with
    | some z => Nat.digitChar (c.toNat - z)
    | none => c

theorem plainChar_ascii {c : Char} (h : c.toNat < 127) : plainChar c = c := if_pos h

theorem map_plainChar {cs : List Char} (h : ∀ c ∈ cs, c.toNat < 127) : cs.map plainChar = cs :=
  (List.map_congr_left fun c hc => plainChar_ascii (h c hc)).trans (List.map_id cs)

/-- `c.upper()`. -/
def upperChar (c : Char) : List Char :=
  match c with
  | 'ß' => ['S', 'S']
  | 'ı' => ['I']
  | 'ŉ' => ['ʼ', 'N']
  | 'ſ' => ['S']
  | 'ǰ' => ['J', '\u030C']
  | 'ẖ' => ['H', '\u0331']
  | 'ẗ' => ['T', '\u0308']
  | 'ẘ' => ['W', '\u030A']
  | 'ẙ' => ['Y', '\u030A']
  | 'ẚ' => ['A', 'ʾ']
  | 'ﬀ' => ['F', 'F']
  | 'ﬁ' => ['F', 'I']
  | 'ﬂ' => ['F', 'L']
  | 'ﬃ' => ['F', 'F', 'I']
  | 'ﬄ' => ['F', 'F', 'L']
  | 'ﬅ' => ['S', 'T']
  | 'ﬆ' => ['S', 'T']
  | c => [c.toUpper]

/-- `s.upper()`. -/
def upper (s : String) : String := String.ofList (s.toList.flatMap upperChar)

/-! ## Stripping -/

/-- What `p` tells is dropped at both ends. -/
def trim (p : Char → Bool) (cs : List Char) : List Char :=
  ((cs.dropWhile p).reverse.dropWhile p).reverse

/-- `s.strip()`. -/
def strip (s : String) : String := String.ofList (trim isSpace s.toList)

theorem dropWhile_none {p : Char → Bool} {cs : List Char} (h : ∀ c ∈ cs, p c = false) :
    cs.dropWhile p = cs := by
  cases cs with
  | nil => rfl
  | cons c cs => rw [List.dropWhile_cons_of_neg (by simp [h c (List.mem_cons_self ..)])]

theorem trim_none {p : Char → Bool} {cs : List Char} (h : ∀ c ∈ cs, p c = false) :
    trim p cs = cs := by
  rw [trim, dropWhile_none h, dropWhile_none fun c hc => h c (List.mem_reverse.mp hc),
    List.reverse_reverse]

/-- Stripping keeps a first character that is not a blank. -/
theorem strip_ne {s x : String} {c d : Char} (hs : s.toList.head? = some c)
    (hc : isSpace c = false) (hx : x.toList.head? = some d) (hne : c ≠ d) : strip s ≠ x := by
  intro heq
  obtain ⟨cs, hcs⟩ := List.head?_eq_some_iff.mp hs
  obtain ⟨t, ht⟩ := List.dropWhile_suffix (l := s.toList.reverse) isSpace
  have hlist : (strip s).toList = (s.toList.reverse.dropWhile isSpace).reverse := by
    rw [strip, trim, String.toList_ofList, hcs, List.dropWhile_cons_of_neg (by simp [hc])]
  -- what is left is a front part of `s`
  have hfront : (strip s).toList ++ t.reverse = s.toList := by
    rw [hlist, ← List.reverse_append, ht, List.reverse_reverse]
  obtain ⟨ds, hds⟩ := List.head?_eq_some_iff.mp hx
  rw [heq, hds, hcs, List.cons_append] at hfront
  exact hne (List.cons.inj hfront).1.symm

/-! ## Whole numbers -/

/-- Is there a minus sign, and what follows the sign. -/
def splitSign : List Char → Bool × List Char
  | '-' :: cs => (true, cs)
  | '+' :: cs => (false, cs)
  | cs => (false, cs)

def signed (neg : Bool) (n : Int) : Int := if neg then -n else n

/-- The digits of a numeral: single underscores may stand between them. -/
def digitRuns (isDigit : Char → Bool) (body : List Char) : Option (List Char) :=
  let digits := body.filter (· ≠ '_')
  if (body.splitOn '_').any List.isEmpty || !digits.all isDigit then none else some digits

theorem digitRuns_plain {isDigit : Char → Bool} {cs : List Char} (hne : cs ≠ [])
    (h : ∀ c ∈ cs, isDigit c = true) (hbar : isDigit '_' = false) :
    digitRuns isDigit cs = some cs := by
  have hno : '_' ∉ cs := by
    intro hmem
    rw [h _ hmem] at hbar
    cases hbar
  have hfilter : cs.filter (· ≠ '_') = cs :=
    List.filter_eq_self.mpr fun c hc => decide_eq_true fun heq => hno (heq ▸ hc)
  have hsplit : cs.splitOn '_' = [cs] := List.splitOn_eq_singleton hno
  have hempty : cs.isEmpty = false := by simpa using hne
  have hall : cs.all isDigit = true := List.all_eq_true.mpr h
  rw [digitRuns, hfilter, hsplit]
  simp only [List.any_cons, List.any_nil, hempty, hall, Bool.not_true, Bool.or_self,
    if_neg Bool.false_ne_true]

/-- `int(text)` takes 4300 digits at most. -/
def intDigits (body : List Char) : Option (List Char) :=
  (digitRuns Char.isDigit body).filter fun digits => digits.length ≤ 4300

/-- `int(text)`, if that does not raise `ValueError`. -/
def intOfText (text : String) : Option Int :=
  let (neg, body) := splitSign (trim isBlank (text.toList.map plainChar))
  (intDigits body).map fun digits => signed neg (Nat.ofDigitChars 10 digits 0)

def isHex (c : Char) : Bool :=
  c.isDigit || ('a' ≤ c && c ≤ 'f') || ('A' ≤ c && c ≤ 'F')

def hexDigitValue (c : Char) : Nat :=
  if c.isDigit then c.toNat - 48 else if 'a' ≤ c then c.toNat - 87 else c.toNat - 55

def hexOfDigits (digits : List Char) : Nat :=
  digits.foldl (fun acc c => 16 * acc + hexDigitValue c) 0

/-- The base may be given before the digits, with an underscore after it. -/
def dropBase : List Char → List Char
  | '0' :: 'x' :: '_' :: cs => cs
  | '0' :: 'X' :: '_' :: cs => cs
  | '0' :: 'x' :: cs => cs
  | '0' :: 'X' :: cs => cs
  | cs => cs

/-- `int(text, 16)`, if that does not raise `ValueError`. -/
def hexOfText (text : List Char) : Option Int :=
  let (neg, body) := splitSign (trim isBlank (text.map plainChar))
  (digitRuns isHex (dropBase body)).map fun digits => signed neg (hexOfDigits digits)

theorem isHex_range {c : Char} (h : isHex c = true) : (48 ≤ c.toNat ∧ c.toNat ≤ 57) ∨
    (97 ≤ c.toNat ∧ c.toNat ≤ 102) ∨ (65 ≤ c.toNat ∧ c.toNat ≤ 70) := by
  simp only [isHex, Char.isDigit, Bool.or_eq_true, Bool.and_eq_true, decide_eq_true_eq, Char.le_def,
    ge_iff_le, UInt32.le_iff_toNat_le, Char.toNat_val] at h
  exact or_assoc.mp h

/-- A digit is none of the characters that a numeral may have beside its digits. -/
theorem isHex_plain {c : Char} (h : isHex c = true) : c.toNat < 127 ∧ isBlank c = false ∧
    c ≠ '-' ∧ c ≠ '+' ∧ c ≠ 'x' ∧ c ≠ 'X' := by
  have hrange := isHex_range h
  have hne (d : Char) (hd : isHex d = false) : c ≠ d := by
    rintro rfl
    rw [h] at hd
    cases hd
  have hspace := hne ' ' (by decide)
  refine ⟨by omega, ?_, hne _ (by decide), hne _ (by decide), hne _ (by decide),
    hne _ (by decide)⟩
  simp only [isBlank, hspace, decide_false, Bool.or_false, Bool.and_eq_false_iff,
    decide_eq_false_iff_not]
  omega

theorem hexDigitValue_lt {c : Char} (h : isHex c = true) : hexDigitValue c < 16 := by
  have hrange := isHex_range h
  simp only [hexDigitValue, Char.isDigit, Bool.and_eq_true, decide_eq_true_eq, Char.le_def,
    ge_iff_le, UInt32.le_iff_toNat_le, Char.toNat_val]
  change (if 48 ≤ c.toNat ∧ c.toNat ≤ 57 then _ else if 97 ≤ c.toNat then _ else _) < _
  split
  · omega
  · split <;> omega

theorem splitSign_plain {c : Char} {cs : List Char} (hminus : c ≠ '-') (hplus : c ≠ '+') :
    splitSign (c :: cs) = (false, c :: cs) := by
  unfold splitSign
  split
  · rename_i heq
    exact absurd (List.cons.inj heq).1 hminus
  · rename_i heq
    exact absurd (List.cons.inj heq).1 hplus
  · rfl

theorem dropBase_plain {cs : List Char} (hx : 'x' ∉ cs) (hX : 'X' ∉ cs) : dropBase cs = cs := by
  unfold dropBase
  split <;> simp_all

/-- Digits alone are read as they stand. -/
theorem hexOfText_digits {hex : List Char} (hne : hex ≠ []) (h : ∀ c ∈ hex, isHex c = true) :
    hexOfText hex = some (hexOfDigits hex : Int) := by
  have hsign : splitSign hex = (false, hex) := by
    cases hex with
    | nil => exact absurd rfl hne
    | cons c cs =>
      obtain ⟨-, -, hminus, hplus, -⟩ := isHex_plain (h c List.mem_cons_self)
      exact splitSign_plain hminus hplus
  have hbase : dropBase hex = hex :=
    dropBase_plain (fun hx => absurd (h _ hx) (by decide)) (fun hx => absurd (h _ hx) (by decide))
  rw [hexOfText, map_plainChar fun c hc => (isHex_plain (h c hc)).1,
    trim_none fun c hc => (isHex_plain (h c hc)).2.1, hsign]
  dsimp only
  rw [hbase, digitRuns_plain hne h (by decide)]
  rfl

theorem hexOfDigits_foldl (cs : List Char) (acc : Nat) :
    cs.foldl (fun acc c => 16 * acc + hexDigitValue c) acc =
      acc * 16 ^ cs.length + hexOfDigits cs := by
  induction cs generalizing acc with
  | nil => simp [hexOfDigits]
  | cons c cs ih =>
    rw [hexOfDigits, List.foldl_cons, List.foldl_cons, ih, ih (16 * 0 + hexDigitValue c),
      List.length_cons, Nat.pow_succ]
    ring

theorem hexOfDigits_append (cs ds : List Char) :
    hexOfDigits (cs ++ ds) = hexOfDigits cs * 16 ^ ds.length + hexOfDigits ds := by
  rw [hexOfDigits, List.foldl_append]
  exact hexOfDigits_foldl ds _

theorem hexOfDigits_cons (c : Char) (cs : List Char) :
    hexOfDigits (c :: cs) = hexDigitValue c * 16 ^ cs.length + hexOfDigits cs := by
  rw [← List.singleton_append, hexOfDigits_append]
  simp [hexOfDigits]

theorem hexOfDigits_lt {cs : List Char} (h : ∀ c ∈ cs, isHex c = true) :
    hexOfDigits cs < 16 ^ cs.length := by
  induction cs with
  | nil => decide
  | cons c cs ih =>
    have hc := hexDigitValue_lt (h c List.mem_cons_self)
    have hcs := ih fun d hd => h d (List.mem_cons_of_mem c hd)
    rw [hexOfDigits_cons, List.length_cons, Nat.pow_succ]
    nlinarith

/-- The digit at a place is what the number has there. -/
theorem hexOfDigits_place (cs : List Char) {ds : List Char} {c : Char} (hc : isHex c = true)
    (h : ∀ d ∈ ds, isHex d = true) :
    hexOfDigits (cs ++ c :: ds) / 16 ^ ds.length % 16 = hexDigitValue c := by
  have hds := hexOfDigits_lt h
  have hsplit : hexOfDigits (cs ++ c :: ds) =
      hexOfDigits ds + 16 ^ ds.length * (hexOfDigits cs * 16 + hexDigitValue c) := by
    rw [hexOfDigits_append, hexOfDigits_cons, List.length_cons, Nat.pow_succ]
    ring
  rw [hsplit, Nat.add_mul_div_left _ _ (Nat.pow_pos (by decide)), Nat.div_eq_of_lt hds,
    Nat.zero_add, Nat.mul_add_mod_self_right, Nat.mod_eq_of_lt (hexDigitValue_lt hc)]

/-! ## Showing -/

/-- `str(x)` of a float, which is the decimal that its shortest text spells; a negative zero
    is not told from zero. -/
def Decimal.floatStr (d : Decimal) : String :=
  let written := (toString d.coeff.natAbs).toList
  let digits := (written.reverse.dropWhile (· = '0')).reverse
  let sign := if d.coeff < 0 then "-" else ""
  -- the point stands behind this many digits
  let point : Int := d.exp + written.length
  if digits.isEmpty then "0.0"
  else if 16 < point || point < -3 then
    let power := point - 1
    let tail := if digits.length = 1 then "" else String.ofList ('.' :: digits.drop 1)
    let exponent := toString power.natAbs
    sign ++ String.ofList (digits.take 1) ++ tail ++ (if power < 0 then "e-" else "e+") ++
      (if exponent.length < 2 then "0" else "") ++ exponent
  else if point ≤ 0 then
    sign ++ "0." ++ String.ofList (List.replicate (-point).toNat '0' ++ digits)
  else
    let whole := digits.take point.toNat ++ List.replicate (point.toNat - digits.length) '0'
    let places := digits.drop point.toNat
    sign ++ String.ofList (whole ++ '.' :: if places.isEmpty then ['0'] else places)

def hexEscape (letter : Char) (width n : Nat) : List Char :=
  let digits := Nat.toDigits 16 n
  '\\' :: letter :: (List.replicate (width - digits.length) '0' ++ digits)

/-- A character of a `repr`. Beyond ASCII, the blanks, the controls and the soft hyphen are
    escaped, and the other characters count as printable. -/
def reprChar (quote c : Char) : List Char :=
  if c = quote || c = '\\' then ['\\', c]
  else if c = '\t' then ['\\', 't']
  else if c = '\n' then ['\\', 'n']
  else if c = '\r' then ['\\', 'r']
  else if c.toNat < 32 || (127 ≤ c.toNat && c.toNat ≤ 0xA0) || c.toNat = 0xAD then
    hexEscape 'x' 2 c.toNat
  else if isSpace c && c ≠ ' ' then hexEscape 'u' 4 c.toNat
  else [c]

/-- `repr(s)`. -/
def reprText (s : String) : String :=
  let quote := if s.toList.contains '\'' && !s.toList.contains '"' then '"' else '\''
  String.ofList (quote :: (s.toList.flatMap (reprChar quote) ++ [quote]))

end ExecutionEngine
