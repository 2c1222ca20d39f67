/-
  JSON text, as Python's `json` module writes and reads it. Nothing here names an engine.

  `Value.text` is plain printable ASCII: what is outside that range is escaped, and a code point
  above U+FFFF is a surrogate pair. `readValue` takes any JSON text with its white space, its
  escapes and the constants `NaN` and `Infinity`. A string is a list of code points, since an
  escape may spell half of a surrogate pair. A whole number has 4300 digits at most, in both
  directions; one with more is a `ValueError` of its own and no decode error. How a float is
  spelled is a parameter, and so is how many arrays and objects may stand in one another before
  the interpreter's recursion limit is met: writing and reading a deeper value is a
  `RecursionError`.

  A reader takes fuel; `loads_ne_exhausted` says `loads` has enough.
-/
import Mathlib.Data.List.TakeWhile
import ExecutionEngine.Containers.Odict

namespace JsonText

/-- Code points. -/
abbrev Text := List Nat

/-- Text without surrogates. -/
def Text.ofString (s : String) : Text := s.toList.map Char.toNat

/-! ## Numerals -/

/-- One digit or more. -/
abbrev Digits := { cs : List Char // cs ≠ [] ∧ ∀ c ∈ cs, c.isDigit = true }

def readDigits (cs : List Char) : Option (Digits × List Char) :=
  if h : cs.takeWhile Char.isDigit ≠ [] then
    some (⟨cs.takeWhile Char.isDigit, h, fun _ hc => List.mem_takeWhile_imp hc⟩,
      cs.dropWhile Char.isDigit)
  else none

/-- A whole part: a zero stands alone. -/
abbrev Whole := { ds : Digits // ds.1.head? = some '0' → ds.1 = ['0'] }

def Whole.zero : Whole :=
  ⟨⟨['0'], List.cons_ne_nil _ _, fun _ hc => by rw [List.mem_singleton.mp hc]; rfl⟩, fun _ => rfl⟩

def readWhole (cs : List Char) : Option (Whole × List Char) :=
  if cs.head? = some '0' then some (.zero, cs.tail)
  else (readDigits cs).bind fun x =>
    if h : x.1.1.head? ≠ some '0' then some (⟨x.1, fun hz => absurd hz h⟩, x.2) else none

/-- The fraction, if there is a digit after the point. -/
def readFrac (cs : List Char) : Option Digits × List Char :=
  match cs.head?, readDigits cs.tail with
  | some '.', some (ds, rest) => (some ds, rest)
  | _, _ => (none, cs)

inductive Sign where
  | plus | minus
  deriving DecidableEq, Repr

def Sign.text : Option Sign → List Char
  | none => []
  | some .plus => ['+']
  | some .minus => ['-']

def readSign : List Char → Option Sign × List Char
  | '+' :: cs => (some .plus, cs)
  | '-' :: cs => (some .minus, cs)
  | cs => (none, cs)

structure Exponent where
  upper : Bool
  sign : Option Sign
  digits : Digits

def Exponent.text (x : Exponent) : List Char :=
  (if x.upper then 'E' else 'e') :: (Sign.text x.sign ++ x.digits.1)

/-- The exponent, if it has a digit. -/
def readExp (cs : List Char) : Option Exponent × List Char :=
  if cs.head? = some 'e' ∨ cs.head? = some 'E' then
    match readDigits (readSign cs.tail).2 with
    | some (ds, rest) => (some ⟨cs.head? = some 'E', (readSign cs.tail).1, ds⟩, rest)
    | none => (none, cs)
  else (none, cs)

/-- A number with a fraction or an exponent. -/
structure FloatLit where
  neg : Bool
  whole : Whole
  frac : Option Digits
  exp : Option Exponent
  isFloat : frac.isSome || exp.isSome

def signText (neg : Bool) : List Char := if neg then ['-'] else []

def fracText (f : Option Digits) : List Char := f.elim [] fun ds => '.' :: ds.1

def expText (x : Option Exponent) : List Char := x.elim [] Exponent.text

def FloatLit.text (x : FloatLit) : List Char :=
  signText x.neg ++ (x.whole.1.1 ++ (fracText x.frac ++ expText x.exp))

/-- Python's `float`: what a literal or a constant is read as, and how a float is written. -/
inductive Spelling where
  | nan | infinity | negInfinity
  | lit (x : FloatLit)

structure Floats (F : Type) where
  value : Spelling → F
  spell : F → Spelling
  value_spell : ∀ x, value (spell x) = x

/-- Floats that are their spelling. -/
def spelled : Floats Spelling := ⟨id, id, fun _ => rfl⟩

inductive Numeral where
  | whole (neg : Bool) (ds : Whole)
  | float (x : FloatLit)

def readNumeral (cs : List Char) : Option (Numeral × List Char) :=
  let neg := decide (cs.head? = some '-')
  (readWhole (if neg then cs.tail else cs)).map fun (w, afterWhole) =>
    let (frac, afterFrac) := readFrac afterWhole
    let (exp, rest) := readExp afterFrac
    if h : frac.isSome || exp.isSome then (.float ⟨neg, w, frac, exp, h⟩, rest)
    else (.whole neg w, rest)

/-! ## Values -/

inductive Value (F : Type) where
  | null
  | bool (b : Bool)
  | int (n : Int)
  | float (x : F)
  | str (s : Text)
  | arr (vs : List (Value F))
  | obj (fs : List (Text × Value F))

def hexDigit (n : Nat) : Char := (Nat.digitChar (n % 16))

/-- `\uXXXX` of a code unit. -/
def unicodeEscape (u : Nat) : List Char :=
  ['\\', 'u', hexDigit (u / 4096), hexDigit (u / 256), hexDigit (u / 16), hexDigit u]

/-- The code units of a code point. -/
def units (c : Nat) : List Nat :=
  if c < 65536 then [c]
  else [55296 + (c - 65536) / 1024, 56320 + (c - 65536) % 1024]

/-- `ESCAPE_ASCII`: what a code point is written as. -/
def escape (c : Nat) : List Char :=
  if c = 34 then ['\\', '"']
  else if c = 92 then ['\\', '\\']
  else if c = 10 then ['\\', 'n']
  else if c = 13 then ['\\', 'r']
  else if c = 9 then ['\\', 't']
  else if c = 12 then ['\\', 'f']
  else if c = 8 then ['\\', 'b']
  else if 32 ≤ c ∧ c ≤ 126 then [Char.ofNat c]
  else (units c).flatMap unicodeEscape

def stringText (s : Text) : List Char := '"' :: (s.flatMap escape ++ ['"'])

def intText (n : Int) : List Char := signText (n < 0) ++ Nat.toDigits 10 n.natAbs

def Spelling.text : Spelling → List Char
  | .nan => ['N', 'a', 'N']
  | .infinity => ['I', 'n', 'f', 'i', 'n', 'i', 't', 'y']
  | .negInfinity => ['-', 'I', 'n', 'f', 'i', 'n', 'i', 't', 'y']
  | .lit x => x.text

variable {F : Type} (fl : Floats F)

mutual

def Value.text : Value F → List Char
  | .null => ['n', 'u', 'l', 'l']
  | .bool true => ['t', 'r', 'u', 'e']
  | .bool false => ['f', 'a', 'l', 's', 'e']
  | .int n => intText n
  | .float x => (fl.spell x).text
  | .str s => stringText s
  | .arr vs => '[' :: (itemsText vs ++ [']'])
  | .obj fs => '{' :: (fieldsText fs ++ ['}'])

/-- `", ".join` of the elements. -/
def itemsText : List (Value F) → List Char
  | [] => []
  | [v] => v.text
  | v :: w :: vs => v.text ++ (',' :: ' ' :: itemsText (w :: vs))

def fieldsText : List (Text × Value F) → List Char
  | [] => []
  | [(k, v)] => stringText k ++ (':' :: ' ' :: v.text)
  | (k, v) :: f :: fs => stringText k ++ (':' :: ' ' :: (v.text ++ (',' :: ' ' :: fieldsText (f :: fs))))

end

/-- `sys.get_int_max_str_digits()`. -/
def maxDigits : Nat := 4300

mutual

/-- No whole number is too long to be written. -/
def Value.fits : Value F → Bool
  | .int n => (Nat.toDigits 10 n.natAbs).length ≤ maxDigits
  | .arr vs => itemsFit vs
  | .obj fs => fieldsFit fs
  | _ => true

def itemsFit : List (Value F) → Bool
  | [] => true
  | v :: vs => v.fits && itemsFit vs

def fieldsFit : List (Text × Value F) → Bool
  | [] => true
  | (_, v) :: fs => v.fits && fieldsFit fs

end

mutual

/-- How many arrays and objects stand in one another. -/
def Value.depth : Value F → Nat
  | .arr vs => itemsDepth vs + 1
  | .obj fs => fieldsDepth fs + 1
  | _ => 0

def itemsDepth : List (Value F) → Nat
  | [] => 0
  | v :: vs => max v.depth (itemsDepth vs)

def fieldsDepth : List (Text × Value F) → Nat
  | [] => 0
  | (_, v) :: fs => max v.depth (fieldsDepth fs)

end

/-- `json.dumps` where the recursion limit leaves `levels`; `none` is the `ValueError` of a number
    that is too long or the `RecursionError`. -/
def dumps (levels : Nat) (v : Value F) : Option (List Char) :=
  if v.fits && v.depth ≤ levels then some (v.text fl) else none

/-! ## Reading -/

inductive ReadError where
  | malformed
  /-- A whole number of more than `maxDigits` digits. -/
  | tooManyDigits
  /-- The `RecursionError`. -/
  | tooDeep
  /-- The fuel of the reader ran out; see `loads_ne_exhausted`. -/
  | exhausted
  deriving DecidableEq, Repr

def isBlank (c : Char) : Bool := c = ' ' || c = '\t' || c = '\n' || c = '\r'

def skip (cs : List Char) : List Char := cs.dropWhile isBlank

def hexValue (c : Char) : Option Nat :=
  if c.isDigit then some (c.toNat - 48)
  else if 'a' ≤ c ∧ c ≤ 'f' then some (c.toNat - 87)
  else if 'A' ≤ c ∧ c ≤ 'F' then some (c.toNat - 55)
  else none

def hexUnit (a b c d : Char) : Option Nat := do
  let a ← hexValue a
  let b ← hexValue b
  let c ← hexValue c
  let d ← hexValue d
  return ((a * 16 + b) * 16 + c) * 16 + d

def unescape (c : Char) : Option Nat :=
  if c = '"' ∨ c = '\\' ∨ c = '/' then some c.toNat
  else if c = 'n' then some 10
  else if c = 'r' then some 13
  else if c = 't' then some 9
  else if c = 'f' then some 12
  else if c = 'b' then some 8
  else none

/-- The code units up to the closing quote; a control character is an error. -/
def readUnits : List Char → Option (Text × List Char)
  | '"' :: cs => some ([], cs)
  | '\\' :: 'u' :: a :: b :: c :: d :: cs =>
    match hexUnit a b c d, readUnits cs with
    | some u, some (us, rest) => some (u :: us, rest)
    | _, _ => none
  | '\\' :: e :: cs =>
    match unescape e, readUnits cs with
    | some u, some (us, rest) => some (u :: us, rest)
    | _, _ => none
  | c :: cs =>
    if c = '\\' ∨ c.toNat < 32 then none
    else (readUnits cs).map fun x => (c.toNat :: x.1, x.2)
  | [] => none

def isHigh (u : Nat) : Bool := 55296 ≤ u && u < 56320

def isLow (u : Nat) : Bool := 56320 ≤ u && u < 57344

/-- A high surrogate and a low one after it are one code point. -/
def join : Text → Text
  | h :: l :: us =>
    if isHigh h && isLow l then (65536 + (h - 55296) * 1024 + (l - 56320)) :: join us
    else h :: join (l :: us)
  | us => us

def readString (cs : List Char) : Option (Text × List Char) :=
  (readUnits cs).map fun x => (join x.1, x.2)

def wordRest (word cs : List Char) : Option (List Char) :=
  if word.isPrefixOf cs then some (cs.drop word.length) else none

def natOf (ds : Digits) : Nat := Nat.ofDigitChars 10 ds.1 0

def readNumber (cs : List Char) : Except ReadError (Value F × List Char) :=
  match readNumeral cs with
  | some (.float x, rest) => .ok (.float (fl.value (.lit x)), rest)
  | some (.whole neg ds, rest) =>
    if ds.1.1.length ≤ maxDigits then
      .ok (.int (if neg then -(natOf ds.1 : Int) else natOf ds.1), rest)
    else .error .tooManyDigits
  | none =>
    match wordRest Spelling.negInfinity.text cs with
    | some rest => .ok (.float (fl.value .negInfinity), rest)
    | none => .error .malformed

/-- What is neither a string, an array nor an object. -/
def readScalar (cs : List Char) : Except ReadError (Value F × List Char) :=
  match wordRest ['n', 'u', 'l', 'l'] cs, wordRest ['t', 'r', 'u', 'e'] cs,
    wordRest ['f', 'a', 'l', 's', 'e'] cs, wordRest Spelling.nan.text cs,
    wordRest Spelling.infinity.text cs with
  | some rest, _, _, _, _ => .ok (.null, rest)
  | _, some rest, _, _, _ => .ok (.bool true, rest)
  | _, _, some rest, _, _ => .ok (.bool false, rest)
  | _, _, _, some rest, _ => .ok (.float (fl.value .nan), rest)
  | _, _, _, _, some rest => .ok (.float (fl.value .infinity), rest)
  | _, _, _, _, _ => readNumber fl cs

/-- Reading inside of an array or an object. -/
def enter {α : Type} (read : Nat → Except ReadError α) : Nat → Except ReadError α
  | 0 => .error .tooDeep
  | levels + 1 => read levels

mutual

def readValue : Nat → Nat → List Char → Except ReadError (Value F × List Char)
  | 0, _, _ => .error .exhausted
  | _ + 1, _, [] => .error .malformed
  | n + 1, levels, c :: cs =>
    if c = '"' then
      match readString cs with
      | some (s, rest) => .ok (.str s, rest)
      | none => .error .malformed
    else if c = '[' then
      enter (fun levels =>
        if (skip cs).head? = some ']' then .ok (.arr [], (skip cs).tail)
        else (readItems n levels (skip cs)).map fun x => (.arr x.1, x.2)) levels
    else if c = '{' then
      enter (fun levels =>
        if (skip cs).head? = some '}' then .ok (.obj [], (skip cs).tail)
        else (readFields n levels [] (skip cs)).map fun x => (.obj x.1, x.2)) levels
    else readScalar fl (c :: cs)

/-- An element of an array and those after it. -/
def readItems : Nat → Nat → List Char → Except ReadError (List (Value F) × List Char)
  | 0, _, _ => .error .exhausted
  | n + 1, levels, cs =>
    (readValue n levels cs).bind fun (v, cs) =>
      match skip cs with
      | ',' :: cs => (readItems n levels (skip cs)).map fun x => (v :: x.1, x.2)
      | ']' :: cs => .ok ([v], cs)
      | _ => .error .malformed

/-- A member of an object and those after it; a key read twice keeps its place and its last
    value. -/
def readFields : Nat → Nat → List (Text × Value F) → List Char →
    Except ReadError (List (Text × Value F) × List Char)
  | 0, _, _, _ => .error .exhausted
  | n + 1, levels, acc, '"' :: cs =>
    match readString cs with
    | none => .error .malformed
    | some (k, cs) =>
      match skip cs with
      | ':' :: cs =>
        (readValue n levels (skip cs)).bind fun (v, cs) =>
          match skip cs with
          | ',' :: cs => readFields n levels (Odict.set k v acc) (skip cs)
          | '}' :: cs => .ok (Odict.set k v acc, cs)
          | _ => .error .malformed
      | _ => .error .malformed
  | _ + 1, _, _, _ => .error .malformed

end

/-- `json.loads` where the recursion limit leaves `levels`. -/
def loads (levels : Nat) (cs : List Char) : Except ReadError (Value F) :=
  (readValue fl (2 * cs.length + 1) levels (skip cs)).bind fun (v, rest) =>
    if skip rest = [] then .ok v else .error .malformed

/-! ## Values that come back -/

/-- Code points that no escape joins. -/
def Text.Sound (s : Text) : Prop := (∀ c ∈ s, c < 1114112) ∧ join s = s

mutual

/-- Strings are sound and no key stands twice. -/
def Value.Plain : Value F → Prop
  | .str s => Text.Sound s
  | .arr vs => itemsPlain vs
  | .obj fs => Odict.Unique fs ∧ fieldsPlain fs
  | _ => True

def itemsPlain : List (Value F) → Prop
  | [] => True
  | v :: vs => v.Plain ∧ itemsPlain vs

def fieldsPlain : List (Text × Value F) → Prop
  | [] => True
  | (k, v) :: fs => Text.Sound k ∧ v.Plain ∧ fieldsPlain fs

end

variable {fl}

/-! ## The reader ends -/

theorem readDigits_length {cs rest : List Char} {ds : Digits} (h : readDigits cs = some (ds, rest)) :
    rest.length < cs.length := by
  unfold readDigits at h
  split at h
  · rename_i hne
    obtain ⟨-, rfl⟩ := Prod.mk.inj (Option.some.inj h)
    have hlen := congrArg List.length (List.takeWhile_append_dropWhile (p := Char.isDigit) (l := cs))
    rw [List.length_append] at hlen
    have := List.length_pos_iff.mpr hne
    omega
  · cases h

theorem readWhole_length {cs rest : List Char} {w : Whole} (h : readWhole cs = some (w, rest)) :
    rest.length < cs.length := by
  unfold readWhole at h
  split at h
  · rename_i hz
    obtain ⟨-, rfl⟩ := Prod.mk.inj (Option.some.inj h)
    match cs, hz with
    | c :: cs, _ => exact Nat.lt_succ_self _
  · obtain ⟨⟨ds, rest'⟩, hds, h⟩ := Option.bind_eq_some_iff.mp h
    split at h
    · obtain ⟨-, rfl⟩ := Prod.mk.inj (Option.some.inj h)
      exact readDigits_length hds
    · cases h

theorem tail_length (cs : List Char) : cs.tail.length ≤ cs.length := by
  rw [List.length_tail]
  exact Nat.sub_le ..

theorem readFrac_length (cs : List Char) : (readFrac cs).2.length ≤ cs.length := by
  unfold readFrac
  split
  · rename_i hds
    exact (readDigits_length hds).le.trans (tail_length cs)
  · exact le_rfl

theorem readSign_length (cs : List Char) : (readSign cs).2.length ≤ cs.length := by
  unfold readSign
  split
  · exact Nat.le_succ _
  · exact Nat.le_succ _
  · exact le_rfl

theorem readExp_length (cs : List Char) : (readExp cs).2.length ≤ cs.length := by
  unfold readExp
  split
  · split
    · rename_i hds
      exact (readDigits_length hds).le.trans ((readSign_length _).trans (tail_length cs))
    · exact le_rfl
  · exact le_rfl

theorem readNumeral_length {cs rest : List Char} {x : Numeral} (h : readNumeral cs = some (x, rest)) :
    rest.length < cs.length := by
  unfold readNumeral at h
  obtain ⟨⟨w, afterWhole⟩, hw, h⟩ := Option.map_eq_some_iff.mp h
  have hrest : rest = (readExp (readFrac afterWhole).2).2 := by
    dsimp only at h
    split at h <;> exact (congrArg Prod.snd h).symm
  have hwhole : afterWhole.length < cs.length := by
    refine (readWhole_length hw).trans_le ?_
    split
    · exact tail_length cs
    · exact le_rfl
  rw [hrest]
  exact ((readExp_length _).trans (readFrac_length _)).trans_lt hwhole

theorem readUnits_length {cs rest : List Char} {us : Text} (h : readUnits cs = some (us, rest)) :
    rest.length < cs.length := by
  fun_induction readUnits cs generalizing us rest with
  | case1 cs =>
    obtain ⟨-, rfl⟩ := Prod.mk.inj (Option.some.inj h)
    exact Nat.lt_succ_self _
  | case2 a b c d cs u us' rest' hread _ ih =>
    obtain ⟨-, rfl⟩ := Prod.mk.inj (Option.some.inj h)
    have := ih hread
    simp only [List.length_cons]
    omega
  | case3 => cases h
  | case4 e cs _ u us' rest' hread _ ih =>
    obtain ⟨-, rfl⟩ := Prod.mk.inj (Option.some.inj h)
    have := ih hread
    simp only [List.length_cons]
    omega
  | case5 => cases h
  | case6 => cases h
  | case7 c cs _ _ _ _ ih =>
    obtain ⟨⟨us', rest'⟩, hread, h⟩ := Option.map_eq_some_iff.mp h
    obtain ⟨-, rfl⟩ := Prod.mk.inj h
    exact (ih hread).trans (Nat.lt_succ_self _)
  | case8 => cases h

theorem wordRest_length {c : Char} {word cs rest : List Char}
    (h : wordRest (c :: word) cs = some rest) : rest.length < cs.length := by
  unfold wordRest at h
  split at h
  · rename_i hp
    obtain rfl := Option.some.inj h
    have := (List.isPrefixOf_iff_prefix.mp hp).length_le
    rw [List.length_cons] at this
    rw [List.length_drop, List.length_cons]
    omega
  · cases h

/-- What a reader answers with enough fuel: less is left than there was, or the text is wrong. -/
def Ends {α : Type} (len : Nat) : Except ReadError (α × List Char) → Prop
  | .ok (_, rest) => rest.length < len
  | .error e => e ≠ .exhausted

theorem Ends.mono {α : Type} {len len' : Nat} {x : Except ReadError (α × List Char)}
    (h : Ends len x) (hlen : len ≤ len') : Ends len' x := by
  match x, h with
  | .ok (_, _), h => exact Nat.lt_of_lt_of_le h hlen
  | .error _, h => exact h

theorem Ends.map {α β : Type} {len : Nat} {x : Except ReadError (α × List Char)}
    (h : Ends len x) (f : α → β) : Ends len (x.map fun y => (f y.1, y.2)) := by
  match x, h with
  | .ok (_, _), h => exact h
  | .error _, h => exact h

theorem Ends.bind {α β : Type} {len len' : Nat} {x : Except ReadError (α × List Char)}
    {f : α × List Char → Except ReadError (β × List Char)} (h : Ends len x)
    (hf : ∀ a rest, rest.length < len → Ends len' (f (a, rest))) : Ends len' (x.bind f) := by
  match x, h with
  | .ok (a, rest), h => exact hf a rest h
  | .error e, h => exact h

theorem readNumber_ends (cs : List Char) : Ends cs.length (readNumber fl cs) := by
  unfold readNumber
  split
  · rename_i hx
    exact readNumeral_length hx
  · rename_i hx
    split
    · exact readNumeral_length hx
    · exact ReadError.noConfusion
  · split
    · rename_i hw
      exact wordRest_length hw
    · exact ReadError.noConfusion

theorem readScalar_ends (cs : List Char) : Ends cs.length (readScalar fl cs) := by
  unfold readScalar
  split
  · exact wordRest_length (by assumption)
  · exact wordRest_length (by assumption)
  · exact wordRest_length (by assumption)
  · exact wordRest_length (by assumption)
  · exact wordRest_length (by assumption)
  · exact readNumber_ends cs

theorem skip_length (cs : List Char) : (skip cs).length ≤ cs.length :=
  (List.dropWhile_suffix _).length_le

theorem readString_length {cs rest : List Char} {s : Text} (h : readString cs = some (s, rest)) :
    rest.length < cs.length := by
  obtain ⟨⟨us, rest'⟩, hus, h⟩ := Option.map_eq_some_iff.mp h
  obtain ⟨-, rfl⟩ := Prod.mk.inj h
  exact readUnits_length hus

theorem Ends.enter {α : Type} {len : Nat} {read : Nat → Except ReadError (α × List Char)}
    (h : ∀ levels, Ends len (read levels)) (levels : Nat) : Ends len (enter read levels) := by
  cases levels with
  | zero => exact ReadError.noConfusion
  | succ levels => exact h levels

/-- With more fuel than twice the length of the text no reader runs out of it. -/
theorem readers_end (n : Nat) :
    (∀ levels cs, 2 * cs.length < n → Ends cs.length (readValue fl n levels cs)) ∧
    (∀ levels cs, 2 * cs.length + 1 < n → Ends cs.length (readItems fl n levels cs)) ∧
    ∀ levels acc cs, 2 * cs.length + 1 < n → Ends cs.length (readFields fl n levels acc cs) := by
  induction n with
  | zero => exact ⟨fun _ _ h => by omega, fun _ _ h => by omega, fun _ _ _ h => by omega⟩
  | succ n ih =>
    obtain ⟨ihValue, ihItems, ihFields⟩ := ih
    refine ⟨fun levels cs hn => ?_, fun levels cs hn => ?_, fun levels acc cs hn => ?_⟩
    · cases cs with
      | nil => exact ReadError.noConfusion
      | cons c cs =>
        rw [List.length_cons] at hn
        have hskip := skip_length cs
        have htail := tail_length (skip cs)
        rw [readValue]
        split
        · split
          · rename_i hs
            exact (readString_length hs).trans (Nat.lt_succ_self _)
          · exact ReadError.noConfusion
        split
        · refine .enter (fun inner => ?_) levels
          split
          · exact (htail.trans hskip).trans_lt (Nat.lt_succ_self _)
          · exact ((ihItems inner (skip cs) (by omega)).map Value.arr).mono
              (hskip.trans (Nat.le_succ _))
        split
        · refine .enter (fun inner => ?_) levels
          split
          · exact (htail.trans hskip).trans_lt (Nat.lt_succ_self _)
          · exact ((ihFields inner [] (skip cs) (by omega)).map Value.obj).mono
              (hskip.trans (Nat.le_succ _))
        · exact readScalar_ends (c :: cs)
    · rw [readItems]
      refine (ihValue levels cs (by omega)).bind fun v rest hrest => ?_
      have hskip := skip_length rest
      dsimp only
      split
      · rename_i rest' hcomma
        rw [hcomma, List.length_cons] at hskip
        have hnext := skip_length rest'
        exact ((ihItems levels (skip rest') (by omega)).map (v :: ·)).mono (by omega)
      · rename_i rest' hclose
        rw [hclose, List.length_cons] at hskip
        exact show rest'.length < cs.length by omega
      · exact ReadError.noConfusion
    · rw [readFields.eq_def]
      dsimp only
      split
      · omega
      · rename_i n' _ _ cs' hn'
        obtain rfl := Nat.succ.inj hn'
        rw [List.length_cons] at hn
        split
        · exact ReadError.noConfusion
        · rename_i k cs₁ hkey
          have hcs := readString_length hkey
          have hskip := skip_length cs₁
          split
          · rename_i cs₂ hcolon
            rw [hcolon, List.length_cons] at hskip
            have hskip₂ := skip_length cs₂
            refine (ihValue _ (skip cs₂) (by omega)).bind fun v rest hrest => ?_
            have hskip₃ := skip_length rest
            dsimp only
            split
            · rename_i rest' hcomma
              rw [hcomma, List.length_cons] at hskip₃
              have hnext := skip_length rest'
              refine (ihFields _ _ (skip rest') (by omega)).mono ?_
              rw [List.length_cons]
              omega
            · rename_i rest' hclose
              rw [hclose, List.length_cons] at hskip₃
              exact show rest'.length < (cs'.length + 1) by omega
            · exact ReadError.noConfusion
          · exact ReadError.noConfusion
      · exact ReadError.noConfusion

/-- `loads` answers; its fuel is enough for every text. -/
theorem loads_ne_exhausted (levels : Nat) (cs : List Char) :
    loads fl levels cs ≠ .error .exhausted := by
  have hskip := skip_length cs
  have hends : Ends (skip cs).length (readValue fl (2 * cs.length + 1) levels (skip cs)) :=
    (readers_end _).1 levels (skip cs) (by omega)
  unfold loads
  match hread : readValue fl (2 * cs.length + 1) levels (skip cs), hends with
  | .error e, hends => exact fun h => hends (Except.error.inj h)
  | .ok (v, rest), _ =>
    simp only [Except.bind]
    split
    · exact fun h => by cases h
    · exact fun h => by cases h

end JsonText
