/-
  `datetime` values and their ISO text, as `datetime.isoformat` writes it.

  The text has fixed-width decimals with separators between them; a fraction is
  written only if there is one, and an offset only if the value has one. `readIso`
  reads exactly these texts, field by field, and each reader takes its field off the
  front and leaves the rest (`readIso_isoformat`).
-/
import Mathlib.Tactic.Ring

/-- A calendar date and a time of day, with the offset from UTC in microseconds if it is aware.
    Month lengths are not checked. -/
structure Datetime where
  year : Nat
  month : Nat
  day : Nat
  hour : Nat
  minute : Nat
  second : Nat
  microsecond : Nat
  utcoffset : Option Int
  date_valid : year ≤ 9999 ∧ month ≤ 12 ∧ day ≤ 31
  time_valid : hour < 24 ∧ minute < 60 ∧ second < 60 ∧ microsecond < 1000000
  offset_valid : ∀ o ∈ utcoffset, o.natAbs < 86400000000
  deriving DecidableEq

namespace Datetime

/-! ## Writing -/

/-- `%0wd`. -/
def padded : Nat → Nat → List Char
  | 0, _ => []
  | w + 1, n => Nat.digitChar (n / 10 ^ w % 10) :: padded w n

/-- The microseconds, if there are any. -/
def fraction (us : Nat) : List Char := if us = 0 then [] else '.' :: padded 6 us

/-- The seconds of an offset, if there are any. -/
def offsetSeconds (t : Nat) : List Char :=
  if t % 60000000 = 0 then []
  else ':' :: (padded 2 (t / 1000000 % 60) ++ fraction (t % 1000000))

/-- `_format_offset`. -/
def formatOffset (o : Int) : List Char :=
  let t := o.natAbs
  (if o < 0 then '-' else '+') :: (padded 2 (t / 3600000000) ++ ':' ::
    (padded 2 (t / 60000000 % 60) ++ offsetSeconds t))

/-- `isoformat`. -/
def isoformat (d : Datetime) : List Char :=
  padded 4 d.year ++ '-' :: (padded 2 d.month ++ '-' :: (padded 2 d.day ++ 'T' ::
    (padded 2 d.hour ++ ':' :: (padded 2 d.minute ++ ':' :: (padded 2 d.second ++
      (fraction d.microsecond ++ d.utcoffset.elim [] formatOffset))))))

/-! ## Reading -/

/-- Take `w` decimals off the front. -/
def readDigits : Nat → Nat → List Char → Option (Nat × List Char)
  | 0, acc, cs => some (acc, cs)
  | w + 1, acc, c :: cs =>
    if c.isDigit then readDigits w (acc * 10 + (c.toNat - '0'.toNat)) cs else none
  | _ + 1, _, [] => none

def expect (c : Char) : List Char → Option (List Char)
  | d :: cs => if d = c then some cs else none
  | [] => none

def readFraction : List Char → Option (Nat × List Char)
  | '.' :: cs => readDigits 6 0 cs
  | cs => some (0, cs)

def readSeconds : List Char → Option (Nat × Nat)
  | [] => some (0, 0)
  | cs => do
    let cs ← expect ':' cs
    let (ss, cs) ← readDigits 2 0 cs
    let (us, cs) ← readFraction cs
    if cs = [] then some (ss, us) else none

def readOffset : List Char → Option (Option Int)
  | [] => some none
  | sign :: cs => do
    let (hh, cs) ← readDigits 2 0 cs
    let cs ← expect ':' cs
    let (mm, cs) ← readDigits 2 0 cs
    let (ss, us) ← readSeconds cs
    let t : Nat := ((hh * 60 + mm) * 60 + ss) * 1000000 + us
    some (some (if sign = '-' then -t else t))

/-- The value with these fields, if they are in range. -/
def make (year month day hour minute second microsecond : Nat) (utcoffset : Option Int) :
    Option Datetime :=
  if hdate : year ≤ 9999 ∧ month ≤ 12 ∧ day ≤ 31 then
    if htime : hour < 24 ∧ minute < 60 ∧ second < 60 ∧ microsecond < 1000000 then
      if hoff : ∀ o ∈ utcoffset, o.natAbs < 86400000000 then
        some ⟨year, month, day, hour, minute, second, microsecond, utcoffset, hdate, htime, hoff⟩
      else none
    else none
  else none

/-- Read what `isoformat` writes. -/
def readIso (cs : List Char) : Option Datetime := do
  let (year, cs) ← readDigits 4 0 cs
  let cs ← expect '-' cs
  let (month, cs) ← readDigits 2 0 cs
  let cs ← expect '-' cs
  let (day, cs) ← readDigits 2 0 cs
  let cs ← expect 'T' cs
  let (hour, cs) ← readDigits 2 0 cs
  let cs ← expect ':' cs
  let (minute, cs) ← readDigits 2 0 cs
  let cs ← expect ':' cs
  let (second, cs) ← readDigits 2 0 cs
  let (microsecond, cs) ← readFraction cs
  let utcoffset ← readOffset cs
  make year month day hour minute second microsecond utcoffset

/-! ## Reading what was written -/

theorem isDigit_digitChar {n : Nat} (h : n < 10) : (Nat.digitChar n).isDigit = true ∧
    (Nat.digitChar n).toNat - '0'.toNat = n := by
  have hall : ∀ n < 10, (Nat.digitChar n).isDigit = true ∧
    (Nat.digitChar n).toNat - '0'.toNat = n := by decide
  exact hall n h

theorem readDigits_padded (w n acc : Nat) (rest : List Char) :
    readDigits w acc (padded w n ++ rest) = some (acc * 10 ^ w + n % 10 ^ w, rest) := by
  induction w generalizing acc with
  | zero => simp [readDigits, padded, Nat.mod_one]
  | succ w ih =>
    obtain ⟨hdigit, hvalue⟩ := isDigit_digitChar (Nat.mod_lt (n / 10 ^ w) (by decide : 0 < 10))
    rw [padded, List.cons_append, readDigits, if_pos hdigit, hvalue, ih]
    have hmod : n % 10 ^ (w + 1) = n / 10 ^ w % 10 * 10 ^ w + n % 10 ^ w := by
      rw [Nat.pow_succ, Nat.mod_mul]
      ring
    rw [hmod, Nat.pow_succ]
    ring_nf

/-- A number of at most `w` digits is read back. -/
theorem read_padded {w n : Nat} (h : n < 10 ^ w) (rest : List Char) :
    readDigits w 0 (padded w n ++ rest) = some (n, rest) := by
  rw [readDigits_padded, Nat.zero_mul, Nat.zero_add, Nat.mod_eq_of_lt h]

@[simp] theorem expect_cons (c : Char) (cs : List Char) : expect c (c :: cs) = some cs := by
  simp [expect]

theorem bind_expect {β : Type} (c : Char) (cs : List Char) (f : List Char → Option β) :
    (expect c (c :: cs) >>= f) = f cs := by
  rw [expect_cons]
  rfl

theorem bind_field {β : Type} {x : Option (Nat × List Char)} {n : Nat} {cs : List Char}
    {f : Nat × List Char → Option β} (h : x = some (n, cs)) : (x >>= f) = f (n, cs) := by
  rw [h]
  rfl

theorem read_fraction {us : Nat} (h : us < 1000000) {rest : List Char}
    (hrest : rest.head? ≠ some '.') : readFraction (fraction us ++ rest) = some (us, rest) := by
  unfold fraction
  split
  · rename_i hzero
    rw [List.nil_append, hzero]
    unfold readFraction
    split
    · exact absurd rfl hrest
    · rfl
  · exact read_padded h rest

theorem read_seconds (t : Nat) :
    readSeconds (offsetSeconds t) = some (t / 1000000 % 60, t % 1000000) := by
  unfold offsetSeconds
  split
  · rename_i hzero
    rw [readSeconds, show t / 1000000 % 60 = 0 by omega, show t % 1000000 = 0 by omega]
  · have hss : t / 1000000 % 60 < 10 ^ 2 := by omega
    have hus : t % 1000000 < 1000000 := Nat.mod_lt _ (by decide)
    have hfraction : readFraction (fraction (t % 1000000)) = some (t % 1000000, []) := by
      simpa using read_fraction hus (show ([] : List Char).head? ≠ some '.' by simp)
    simp [readSeconds, read_padded hss, hfraction]

theorem read_offset {o : Int} (h : o.natAbs < 86400000000) :
    readOffset (formatOffset o) = some (some o) := by
  have hhh : o.natAbs / 3600000000 < 10 ^ 2 := by omega
  have hmm : o.natAbs / 60000000 % 60 < 10 ^ 2 := by omega
  have htotal : ((o.natAbs / 3600000000 * 60 + o.natAbs / 60000000 % 60) * 60 +
      o.natAbs / 1000000 % 60) * 1000000 + o.natAbs % 1000000 = o.natAbs := by omega
  simp only [formatOffset, readOffset, Option.bind_eq_bind, read_padded hhh, Option.bind_some,
    expect_cons, read_padded hmm, read_seconds, htotal, Option.some.injEq]
  by_cases hneg : o < 0
  · rw [if_pos hneg, if_pos rfl]
    omega
  · rw [if_neg hneg, if_neg (by decide)]
    omega

/-- The offset does not start like a fraction. -/
theorem offset_head (o : Option Int) : (o.elim [] formatOffset).head? ≠ some '.' := by
  cases o with
  | none => simp
  | some o =>
    simp only [Option.elim_some, formatOffset, List.head?_cons, ne_eq, Option.some.injEq]
    split <;> decide

theorem readIso_isoformat (d : Datetime) : readIso d.isoformat = some d := by
  obtain ⟨hyear, hmonth, hday⟩ := d.date_valid
  obtain ⟨hhour, hminute, hsecond, hus⟩ := d.time_valid
  have hyear : d.year < 10 ^ 4 := by omega
  have hmonth : d.month < 10 ^ 2 := by omega
  have hday : d.day < 10 ^ 2 := by omega
  have hhour : d.hour < 10 ^ 2 := by omega
  have hminute : d.minute < 10 ^ 2 := by omega
  have hsecond : d.second < 10 ^ 2 := by omega
  have hoffset : readOffset (d.utcoffset.elim [] formatOffset) = some d.utcoffset := by
    cases ho : d.utcoffset with
    | none => rfl
    | some o => exact read_offset (d.offset_valid o ho)
  have hmake : make d.year d.month d.day d.hour d.minute d.second d.microsecond d.utcoffset =
      some d := by
    rw [make, dif_pos d.date_valid, dif_pos d.time_valid, dif_pos d.offset_valid]
  -- one field at a time, each off the front of what the last one left
  unfold isoformat readIso
  refine (bind_field (read_padded hyear _)).trans ((bind_expect '-' _ _).trans ?_)
  refine (bind_field (read_padded hmonth _)).trans ((bind_expect '-' _ _).trans ?_)
  refine (bind_field (read_padded hday _)).trans ((bind_expect 'T' _ _).trans ?_)
  refine (bind_field (read_padded hhour _)).trans ((bind_expect ':' _ _).trans ?_)
  refine (bind_field (read_padded hminute _)).trans ((bind_expect ':' _ _).trans ?_)
  refine (bind_field (read_padded hsecond _)).trans ?_
  refine (bind_field (read_fraction hus (offset_head _))).trans ?_
  change (readOffset (d.utcoffset.elim [] formatOffset)).bind _ = _
  rw [hoffset]
  exact hmake

/-! ## The characters of the text -/

/-- A digit or one of the separators. -/
def isIsoChar (c : Char) : Bool := c.isDigit || c ∈ ['-', ':', 'T', '.', '+']

theorem padded_isIso (w n : Nat) : ∀ c ∈ padded w n, isIsoChar c = true := by
  induction w with
  | zero => simp [padded]
  | succ w ih =>
    intro c hc
    rcases List.mem_cons.mp hc with rfl | hc
    · rw [isIsoChar, (isDigit_digitChar (Nat.mod_lt _ (by decide))).1, Bool.true_or]
    · exact ih c hc

theorem fraction_isIso (us : Nat) : ∀ c ∈ fraction us, isIsoChar c = true := by
  unfold fraction
  split
  · simp
  · intro c hc
    rcases List.mem_cons.mp hc with rfl | hc
    · decide
    · exact padded_isIso _ _ c hc

theorem offsetSeconds_isIso (t : Nat) : ∀ c ∈ offsetSeconds t, isIsoChar c = true := by
  unfold offsetSeconds
  split
  · simp
  · simp only [List.mem_cons, List.mem_append]
    rintro c (rfl | hc | hc)
    · decide
    · exact padded_isIso _ _ c hc
    · exact fraction_isIso _ c hc

theorem formatOffset_isIso (o : Int) : ∀ c ∈ formatOffset o, isIsoChar c = true := by
  simp only [formatOffset, List.mem_cons, List.mem_append]
  rintro c (rfl | hc | rfl | hc | hc)
  · split <;> decide
  · exact padded_isIso _ _ c hc
  · decide
  · exact padded_isIso _ _ c hc
  · exact offsetSeconds_isIso _ c hc

theorem isoformat_isIso (d : Datetime) : ∀ c ∈ d.isoformat, isIsoChar c = true := by
  simp only [isoformat, List.mem_cons, List.mem_append]
  rintro c (hc | rfl | hc | rfl | hc | rfl | hc | rfl | hc | rfl | hc | hc | hc)
  any_goals exact padded_isIso _ _ c hc
  any_goals decide
  · exact fraction_isIso _ c hc
  · cases ho : d.utcoffset with
    | none =>
      rw [ho] at hc
      cases hc
    | some o =>
      rw [ho] at hc
      exact formatOffset_isIso o c hc

end Datetime
