/-
  What a `Decimal` is worth: a rational number.

  `numEq`, `lt`, `isPos`, the `NUMERIC(18,6)` column, `quantize` and the decimal text of
  `format(d, "f")` are computed on coefficients and digits; here each is read as
  what it does to the value. `parse` reads plain decimal text back, and
  `parse_formatF` is the round trip.
-/
import Mathlib.Algebra.Order.Field.Power
import Mathlib.Data.Rat.Cast.Order
import Mathlib.Tactic.FieldSimp
import Mathlib.Tactic.Linarith
import Mathlib.Tactic.Ring
import ExecutionEngine.Contracts.Decimal

namespace ExecutionEngine.Decimal

/-- `coeff * 10 ^ exp`, as a number. -/
def value (d : Decimal) : ℚ := d.coeff * (10 : ℚ) ^ d.exp

theorem ten_zpow_pos (e : Int) : (0 : ℚ) < (10 : ℚ) ^ e := zpow_pos (by decide) e

theorem ten_zpow_ne (e : Int) : (10 : ℚ) ^ e ≠ 0 := (ten_zpow_pos e).ne'

theorem value_scaledTo (d : Decimal) {e : Int} (h : e ≤ d.exp) :
    d.value = (d.scaledTo e : ℚ) * (10 : ℚ) ^ e := by
  obtain ⟨n, hn⟩ := Int.eq_ofNat_of_zero_le (by omega : 0 ≤ d.exp - e)
  have hexp : d.exp = (n : Int) + e := by omega
  unfold value scaledTo
  rw [hn, hexp, zpow_add₀ (by decide), zpow_natCast]
  push_cast
  rw [Int.toNat_natCast, mul_assoc]

theorem numEq_iff {a b : Decimal} : a.numEq b = true ↔ a.value = b.value := by
  rw [value_scaledTo a (min_le_left a.exp b.exp), value_scaledTo b (min_le_right a.exp b.exp),
    mul_left_inj' (ten_zpow_ne _)]
  simp [numEq]

theorem lt_iff {a b : Decimal} : a.lt b = true ↔ a.value < b.value := by
  rw [value_scaledTo a (min_le_left a.exp b.exp), value_scaledTo b (min_le_right a.exp b.exp),
    mul_lt_mul_iff_left₀ (ten_zpow_pos _)]
  simp [lt]

theorem not_lt_iff {a b : Decimal} : a.lt b = false ↔ b.value ≤ a.value := by
  rw [← not_lt, ← lt_iff, Bool.not_eq_true]

theorem value_mulInt (d : Decimal) (n : Int) : (d.mulInt n).value = d.value * n := by
  unfold value mulInt
  push_cast
  ring

theorem isPos_iff {d : Decimal} : d.isPos = true ↔ 0 < d.value := by
  unfold isPos value
  rw [mul_pos_iff_of_pos_right (ten_zpow_pos _)]
  simp

/-! ## Rounding -/

/-- A number with at most `places` decimal places. -/
def HasPlaces (places : Nat) (q : ℚ) : Prop := ∃ n : Int, q = n / (10 : ℚ) ^ places

theorem HasPlaces.mono {p p' : Nat} {q : ℚ} (h : HasPlaces p q) (hp : p ≤ p') : HasPlaces p' q := by
  obtain ⟨n, rfl⟩ := h
  obtain ⟨k, rfl⟩ := Nat.exists_eq_add_of_le hp
  refine ⟨n * 10 ^ k, ?_⟩
  rw [pow_add]
  push_cast
  field_simp

theorem hasPlaces_of_exp {d : Decimal} {places : Nat} (h : d.exp = -(places : Int)) :
    HasPlaces places d.value :=
  ⟨d.coeff, by rw [value, h, zpow_neg, zpow_natCast, div_eq_mul_inv]⟩

/-- Rounding a whole quotient gives it back. -/
theorem divHalfUp_mul (n : Int) {b : Int} (hb : 0 < b) : divHalfUp (n * b) b = n := by
  unfold divHalfUp
  have hdiv : ∀ m : Int, (2 * (m * b) + b) / (2 * b) = m := by
    intro m
    have hsum : 2 * (m * b) + b = b + 2 * b * m := by ring
    rw [hsum, Int.add_mul_ediv_left _ _ (by omega), Int.ediv_eq_zero_of_lt (by omega) (by omega),
      Int.zero_add]
  split
  · exact hdiv n
  · rw [← Int.neg_mul, hdiv (-n), Int.neg_neg]

theorem microParts_pos (d : Decimal) : 0 < d.microParts.2 := by
  unfold microParts
  split
  · exact Int.one_pos
  · exact pow_pos (by decide) _

/-- The micro parts of a decimal are its value in millionths. -/
theorem value_microParts (d : Decimal) :
    d.value * 10 ^ 6 * d.microParts.2 = d.microParts.1 := by
  unfold microParts value
  split
  · rename_i h
    obtain ⟨n, hn⟩ := Int.eq_ofNat_of_zero_le h
    have hexp : d.exp = (n : Int) - 6 := by omega
    rw [hn, hexp, zpow_sub₀ (by decide), zpow_natCast]
    simp only [Int.toNat_natCast]
    push_cast
    field_simp
    norm_num
  · rename_i h
    obtain ⟨n, hn⟩ := Int.eq_ofNat_of_zero_le (by omega : 0 ≤ -(d.exp + 6))
    have hexp : d.exp = -(n : Int) - 6 := by omega
    rw [hn, hexp, zpow_sub₀ (by decide), zpow_neg, zpow_natCast]
    simp only [Int.toNat_natCast]
    push_cast
    field_simp
    norm_num

/-- The column stores a price exactly if it has at most six decimal places. -/
theorem numeric_exact_iff {d : Decimal} : d.numeric.value = d.value ↔ HasPlaces 6 d.value := by
  constructor
  · intro h
    rw [← h]
    exact hasPlaces_of_exp rfl
  · rintro ⟨n, hn⟩
    have hb := microParts_pos d
    have hmicro : d.microParts.1 = n * d.microParts.2 := by
      have h := value_microParts d
      rw [hn] at h
      have h' : ((n * d.microParts.2 : Int) : ℚ) = d.microParts.1 := by
        push_cast
        rw [← h]
        field_simp
      exact_mod_cast h'.symm
    have hcoeff : d.numeric.coeff = n := by
      change divHalfUp d.microParts.1 d.microParts.2 = n
      rw [hmicro]
      exact divHalfUp_mul n hb
    have hexp : d.numeric.exp = -6 := rfl
    rw [hn, value, hcoeff, hexp, zpow_neg, div_eq_mul_inv]
    norm_cast

theorem hasPlaces_quantize (d : Decimal) (places : Nat) :
    HasPlaces places (d.quantize places).value := by
  refine hasPlaces_of_exp ?_
  unfold quantize
  split <;> rfl

/-- A quotient that rounds to a small number is small. -/
theorem abs_lt_of_divHalfUp {a b : Int} {n : Nat} (hb : 0 < b)
    (h : (divHalfUp a b).natAbs < n) : |a| < b * n := by
  unfold divHalfUp at h
  have hup {m : Int} (hm : ((2 * m + b) / (2 * b)).natAbs < n) : m < b * n := by
    have hlt : 2 * m + b < 2 * b * ((2 * m + b) / (2 * b)) + 2 * b :=
      Int.lt_mul_ediv_self_add (by omega)
    have hle : 2 * b * ((2 * m + b) / (2 * b) + 1) ≤ 2 * b * n :=
      mul_le_mul_of_nonneg_left (by omega) (by omega)
    linarith only [hlt, hle, hb]
  split at h
  · rename_i ha
    rw [abs_of_nonneg ha]
    exact hup h
  · rename_i ha
    rw [abs_of_neg (by omega)]
    rw [Int.natAbs_neg] at h
    exact hup h

theorem divHalfEven_natAbs_le {a b : Int} {n : Nat} (hb : 0 < b) (h : |a| < b * n) :
    (divHalfEven a b).natAbs ≤ n := by
  obtain ⟨hlow, hhigh⟩ := abs_lt.mp h
  have hle : a / b < n := Int.ediv_lt_of_lt_mul hb (by rwa [Int.mul_comm] at hhigh)
  have hge : -(n : Int) ≤ a / b := Int.le_ediv_of_mul_le hb (by
    rw [Int.neg_mul, Int.mul_comm]
    exact hlow.le)
  unfold divHalfEven
  dsimp only
  repeat' split
  all_goals omega

/-- What a price column holds, `quantize` can give. -/
theorem fitsQuantum_of_fitsNumeric {d : Decimal} (h : d.fitsNumeric = true) :
    d.fitsQuantum = true := by
  have hb := microParts_pos d
  have habs := abs_lt_of_divHalfUp hb (of_decide_eq_true h)
  refine decide_eq_true (lt_of_le_of_lt (?_ : _ ≤ 10 ^ 18) (by decide))
  unfold microParts at habs hb
  change (if 0 ≤ d.exp + 6 then _ else _ : Decimal).coeff.natAbs ≤ _
  by_cases hexp : 0 ≤ d.exp + 6
  · rw [if_pos hexp] at habs ⊢
    change |d.coeff * 10 ^ (d.exp + 6).toNat| < 1 * ((10 ^ 18 : Nat) : Int) at habs
    change (d.coeff * 10 ^ (d.exp + 6).toNat).natAbs ≤ _
    rw [Int.abs_eq_natAbs] at habs
    omega
  · rw [if_neg hexp] at habs hb ⊢
    exact divHalfEven_natAbs_le hb habs

/-! ## Text -/

/-- `Decimal(text)` for the plain digits that `format(d, "f")` writes. -/
def parse (text : String) : Option Decimal :=
  let whole := text.toList.takeWhile (· ≠ '.')
  let places := (text.toList.dropWhile (· ≠ '.')).drop 1
  if (whole ++ places).isEmpty || !(whole ++ places).all Char.isDigit then none
  else some ⟨Nat.ofDigitChars 10 (whole ++ places) 0, -(places.length : Int)⟩

theorem toString_nonneg {n : Int} (h : 0 ≤ n) : (toString n).toList = Nat.toDigits 10 n.toNat := by
  obtain ⟨m, rfl⟩ := Int.eq_ofNat_of_zero_le h
  rw [Int.toNat_natCast]
  exact Nat.toList_repr

/-- Digits come before the point. -/
theorem span_digits {whole : List Char} (hw : ∀ c ∈ whole, c.isDigit = true) (tail : List Char) :
    (whole ++ tail).takeWhile (· ≠ '.') = whole ++ tail.takeWhile (· ≠ '.') ∧
      (whole ++ tail).dropWhile (· ≠ '.') = tail.dropWhile (· ≠ '.') := by
  have hdot : ∀ c ∈ whole, decide (c ≠ '.') = true := by
    intro c hc
    refine decide_eq_true fun h => ?_
    rw [h] at hc
    exact absurd (hw _ hc) (by decide)
  exact ⟨List.takeWhile_append_of_pos hdot, List.dropWhile_append_of_pos hdot⟩

/-- Some digits, and after a point some more. -/
theorem parse_digits (whole places tail : List Char) (hw : ∀ c ∈ whole, c.isDigit = true)
    (hp : ∀ c ∈ places, c.isDigit = true) (hne : whole ≠ [])
    (htail : tail.takeWhile (· ≠ '.') = [] ∧ (tail.dropWhile (· ≠ '.')).drop 1 = places) :
    parse (String.ofList (whole ++ tail)) =
      some ⟨Nat.ofDigitChars 10 (whole ++ places) 0, -(places.length : Int)⟩ := by
  obtain ⟨htake, hdrop⟩ := span_digits hw tail
  have hall : (whole ++ places).all Char.isDigit = true := by
    rw [List.all_append, List.all_eq_true.mpr hw, List.all_eq_true.mpr hp]
    rfl
  have hempty : (whole ++ places).isEmpty = false := by
    cases whole with
    | nil => exact absurd rfl hne
    | cons => rfl
  unfold parse
  dsimp only
  rw [String.toList_ofList, htake, hdrop, htail.1, htail.2, List.append_nil, hall, hempty]
  rfl

theorem toDigits_isDigit (n : Nat) : ∀ c ∈ Nat.toDigits 10 n, c.isDigit = true :=
  fun _ hc => Nat.isDigit_of_mem_toDigits (by decide) (by decide) hc

/-- Padding a digit list on the left does not change what it is worth. -/
theorem ofDigitChars_padded (m n : Nat) :
    Nat.ofDigitChars 10 (List.replicate m '0' ++ Nat.toDigits 10 n) 0 = n := by
  rw [Nat.ofDigitChars_append, Nat.ofDigitChars_replicate_zero, Nat.mul_zero,
    Nat.ofDigitChars_toDigits (by decide) (by decide)]

/-- `format(d, "f")` reads back as the same number with as many places as were written. -/
theorem parse_formatF_eq {d : Decimal} (h : 0 ≤ d.coeff) :
    parse d.formatF = some ⟨d.scaledTo (min d.exp 0), min d.exp 0⟩ := by
  obtain ⟨n, hn⟩ := Int.eq_ofNat_of_zero_le h
  unfold formatF
  by_cases hexp : 0 ≤ d.exp
  · obtain ⟨k, hk⟩ := Int.eq_ofNat_of_zero_le hexp
    have hnat : d.coeff * 10 ^ d.exp.toNat = ((n * 10 ^ k : Nat) : Int) := by
      rw [hn, hk, Int.toNat_natCast]
      push_cast
      rfl
    have htext : toString (d.coeff * 10 ^ d.exp.toNat) =
        String.ofList (Nat.toDigits 10 (n * 10 ^ k) ++ []) := by
      rw [← String.ofList_toList (s := toString (d.coeff * 10 ^ d.exp.toNat)),
        toString_nonneg (by rw [hnat]; exact Int.natCast_nonneg _), hnat, Int.toNat_natCast,
        List.append_nil]
    have hparse := parse_digits (Nat.toDigits 10 (n * 10 ^ k)) [] [] (toDigits_isDigit _)
      (by simp) Nat.toDigits_ne_nil (by simp)
    rw [if_pos hexp, htext, hparse, List.append_nil,
      Nat.ofDigitChars_toDigits (by decide) (by decide)]
    unfold scaledTo
    rw [hn, hk]
    simp
  · obtain ⟨k, hk⟩ := Int.eq_ofNat_of_zero_le (by omega : 0 ≤ -d.exp)
    rw [if_neg hexp, hk, Int.toNat_natCast]
    dsimp only
    have hdigits : (toString d.coeff).toList = Nat.toDigits 10 n := by
      rw [toString_nonneg h, hn, Int.toNat_natCast]
    rw [hdigits]
    generalize hpad : List.replicate (k + 1 - (Nat.toDigits 10 n).length) '0' ++
      Nat.toDigits 10 n = padded
    have hlen : k + 1 ≤ padded.length := by
      rw [← hpad, List.length_append, List.length_replicate]
      omega
    have hall : ∀ c ∈ padded, c.isDigit = true := by
      intro c hc
      rw [← hpad] at hc
      rcases List.mem_append.mp hc with hc | hc
      · rw [List.eq_of_mem_replicate hc]
        decide
      · exact toDigits_isDigit n c hc
    have hne : padded.take (padded.length - k) ≠ [] := by
      intro hnil
      have := congrArg List.length hnil
      rw [List.length_take, List.length_nil] at this
      omega
    have hparse := parse_digits (padded.take (padded.length - k)) (padded.drop (padded.length - k))
      ('.' :: padded.drop (padded.length - k))
      (fun c hc => hall c (List.mem_of_mem_take hc)) (fun c hc => hall c (List.mem_of_mem_drop hc))
      hne ⟨by simp, by simp⟩
    rw [hparse, List.take_append_drop, List.length_drop, ← hpad, ofDigitChars_padded, hpad]
    have hplaces : -(((padded.length - (padded.length - k) : Nat)) : Int) = d.exp := by omega
    have hmin : min d.exp 0 = d.exp := by omega
    unfold scaledTo
    rw [hplaces, hmin, ← hn]
    simp

theorem parse_formatF {d : Decimal} (h : 0 ≤ d.coeff) :
    ∃ d', parse d.formatF = some d' ∧ d'.value = d.value :=
  ⟨_, parse_formatF_eq h, (value_scaledTo d (min_le_left d.exp 0)).symm⟩

/-- Text that reads as a number is made of digits and points. -/
theorem parse_chars {text : String} {d : Decimal} (h : parse text = some d) :
    ∀ c ∈ text.toList, c.isDigit = true ∨ c = '.' := by
  unfold parse at h
  dsimp only at h
  split at h
  · cases h
  · rename_i hcond
    simp only [Bool.or_eq_true, not_or, Bool.not_eq_true', Bool.not_eq_false, List.all_append,
      Bool.and_eq_true, List.all_eq_true] at hcond
    obtain ⟨-, hwhole, hplaces⟩ := hcond
    intro c hc
    rw [← List.takeWhile_append_dropWhile (p := (· ≠ '.')) (l := text.toList)] at hc
    obtain hc | hc := List.mem_append.mp hc
    · exact .inl (hwhole c hc)
    · cases hdrop : text.toList.dropWhile (· ≠ '.') with
      | nil =>
        rw [hdrop] at hc
        cases hc
      | cons x xs =>
        rw [hdrop] at hc hplaces
        obtain rfl | hc := List.mem_cons.mp hc
        · have hne : text.toList.dropWhile (· ≠ '.') ≠ [] := by
            rw [hdrop]
            exact List.cons_ne_nil _ _
          have hhead := List.head_dropWhile_not (· ≠ '.') hne
          simp only [hdrop, List.head_cons] at hhead
          exact .inr (by simpa using hhead)
        · exact .inl (hplaces c hc)

/-- Two decimals are written alike if they are worth the same and have as many places. -/
theorem formatF_eq_iff {a b : Decimal} (ha : 0 ≤ a.coeff) (hb : 0 ≤ b.coeff) :
    a.formatF = b.formatF ↔ a.value = b.value ∧ min a.exp 0 = min b.exp 0 := by
  constructor
  · intro h
    have hparse := parse_formatF_eq ha
    rw [h, parse_formatF_eq hb] at hparse
    obtain ⟨hcoeff, hexp⟩ := Decimal.mk.inj (Option.some.inj hparse)
    refine ⟨?_, hexp.symm⟩
    rw [value_scaledTo a (min_le_left a.exp 0), value_scaledTo b (min_le_left b.exp 0), hcoeff, hexp]
  · rintro ⟨hvalue, hexp⟩
    have hle : min a.exp 0 ≤ b.exp := hexp ▸ min_le_left b.exp 0
    rw [value_scaledTo a (min_le_left a.exp 0), value_scaledTo b hle,
      mul_left_inj' (ten_zpow_ne _)] at hvalue
    have hcoeff : a.scaledTo (min a.exp 0) = b.scaledTo (min a.exp 0) := by exact_mod_cast hvalue
    by_cases hpos : 0 ≤ a.exp
    · have hbpos : 0 ≤ b.exp := by omega
      have hzero : min a.exp 0 = 0 := by omega
      rw [hzero] at hcoeff
      unfold scaledTo at hcoeff
      rw [Int.sub_zero, Int.sub_zero] at hcoeff
      unfold formatF
      rw [if_pos hpos, if_pos hbpos, hcoeff]
    · have heq : a = b := by
        have hsame : a.exp = b.exp := by omega
        have hmin : min a.exp 0 = a.exp := by omega
        rw [hmin] at hcoeff
        unfold scaledTo at hcoeff
        rw [← hsame, Int.sub_self] at hcoeff
        obtain ⟨c, e⟩ := a
        obtain ⟨c', e'⟩ := b
        obtain rfl : e = e' := hsame
        have : c = c' := by simpa using hcoeff
        rw [this]
      rw [heq]

end ExecutionEngine.Decimal
