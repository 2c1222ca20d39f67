/-
  URL-safe base64, with its padding, and without it.

  `encode` writes three bytes as four characters and fills the last group up with
  `=`. A text whose trailing `=` have been stripped is restored by filling it up to
  a multiple of four (`repad_strip`), since an encoding has at most two of them, at
  its end only (`encode_shape`).
-/
import Mathlib.Data.List.DropRight

namespace Base64

/-- The URL-safe alphabet. -/
def alphabet : List Char :=
  "ABCDEFGHIJKLMNOPQRSTUVWXYZabcdefghijklmnopqrstuvwxyz0123456789-_".toList

/-- The character of a six-bit value. -/
def digit (n : Nat) : Char := alphabet.getD n 'A'

/-- The value of a character. -/
def value (c : Char) : Option Nat := alphabet.findIdx? fun d => d = c

/-- Three bytes at a time, and two or one of them at the end. -/
def encode : List UInt8 → List Char
  | [] => []
  | [a] => [digit (a.toNat / 4), digit (a.toNat % 4 * 16), '=', '=']
  | [a, b] => [digit (a.toNat / 4), digit (a.toNat % 4 * 16 + b.toNat / 16),
      digit (b.toNat % 16 * 4), '=']
  | a :: b :: c :: rest =>
    digit (a.toNat / 4) :: digit (a.toNat % 4 * 16 + b.toNat / 16) ::
      digit (b.toNat % 16 * 4 + c.toNat / 64) :: digit (c.toNat % 64) :: encode rest

/-- The first byte of a group. -/
def first (p q : Nat) : UInt8 := UInt8.ofNat (p * 4 + q / 16)

def second (q r : Nat) : UInt8 := UInt8.ofNat (q % 16 * 16 + r / 4)

def third (r s : Nat) : UInt8 := UInt8.ofNat (r % 4 * 64 + s)

/-- Four characters at a time, `=` in the last group only. -/
def decode : List Char → Option (List UInt8)
  | [] => some []
  | p :: q :: r :: s :: rest => do
    let p ← value p
    let q ← value q
    if r = '=' then if s = '=' ∧ rest = [] then some [first p q] else none
    else do
      let r ← value r
      if s = '=' then if rest = [] then some [first p q, second q r] else none
      else do
        let s ← value s
        let bytes ← decode rest
        some (first p q :: second q r :: third r s :: bytes)
  | _ => none

theorem value_digit {n : Nat} (h : n < 64) : value (digit n) = some n := by
  have hall : ∀ n < 64, value (digit n) = some n := by decide +kernel
  exact hall n h

theorem digit_ne_pad {n : Nat} (h : n < 64) : digit n ≠ '=' := by
  have hall : ∀ n < 64, digit n ≠ '=' := by decide +kernel
  exact hall n h

/-! ## The groups -/

variable (a b c : UInt8)

theorem first_group : first (a.toNat / 4) (a.toNat % 4 * 16 + b.toNat / 16) = a := by
  have hb := b.toNat_lt
  rw [first, show a.toNat / 4 * 4 + (a.toNat % 4 * 16 + b.toNat / 16) / 16 = a.toNat by omega]
  exact UInt8.ofNat_toNat

theorem second_group : second (a.toNat % 4 * 16 + b.toNat / 16) (b.toNat % 16 * 4 + c.toNat / 64)
    = b := by
  have hb := b.toNat_lt
  have hc := c.toNat_lt
  rw [second, show (a.toNat % 4 * 16 + b.toNat / 16) % 16 * 16 +
    (b.toNat % 16 * 4 + c.toNat / 64) / 4 = b.toNat by omega]
  exact UInt8.ofNat_toNat

theorem third_group : third (b.toNat % 16 * 4 + c.toNat / 64) (c.toNat % 64) = c := by
  have hc := c.toNat_lt
  rw [third, show (b.toNat % 16 * 4 + c.toNat / 64) % 4 * 64 + c.toNat % 64 = c.toNat by omega]
  exact UInt8.ofNat_toNat

/-- The first two characters of a group carry its first byte. -/
theorem head_bounds : a.toNat / 4 < 64 ∧ a.toNat % 4 * 16 + b.toNat / 16 < 64 := by
  have ha := a.toNat_lt
  have hb := b.toNat_lt
  omega

theorem middle_bound : b.toNat % 16 * 4 + c.toNat / 64 < 64 := by
  have hc := c.toNat_lt
  omega

/-- What is encoded is decoded. -/
theorem decode_encode (bytes : List UInt8) : decode (encode bytes) = some bytes := by
  induction bytes using encode.induct with
  | case1 => rfl
  | case2 a =>
    have ⟨hp, hq⟩ := head_bounds a 0
    have hfirst := first_group a 0
    simp only [UInt8.toNat_zero, Nat.zero_div, Nat.add_zero] at hq hfirst
    simp [encode, decode, value_digit hp, value_digit hq, hfirst]
  | case3 a b =>
    have ⟨hp, hq⟩ := head_bounds a b
    have hr := middle_bound b 0
    have hsecond := second_group a b 0
    simp only [UInt8.toNat_zero, Nat.zero_div, Nat.add_zero] at hr hsecond
    simp [encode, decode, value_digit hp, value_digit hq, value_digit hr, digit_ne_pad hr,
      first_group, hsecond]
  | case4 a b c rest ih =>
    have ⟨hp, hq⟩ := head_bounds a b
    have hr := middle_bound b c
    have hs : c.toNat % 64 < 64 := Nat.mod_lt _ (by decide)
    simp [encode, decode, value_digit hp, value_digit hq, value_digit hr, value_digit hs,
      digit_ne_pad hr, digit_ne_pad hs, first_group, second_group, third_group, ih]

/-! ## The padding -/

/-- `rstrip("=")`. -/
def strip (text : List Char) : List Char := text.rdropWhile fun c => c = '='

/-- `text + "=" * (-len(text) % 4)`. -/
def repad (text : List Char) : List Char :=
  text ++ List.replicate ((4 - text.length % 4) % 4) '='

/-- An encoding is a text without `=`, with at most two of them behind it, in groups of four. -/
theorem encode_shape (bytes : List UInt8) : ∃ text n, encode bytes = text ++ List.replicate n '=' ∧
    '=' ∉ text ∧ n ≤ 2 ∧ (text.length + n) % 4 = 0 := by
  induction bytes using encode.induct with
  | case1 => exact ⟨[], 0, rfl, by simp, by omega, rfl⟩
  | case2 a =>
    have ⟨hp, hq⟩ := head_bounds a 0
    simp only [UInt8.toNat_zero, Nat.zero_div, Nat.add_zero] at hq
    refine ⟨[_, _], 2, rfl, ?_, by omega, by simp⟩
    simp [(digit_ne_pad hp).symm, (digit_ne_pad hq).symm]
  | case3 a b =>
    have ⟨hp, hq⟩ := head_bounds a b
    have hr := middle_bound b 0
    simp only [UInt8.toNat_zero, Nat.zero_div, Nat.add_zero] at hr
    refine ⟨[_, _, _], 1, rfl, ?_, by omega, by simp⟩
    simp [(digit_ne_pad hp).symm, (digit_ne_pad hq).symm, (digit_ne_pad hr).symm]
  | case4 a b c rest ih =>
    obtain ⟨text, n, htext, hpad, hn, hlen⟩ := ih
    have ⟨hp, hq⟩ := head_bounds a b
    have hr := middle_bound b c
    have hs : c.toNat % 64 < 64 := Nat.mod_lt _ (by decide)
    refine ⟨_ :: _ :: _ :: _ :: text, n, by rw [encode, htext]; rfl, ?_, hn, ?_⟩
    · simp [(digit_ne_pad hp).symm, (digit_ne_pad hq).symm, (digit_ne_pad hr).symm,
        (digit_ne_pad hs).symm, hpad]
    · simp only [List.length_cons]
      omega

theorem strip_append {text : List Char} (h : '=' ∉ text) (n : Nat) :
    strip (text ++ List.replicate n '=') = text := by
  induction n with
  | zero =>
    rw [List.replicate_zero, List.append_nil]
    refine List.rdropWhile_eq_self_iff.mpr fun hne hlast => h ?_
    rw [← of_decide_eq_true hlast]
    exact List.getLast_mem hne
  | succ n ih =>
    rw [List.replicate_succ', ← List.append_assoc, strip, List.rdropWhile_concat_pos _ _ _ rfl]
    exact ih

/-- Stripping loses nothing. -/
theorem repad_strip (bytes : List UInt8) : repad (strip (encode bytes)) = encode bytes := by
  obtain ⟨text, n, htext, hpad, hn, hlen⟩ := encode_shape bytes
  rw [htext, strip_append hpad, repad]
  congr 2
  omega

end Base64
