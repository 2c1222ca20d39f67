/-
  What `JsonText` writes it reads back.

  Escaping and reading a code point gives its code units (`readUnits_escape`), and joining the
  units of a text is joining the text (`join_units`); a numeral is read back up to a character
  that cannot go on it (`readNumeral_append`). `loads_dumps` is the round trip of values whose
  strings are sound and whose objects have no key twice. `dumps_printable` says the text is a
  single line.
-/
import ExecutionEngine.Encoding.JsonText

namespace JsonText

variable {F : Type} {fl : Floats F}

/-! ## Strings -/

theorem hexValue_hexDigit (n : Nat) : hexValue (hexDigit n) = some (n % 16) := by
  have h : ∀ d < 16, hexValue (Nat.digitChar d) = some d := by decide
  exact h _ (Nat.mod_lt n (by decide))

theorem hexUnit_hexDigit {u : Nat} (h : u < 65536) :
    hexUnit (hexDigit (u / 4096)) (hexDigit (u / 256)) (hexDigit (u / 16)) (hexDigit u) = some u := by
  unfold hexUnit
  simp only [hexValue_hexDigit, Option.bind_eq_bind, Option.bind_some, Option.pure_def,
    Option.some.injEq]
  omega

/-- Put units in front of what was read. -/
def withUnits (us : Text) (x : Text × List Char) : Text × List Char := (us ++ x.1, x.2)

theorem readUnits_unicodeEscape {u : Nat} (h : u < 65536) (rest : List Char) :
    readUnits (unicodeEscape u ++ rest) = (readUnits rest).map (withUnits [u]) := by
  simp only [unicodeEscape, List.cons_append, List.nil_append]
  rw [readUnits, hexUnit_hexDigit h]
  cases readUnits rest <;> rfl

theorem units_lt {c : Nat} (h : c < 1114112) : ∀ u ∈ units c, u < 65536 := by
  unfold units
  split
  · simpa using ‹c < 65536›
  · intro u hu
    simp only [List.mem_cons, List.not_mem_nil, or_false] at hu
    omega

theorem readUnits_unicodeEscapes {us : List Nat} (h : ∀ u ∈ us, u < 65536) (rest : List Char) :
    readUnits (us.flatMap unicodeEscape ++ rest) = (readUnits rest).map (withUnits us) := by
  induction us with
  | nil =>
    rw [List.flatMap_nil, List.nil_append]
    cases readUnits rest <;> rfl
  | cons u us ih =>
    rw [List.forall_mem_cons] at h
    rw [List.flatMap_cons, List.append_assoc, readUnits_unicodeEscape h.1, ih h.2]
    cases readUnits rest <;> rfl

theorem toNat_ofNat {c : Nat} (h : c < 55296) : (Char.ofNat c).toNat = c := by
  have hvalid : c.isValidChar := .inl h
  rw [Char.ofNat, dif_pos hvalid]
  rfl

theorem readUnits_plain {x : Char} (hq : x ≠ '"') (hs : x ≠ '\\') (hx : 32 ≤ x.toNat)
    (cs : List Char) : readUnits (x :: cs) = (readUnits cs).map (withUnits [x.toNat]) := by
  rw [readUnits, if_neg (not_or.mpr ⟨hs, by omega⟩)]
  · rfl
  · exact hq
  · rintro _ _ _ _ _ rfl
    exact absurd rfl hs
  · rintro _ _ rfl
    exact absurd rfl hs

/-- A code point is read back as its units. -/
theorem readUnits_escape {c : Nat} (h : c < 1114112) (rest : List Char) :
    readUnits (escape c ++ rest) = (readUnits rest).map (withUnits (units c)) := by
  have short (e : Char) (u : Nat) (he : unescape e = some u) (hu : u < 65536) (hne : e ≠ 'u') :
      readUnits ('\\' :: e :: rest) = (readUnits rest).map (withUnits (units u)) := by
    rw [readUnits, he, units, if_pos hu]
    · cases readUnits rest <;> rfl
    · rintro _ _ _ _ _ rfl
      exact absurd rfl hne
  unfold escape
  split
  · rename_i hc
    exact hc ▸ short '"' 34 rfl (by decide) (by decide)
  split
  · rename_i hc
    exact hc ▸ short '\\' 92 rfl (by decide) (by decide)
  split
  · rename_i hc
    exact hc ▸ short 'n' 10 rfl (by decide) (by decide)
  split
  · rename_i hc
    exact hc ▸ short 'r' 13 rfl (by decide) (by decide)
  split
  · rename_i hc
    exact hc ▸ short 't' 9 rfl (by decide) (by decide)
  split
  · rename_i hc
    exact hc ▸ short 'f' 12 rfl (by decide) (by decide)
  split
  · rename_i hc
    exact hc ▸ short 'b' 8 rfl (by decide) (by decide)
  split
  · rename_i hquote hslash _ _ _ _ _ hprint
    have hnat : (Char.ofNat c).toNat = c := toNat_ofNat (by omega)
    have hne (d : Char) (hd : c ≠ d.toNat) : Char.ofNat c ≠ d := fun he => hd (by rw [← he, hnat])
    have hunits : units c = [(Char.ofNat c).toNat] := by
      rw [hnat, units, if_pos (by omega)]
    rw [hunits]
    exact readUnits_plain (hne '"' hquote) (hne '\\' hslash) (by omega) rest
  · exact readUnits_unicodeEscapes (units_lt h) rest

theorem readUnits_text {s : Text} (h : ∀ c ∈ s, c < 1114112) (rest : List Char) :
    readUnits (s.flatMap escape ++ '"' :: rest) = some (s.flatMap units, rest) := by
  induction s with
  | nil => rw [List.flatMap_nil, List.nil_append, readUnits]; rfl
  | cons c s ih =>
    rw [List.forall_mem_cons] at h
    rw [List.flatMap_cons, List.append_assoc, readUnits_escape h.1, ih h.2]
    rfl

theorem join_pair {c : Nat} (hge : 65536 ≤ c) (hlt : c < 1114112) (us : Text) :
    join (units c ++ us) = c :: join us := by
  have hhigh : isHigh (55296 + (c - 65536) / 1024) = true := by
    unfold isHigh
    rw [Bool.and_eq_true, decide_eq_true_eq, decide_eq_true_eq]
    omega
  have hlow : isLow (56320 + (c - 65536) % 1024) = true := by
    unfold isLow
    rw [Bool.and_eq_true, decide_eq_true_eq, decide_eq_true_eq]
    omega
  rw [units, if_neg (by omega), List.cons_append, List.cons_append, List.nil_append, join, hhigh,
    hlow]
  simp only [Bool.and_self, if_true, List.cons.injEq, and_true]
  omega

/-- A high surrogate pairs with no code point above U+FFFF, nor with one that is not low. -/
theorem join_before {h l : Nat} {us : Text} (hlt : l < 1114112)
    (hpair : (isHigh h && isLow l) = false) :
    join (h :: (units l ++ us)) = h :: join (units l ++ us) := by
  unfold units
  split
  · rw [List.cons_append, List.nil_append, join, hpair, if_neg (by decide)]
  · have hlow : isLow (55296 + (l - 65536) / 1024) = false := by
      simp only [isLow, Bool.and_eq_false_imp, decide_eq_true_eq, decide_eq_false_iff_not]
      omega
    rw [List.cons_append, List.cons_append, join, hlow, Bool.and_false, if_neg (by decide)]

theorem units_small {c : Nat} (h : c < 65536) : units c = [c] := if_pos h

theorem not_surrogate {c : Nat} (h : 65536 ≤ c) : isHigh c = false ∧ isLow c = false := by
  simp only [isHigh, isLow, Bool.and_eq_false_imp, decide_eq_true_eq, decide_eq_false_iff_not]
  omega

/-- Splitting and joining is joining. -/
theorem join_units {s : Text} (h : ∀ c ∈ s, c < 1114112) : join (s.flatMap units) = join s := by
  induction s using join.induct with
  | case1 a b us hpair ih =>
    obtain ⟨ha, hb⟩ := Bool.and_eq_true_iff.mp hpair
    have hsmall {c : Nat} (hc : isHigh c = true ∨ isLow c = true) : c < 65536 := by
      by_contra hge
      obtain ⟨hhigh, hlow⟩ := not_surrogate (Nat.le_of_not_lt hge)
      simp [hhigh, hlow] at hc
    rw [List.flatMap_cons, List.flatMap_cons, units_small (hsmall (.inl ha)),
      units_small (hsmall (.inr hb)), List.cons_append, List.nil_append, List.cons_append,
      List.nil_append, join, if_pos hpair, join, if_pos hpair, ih fun c hc => h c (by simp [hc])]
  | case2 a b us hpair ih =>
    have ih := ih fun c hc => h c (List.mem_cons_of_mem _ hc)
    rw [join, if_neg hpair, ← ih, List.flatMap_cons, List.flatMap_cons]
    by_cases ha : a < 65536
    · rw [units_small ha, List.cons_append, List.nil_append]
      exact join_before (h b (by simp)) (by simpa using hpair)
    · exact join_pair (Nat.le_of_not_lt ha) (h a (by simp)) _
  | case3 us hus =>
    match us, hus with
    | [], _ => rfl
    | [c], _ =>
      by_cases hc : c < 65536
      · rw [List.flatMap_cons, units_small hc]
        rfl
      · rw [List.flatMap_cons, join_pair (Nat.le_of_not_lt hc) (h c (by simp))]
        rfl
    | a :: b :: us, hus => exact absurd rfl (hus a b us)

/-- Without high surrogates there is nothing to join. -/
theorem join_of_no_high {s : Text} (h : ∀ c ∈ s, isHigh c = false) : join s = s := by
  induction s using join.induct with
  | case1 a b us hpair ih =>
    rw [h a (by simp), Bool.false_and] at hpair
    cases hpair
  | case2 a b us hpair ih => rw [join, if_neg hpair, ih fun c hc => h c (List.mem_cons_of_mem _ hc)]
  | case3 us hus =>
    match us, hus with
    | [], _ => rfl
    | [c], _ => rfl
    | a :: b :: us, hus => exact absurd rfl (hus a b us)

/-- The code points of characters are sound. -/
theorem sound_chars (cs : List Char) : Text.Sound (cs.map Char.toNat) := by
  have hvalid : ∀ c ∈ cs.map Char.toNat, c < 55296 ∨ 57343 < c ∧ c < 1114112 := by
    intro c hc
    obtain ⟨x, -, rfl⟩ := List.mem_map.mp hc
    exact x.valid
  refine ⟨fun c hc => ?_, join_of_no_high fun c hc => ?_⟩
  · have := hvalid c hc
    omega
  · have := hvalid c hc
    simp only [isHigh, Bool.and_eq_false_imp, decide_eq_true_eq, decide_eq_false_iff_not]
    omega

theorem readString_text {s : Text} (h : Text.Sound s) (rest : List Char) :
    readString (s.flatMap escape ++ '"' :: rest) = some (s, rest) := by
  unfold readString
  rw [readUnits_text h.1, Option.map_some, join_units h.1, h.2]

/-! ## Numerals -/

theorem readDigits_append (ds : Digits) {rest : List Char}
    (hr : ∀ c ∈ rest.head?, c.isDigit = false) : readDigits (ds.1 ++ rest) = some (ds, rest) := by
  have hrest : rest.takeWhile Char.isDigit = [] ∧ rest.dropWhile Char.isDigit = rest := by
    cases rest with
    | nil => exact ⟨rfl, rfl⟩
    | cons c cs =>
      have hc : ¬ c.isDigit = true := by simpa using hr c rfl
      exact ⟨List.takeWhile_cons_of_neg hc, List.dropWhile_cons_of_neg hc⟩
  have htake : (ds.1 ++ rest).takeWhile Char.isDigit = ds.1 := by
    rw [List.takeWhile_append_of_pos ds.2.2, hrest.1, List.append_nil]
  unfold readDigits
  rw [dif_pos (by rw [htake]; exact ds.2.1)]
  simp only [htake, List.dropWhile_append_of_pos ds.2.2, hrest.2]

/-- No digit, so no numeral goes on. -/
theorem readDigits_none {cs : List Char} (h : ∀ c ∈ cs.head?, c.isDigit = false) :
    readDigits cs = none := by
  cases cs with
  | nil => rfl
  | cons c cs =>
    unfold readDigits
    rw [dif_neg]
    rw [List.takeWhile_cons_of_neg (by simpa using h c rfl)]
    exact fun hne => hne rfl

theorem Digits.head (ds : Digits) (rest : List Char) :
    ∃ d cs, ds.1 ++ rest = d :: cs ∧ d.isDigit = true := by
  obtain ⟨_ | ⟨d, cs⟩, hne, hd⟩ := ds
  · exact absurd rfl hne
  · exact ⟨d, cs ++ rest, rfl, hd d (by simp)⟩

theorem readWhole_append (w : Whole) {rest : List Char} (hr : ∀ c ∈ rest.head?, c.isDigit = false) :
    readWhole (w.1.1 ++ rest) = some (w, rest) := by
  have hhead : (w.1.1 ++ rest).head? = w.1.1.head? := List.head?_append_of_ne_nil _ w.1.2.1
  unfold readWhole
  rw [hhead]
  split
  · rename_i hz
    have hw : w = .zero := Subtype.ext (Subtype.ext (w.2 hz))
    rw [hw]
    rfl
  · rename_i hz
    rw [readDigits_append w.1 hr, Option.bind_some, dif_pos hz]

theorem readFrac_append (f : Option Digits) {rest : List Char}
    (hr : ∀ c ∈ rest.head?, c.isDigit = false ∧ c ≠ '.') :
    readFrac (fracText f ++ rest) = (f, rest) := by
  cases f with
  | none =>
    unfold readFrac
    split
    · rename_i hdot _
      exact absurd rfl (hr _ hdot).2
    · rfl
  | some ds =>
    have hds := readDigits_append ds fun c hc => (hr c hc).1
    simp only [readFrac, fracText, Option.elim_some, List.cons_append, List.head?_cons,
      List.tail_cons, hds]

theorem readSign_append (s : Option Sign) (ds : Digits) (rest : List Char) :
    readSign (Sign.text s ++ (ds.1 ++ rest)) = (s, ds.1 ++ rest) := by
  match s with
  | some .plus | some .minus => rfl
  | none =>
    obtain ⟨d, cs, hd, hdigit⟩ := ds.head rest
    rw [Sign.text, List.nil_append, hd]
    unfold readSign
    split
    · rename_i heq
      rw [(List.cons.inj heq).1] at hdigit
      cases hdigit
    · rename_i heq
      rw [(List.cons.inj heq).1] at hdigit
      cases hdigit
    · rfl

theorem readExp_append (x : Option Exponent) {rest : List Char}
    (hr : ∀ c ∈ rest.head?, c.isDigit = false ∧ c ≠ 'e' ∧ c ≠ 'E') :
    readExp (expText x ++ rest) = (x, rest) := by
  cases x with
  | none =>
    unfold readExp
    rw [if_neg]
    · rfl
    · rintro (he | he)
      · exact (hr _ he).2.1 rfl
      · exact (hr _ he).2.2 rfl
  | some x =>
    obtain ⟨upper, sign, ds⟩ := x
    have hds := readDigits_append ds fun c hc => (hr c hc).1
    cases upper <;>
      simp [readExp, expText, Exponent.text, readSign_append, hds]

/-- After a whole part or a fraction: an exponent, or what is no digit and no point. -/
theorem expText_head {x : Option Exponent} {rest : List Char}
    (hr : ∀ c ∈ rest.head?, c.isDigit = false ∧ c ≠ '.') :
    ∀ c ∈ (expText x ++ rest).head?, c.isDigit = false ∧ c ≠ '.' := by
  intro c hc
  match x with
  | none => exact hr c hc
  | some ⟨false, _, _⟩ =>
    obtain rfl : 'e' = c := Option.some.inj hc
    exact ⟨rfl, by decide⟩
  | some ⟨true, _, _⟩ =>
    obtain rfl : 'E' = c := Option.some.inj hc
    exact ⟨rfl, by decide⟩

theorem fracText_head {f : Option Digits} {rest : List Char}
    (hr : ∀ c ∈ rest.head?, c.isDigit = false) :
    ∀ c ∈ (fracText f ++ rest).head?, c.isDigit = false := by
  intro c hc
  match f with
  | none => exact hr c hc
  | some ds =>
    obtain rfl : '.' = c := Option.some.inj hc
    rfl

/-- Nothing that would go on a numeral. -/
def Stops (rest : List Char) : Prop :=
  ∀ c ∈ rest.head?, c.isDigit = false ∧ c ≠ '.' ∧ c ≠ 'e' ∧ c ≠ 'E'

theorem readNumeral_append (neg : Bool) (w : Whole) (f : Option Digits) (x : Option Exponent)
    {rest : List Char} (hr : Stops rest) :
    readNumeral (signText neg ++ (w.1.1 ++ (fracText f ++ (expText x ++ rest)))) =
      some (if h : f.isSome || x.isSome then .float ⟨neg, w, f, x, h⟩ else .whole neg w, rest) := by
  have hexp : readExp (expText x ++ rest) = (x, rest) :=
    readExp_append x fun c hc => ⟨(hr c hc).1, (hr c hc).2.2⟩
  have hfrac : readFrac (fracText f ++ (expText x ++ rest)) = (f, expText x ++ rest) :=
    readFrac_append f (expText_head fun c hc => ⟨(hr c hc).1, (hr c hc).2.1⟩)
  have hwhole : readWhole (w.1.1 ++ (fracText f ++ (expText x ++ rest))) =
      some (w, fracText f ++ (expText x ++ rest)) := by
    refine readWhole_append w (fracText_head fun c hc => ?_)
    exact (expText_head (fun c hc => ⟨(hr c hc).1, (hr c hc).2.1⟩) c hc).1
  have hsigned : decide ((signText neg ++ (w.1.1 ++ (fracText f ++ (expText x ++ rest)))).head? =
      some '-') = neg := by
    cases neg with
    | true => rfl
    | false =>
      obtain ⟨d, cs, hd, hdigit⟩ := w.1.head (fracText f ++ (expText x ++ rest))
      rw [signText, if_neg (by decide), List.nil_append, hd, List.head?_cons, decide_eq_false_iff_not]
      rintro ⟨rfl⟩
      cases hdigit
  have hunsigned : (if neg then (signText neg ++ (w.1.1 ++ (fracText f ++ (expText x ++ rest)))).tail
      else signText neg ++ (w.1.1 ++ (fracText f ++ (expText x ++ rest)))) =
      w.1.1 ++ (fracText f ++ (expText x ++ rest)) := by
    cases neg <;> rfl
  unfold readNumeral
  simp only [hsigned, hunsigned, hwhole, Option.map_some, hfrac, hexp]
  split <;> rfl

/-- Only zero is written with a leading zero. -/
theorem toDigits_head {n : Nat} (h : (Nat.toDigits 10 n).head? = some '0') :
    Nat.toDigits 10 n = ['0'] := by
  induction n using Nat.strongRecOn with
  | ind n ih =>
    by_cases hn : n < 10
    · rw [Nat.toDigits_of_lt_base hn] at h ⊢
      rw [List.head?_cons, Option.some.injEq] at h
      rw [h]
    · have hsplit := Nat.toDigits_of_base_le (b := 10) (n := n) (by decide) (by omega)
      rw [hsplit, List.head?_append_of_ne_nil _ Nat.toDigits_ne_nil] at h
      have hzero := ih (n / 10) (by omega) h
      have hval : Nat.ofDigitChars 10 (Nat.toDigits 10 (n / 10)) 0 = 0 := by
        rw [hzero]
        rfl
      rw [Nat.ofDigitChars_toDigits (by decide) (by decide)] at hval
      omega

/-- The digits of a number. -/
def wholeOf (n : Nat) : Whole :=
  ⟨⟨Nat.toDigits 10 n, Nat.toDigits_ne_nil,
    fun _ hc => Nat.isDigit_of_mem_toDigits (by decide) (by decide) hc⟩, toDigits_head⟩

variable (fl) in
theorem readNumber_int {n : Int} {rest : List Char} (hfit : (Value.int n : Value F).fits = true)
    (hr : Stops rest) : readNumber fl (intText n ++ rest) = .ok (.int n, rest) := by
  have hread := readNumeral_append (n < 0) (wholeOf n.natAbs) none none hr
  have htext : intText n ++ rest = signText (decide (n < 0)) ++
      ((wholeOf n.natAbs).1.1 ++ (fracText none ++ (expText none ++ rest))) := by
    simp [intText, fracText, expText, wholeOf]
  have hlen : (wholeOf n.natAbs).1.1.length ≤ maxDigits := by
    simpa [Value.fits, wholeOf] using hfit
  have hval : natOf (wholeOf n.natAbs).1 = n.natAbs :=
    Nat.ofDigitChars_toDigits (by decide) (by decide)
  unfold readNumber
  rw [htext, hread]
  simp only [Option.isSome_none, Bool.or_self, Bool.false_eq_true, dif_neg, not_false_eq_true,
    if_pos hlen, hval]
  congr 3
  split <;> rename_i hneg <;> simp only [decide_eq_true_eq] at hneg <;> omega

variable (fl) in
theorem readNumber_lit (x : FloatLit) {rest : List Char} (hr : Stops rest) :
    readNumber fl (x.text ++ rest) = .ok (.float (fl.value (.lit x)), rest) := by
  obtain ⟨neg, w, f, e, hfloat⟩ := x
  have hread := readNumeral_append neg w f e hr
  unfold readNumber
  simp only [FloatLit.text, List.append_assoc]
  rw [hread]
  simp only [dif_pos hfloat]

/-- The first character of a numeral. -/
def Signed (c : Char) : Prop := c = '-' ∨ c.isDigit = true

theorem numeral_head (neg : Bool) (ds : Digits) (rest : List Char) :
    ∃ c cs, signText neg ++ (ds.1 ++ rest) = c :: cs ∧ Signed c := by
  cases neg with
  | true => exact ⟨'-', _, rfl, .inl rfl⟩
  | false =>
    obtain ⟨d, cs, hd, hdigit⟩ := ds.head rest
    exact ⟨d, cs, hd, .inr hdigit⟩

theorem wordRest_ne {c w : Char} (hne : w ≠ c) (ws cs : List Char) :
    wordRest (w :: ws) (c :: cs) = none := by
  simp [wordRest, hne]

theorem Signed.ne {c w : Char} (h : Signed c) (hw : w ≠ '-') (hd : w.isDigit = false) : w ≠ c := by
  rintro rfl
  rcases h with h | h
  · exact hw h
  · rw [hd] at h
    cases h

theorem readScalar_signed {c : Char} (h : Signed c) (cs : List Char) :
    readScalar fl (c :: cs) = readNumber fl (c :: cs) := by
  unfold readScalar
  rw [wordRest_ne (h.ne (by decide) (by decide)), wordRest_ne (h.ne (by decide) (by decide)),
    wordRest_ne (h.ne (by decide) (by decide)), Spelling.text, Spelling.text,
    wordRest_ne (h.ne (by decide) (by decide)), wordRest_ne (h.ne (by decide) (by decide))]

theorem readNumber_negInfinity (rest : List Char) :
    readNumber fl (Spelling.negInfinity.text ++ rest) =
      .ok (.float (fl.value .negInfinity), rest) := by
  have hnone : readNumeral (Spelling.negInfinity.text ++ rest) = none := by
    have hI : readDigits ('I' :: 'n' :: 'f' :: 'i' :: 'n' :: 'i' :: 't' :: 'y' :: rest) = none :=
      readDigits_none fun c hc => by obtain rfl := Option.some.inj hc; rfl
    simp [readNumeral, readWhole, Spelling.text, hI]
  unfold readNumber
  rw [hnone]
  simp [wordRest, Spelling.text]

theorem readScalar_spelling (sp : Spelling) {rest : List Char} (hr : Stops rest) :
    readScalar fl (sp.text ++ rest) = .ok (.float (fl.value sp), rest) := by
  cases sp with
  | nan => simp [readScalar, wordRest, Spelling.text]
  | infinity => simp [readScalar, wordRest, Spelling.text]
  | negInfinity =>
    exact (readScalar_signed (.inl rfl) _).trans (readNumber_negInfinity rest)
  | lit x =>
    obtain ⟨c, cs, hhead, hc⟩ := numeral_head x.neg x.whole.1 ((fracText x.frac ++ expText x.exp) ++ rest)
    have htext : x.text ++ rest = c :: cs := by
      rw [← hhead, FloatLit.text, List.append_assoc, List.append_assoc]
    have hnumber := readNumber_lit fl x hr
    rw [Spelling.text, htext, readScalar_signed hc, ← htext, hnumber]

/-! ## Values -/

/-- How a value may begin. -/
def Opens (c : Char) : Prop :=
  c = '"' ∨ c = '[' ∨ c = '{' ∨ c ∈ ['n', 't', 'f', 'N', 'I'] ∨ Signed c

/-- No value begins with what is neither one of the seven characters nor a digit. -/
theorem Opens.ne {c w : Char} (h : Opens c)
    (hw : w ∉ ['"', '[', '{', 'n', 't', 'f', 'N', 'I', '-']) (hd : w.isDigit = false) : w ≠ c := by
  rintro rfl
  simp only [List.mem_cons, List.not_mem_nil, or_false, not_or] at hw
  rcases h with h | h | h | h | h
  · exact hw.1 h
  · exact hw.2.1 h
  · exact hw.2.2.1 h
  · simp [hw] at h
  · exact Signed.ne h hw.2.2.2.2.2.2.2.2 hd rfl

theorem Opens.not_blank {c : Char} (h : Opens c) : isBlank c = false := by
  simp [isBlank, (h.ne (w := ' ') (by decide) (by decide)).symm,
    (h.ne (w := '\t') (by decide) (by decide)).symm, (h.ne (w := '\n') (by decide) (by decide)).symm,
    (h.ne (w := '\r') (by decide) (by decide)).symm]

theorem spelling_head (sp : Spelling) : ∃ c cs, sp.text = c :: cs ∧
    (c ∈ ['n', 't', 'f', 'N', 'I'] ∨ Signed c) := by
  cases sp with
  | nan => exact ⟨_, _, rfl, .inl (by decide)⟩
  | infinity => exact ⟨_, _, rfl, .inl (by decide)⟩
  | negInfinity => exact ⟨_, _, rfl, .inr (.inl rfl)⟩
  | lit x =>
    obtain ⟨c, cs, hhead, hc⟩ := numeral_head x.neg x.whole.1 (fracText x.frac ++ expText x.exp)
    exact ⟨c, cs, hhead, .inr hc⟩

variable (fl) in
theorem text_head (v : Value F) : ∃ c cs, v.text fl = c :: cs ∧ Opens c := by
  match v with
  | .null | .bool true | .bool false =>
    exact ⟨_, _, by rw [Value.text], .inr (.inr (.inr (.inl (by decide))))⟩
  | .int n =>
    obtain ⟨c, cs, hhead, hc⟩ := numeral_head (decide (n < 0)) (wholeOf n.natAbs).1 []
    rw [List.append_nil] at hhead
    exact ⟨c, cs, by rw [Value.text]; exact hhead, .inr (.inr (.inr (.inr hc)))⟩
  | .float x =>
    obtain ⟨c, cs, hhead, hc⟩ := spelling_head (fl.spell x)
    exact ⟨c, cs, by rw [Value.text]; exact hhead, .inr (.inr (.inr hc))⟩
  | .str s => exact ⟨_, _, by rw [Value.text, stringText], .inl rfl⟩
  | .arr vs => exact ⟨_, _, by rw [Value.text], .inr (.inl rfl)⟩
  | .obj fs => exact ⟨_, _, by rw [Value.text], .inr (.inr (.inl rfl))⟩

/-- There is no blank to skip. -/
theorem skip_cons {c : Char} (h : isBlank c = false) (cs : List Char) : skip (c :: cs) = c :: cs :=
  List.dropWhile_cons_of_neg (by simp [h])

variable (fl) in
theorem skip_text (v : Value F) (rest : List Char) :
    skip (v.text fl ++ rest) = v.text fl ++ rest := by
  obtain ⟨c, cs, hv, hc⟩ := text_head fl v
  rw [hv, List.cons_append]
  exact skip_cons hc.not_blank _

variable (fl) in
theorem skip_blank_text (v : Value F) (rest : List Char) :
    skip (' ' :: (v.text fl ++ rest)) = v.text fl ++ rest :=
  (List.dropWhile_cons_of_pos rfl).trans (skip_text fl v rest)

theorem set_next {k : Text} {v : Value F} {acc fs : List (Text × Value F)}
    (h : Odict.Unique (acc ++ (k, v) :: fs)) : Odict.set k v acc = acc ++ [(k, v)] := by
  refine Odict.set_new (Odict.lookup_eq_none.mpr fun hk => ?_) v
  unfold Odict.Unique at h
  rw [List.map_append, List.nodup_append] at h
  exact h.2.2 k hk k (by simp) rfl

/-- What is none of `"`, `[` and `{` is left to `readScalar`. -/
theorem readValue_scalar {c : Char} (h : c ∈ ['n', 't', 'f', 'N', 'I'] ∨ Signed c) (n levels : Nat)
    (cs : List Char) : readValue fl (n + 1) levels (c :: cs) = readScalar fl (c :: cs) := by
  have hne (w : Char) (hw : w ∈ ['"', '[', '{']) : c ≠ w := by
    rintro rfl
    simp only [List.mem_cons, List.not_mem_nil, or_false] at hw
    rcases h with h | h
    · rcases hw with rfl | rfl | rfl <;> simp at h
    · rcases hw with rfl | rfl | rfl <;> exact h.ne (by decide) (by decide) rfl
  rw [readValue, if_neg (hne '"' (by decide)), if_neg (hne '[' (by decide)),
    if_neg (hne '{' (by decide))]

theorem stops_cons {c : Char} (h : c ∈ [',', ']', '}']) (rest : List Char) : Stops (c :: rest) := by
  intro d hd
  obtain rfl := Option.some.inj hd
  revert h
  simp only [List.mem_cons, List.not_mem_nil, or_false]
  rintro (rfl | rfl | rfl) <;> decide

/-- `readString` in front of what follows a key or a string. -/
theorem readString_stringText {s : Text} (h : Text.Sound s) (rest : List Char) :
    ∃ cs, stringText s ++ rest = '"' :: cs ∧ readString cs = some (s, rest) := by
  refine ⟨s.flatMap escape ++ '"' :: rest, ?_, readString_text h rest⟩
  simp [stringText]

theorem text_ne_nil (v : Value F) : v.text fl ≠ [] := by
  obtain ⟨c, cs, hv, -⟩ := text_head fl v
  rw [hv]
  exact List.cons_ne_nil c cs

/-- A scalar that `readScalar` reads is read by `readValue`. -/
theorem readValue_of_scalar {v : Value F} {n : Nat} {rest : List Char} {c : Char} {cs : List Char}
    (hv : v.text fl = c :: cs) (hc : c ∈ ['n', 't', 'f', 'N', 'I'] ∨ Signed c)
    (hread : readScalar fl (v.text fl ++ rest) = .ok (v, rest)) (hn : 2 * (v.text fl).length ≤ n)
    {levels : Nat} : readValue fl n levels (v.text fl ++ rest) = .ok (v, rest) := by
  rw [hv] at hn hread ⊢
  rw [List.length_cons] at hn
  obtain ⟨n, rfl⟩ : ∃ m, n = m + 1 := ⟨n - 1, by omega⟩
  rw [List.cons_append, readValue_scalar hc]
  exact hread

variable (fl) in
theorem skip_items (v : Value F) (vs : List (Value F)) (rest : List Char) :
    ∃ c cs, itemsText fl (v :: vs) ++ rest = c :: cs ∧ Opens c := by
  obtain ⟨c, cs, hv, hc⟩ := text_head fl v
  cases vs with
  | nil => exact ⟨c, cs ++ rest, by rw [itemsText, hv]; rfl, hc⟩
  | cons w vs => exact ⟨c, _, by rw [itemsText, hv]; rfl, hc⟩

variable (fl) in
theorem fields_head (f : Text × Value F) (fs : List (Text × Value F)) (rest : List Char) :
    ∃ cs, fieldsText fl (f :: fs) ++ rest = '"' :: cs := by
  obtain ⟨k, v⟩ := f
  cases fs with
  | nil => exact ⟨_, by rw [fieldsText, stringText]; rfl⟩
  | cons f fs => exact ⟨_, by rw [fieldsText, stringText]; rfl⟩

mutual

/-- With fuel for its length and levels for its depth a value is read back, and what follows is
    left. -/
theorem readValue_text : ∀ (v : Value F) (n levels : Nat) (rest : List Char), v.Plain →
    v.fits = true → v.depth ≤ levels → Stops rest → 2 * (v.text fl).length ≤ n →
    readValue fl n levels (v.text fl ++ rest) = .ok (v, rest)
  | .null, n, _, rest, _, _, _, _, hn => by
    refine readValue_of_scalar (by rw [Value.text]) (.inl (by decide)) ?_ hn
    simp [Value.text, readScalar, wordRest]
  | .bool true, n, _, rest, _, _, _, _, hn => by
    refine readValue_of_scalar (by rw [Value.text]) (.inl (by decide)) ?_ hn
    simp [Value.text, readScalar, wordRest]
  | .bool false, n, _, rest, _, _, _, _, hn => by
    refine readValue_of_scalar (by rw [Value.text]) (.inl (by decide)) ?_ hn
    simp [Value.text, readScalar, wordRest]
  | .int i, n, _, rest, _, hfit, _, hr, hn => by
    obtain ⟨c, cs, hhead, hc⟩ := numeral_head (decide (i < 0)) (wholeOf i.natAbs).1 []
    rw [List.append_nil] at hhead
    have htext : (Value.int i).text fl = c :: cs := by
      rw [Value.text]
      exact hhead
    refine readValue_of_scalar htext (.inr hc) ?_ hn
    have hnumber := readNumber_int fl hfit hr
    rw [htext, List.cons_append, readScalar_signed hc, ← List.cons_append, ← htext, Value.text]
    exact hnumber
  | .float x, n, _, rest, _, _, _, hr, hn => by
    obtain ⟨c, cs, hhead, hc⟩ := spelling_head (fl.spell x)
    refine readValue_of_scalar (by rw [Value.text]; exact hhead) hc ?_ hn
    rw [Value.text, readScalar_spelling _ hr, fl.value_spell]
  | .str s, n, _, rest, hs, _, _, _, hn => by
    obtain ⟨cs, hcs, hread⟩ := readString_stringText hs rest
    rw [Value.text, stringText, List.length_cons] at hn
    obtain ⟨n, rfl⟩ : ∃ m, n = m + 1 := ⟨n - 1, by omega⟩
    rw [Value.text, hcs, readValue, if_pos rfl, hread]
  | .arr [], n, _ + 1, rest, _, _, _, _, hn => by
    rw [Value.text, List.length_cons] at hn
    obtain ⟨n, rfl⟩ : ∃ m, n = m + 1 := ⟨n - 1, by omega⟩
    have hclose : skip (itemsText fl ([] : List (Value F)) ++ [']'] ++ rest) = ']' :: rest := by
      rw [itemsText]
      exact skip_cons rfl rest
    rw [Value.text, List.cons_append, readValue, if_neg (by decide), if_pos rfl, enter, hclose]
    rfl
  | .arr (v :: vs), n, levels + 1, rest, hp, hfit, hd, _, hn => by
    rw [Value.text, List.length_cons, List.length_append, List.length_singleton] at hn
    obtain ⟨n, rfl⟩ : ∃ m, n = m + 1 := ⟨n - 1, by omega⟩
    have hitems := readItems_text (v :: vs) n levels rest (List.cons_ne_nil _ _) hp hfit
      (Nat.le_of_succ_le_succ hd) (by omega)
    obtain ⟨c, cs, hhead, hc⟩ := skip_items fl v vs (']' :: rest)
    have hskip : skip (itemsText fl (v :: vs) ++ [']'] ++ rest) = c :: cs := by
      rw [List.append_assoc, List.singleton_append, hhead]
      exact skip_cons hc.not_blank cs
    have hopen : (c :: cs).head? ≠ some ']' := fun h =>
      hc.ne (w := ']') (by decide) (by decide) (Option.some.inj h).symm
    rw [Value.text, List.cons_append, readValue, if_neg (by decide), if_pos rfl, enter,
      hskip, if_neg hopen, ← hhead, hitems]
    rfl
  | .obj [], n, _ + 1, rest, _, _, _, _, hn => by
    rw [Value.text, List.length_cons] at hn
    obtain ⟨n, rfl⟩ : ∃ m, n = m + 1 := ⟨n - 1, by omega⟩
    have hclose : skip (fieldsText fl ([] : List (Text × Value F)) ++ ['}'] ++ rest) =
        '}' :: rest := by
      rw [fieldsText]
      exact skip_cons rfl rest
    rw [Value.text, List.cons_append, readValue, if_neg (by decide), if_neg (by decide),
      if_pos rfl, enter, hclose]
    rfl
  | .obj (f :: fs), n, levels + 1, rest, hp, hfit, hd, _, hn => by
    rw [Value.text, List.length_cons, List.length_append, List.length_singleton] at hn
    obtain ⟨n, rfl⟩ : ∃ m, n = m + 1 := ⟨n - 1, by omega⟩
    have hfields := readFields_text (f :: fs) [] n levels rest (List.cons_ne_nil _ _) hp.1 hp.2 hfit
      (Nat.le_of_succ_le_succ hd) (by omega)
    obtain ⟨cs, hhead⟩ := fields_head fl f fs ('}' :: rest)
    have hskip : skip (fieldsText fl (f :: fs) ++ ['}'] ++ rest) = '"' :: cs := by
      rw [List.append_assoc, List.singleton_append, hhead]
      exact skip_cons rfl cs
    rw [Value.text, List.cons_append, readValue, if_neg (by decide), if_neg (by decide),
      if_pos rfl, enter, hskip, if_neg (by rw [List.head?_cons]; decide), ← hhead, hfields]
    rfl
  | .arr _, _, 0, _, _, _, hd, _, _ => absurd hd (Nat.not_succ_le_zero _)
  | .obj _, _, 0, _, _, _, hd, _, _ => absurd hd (Nat.not_succ_le_zero _)

theorem readItems_text : ∀ (vs : List (Value F)) (n levels : Nat) (rest : List Char), vs ≠ [] →
    itemsPlain vs → itemsFit vs = true → itemsDepth vs ≤ levels →
    2 * (itemsText fl vs).length + 1 ≤ n →
    readItems fl n levels (itemsText fl vs ++ ']' :: rest) = .ok (vs, rest)
  | [], _, _, _, hne, _, _, _, _ => absurd rfl hne
  | [v], n, levels, rest, _, hp, hfit, hd, hn => by
    rw [itemsText] at hn
    rw [itemsFit, Bool.and_eq_true] at hfit
    obtain ⟨n, rfl⟩ : ∃ m, n = m + 1 := ⟨n - 1, by omega⟩
    rw [itemsDepth, Nat.max_le] at hd
    have hv := readValue_text v n levels (']' :: rest) hp.1 hfit.1 hd.1
      (stops_cons (by decide) rest) (by omega)
    have hskip : skip (']' :: rest) = ']' :: rest := skip_cons rfl rest
    rw [itemsText, readItems, hv]
    simp only [Except.bind, hskip]
  | v :: w :: vs, n, levels, rest, _, hp, hfit, hd, hn => by
    rw [itemsText, List.length_append, List.length_cons, List.length_cons] at hn
    rw [itemsFit, Bool.and_eq_true] at hfit
    obtain ⟨n, rfl⟩ : ∃ m, n = m + 1 := ⟨n - 1, by omega⟩
    rw [itemsDepth, Nat.max_le] at hd
    have hv := readValue_text v n levels (',' :: ' ' :: (itemsText fl (w :: vs) ++ ']' :: rest))
      hp.1 hfit.1 hd.1 (stops_cons (by decide) _) (by omega)
    have hs := readItems_text (w :: vs) n levels rest (List.cons_ne_nil _ _) hp.2 hfit.2 hd.2
      (by omega)
    obtain ⟨c, cs, hhead, hc⟩ := skip_items fl w vs (']' :: rest)
    have hcomma (ds : List Char) : skip (',' :: ds) = ',' :: ds := skip_cons rfl ds
    have hblank : skip (' ' :: (itemsText fl (w :: vs) ++ ']' :: rest)) =
        itemsText fl (w :: vs) ++ ']' :: rest := by
      rw [hhead]
      exact (List.dropWhile_cons_of_pos rfl).trans (skip_cons hc.not_blank cs)
    rw [itemsText, List.append_assoc, List.cons_append, List.cons_append, readItems, hv]
    simp only [Except.bind, hcomma, hblank, hs]
    rfl

theorem readFields_text : ∀ (fs acc : List (Text × Value F)) (n levels : Nat) (rest : List Char),
    fs ≠ [] → Odict.Unique (acc ++ fs) → fieldsPlain fs → fieldsFit fs = true →
    fieldsDepth fs ≤ levels → 2 * (fieldsText fl fs).length + 1 ≤ n →
    readFields fl n levels acc (fieldsText fl fs ++ '}' :: rest) = .ok (acc ++ fs, rest)
  | [], _, _, _, _, hne, _, _, _, _, _ => absurd rfl hne
  | [(k, v)], acc, n, levels, rest, _, hu, hp, hfit, hd, hn => by
    rw [fieldsText, List.length_append, List.length_cons, List.length_cons] at hn
    rw [fieldsFit, Bool.and_eq_true] at hfit
    obtain ⟨n, rfl⟩ : ∃ m, n = m + 1 := ⟨n - 1, by omega⟩
    rw [fieldsDepth, Nat.max_le] at hd
    have hv := readValue_text v n levels ('}' :: rest) hp.2.1 hfit.1 hd.1
      (stops_cons (by decide) rest) (by omega)
    obtain ⟨cs, hcs, hread⟩ := readString_stringText hp.1 (':' :: ' ' :: (v.text fl ++ '}' :: rest))
    have hcolon := skip_cons (c := ':') rfl (' ' :: (v.text fl ++ '}' :: rest))
    have hclose := skip_cons (c := '}') rfl rest
    rw [fieldsText, List.append_assoc, List.cons_append, List.cons_append, hcs, readFields, hread]
    simp only [hcolon, skip_blank_text, hv, Except.bind, hclose, set_next hu]
  | (k, v) :: f :: fs, acc, n, levels, rest, _, hu, hp, hfit, hd, hn => by
    simp only [fieldsText, List.length_append, List.length_cons] at hn
    rw [fieldsFit, Bool.and_eq_true] at hfit
    obtain ⟨n, rfl⟩ : ∃ m, n = m + 1 := ⟨n - 1, by omega⟩
    have hnext : acc ++ (k, v) :: f :: fs = acc ++ [(k, v)] ++ f :: fs := by
      rw [List.append_assoc, List.singleton_append]
    rw [fieldsDepth, Nat.max_le] at hd
    have hv := readValue_text v n levels (',' :: ' ' :: (fieldsText fl (f :: fs) ++ '}' :: rest))
      hp.2.1 hfit.1 hd.1 (stops_cons (by decide) _) (by omega)
    have hs := readFields_text (f :: fs) (acc ++ [(k, v)]) n levels rest (List.cons_ne_nil _ _)
      (hnext ▸ hu) hp.2.2 hfit.2 hd.2 (by omega)
    obtain ⟨cs, hcs, hread⟩ := readString_stringText hp.1
      (':' :: ' ' :: (v.text fl ++ (',' :: ' ' :: (fieldsText fl (f :: fs) ++ '}' :: rest))))
    obtain ⟨ds, hhead⟩ := fields_head fl f fs ('}' :: rest)
    have hcolon (ds : List Char) : skip (':' :: ds) = ':' :: ds := skip_cons rfl ds
    have hcomma (ds : List Char) : skip (',' :: ds) = ',' :: ds := skip_cons rfl ds
    have hblank : skip (' ' :: (fieldsText fl (f :: fs) ++ '}' :: rest)) =
        fieldsText fl (f :: fs) ++ '}' :: rest := by
      rw [hhead]
      exact (List.dropWhile_cons_of_pos rfl).trans (skip_cons rfl ds)
    have htext : fieldsText fl ((k, v) :: f :: fs) ++ '}' :: rest = stringText k ++
        (':' :: ' ' :: (v.text fl ++ (',' :: ' ' :: (fieldsText fl (f :: fs) ++ '}' :: rest)))) := by
      rw [fieldsText]
      simp only [List.append_assoc, List.cons_append]
    rw [htext, hcs, readFields, hread]
    simp only [hcolon, skip_blank_text, hv, Except.bind, hcomma, hblank,
      set_next hu, hs, hnext]

end

/-- What `dumps` writes `loads` reads as the same value, with as many levels or more. -/
theorem loads_dumps {v : Value F} {levels levels' : Nat} {cs : List Char} (hp : v.Plain)
    (h : dumps fl levels v = some cs) (hle : levels ≤ levels') : loads fl levels' cs = .ok v := by
  unfold dumps at h
  split at h
  · rename_i hfit
    obtain ⟨hfit, hdepth⟩ := Bool.and_eq_true_iff.mp hfit
    obtain rfl := Option.some.inj h
    have hread : readValue fl (2 * (v.text fl).length + 1) levels' (v.text fl ++ []) =
        .ok (v, []) :=
      readValue_text v _ levels' [] hp hfit ((of_decide_eq_true hdepth).trans hle)
        (fun c hc => by cases hc) (by omega)
    have hskip := skip_text fl v []
    rw [List.append_nil] at hread hskip
    unfold loads
    rw [hskip, hread]
    rfl
  · cases h

/-! ## Arrays without blanks -/

/-- `",".join` of the elements. -/
def compactText (fl : Floats F) : List (Value F) → List Char
  | [] => []
  | [v] => v.text fl
  | v :: w :: vs => v.text fl ++ (',' :: compactText fl (w :: vs))

variable (fl) in
theorem skip_compact (v : Value F) (vs : List (Value F)) (rest : List Char) :
    ∃ c cs, compactText fl (v :: vs) ++ rest = c :: cs ∧ Opens c := by
  obtain ⟨c, cs, hv, hc⟩ := text_head fl v
  cases vs with
  | nil => exact ⟨c, cs ++ rest, by rw [compactText, hv]; rfl, hc⟩
  | cons w vs => exact ⟨c, _, by rw [compactText, hv]; rfl, hc⟩

theorem readItems_compact : ∀ (vs : List (Value F)) (n levels : Nat) (rest : List Char), vs ≠ [] →
    itemsPlain vs → itemsFit vs = true → itemsDepth vs ≤ levels →
    2 * (compactText fl vs).length + 1 ≤ n →
    readItems fl n levels (compactText fl vs ++ ']' :: rest) = .ok (vs, rest)
  | [], _, _, _, hne, _, _, _, _ => absurd rfl hne
  | [v], n, levels, rest, hne, hp, hfit, hd, hn => by
    rw [compactText] at hn
    have hv := readItems_text [v] n levels rest hne hp hfit hd (by rw [itemsText]; exact hn)
    rw [itemsText] at hv
    rw [compactText]
    exact hv
  | v :: w :: vs, n, levels, rest, _, hp, hfit, hd, hn => by
    rw [itemsDepth, Nat.max_le] at hd
    rw [compactText, List.length_append, List.length_cons] at hn
    rw [itemsFit, Bool.and_eq_true] at hfit
    obtain ⟨n, rfl⟩ : ∃ m, n = m + 1 := ⟨n - 1, by omega⟩
    have hv : readValue fl n levels
        (v.text fl ++ (',' :: (compactText fl (w :: vs) ++ ']' :: rest))) =
        .ok (v, ',' :: (compactText fl (w :: vs) ++ ']' :: rest)) :=
      readValue_text v n levels _ hp.1 hfit.1 hd.1 (stops_cons (by decide) _) (by omega)
    have hne : v.text fl ≠ [] := text_ne_nil v
    have hpos := List.length_pos_iff.mpr hne
    have hs : readItems fl n levels (compactText fl (w :: vs) ++ ']' :: rest) =
        .ok (w :: vs, rest) :=
      readItems_compact (w :: vs) n levels rest (List.cons_ne_nil _ _) hp.2 hfit.2 hd.2 (by omega)
    obtain ⟨c, cs, hhead, hc⟩ := skip_compact fl w vs (']' :: rest)
    have hcomma (ds : List Char) : skip (',' :: ds) = ',' :: ds := skip_cons rfl ds
    have hskip : skip (compactText fl (w :: vs) ++ ']' :: rest) =
        compactText fl (w :: vs) ++ ']' :: rest := by
      rw [hhead]
      exact skip_cons hc.not_blank cs
    rw [compactText, List.append_assoc, List.cons_append, readItems, hv]
    simp only [Except.bind, hcomma, hskip, hs]
    rfl

/-- An array without blanks is the same array. -/
theorem loads_compact {vs : List (Value F)} {levels : Nat} (hp : itemsPlain vs)
    (hfit : itemsFit vs = true) (hd : itemsDepth vs ≤ levels) :
    loads fl (levels + 1) ('[' :: (compactText fl vs ++ [']'])) = .ok (.arr vs) := by
  have hopen : skip ('[' :: (compactText fl vs ++ [']'])) = '[' :: (compactText fl vs ++ [']']) :=
    skip_cons rfl _
  unfold loads
  rw [hopen]
  match vs with
  | [] =>
    have hclose : skip (compactText fl ([] : List (Value F)) ++ [']']) = [']'] := skip_cons rfl []
    rw [readValue, if_neg (by decide), if_pos rfl, enter, hclose]
    rfl
  | v :: vs =>
    obtain ⟨c, cs, hhead, hc⟩ := skip_compact fl v vs [']']
    have hskip : skip (compactText fl (v :: vs) ++ [']']) = c :: cs := by
      rw [hhead]
      exact skip_cons hc.not_blank cs
    have hclose : (c :: cs).head? ≠ some ']' := fun h =>
      hc.ne (w := ']') (by decide) (by decide) (Option.some.inj h).symm
    have hitems : readItems fl (2 * ('[' :: (compactText fl (v :: vs) ++ [']'])).length) levels
        (compactText fl (v :: vs) ++ [']']) = .ok (v :: vs, []) := by
      refine readItems_compact (v :: vs) _ levels [] (List.cons_ne_nil _ _) hp hfit hd ?_
      simp only [List.length_cons, List.length_append, List.length_nil]
      omega
    rw [readValue, if_neg (by decide), if_pos rfl, enter, hskip, if_neg hclose, ← hhead, hitems]
    rfl

/-! ## What is written is one line -/

def isPrintable (c : Char) : Bool := 32 ≤ c.toNat && c.toNat ≤ 126

/-- Every character is printable ASCII. -/
def Printable (cs : List Char) : Prop := ∀ c ∈ cs, isPrintable c = true

theorem Printable.cons {c : Char} {cs : List Char} (hc : isPrintable c = true) (h : Printable cs) :
    Printable (c :: cs) := by
  intro d hd
  rcases List.mem_cons.mp hd with rfl | hd
  · exact hc
  · exact h d hd

theorem Printable.append {cs ds : List Char} (h : Printable cs) (hd : Printable ds) :
    Printable (cs ++ ds) := by
  intro c hc
  rcases List.mem_append.mp hc with hc | hc
  · exact h c hc
  · exact hd c hc

theorem printable_of_all {cs : List Char} (h : cs.all isPrintable = true) : Printable cs :=
  List.all_eq_true.mp h

theorem printable_nil : Printable [] := fun _ hc => by cases hc

theorem digits_printable (ds : Digits) : Printable ds.1 := by
  intro c hc
  have hd := ds.2.2 c hc
  simp only [Char.isDigit, Bool.and_eq_true, decide_eq_true_eq, ge_iff_le, UInt32.le_iff_toNat_le] at hd
  simp only [isPrintable, Bool.and_eq_true, decide_eq_true_eq]
  exact ⟨le_trans (by decide) hd.1, le_trans hd.2 (by decide)⟩

theorem hexDigit_printable (n : Nat) : isPrintable (hexDigit n) = true := by
  have h : ∀ d < 16, isPrintable (Nat.digitChar d) = true := by decide
  exact h _ (Nat.mod_lt n (by decide))

theorem unicodeEscape_printable (u : Nat) : Printable (unicodeEscape u) := by
  intro c hc
  simp only [unicodeEscape, List.mem_cons, List.not_mem_nil, or_false] at hc
  rcases hc with rfl | rfl | rfl | rfl | rfl | rfl
  · decide
  · decide
  all_goals exact hexDigit_printable _

theorem flatMap_printable {α : Type} {f : α → List Char} (h : ∀ a, Printable (f a)) (as : List α) :
    Printable (as.flatMap f) := by
  intro c hc
  obtain ⟨a, -, ha⟩ := List.mem_flatMap.mp hc
  exact h a c ha

theorem escape_printable (c : Nat) : Printable (escape c) := by
  have short (e : Char) (he : isPrintable e = true) : Printable ['\\', e] :=
    .cons (by decide) (.cons he printable_nil)
  unfold escape
  iterate 7
    split
    · exact short _ (by decide)
  split
  · rename_i hprint
    refine .cons ?_ printable_nil
    rw [isPrintable, toNat_ofNat (by omega), Bool.and_eq_true, decide_eq_true_eq, decide_eq_true_eq]
    exact hprint
  · exact flatMap_printable unicodeEscape_printable _

theorem stringText_printable (s : Text) : Printable (stringText s) :=
  .cons (by decide) (.append (flatMap_printable escape_printable s) (.cons (by decide) printable_nil))

theorem signText_printable (neg : Bool) : Printable (signText neg) := by
  cases neg with
  | true => exact .cons (by decide) printable_nil
  | false => exact printable_nil

theorem floatLit_printable (x : FloatLit) : Printable x.text := by
  obtain ⟨neg, w, f, e, -⟩ := x
  refine .append (signText_printable neg) (.append (digits_printable w.1) (.append ?_ ?_))
  · match f with
    | none => exact printable_nil
    | some ds => exact .cons (by decide) (digits_printable ds)
  · match e with
    | none => exact printable_nil
    | some ⟨upper, sign, ds⟩ =>
      refine .cons ?_ (.append ?_ (digits_printable ds))
      · cases upper <;> rfl
      · match sign with
        | none => exact printable_nil
        | some .plus | some .minus => exact .cons (by decide) printable_nil

theorem spelling_printable (sp : Spelling) : Printable sp.text := by
  cases sp with
  | nan | infinity | negInfinity =>
    rw [Spelling.text]
    exact printable_of_all rfl
  | lit x => exact floatLit_printable x

mutual

theorem text_printable : ∀ v : Value F, Printable (v.text fl)
  | .null | .bool true | .bool false => by
    rw [Value.text]
    exact printable_of_all rfl
  | .int n => by
    rw [Value.text]
    exact .append (signText_printable _) (digits_printable (wholeOf n.natAbs).1)
  | .float x => by
    rw [Value.text]
    exact spelling_printable _
  | .str s => by
    rw [Value.text]
    exact stringText_printable s
  | .arr vs => by
    rw [Value.text]
    exact .cons (by decide) (.append (items_printable vs) (.cons (by decide) printable_nil))
  | .obj fs => by
    rw [Value.text]
    exact .cons (by decide) (.append (fields_printable fs) (.cons (by decide) printable_nil))

theorem items_printable : ∀ vs : List (Value F), Printable (itemsText fl vs)
  | [] => by
    rw [itemsText]
    exact printable_nil
  | [v] => by
    rw [itemsText]
    exact text_printable v
  | v :: w :: vs => by
    rw [itemsText]
    exact .append (text_printable v)
      (.cons (by decide) (.cons (by decide) (items_printable (w :: vs))))

theorem fields_printable : ∀ fs : List (Text × Value F), Printable (fieldsText fl fs)
  | [] => by
    rw [fieldsText]
    exact printable_nil
  | [(k, v)] => by
    rw [fieldsText]
    exact .append (stringText_printable k) (.cons (by decide) (.cons (by decide) (text_printable v)))
  | (k, v) :: f :: fs => by
    rw [fieldsText]
    exact .append (stringText_printable k) (.cons (by decide) (.cons (by decide)
      (.append (text_printable v)
        (.cons (by decide) (.cons (by decide) (fields_printable (f :: fs)))))))

end

/-- `dumps` writes one line of printable ASCII. -/
theorem dumps_printable {v : Value F} {levels : Nat} {cs : List Char}
    (h : dumps fl levels v = some cs) :
    Printable cs := by
  unfold dumps at h
  split at h
  · obtain rfl := Option.some.inj h
    exact text_printable v
  · cases h

end JsonText
