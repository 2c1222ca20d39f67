/-
  Which orders share a burst fingerprint.

  The key is a digest of six fields joined with bars. The last four are written
  without a bar, so they can be read off the text from its end (`join_inj`), and two
  texts are the same if account and symbol join to the same text, side, quantity and
  order type agree, and the prices are written alike (`burstText_eq_iff`). That is
  the economic identity but for two things: a bar can move from the account into the
  symbol, and one price can be written with more decimals than another
  (`burst_key_identity_iff`).
-/
import ExecutionEngine.Contracts.Value
import ExecutionEngine.Core.Engine

namespace ExecutionEngine

namespace Fingerprint

/-! ## Joined fields -/

section Joined

variable {α : Type} {sep : α} {xs xs' ys ys' : List α}

/-- Two joined texts agree if the fields do, or if one field runs on over a separator. -/
theorem append_sep_iff : xs ++ sep :: ys = xs' ++ sep :: ys' ↔
    (xs = xs' ∧ ys = ys') ∨ (∃ w, xs = xs' ++ sep :: w ∧ ys' = w ++ sep :: ys) ∨
      ∃ w, xs' = xs ++ sep :: w ∧ ys = w ++ sep :: ys' := by
  constructor
  · intro h
    obtain ⟨w, hx, hy⟩ | ⟨w, hx, hy⟩ := List.append_eq_append_iff.mp h
    · cases w with
      | nil =>
        obtain ⟨-, rfl⟩ := List.cons.inj hy
        exact .inl ⟨by simpa using hx.symm, rfl⟩
      | cons c w =>
        obtain ⟨rfl, rfl⟩ := List.cons.inj hy
        exact .inr (.inr ⟨w, hx, rfl⟩)
    · cases w with
      | nil =>
        obtain ⟨-, rfl⟩ := List.cons.inj hy
        exact .inl ⟨by simpa using hx, rfl⟩
      | cons c w =>
        obtain ⟨rfl, rfl⟩ := List.cons.inj hy
        exact .inr (.inl ⟨w, hx, rfl⟩)
  · rintro (⟨rfl, rfl⟩ | ⟨w, rfl, rfl⟩ | ⟨w, rfl, rfl⟩)
    · rfl
    · simp
    · simp

/-- A last field without a separator can be read off the end. -/
theorem append_sep_inj (hy : sep ∉ ys) (hy' : sep ∉ ys') :
    xs ++ sep :: ys = xs' ++ sep :: ys' ↔ xs = xs' ∧ ys = ys' := by
  rw [append_sep_iff]
  constructor
  · rintro (h | ⟨w, -, rfl⟩ | ⟨w, -, rfl⟩)
    · exact h
    · simp at hy'
    · simp at hy
  · exact .inl

end Joined

/-- A text without a bar. -/
def Barless (s : String) : Prop := '|' ∉ s.toList

theorem toList_join (x y : String) : (x ++ "|" ++ y).toList = x.toList ++ '|' :: y.toList := by
  simp

theorem join_inj {x x' y y' : String} (hy : Barless y) (hy' : Barless y') :
    x ++ "|" ++ y = x' ++ "|" ++ y' ↔ x = x' ∧ y = y' := by
  rw [← String.toList_inj, toList_join, toList_join, append_sep_inj hy hy', String.toList_inj,
    String.toList_inj]

/-- Where the account ends and the symbol begins does not show. -/
theorem join_eq_iff {x x' y y' : String} : x ++ "|" ++ y = x' ++ "|" ++ y' ↔
    (x = x' ∧ y = y') ∨ (∃ w, x = x' ++ "|" ++ w ∧ y' = w ++ "|" ++ y) ∨
      ∃ w, x' = x ++ "|" ++ w ∧ y = w ++ "|" ++ y' := by
  have hback : ∀ {u v u' v' : String}, (∃ w, u.toList = v.toList ++ '|' :: w ∧
      u'.toList = w ++ '|' :: v'.toList) ↔ ∃ w, u = v ++ "|" ++ w ∧ u' = w ++ "|" ++ v' := by
    intro u v u' v'
    constructor
    · rintro ⟨w, hu, hu'⟩
      refine ⟨String.ofList w, ?_, ?_⟩
      · rw [← String.toList_inj, toList_join, hu, String.toList_ofList]
      · rw [← String.toList_inj, toList_join, hu', String.toList_ofList]
    · rintro ⟨w, rfl, rfl⟩
      exact ⟨w.toList, toList_join v w, toList_join w v'⟩
  rw [← String.toList_inj, toList_join, toList_join, append_sep_iff, hback, hback,
    String.toList_inj, String.toList_inj]

/-! ## The fields -/

theorem barless_side (s : Side) : Barless s.value := by
  cases s <;> unfold Barless <;> decide

theorem barless_orderType (t : OrderType) : Barless t.value := by
  cases t <;> unfold Barless <;> decide

theorem side_inj {s s' : Side} : s.value = s'.value ↔ s = s' := by
  cases s <;> cases s' <;> decide

theorem orderType_inj {t t' : OrderType} : t.value = t'.value ↔ t = t' := by
  cases t <;> cases t' <;> decide

theorem not_bar_of_digit {c : Char} (h : c.isDigit = true ∨ c = '.') : c ≠ '|' := by
  rintro rfl
  revert h
  decide

theorem barless_quantity {n : Int} (h : 0 ≤ n) : Barless (toString n) := by
  intro hbar
  rw [Decimal.toString_nonneg h] at hbar
  exact not_bar_of_digit (.inl (Decimal.toDigits_isDigit _ _ hbar)) rfl

theorem quantity_inj {n m : Int} (hn : 0 ≤ n) (hm : 0 ≤ m) : toString n = toString m ↔ n = m := by
  constructor
  · intro h
    have hdigits : Nat.toDigits 10 n.toNat = Nat.toDigits 10 m.toNat := by
      rw [← Decimal.toString_nonneg hn, ← Decimal.toString_nonneg hm, h]
    have hnat : n.toNat = m.toNat := by
      rw [← Nat.ofDigitChars_toDigits (by decide : 1 < 10) (by decide) (n := n.toNat), hdigits,
        Nat.ofDigitChars_toDigits (by decide) (by decide)]
    omega
  · rintro rfl
    rfl

/-- The price as the key writes it. -/
def priceText : Option Decimal → String
  | none => "None"
  | some p => p.formatF

/-- Both absent, or equal as numbers. -/
def samePrice : Option Decimal → Option Decimal → Bool
  | none, none => true
  | some p, some q => p.numEq q
  | _, _ => false

/-- How many decimals the price is written with. -/
def decimals : Option Decimal → Int
  | none => 0
  | some p => max 0 (-p.exp)

theorem barless_price {p : Option Decimal} (hp : ∀ d, p = some d → 0 ≤ d.coeff) :
    Barless (priceText p) := by
  cases p with
  | none => unfold Barless; decide
  | some d =>
    intro hbar
    exact not_bar_of_digit (Decimal.parse_chars (Decimal.parse_formatF_eq (hp d rfl)) _ hbar) rfl

theorem priceText_eq_iff {p q : Option Decimal} (hp : ∀ d, p = some d → 0 ≤ d.coeff)
    (hq : ∀ d, q = some d → 0 ≤ d.coeff) :
    priceText p = priceText q ↔ samePrice p q = true ∧ decimals p = decimals q := by
  -- no number reads `None`
  have hnone : ∀ d : Decimal, 0 ≤ d.coeff → d.formatF ≠ "None" := by
    intro d hd heq
    have hparse := Decimal.parse_formatF_eq hd
    rw [heq] at hparse
    have : Decimal.parse "None" = none := by decide
    rw [this] at hparse
    cases hparse
  cases p with
  | none =>
    cases q with
    | none => simp [priceText, samePrice, decimals]
    | some b =>
      have := (hnone b (hq b rfl)).symm
      simp [priceText, samePrice, this]
  | some a =>
    cases q with
    | none =>
      have := hnone a (hp a rfl)
      simp [priceText, samePrice, this]
    | some b =>
      have hplaces : min a.exp 0 = min b.exp 0 ↔ max 0 (-a.exp) = max 0 (-b.exp) := by omega
      simp only [priceText, samePrice, decimals]
      rw [Decimal.formatF_eq_iff (hp a rfl) (hq b rfl), Decimal.numEq_iff, hplaces]

/-! ## The text -/

/-- What is hashed. -/
def burstText (o : NormalizedOrder) : String :=
  o.account ++ "|" ++ o.symbol ++ "|" ++ o.side.value ++ "|" ++ toString o.quantity ++ "|" ++
    o.orderType.value ++ "|" ++ priceText o.price

theorem burstKey_eq (R : Router) (o : NormalizedOrder) :
    R.burstKey o = "exe:burst:" ++ R.digest (burstText o) := by
  unfold Router.burstKey burstText
  cases o.price <;> rfl

theorem price_nonneg (o : NormalizedOrder) {d : Decimal} (hd : o.price = some d) : 0 ≤ d.coeff := by
  have hpos := o.price_pos hd
  unfold Decimal.isPos at hpos
  exact (of_decide_eq_true hpos).le

/-- Two texts are the same if every field but the first two is, and those join alike. -/
theorem burstText_eq_iff (a b : NormalizedOrder) : burstText a = burstText b ↔
    a.account ++ "|" ++ a.symbol = b.account ++ "|" ++ b.symbol ∧ a.side = b.side ∧
      a.quantity = b.quantity ∧ a.orderType = b.orderType ∧ samePrice a.price b.price = true ∧
      decimals a.price = decimals b.price := by
  have hqa := a.quantity_pos.le
  have hqb := b.quantity_pos.le
  unfold burstText
  rw [join_inj (barless_price fun _ => price_nonneg a) (barless_price fun _ => price_nonneg b),
    join_inj (barless_orderType _) (barless_orderType _),
    join_inj (barless_quantity hqa) (barless_quantity hqb),
    join_inj (barless_side _) (barless_side _),
    priceText_eq_iff (fun _ => price_nonneg a) (fun _ => price_nonneg b), orderType_inj,
    quantity_inj hqa hqb, side_inj]
  simp only [and_assoc]

/-! ## The identity -/

/-- The same economic order. -/
structure SameIdentity (a b : NormalizedOrder) : Prop where
  account : a.account = b.account
  symbol : a.symbol = b.symbol
  side : a.side = b.side
  quantity : a.quantity = b.quantity
  orderType : a.orderType = b.orderType
  price : samePrice a.price b.price = true

/-- The account of `a` holds a bar, behind which the symbol of `b` begins. -/
def Shifted (a b : NormalizedOrder) : Prop :=
  ∃ w, a.account = b.account ++ "|" ++ w ∧ b.symbol = w ++ "|" ++ a.symbol

/-- Alike in side, quantity, order type and price; and either written with the same decimals and
    apart in account and symbol by a bar that has moved, or alike in those too and written with
    different decimals. -/
def Confused (a b : NormalizedOrder) : Prop :=
  a.side = b.side ∧ a.quantity = b.quantity ∧ a.orderType = b.orderType ∧
    samePrice a.price b.price = true ∧
    ((decimals a.price = decimals b.price ∧ (Shifted a b ∨ Shifted b a)) ∨
      (decimals a.price ≠ decimals b.price ∧ a.account = b.account ∧ a.symbol = b.symbol))

/-- A bar cannot move within equal accounts. -/
theorem Shifted.account_ne {a b : NormalizedOrder} (h : Shifted a b) : a.account ≠ b.account := by
  obtain ⟨w, hw, -⟩ := h
  intro heq
  rw [heq] at hw
  have hlen := congrArg (fun s : String => s.toList.length) hw
  simp only [toList_join, List.length_append, List.length_cons] at hlen
  omega

/-- For a digest that tells texts apart, the keys of two orders agree exactly with their economic
    identity, except for the orders that are confused. -/
theorem burst_key_identity_iff (R : Router) (hR : Function.Injective R.digest)
    (a b : NormalizedOrder) :
    (R.burstKey a = R.burstKey b ↔ SameIdentity a b) ↔ ¬ Confused a b := by
  have hkey : R.burstKey a = R.burstKey b ↔ burstText a = burstText b := by
    rw [burstKey_eq, burstKey_eq, String.append_right_inj, hR.eq_iff]
  rw [hkey, burstText_eq_iff, join_eq_iff]
  constructor
  · rintro hiff ⟨hside, hquantity, htype, hprice, hmoved | hwritten⟩
    · obtain ⟨hdec, hshift⟩ := hmoved
      have hsame := hiff.mp ⟨.inr hshift, hside, hquantity, htype, hprice, hdec⟩
      obtain hshift | hshift := hshift
      · exact hshift.account_ne hsame.account
      · exact hshift.account_ne hsame.account.symm
    · obtain ⟨hdec, haccount, hsymbol⟩ := hwritten
      obtain ⟨-, -, -, -, -, hdec'⟩ :=
        hiff.mpr ⟨haccount, hsymbol, hside, hquantity, htype, hprice⟩
      exact hdec hdec'
  · intro hclear
    constructor
    · rintro ⟨⟨haccount, hsymbol⟩ | hshift, hside, hquantity, htype, hprice, hdec⟩
      · exact ⟨haccount, hsymbol, hside, hquantity, htype, hprice⟩
      · exact absurd ⟨hside, hquantity, htype, hprice, .inl ⟨hdec, hshift⟩⟩ hclear
    · rintro ⟨haccount, hsymbol, hside, hquantity, htype, hprice⟩
      have hdec : decimals a.price = decimals b.price := by
        by_contra hne
        exact hclear ⟨hside, hquantity, htype, hprice, .inr ⟨hne, haccount, hsymbol⟩⟩
      exact ⟨.inl ⟨haccount, hsymbol⟩, hside, hquantity, htype, hprice, hdec⟩

/-! ## Orders that are confused -/

section Sample

/-- A limit order of 100 units. -/
def fieldsOf (account symbol : String) (price : Decimal) : OrderFields :=
  { sampleFields cidA .sim with account := account, symbol := symbol, price := some price }

def elevenOrder : NormalizedOrder := ⟨fieldsOf "12345672" "PTT" ⟨11, 0⟩, by decide +kernel⟩

def tenOrder : NormalizedOrder := ⟨fieldsOf "12345672" "PTT" ⟨10, 0⟩, by decide +kernel⟩

def tenPointOrder : NormalizedOrder := ⟨fieldsOf "12345672" "PTT" ⟨100, -1⟩, by decide +kernel⟩

def barInAccount : NormalizedOrder := ⟨fieldsOf "1|2" "3" ⟨10, 0⟩, by decide +kernel⟩

def barInSymbol : NormalizedOrder := ⟨fieldsOf "1" "2|3" ⟨10, 0⟩, by decide +kernel⟩

/-- The same order under another id, and the same order at another price. -/
theorem sample_keys :
    simRouter.burstKey (sampleOrderA .sim) = simRouter.burstKey (sampleOrderB .sim) ∧
    simRouter.burstKey (sampleOrderA .sim) ≠ simRouter.burstKey elevenOrder := by
  have hid : Function.Injective simRouter.digest := Function.injective_id
  constructor
  · refine ((burst_key_identity_iff simRouter hid _ _).mpr ?_).mpr ⟨rfl, rfl, rfl, rfl, rfl, rfl⟩
    rintro ⟨-, -, -, -, ⟨-, hshift | hshift⟩ | ⟨hdec, -⟩⟩
    · exact hshift.account_ne rfl
    · exact hshift.account_ne rfl
    · exact hdec rfl
  · intro hkey
    have hsame := ((burst_key_identity_iff simRouter hid _ _).mpr ?_).mp hkey
    · exact absurd hsame.price (by decide)
    · rintro ⟨-, -, -, hprice, -⟩
      exact absurd hprice (by decide)

/-- 10 and 10.0 have different keys; the account `1|2` with the symbol `3` has the key of the
    account `1` with the symbol `2|3`. -/
theorem confused_keys :
    (simRouter.burstKey tenOrder ≠ simRouter.burstKey tenPointOrder ∧
      SameIdentity tenOrder tenPointOrder) ∧
    (simRouter.burstKey barInAccount = simRouter.burstKey barInSymbol ∧
      ¬ SameIdentity barInAccount barInSymbol) := by
  refine ⟨⟨by decide +kernel, rfl, rfl, rfl, rfl, rfl, by decide⟩, by decide +kernel, fun h => ?_⟩
  exact absurd h.account (by decide)

end Sample

end Fingerprint

end ExecutionEngine
