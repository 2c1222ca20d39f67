/-
  Balance and holdings of an account, as the venue tells them.

  `BalanceTold` and `HoldingsTold` are what the reads stand for: the figures of an account are
  those of its entry or rows, one for each field of the source, and a figure is absent exactly
  where the venue has none. `account_told` and `positions_told` say that the router answers nothing
  else, so that everything the venue refuses or leaves unreadable is an exception, with two limits
  that the statements show: where the stage ladder puts the simulator, the simulator answers, and a
  Streaming Pro row without a readable quantity is taken as no holding.
-/
import ExecutionEngine.Adapters.AccountReads

namespace ExecutionEngine

/-! ## What the venue tells -/

/-- A field tells a figure, or is blank. -/
inductive Told (blank : Json → Bool) (raw : Dict) (key : String) : Option Decimal → Prop where
  | blank (h : blank (Json.lookup raw key) = true) : Told blank raw key none
  | figure {d : Decimal} (h : (Json.lookup raw key).toDecimal = some (.finite d)) :
      Told blank raw key (some d)

section Parts

variable {α β ε ε' : Type} {raw : Dict} {key : String} {x : Option Decimal}

theorem bind_ok {r : Except ε α} {f : α → Except ε β} {b : β} :
    (r >>= f) = .ok b ↔ ∃ a, r = .ok a ∧ f a = .ok b := by
  cases r with
  | error e => simp [bind, Except.bind]
  | ok a => simp [bind, Except.bind]

theorem mapError_ok {r : Except ε α} {f : ε → ε'} {a : α} :
    r.mapError f = .ok a ↔ r = .ok a := by
  cases r <;> simp [Except.mapError]

theorem mapM_forall₂ {f : α → Except ε β} {l : List α} {bs : List β} :
    l.mapM f = .ok bs ↔ List.Forall₂ (fun a b => f a = .ok b) l bs := by
  induction l generalizing bs with
  | nil =>
    rw [List.forall₂_nil_left_iff, List.mapM_nil]
    exact ⟨fun h => (Except.ok.inj h).symm, fun h => h ▸ rfl⟩
  | cons a l ih =>
    rw [List.forall₂_cons_left_iff, List.mapM_cons]
    simp only [bind_ok, ih]
    constructor
    · rintro ⟨b, hb, bs', hbs, h⟩
      exact ⟨b, bs', hb, hbs, (Except.ok.inj h).symm⟩
    · rintro ⟨b, bs', hb, hbs, rfl⟩
      exact ⟨b, hb, bs', hbs, rfl⟩

theorem finite_none : finite none = .ok x ↔ x = none := by
  rw [finite, Except.ok.injEq, eq_comm]

theorem finite_some {d : AnyDecimal} :
    finite (some d) = .ok x ↔ ∃ d', d = .finite d' ∧ x = some d' := by
  cases d with
  | finite d => simp [finite, eq_comm]
  | special s => simp [finite]

def Json.isNull : Json → Bool
  | .null => true
  | _ => false

theorem toDecimal_numeral {v : Json} {d : AnyDecimal} (h : v.toDecimal = some d) :
    v.isNumeral = true := by
  cases v <;> first | rfl | cases h

/-- A read that answers nothing for a blank field and the decimal of a numeral, with pydantic's
    check of it. -/
theorem told_of_read {blank : Json → Bool} {r : Except ReadError (Option AnyDecimal)}
    (hr : ∀ y, r = .ok y ↔ (blank (Json.lookup raw key) = true ∧ y = none) ∨
      ∃ d, (Json.lookup raw key).toDecimal = some d ∧ y = some d) :
    (∃ y, r = .ok y ∧ finite y = .ok x) ↔ Told blank raw key x := by
  constructor
  · rintro ⟨y, hy, hx⟩
    rcases (hr y).mp hy with ⟨hblank, rfl⟩ | ⟨d, hd, rfl⟩
    · obtain rfl := finite_none.mp hx
      exact .blank hblank
    · obtain ⟨d', rfl, rfl⟩ := finite_some.mp hx
      exact .figure hd
  · rintro (hblank | hd)
    · exact ⟨none, (hr _).mpr (.inl ⟨hblank, rfl⟩), rfl⟩
    · exact ⟨_, (hr _).mpr (.inr ⟨_, hd, rfl⟩), rfl⟩

theorem Liberator.venueDecimal_ok {v : Json} {field : String} {d : AnyDecimal} :
    Liberator.venueDecimal v field = .ok d ↔ v.toDecimal = some d := by
  unfold Liberator.venueDecimal
  by_cases hv : v.isNumeral = true
  · rw [if_pos hv]
    cases v.toDecimal <;> simp
  · rw [if_neg hv]
    exact iff_of_false (by simp) fun h => hv (toDecimal_numeral h)

theorem Liberator.optDecimal_ok {y : Option AnyDecimal} : Liberator.optDecimal raw key = .ok y ↔
    ((Json.lookup raw key).isNull = true ∧ y = none) ∨
      ∃ d, (Json.lookup raw key).toDecimal = some d ∧ y = some d := by
  unfold Liberator.optDecimal
  generalize Json.lookup raw key = v
  split
  · simp [Json.isNull, Json.toDecimal, eq_comm]
  · rename_i hv
    have hnull : v.isNull = false := by
      cases v <;> first | rfl | exact (hv rfl).elim
    rw [hnull]
    cases hd : Liberator.venueDecimal v key with
    | error e =>
      refine iff_of_false (by simp [Except.map]) ?_
      rintro (⟨h, -⟩ | ⟨d, h, -⟩)
      · cases h
      · cases hd.symm.trans (Liberator.venueDecimal_ok.mpr h)
    | ok d =>
      rw [Liberator.venueDecimal_ok.mp hd]
      simp [Except.map, eq_comm]

theorem StreamingPro.optDecimal_ok {y : Option AnyDecimal} :
    StreamingPro.optDecimal raw key = .ok y ↔
      ((!(Json.lookup raw key).isNumeral) = true ∧ y = none) ∨
        ∃ d, (Json.lookup raw key).toDecimal = some d ∧ y = some d := by
  unfold StreamingPro.optDecimal
  dsimp only
  by_cases hv : (Json.lookup raw key).isNumeral = true
  · rw [if_pos hv, hv]
    cases (Json.lookup raw key).toDecimal <;> simp [eq_comm]
  · rw [if_neg hv, Bool.eq_false_of_not_eq_true hv, Except.ok.injEq]
    constructor
    · rintro rfl
      exact .inl ⟨rfl, rfl⟩
    · rintro (⟨-, rfl⟩ | ⟨d, hd, -⟩)
      · rfl
      · exact absurd (toDecimal_numeral hd) hv

/-- A read of a field and pydantic's check of it, for Liberator. -/
theorem Liberator.optDecimal_told : (∃ y, Liberator.optDecimal raw key = .ok y ∧ finite y = .ok x) ↔
    Told Json.isNull raw key x :=
  told_of_read fun _ => Liberator.optDecimal_ok

theorem StreamingPro.optDecimal_told :
    (∃ y, StreamingPro.optDecimal raw key = .ok y ∧ finite y = .ok x) ↔
      Told (fun v => !v.isNumeral) raw key x :=
  told_of_read fun _ => StreamingPro.optDecimal_ok

theorem finiteRequired_ok {d : AnyDecimal} {d' : Decimal} :
    finiteRequired d = .ok d' ↔ d = .finite d' := by
  cases d <;> simp [finiteRequired]

theorem Margin.finite_ok {m : Margin AnyDecimal} {m' : Margin Decimal} : m.finite = .ok m' ↔
    ExecutionEngine.finite m.equity = .ok m'.equity ∧
      ExecutionEngine.finite m.excessEquity = .ok m'.excessEquity ∧
      ExecutionEngine.finite m.initialMargin = .ok m'.initialMargin ∧
      ExecutionEngine.finite m.maintenanceMargin = .ok m'.maintenanceMargin := by
  unfold Margin.finite
  simp only [bind_ok, pure, Except.pure, Except.ok.injEq]
  constructor
  · rintro ⟨x₁, h₁, x₂, h₂, x₃, h₃, x₄, h₄, rfl⟩
    exact ⟨h₁, h₂, h₃, h₄⟩
  · rintro ⟨h₁, h₂, h₃, h₄⟩
    exact ⟨_, h₁, _, h₂, _, h₃, _, h₄, rfl⟩

theorem AccountInfo.build_ok {account : String} {accountType : AccountType}
    {buyingPower : AnyDecimal} {cashBalance creditLimit withdrawable : Option AnyDecimal}
    {margin : Margin AnyDecimal} {info : AccountInfo} :
    AccountInfo.build account accountType buyingPower cashBalance creditLimit withdrawable margin =
        .ok info ↔
      info.account = account ∧ info.accountType = accountType ∧
        buyingPower = .finite info.buyingPower ∧ finite cashBalance = .ok info.cashBalance ∧
        finite creditLimit = .ok info.creditLimit ∧ finite withdrawable = .ok info.withdrawable ∧
        margin.finite = .ok info.margin := by
  unfold AccountInfo.build
  simp only [bind_ok, finiteRequired_ok]
  constructor
  · rintro ⟨bp, rfl, x₁, h₁, x₂, h₂, x₃, h₃, m, hm, h⟩
    split at h
    · obtain rfl := Except.ok.inj h
      exact ⟨rfl, rfl, rfl, h₁, h₂, h₃, hm⟩
    · cases h
  · rintro ⟨rfl, rfl, rfl, h₁, h₂, h₃, hm⟩
    refine ⟨_, rfl, _, h₁, _, h₂, _, h₃, _, hm, ?_⟩
    rw [dif_pos info.margin_derivative]
    rfl

end Parts

/-- The margin block is the source's, under the two keys the venues spell differently. -/
structure MarginTold (blank : Json → Bool) (raw : Dict) (initialKey maintenanceKey : String)
    (m : Margin Decimal) : Prop where
  equity : Told blank raw "equity" m.equity
  excess : Told blank raw "excessEquity" m.excessEquity
  initial : Told blank raw initialKey m.initialMargin
  maintenance : Told blank raw maintenanceKey m.maintenanceMargin

namespace Liberator

/-! ### Liberator -/

/-- The last digit of an account of the market. -/
def suffixOf : Market → Char
  | .set => '2'
  | .tfex => '7'

/-- The venue's grammar of trading accounts. -/
structure IsAccount (isdigit : Char → Bool) (account : String) (market : Market) : Prop where
  length : account.length = 8
  digits : account.toList.all isdigit = true
  suffix : account.toList.getLast? = some (suffixOf market)

/-- The venue answers a read with this result, and no error text. -/
structure Granted (venue : Venue) (r : VenueRead) (result : Dict) : Prop where
  answer : ∃ body raw, venue r = .ok (.obj body) ∧ Json.lookup body "raw_response" = .obj raw ∧
    Json.lookup raw "result" = .obj result ∧
    ∀ err, Json.lookup raw "errMsg" = .str err → err.isEmpty = true

/-- The side a row shows. -/
inductive SideTold (raw : Dict) : Option Side → Prop where
  | absent (h : Json.lookup raw "sideShow" = .null) : SideTold raw none
  | empty (h : Json.lookup raw "sideShow" = .str "") : SideTold raw none
  | long (h : Json.lookup raw "sideShow" = .str "Long") : SideTold raw (some .buy)
  | short (h : Json.lookup raw "sideShow" = .str "Short") : SideTold raw (some .sell)

/-- The position is the row's, figure by figure. -/
structure RowTold (account : String) (market : Market) (raw : Dict) (p : Position) : Prop where
  account : p.account = account
  market : p.market = market
  symbol : symbolRaw raw = .str p.symbol
  symbol_ne : p.symbol ≠ ""
  quantity : Json.lookup raw "actualVol" = .int p.netQty
  side : SideTold raw p.side
  cost : Told Json.isNull raw "amount" p.costAmount
  average : Told Json.isNull raw "avg" p.avgPrice
  price : Told Json.isNull raw "marketPrice" p.marketPrice
  value : Told Json.isNull raw "marketVal" p.marketValue
  unrealized : Told Json.isNull raw "unrealizedPL" p.unrealizedPl

/-- The balance is the entry's, figure by figure. -/
structure EntryTold (account : String) (raw : Dict) (info : AccountInfo) : Prop where
  account : info.account = account
  accountType : info.accountType = accountTypeOf raw
  buyingPower : (Json.lookup raw "lineAvailable").toDecimal = some (.finite info.buyingPower)
  cash : Told Json.isNull raw "cashBalance" info.cashBalance
  credit : Told Json.isNull raw "creditLimit" info.creditLimit
  withdrawable : Told Json.isNull raw "withdrawAvailable" info.withdrawable
  margin : info.accountType = .derivative →
    MarginTold Json.isNull raw "totalMr" "totalMm" info.margin

section

variable {isdigit : Char → Bool} {account symbol what : String} {market : Market} {raw : Dict}
  {venue : Venue} {r : VenueRead} {result : Dict}

theorem positionMarket_ok :
    positionMarket isdigit account = .ok market ↔ IsAccount isdigit account market := by
  unfold positionMarket
  by_cases hshape : (account.length ≠ 8 || !account.toList.all isdigit) = true
  · rw [if_pos hshape]
    refine iff_of_false (by simp) fun h => ?_
    rw [h.length, h.digits] at hshape
    simp at hshape
  · rw [if_neg hshape]
    simp only [Bool.or_eq_true, decide_eq_true_eq, Bool.not_eq_true', not_or, not_not,
      Bool.not_eq_false] at hshape
    split
    · rename_i hlast
      constructor
      · intro h
        obtain rfl := Except.ok.inj h
        exact ⟨hshape.1, hshape.2, hlast⟩
      · intro h
        cases market with
        | set => rfl
        | tfex => cases hlast.symm.trans h.suffix
    · rename_i hlast
      constructor
      · intro h
        obtain rfl := Except.ok.inj h
        exact ⟨hshape.1, hshape.2, hlast⟩
      · intro h
        cases market with
        | set => cases hlast.symm.trans h.suffix
        | tfex => rfl
    · rename_i h2 h7
      refine iff_of_false (by simp) fun h => ?_
      cases market with
      | set => exact h2 h.suffix
      | tfex => exact h7 h.suffix

theorem resultOf_ok : venueResult.resultOf what raw = .ok result ↔
    Json.lookup raw "result" = .obj result := by
  unfold venueResult.resultOf
  cases Json.lookup raw "result" <;> simp [Json.asDict]

theorem venueResult_ok {body : Dict} (hraw : Json.lookup body "raw_response" = .obj raw) :
    venueResult (.obj body) what = .ok result ↔ Json.lookup raw "result" = .obj result ∧
      ∀ err, Json.lookup raw "errMsg" = .str err → err.isEmpty = true := by
  have hwalk : (Json.obj body).asDict.bind (fun fields =>
      (Json.lookup fields "raw_response").asDict) = some raw := by
    rw [Json.asDict, Option.bind_some, hraw]
    rfl
  unfold venueResult
  rw [hwalk]
  dsimp only
  split
  · rename_i err herr
    rw [herr]
    split
    · rename_i hempty
      rw [resultOf_ok]
      exact ⟨fun h => ⟨h, fun _ he => Json.str.inj he ▸ hempty⟩, And.left⟩
    · rename_i hsome
      exact iff_of_false (by simp) fun h => hsome (h.2 err rfl)
  · rename_i hstr
    rw [resultOf_ok]
    exact ⟨fun h => ⟨h, fun err he => absurd he (hstr err)⟩, And.left⟩

theorem readResult_ok : readResult venue r what = .ok result ↔ Granted venue r result := by
  unfold readResult Venue.getJson
  simp only [bind_ok, mapError_ok]
  constructor
  · rintro ⟨body, hbody, h⟩
    have hwalk : ∃ fields raw, body = .obj fields ∧
        Json.lookup fields "raw_response" = .obj raw := by
      cases body with
      | obj fields =>
        cases hraw : Json.lookup fields "raw_response" with
        | obj raw => exact ⟨fields, raw, rfl, hraw⟩
        | _ => simp [venueResult, Json.asDict, hraw] at h
      | _ => cases h
    obtain ⟨fields, raw, rfl, hraw⟩ := hwalk
    obtain ⟨hresult, herr⟩ := (venueResult_ok hraw).mp h
    exact ⟨fields, raw, hbody, hraw, hresult, herr⟩
  · rintro ⟨fields, raw, hbody, hraw, hresult, herr⟩
    exact ⟨_, hbody, (venueResult_ok hraw).mpr ⟨hresult, herr⟩⟩

theorem positionSymbol_ok :
    positionSymbol raw = .ok symbol ↔ symbolRaw raw = .str symbol ∧ symbol ≠ "" := by
  unfold positionSymbol
  dsimp only
  split
  · rename_i text htext
    rw [htext]
    by_cases hempty : text = ""
    · rw [if_pos hempty]
      refine iff_of_false (by simp) ?_
      rintro ⟨h, hne⟩
      exact hne (Json.str.inj h ▸ hempty)
    · rw [if_neg hempty, Except.ok.injEq, Json.str.injEq]
      exact ⟨fun h => ⟨h, h ▸ hempty⟩, And.left⟩
  · rename_i hstr
    exact iff_of_false (by simp) fun h => hstr _ h.1

theorem positionQty_ok {qty : Int} :
    positionQty symbol raw = .ok qty ↔ Json.lookup raw "actualVol" = .int qty := by
  unfold positionQty
  split
  · rename_i n hn
    rw [hn, Except.ok.injEq, Json.int.injEq]
  · rename_i hint
    exact iff_of_false (by simp) fun h => hint _ h

theorem positionSide_ok {side : Option Side} :
    positionSide symbol raw = .ok side ↔ SideTold raw side := by
  unfold positionSide
  constructor
  · intro h
    split at h
    all_goals first | (obtain rfl := Except.ok.inj h) | cases h
    · exact .absent ‹_›
    · exact .empty ‹_›
    · exact .long ‹_›
    · exact .short ‹_›
  · rintro (h | h | h | h) <;> simp [h]

theorem position_ok {p : Position} :
    position account market raw = .ok p ↔ RowTold account market raw p := by
  unfold position
  simp only [bind_ok, pure, Except.pure, Except.ok.injEq]
  constructor
  · rintro ⟨symbol, hsymbol, qty, hqty, side, hside, y₁, h₁, y₂, h₂, y₃, h₃, y₄, h₄, y₅, h₅,
      x₁, hx₁, x₂, hx₂, x₃, hx₃, x₄, hx₄, x₅, hx₅, rfl⟩
    obtain ⟨hsym, hne⟩ := positionSymbol_ok.mp hsymbol
    exact
      { account := rfl
        market := rfl
        symbol := hsym
        symbol_ne := hne
        quantity := positionQty_ok.mp hqty
        side := positionSide_ok.mp hside
        cost := optDecimal_told.mp ⟨y₁, h₁, hx₁⟩
        average := optDecimal_told.mp ⟨y₂, h₂, hx₂⟩
        price := optDecimal_told.mp ⟨y₃, h₃, hx₃⟩
        value := optDecimal_told.mp ⟨y₄, h₄, hx₄⟩
        unrealized := optDecimal_told.mp ⟨y₅, h₅, hx₅⟩ }
  · intro h
    obtain ⟨y₁, h₁, hx₁⟩ := optDecimal_told.mpr h.cost
    obtain ⟨y₂, h₂, hx₂⟩ := optDecimal_told.mpr h.average
    obtain ⟨y₃, h₃, hx₃⟩ := optDecimal_told.mpr h.price
    obtain ⟨y₄, h₄, hx₄⟩ := optDecimal_told.mpr h.value
    obtain ⟨y₅, h₅, hx₅⟩ := optDecimal_told.mpr h.unrealized
    refine ⟨p.symbol, positionSymbol_ok.mpr ⟨h.symbol, h.symbol_ne⟩, p.netQty,
      positionQty_ok.mpr h.quantity, p.side, positionSide_ok.mpr h.side, y₁, h₁, y₂, h₂, y₃, h₃,
      y₄, h₄, y₅, h₅, _, hx₁, _, hx₂, _, hx₃, _, hx₄, _, hx₅, ?_⟩
    rw [← h.account, ← h.market]

theorem getPositions_ok {ps : List Position} :
    getPositions isdigit venue account = .ok ps ↔ ∃ market result rows parsed,
      IsAccount isdigit account market ∧ Granted venue (.portfolioGet account) result ∧
      Json.lookup result "stock" = .arr rows ∧
      List.Forall₂ (RowTold account market) (rows.filterMap Json.asDict) parsed ∧
      ps = parsed.filter fun p => p.netQty ≠ 0 := by
  unfold getPositions
  simp only [bind_ok, positionMarket_ok, readResult_ok]
  refine exists_congr fun market => ?_
  constructor
  · rintro ⟨haccount, result, hresult, h⟩
    split at h
    · cases h
    · rename_i rows hrows
      obtain ⟨parsed, hparsed, h⟩ := bind_ok.mp h
      refine ⟨result, rows, parsed, haccount, hresult, hrows, ?_, (Except.ok.inj h).symm⟩
      exact (mapM_forall₂.mp hparsed).imp fun _ _ => position_ok.mp
    · cases h
  · rintro ⟨result, rows, parsed, haccount, hresult, hrows, hparsed, rfl⟩
    refine ⟨haccount, result, hresult, ?_⟩
    rw [hrows]
    exact bind_ok.mpr ⟨parsed, mapM_forall₂.mpr (hparsed.imp fun _ _ => position_ok.mpr), rfl⟩

theorem marginOf_told {info : AccountInfo} (htype : info.accountType = accountTypeOf raw) :
    (∃ m, marginOf raw = .ok m ∧ m.finite = .ok info.margin) ↔
      (info.accountType = .derivative →
        MarginTold Json.isNull raw "totalMr" "totalMm" info.margin) := by
  unfold marginOf
  by_cases hder : accountTypeOf raw = .derivative
  · rw [if_pos hder, htype, forall_prop_of_true hder]
    simp only [bind_ok, pure, Except.pure, Except.ok.injEq]
    constructor
    · rintro ⟨_, ⟨y₁, h₁, y₂, h₂, y₃, h₃, y₄, h₄, rfl⟩, hm⟩
      obtain ⟨hx₁, hx₂, hx₃, hx₄⟩ := Margin.finite_ok.mp hm
      exact ⟨optDecimal_told.mp ⟨_, h₁, hx₁⟩, optDecimal_told.mp ⟨_, h₂, hx₂⟩,
        optDecimal_told.mp ⟨_, h₃, hx₃⟩, optDecimal_told.mp ⟨_, h₄, hx₄⟩⟩
    · intro h
      obtain ⟨y₁, h₁, hx₁⟩ := optDecimal_told.mpr h.equity
      obtain ⟨y₂, h₂, hx₂⟩ := optDecimal_told.mpr h.excess
      obtain ⟨y₃, h₃, hx₃⟩ := optDecimal_told.mpr h.initial
      obtain ⟨y₄, h₄, hx₄⟩ := optDecimal_told.mpr h.maintenance
      exact ⟨_, ⟨y₁, h₁, y₂, h₂, y₃, h₃, y₄, h₄, rfl⟩, Margin.finite_ok.mpr ⟨hx₁, hx₂, hx₃, hx₄⟩⟩
  · rw [if_neg hder]
    refine iff_of_true ⟨{}, rfl, ?_⟩ fun h => absurd (htype ▸ h) hder
    rw [info.margin_derivative (htype ▸ hder)]
    rfl

theorem accountInfo_ok {info : AccountInfo} :
    accountInfo account raw = .ok info ↔ EntryTold account raw info := by
  unfold accountInfo
  simp only [bind_ok, venueDecimal_ok, AccountInfo.build_ok]
  constructor
  · rintro ⟨m, hm, bp, hbp, y₁, h₁, y₂, h₂, y₃, h₃, hacc, htype, rfl, hx₁, hx₂, hx₃, hmargin⟩
    exact
      { account := hacc
        accountType := htype
        buyingPower := hbp
        cash := optDecimal_told.mp ⟨_, h₁, hx₁⟩
        credit := optDecimal_told.mp ⟨_, h₂, hx₂⟩
        withdrawable := optDecimal_told.mp ⟨_, h₃, hx₃⟩
        margin := (marginOf_told htype).mp ⟨m, hm, hmargin⟩ }
  · intro h
    obtain ⟨m, hm, hmargin⟩ := (marginOf_told h.accountType).mpr h.margin
    obtain ⟨y₁, h₁, hx₁⟩ := optDecimal_told.mpr h.cash
    obtain ⟨y₂, h₂, hx₂⟩ := optDecimal_told.mpr h.credit
    obtain ⟨y₃, h₃, hx₃⟩ := optDecimal_told.mpr h.withdrawable
    exact ⟨m, hm, _, h.buyingPower, y₁, h₁, y₂, h₂, y₃, h₃, h.account, h.accountType, rfl, hx₁, hx₂,
      hx₃, hmargin⟩

theorem getAccount_ok {info : AccountInfo} :
    getAccount venue account = .ok info ↔ ∃ result accounts raw, Granted venue .profile result ∧
      Json.lookup result "accounts" = .arr accounts ∧
      (accounts.filterMap Json.asDict).find? (isEntry account) = some raw ∧
      EntryTold account raw info := by
  unfold getAccount
  simp only [bind_ok, readResult_ok]
  constructor
  · rintro ⟨result, hresult, h⟩
    split at h
    · rename_i accounts haccounts
      split at h
      · rename_i raw hraw
        exact ⟨result, accounts, raw, hresult, haccounts, hraw, accountInfo_ok.mp h⟩
      · cases h
    · cases h
  · rintro ⟨result, accounts, raw, hresult, haccounts, hraw, h⟩
    refine ⟨result, hresult, ?_⟩
    rw [haccounts]
    dsimp only
    rw [hraw]
    exact accountInfo_ok.mpr h

end

end Liberator

/-! ### Streaming Pro -/

namespace StreamingPro

/-- No number and no text. -/
def isBlank (v : Json) : Bool := !v.isNumeral

/-- The fields of a body, none if it is no object. -/
def fieldsOf (body : Json) : Dict := body.asDict.getD []

/-- The position is the row's, figure by figure. This front shows no side. -/
structure HeldTold (intOfFloat : String → Except PyError Int) (account : String) (raw : Dict)
    (p : Position) : Prop where
  account : p.account = account
  market : p.market = .set
  symbol : Json.lookup raw "symbol" = .str p.symbol
  quantity : coerceInt intOfFloat (volumeRaw raw) = .ok (some p.netQty)
  quantity_ne : p.netQty ≠ 0
  side : p.side = none
  cost : Told isBlank raw "amount" p.costAmount
  average : Told isBlank raw "averagePrice" p.avgPrice
  price : Told isBlank raw "marketPrice" p.marketPrice
  value : Told isBlank raw "marketValue" p.marketValue
  unrealized : p.unrealizedPl = none

/-- A row holds something, or it names no symbol, or has a quantity of zero or none to read. -/
inductive RowTold (intOfFloat : String → Except PyError Int) (account : String) (raw : Dict) :
    Option Position → Prop where
  | held {p : Position} (h : HeldTold intOfFloat account raw p) :
      RowTold intOfFloat account raw (some p)
  | nothing {q : Option Int} (hq : coerceInt intOfFloat (volumeRaw raw) = .ok q)
      (h : (∀ s, Json.lookup raw "symbol" ≠ .str s) ∨ q = none ∨ q = some 0) :
      RowTold intOfFloat account raw none

/-- The equity front's balance of the account. -/
structure SetTold (account : String) (fields : Dict) (info : AccountInfo) : Prop where
  account : info.account = account
  accountType : info.accountType = .cash
  buyingPower : (Json.lookup fields "lineAvailable").toDecimal = some (.finite info.buyingPower)
  cash : Told isBlank fields "cashBalance" info.cashBalance
  credit : Told isBlank fields "creditLimit" info.creditLimit
  withdrawable : info.withdrawable = none

/-- The derivatives front's. -/
structure TfexTold (account : String) (fields : Dict) (info : AccountInfo) : Prop where
  account : info.account = account
  accountType : info.accountType = .derivative
  buyingPower : (Json.lookup fields "excessEquity").toDecimal = some (.finite info.buyingPower)
  cash : Told isBlank fields "cashBalance" info.cashBalance
  credit : Told isBlank fields "creditLine" info.creditLimit
  withdrawable : info.withdrawable = none
  margin : MarginTold isBlank fields "totalMR" "totalMM" info.margin

section

variable {intOfFloat : String → Except PyError Int} {account : String} {raw : Dict} {venue : Venue}

theorem positionOf_ok {x : Option Position} :
    positionOf intOfFloat account raw = .ok x ↔ RowTold intOfFloat account raw x := by
  unfold positionOf
  simp only [bind_ok, mapError_ok]
  constructor
  · rintro ⟨q, hq, h⟩
    split at h
    · rename_i symbol netQty hsymbol
      split at h
      · rename_i hzero
        obtain rfl := Except.ok.inj h
        exact .nothing hq (.inr (.inr (congrArg some hzero)))
      · rename_i hne
        simp only [bind_ok, pure, Except.pure, Except.ok.injEq] at h
        obtain ⟨y₁, h₁, y₂, h₂, y₃, h₃, y₄, h₄, x₁, hx₁, x₂, hx₂, x₃, hx₃, x₄, hx₄, rfl⟩ := h
        exact .held
          { account := rfl
            market := rfl
            symbol := hsymbol
            quantity := hq
            quantity_ne := hne
            side := rfl
            cost := optDecimal_told.mp ⟨_, h₁, hx₁⟩
            average := optDecimal_told.mp ⟨_, h₂, hx₂⟩
            price := optDecimal_told.mp ⟨_, h₃, hx₃⟩
            value := optDecimal_told.mp ⟨_, h₄, hx₄⟩
            unrealized := rfl }
    · rename_i q _ _ hother
      obtain rfl := Except.ok.inj h
      refine .nothing hq ?_
      cases q with
      | none => exact .inr (.inl rfl)
      | some n => exact .inl fun s hs => hother s n hs rfl
  · rintro (h | ⟨hq, h⟩)
    · rename_i p
      obtain ⟨y₁, h₁, hx₁⟩ := optDecimal_told.mpr h.cost
      obtain ⟨y₂, h₂, hx₂⟩ := optDecimal_told.mpr h.average
      obtain ⟨y₃, h₃, hx₃⟩ := optDecimal_told.mpr h.price
      obtain ⟨y₄, h₄, hx₄⟩ := optDecimal_told.mpr h.value
      refine ⟨_, h.quantity, ?_⟩
      rw [h.symbol]
      dsimp only
      rw [if_neg h.quantity_ne]
      simp only [bind_ok, pure, Except.pure, Except.ok.injEq]
      refine ⟨y₁, h₁, y₂, h₂, y₃, h₃, y₄, h₄, _, hx₁, _, hx₂, _, hx₃, _, hx₄, ?_⟩
      rw [← h.account, ← h.market, ← h.side, ← h.unrealized]
    · rename_i q
      refine ⟨q, hq, ?_⟩
      split
      · rename_i symbol netQty hsymbol
        rcases h with h | h | h
        · exact absurd hsymbol (h symbol)
        · cases h
        · rw [if_pos (Option.some.inj h)]
          rfl
      · rfl

theorem bodyDecimal_eq (body : Json) (key : String) :
    bodyDecimal body key = optDecimal (fieldsOf body) key := by
  cases body <;> rfl

/-- The equity front had no figure, so that the derivatives front was asked. -/
theorem bodyDecimal_none {body : Json} {key : String} :
    bodyDecimal body key = .ok none ↔ isBlank (Json.lookup (fieldsOf body) key) = true := by
  rw [bodyDecimal_eq, optDecimal_ok]
  simp [isBlank]

theorem bodyDecimal_some {body : Json} {key : String} {d : AnyDecimal} :
    bodyDecimal body key = .ok (some d) ↔
      (Json.lookup (fieldsOf body) key).toDecimal = some d := by
  rw [bodyDecimal_eq, optDecimal_ok]
  constructor
  · rintro (⟨-, h⟩ | ⟨d', hd, h⟩)
    · cases h
    · rw [hd, Option.some.inj h]
  · exact fun h => .inr ⟨d, h, rfl⟩

theorem bodyDecimal_told {body : Json} {key : String} {x : Option Decimal} :
    (∃ y, bodyDecimal body key = .ok y ∧ finite y = .ok x) ↔ Told isBlank (fieldsOf body) key x := by
  rw [bodyDecimal_eq]
  exact optDecimal_told

theorem setInfo_ok {body : Json} {bp : AnyDecimal} {info : AccountInfo}
    (hbp : (Json.lookup (fieldsOf body) "lineAvailable").toDecimal = some bp) :
    setInfo account body bp = .ok info ↔ SetTold account (fieldsOf body) info := by
  unfold setInfo
  simp only [bind_ok, AccountInfo.build_ok]
  constructor
  · rintro ⟨y₁, h₁, y₂, h₂, hacc, htype, rfl, hx₁, hx₂, hw, -⟩
    exact ⟨hacc, htype, hbp, bodyDecimal_told.mp ⟨_, h₁, hx₁⟩, bodyDecimal_told.mp ⟨_, h₂, hx₂⟩,
      finite_none.mp hw⟩
  · intro h
    obtain ⟨y₁, h₁, hx₁⟩ := bodyDecimal_told.mpr h.cash
    obtain ⟨y₂, h₂, hx₂⟩ := bodyDecimal_told.mpr h.credit
    refine ⟨y₁, h₁, y₂, h₂, h.account, h.accountType,
      Option.some.inj (hbp.symm.trans h.buyingPower), hx₁, hx₂, finite_none.mpr h.withdrawable, ?_⟩
    rw [info.margin_derivative (by rw [h.accountType]; decide)]
    rfl

theorem tfexInfo_ok {body : Json} {bp : AnyDecimal} {info : AccountInfo}
    (hbp : (Json.lookup (fieldsOf body) "excessEquity").toDecimal = some bp) :
    tfexInfo account body bp = .ok info ↔ TfexTold account (fieldsOf body) info := by
  unfold tfexInfo
  simp only [bind_ok, AccountInfo.build_ok, Margin.finite_ok]
  constructor
  · rintro ⟨y₁, h₁, y₂, h₂, y₃, h₃, y₄, h₄, y₅, h₅, y₆, h₆, hacc, htype, rfl, hx₁, hx₂, hw, hx₃,
      hx₄, hx₅, hx₆⟩
    exact
      { account := hacc
        accountType := htype
        buyingPower := hbp
        cash := bodyDecimal_told.mp ⟨_, h₁, hx₁⟩
        credit := bodyDecimal_told.mp ⟨_, h₂, hx₂⟩
        withdrawable := finite_none.mp hw
        margin :=
          { equity := bodyDecimal_told.mp ⟨_, h₃, hx₃⟩
            excess := bodyDecimal_told.mp ⟨_, h₄, hx₄⟩
            initial := bodyDecimal_told.mp ⟨_, h₅, hx₅⟩
            maintenance := bodyDecimal_told.mp ⟨_, h₆, hx₆⟩ } }
  · intro h
    obtain ⟨y₁, h₁, hx₁⟩ := bodyDecimal_told.mpr h.cash
    obtain ⟨y₂, h₂, hx₂⟩ := bodyDecimal_told.mpr h.credit
    obtain ⟨y₃, h₃, hx₃⟩ := bodyDecimal_told.mpr h.margin.equity
    obtain ⟨y₄, h₄, hx₄⟩ := bodyDecimal_told.mpr h.margin.excess
    obtain ⟨y₅, h₅, hx₅⟩ := bodyDecimal_told.mpr h.margin.initial
    obtain ⟨y₆, h₆, hx₆⟩ := bodyDecimal_told.mpr h.margin.maintenance
    exact ⟨y₁, h₁, y₂, h₂, y₃, h₃, y₄, h₄, y₅, h₅, y₆, h₆, h.account, h.accountType,
      Option.some.inj (hbp.symm.trans h.buyingPower), hx₁, hx₂, finite_none.mpr h.withdrawable,
      hx₃, hx₄, hx₅, hx₆⟩

end

end StreamingPro

/-! ## What the router answers -/

/-- The holdings that an adapter's venue tells of an account: the rows with a quantity, in order,
    each with its own figures. -/
inductive HoldingsTold (isdigit : Char → Bool) (intOfFloat : String → Except PyError Int)
    (venue : Venue) (account : String) : AdapterId → List Position → Prop where
  | sim : HoldingsTold isdigit intOfFloat venue account .sim []
  | liberator {market : Market} {result : Dict} {rows : List Json} {parsed : List Position}
      (haccount : Liberator.IsAccount isdigit account market)
      (hgranted : Liberator.Granted venue (.portfolioGet account) result)
      (hrows : Json.lookup result "stock" = .arr rows)
      (hparsed : List.Forall₂ (Liberator.RowTold account market) (rows.filterMap Json.asDict)
        parsed) :
      HoldingsTold isdigit intOfFloat venue account .liberator
        (parsed.filter fun p => p.netQty ≠ 0)
  /-- The derivatives front knows the account, and has no row of it. -/
  | flatTfex {body : Json} {raw : Dict} (hbody : venue (.tfexPortfolio account) = .ok body)
      (haccepts : StreamingPro.tfexHoldings body = some raw)
      (hrows : Json.lookup raw "portfolioList" = .arr []) :
      HoldingsTold isdigit intOfFloat venue account .streamingPro []
  /-- The derivatives front does not know the account. -/
  | set {tfexBody : Json} {fields : Dict} {rows : List Json} {parsed : List (Option Position)}
      (htfex : venue (.tfexPortfolio account) = .ok tfexBody)
      (hrefuses : StreamingPro.tfexHoldings tfexBody = none)
      (hbody : venue (.portfolio account) = .ok (.obj fields))
      (hrows : Json.lookup fields "positions" = .arr rows)
      (hparsed : List.Forall₂ (StreamingPro.RowTold intOfFloat account)
        (rows.filterMap Json.asDict) parsed) :
      HoldingsTold isdigit intOfFloat venue account .streamingPro parsed.reduceOption

/-- The balance that an adapter's venue tells of an account. -/
inductive BalanceTold (venue : Venue) (account : String) : AdapterId → AccountInfo → Prop where
  | sim {info : AccountInfo} (hinfo : info =
      { account, buyingPower := ⟨1000000000, 0⟩, margin_derivative := fun _ => rfl }) :
      BalanceTold venue account .sim info
  | liberator {result raw : Dict} {accounts : List Json} {info : AccountInfo}
      (hgranted : Liberator.Granted venue .profile result)
      (haccounts : Json.lookup result "accounts" = .arr accounts)
      (hentry : (accounts.filterMap Json.asDict).find? (Liberator.isEntry account) = some raw)
      (htold : Liberator.EntryTold account raw info) : BalanceTold venue account .liberator info
  | set {body : Json} {info : AccountInfo} (hbody : venue (.accountInfo account) = .ok body)
      (htold : StreamingPro.SetTold account (StreamingPro.fieldsOf body) info) :
      BalanceTold venue account .streamingPro info
  /-- The equity front has no buying power of the account. -/
  | tfex {setBody body : Json} {info : AccountInfo}
      (hset : venue (.accountInfo account) = .ok setBody)
      (hblank : StreamingPro.isBlank
        (Json.lookup (StreamingPro.fieldsOf setBody) "lineAvailable") = true)
      (hbody : venue (.tfexAccountInfo account) = .ok body)
      (htold : StreamingPro.TfexTold account (StreamingPro.fieldsOf body) info) :
      BalanceTold venue account .streamingPro info

section Router

variable {R : Router} {isdigit : Char → Bool} {intOfFloat : String → Except PyError Int}
  {venue : Venue} {b : Broker} {account : String}

theorem getJson_ok {r : VenueRead} {body : Json} :
    venue.getJson r = .ok body ↔ venue r = .ok body := mapError_ok

theorem StreamingPro.getPositions_ok {ps : List Position} :
    StreamingPro.getPositions intOfFloat venue account = .ok ps ↔
      HoldingsTold isdigit intOfFloat venue account .streamingPro ps := by
  unfold StreamingPro.getPositions
  simp only [bind_ok, getJson_ok]
  constructor
  · rintro ⟨tfexBody, htfex, h⟩
    split at h
    · rename_i raw haccepts
      split at h
      · rename_i hrows
        obtain rfl := Except.ok.inj h
        exact .flatTfex htfex haccepts hrows
      · cases h
      · cases h
    · rename_i hrefuses
      simp only [bind_ok, getJson_ok] at h
      obtain ⟨body, hbody, h⟩ := h
      split at h
      · rename_i rows hrows
        obtain ⟨fields, hfields, hrows⟩ := Option.map_eq_some_iff.mp hrows
        obtain ⟨parsed, hparsed, h⟩ := bind_ok.mp h
        obtain rfl := Except.ok.inj h
        cases body with
        | obj fields' =>
          obtain rfl := Option.some.inj hfields
          exact .set htfex hrefuses hbody hrows
            ((mapM_forall₂.mp hparsed).imp fun _ _ => StreamingPro.positionOf_ok.mp)
        | _ => cases hfields
      · cases h
  · rintro (_ | _ | ⟨hbody, haccepts, hrows⟩ | ⟨htfex, hrefuses, hbody, hrows, hparsed⟩)
    · refine ⟨_, hbody, ?_⟩
      rw [haccepts]
      dsimp only
      rw [hrows]
      rfl
    · refine ⟨_, htfex, ?_⟩
      rw [hrefuses]
      refine bind_ok.mpr ⟨_, getJson_ok.mpr hbody, ?_⟩
      rw [Json.asDict, Option.map_some, hrows]
      exact bind_ok.mpr ⟨_, mapM_forall₂.mpr
        (hparsed.imp fun _ _ => StreamingPro.positionOf_ok.mpr), rfl⟩

theorem StreamingPro.getAccount_ok {info : AccountInfo} :
    StreamingPro.getAccount venue account = .ok info ↔
      BalanceTold venue account .streamingPro info := by
  unfold StreamingPro.getAccount
  simp only [bind_ok, getJson_ok]
  constructor
  · rintro ⟨setBody, hset, line, hline, h⟩
    cases line with
    | some bp =>
      exact .set hset ((StreamingPro.setInfo_ok (StreamingPro.bodyDecimal_some.mp hline)).mp h)
    | none =>
      simp only [bind_ok, getJson_ok] at h
      obtain ⟨tfexBody, htfex, excess, hexcess, h⟩ := h
      cases excess with
      | some bp =>
        exact .tfex hset (StreamingPro.bodyDecimal_none.mp hline) htfex
          ((StreamingPro.tfexInfo_ok (StreamingPro.bodyDecimal_some.mp hexcess)).mp h)
      | none => cases h
  · rintro (_ | _ | ⟨hbody, htold⟩ | ⟨hset, hblank, hbody, htold⟩)
    · exact ⟨_, hbody, _, StreamingPro.bodyDecimal_some.mpr htold.buyingPower,
        (StreamingPro.setInfo_ok htold.buyingPower).mpr htold⟩
    · refine ⟨_, hset, _, StreamingPro.bodyDecimal_none.mpr hblank, ?_⟩
      exact bind_ok.mpr ⟨_, getJson_ok.mpr hbody, bind_ok.mpr
        ⟨_, StreamingPro.bodyDecimal_some.mpr htold.buyingPower,
          (StreamingPro.tfexInfo_ok htold.buyingPower).mpr htold⟩⟩

/-- The positions the router answers with are those that the venue of the adapter it resolves for
    a read tells of the account, an empty list among them; it raises otherwise. -/
theorem positions_told {ps : List Position} :
    R.getPositions isdigit intOfFloat venue b account = .ok ps ↔
      ∃ a, R.resolveAdapter b account .read = .ok a ∧
        HoldingsTold isdigit intOfFloat venue account a ps := by
  unfold Router.getPositions
  simp only [bind_ok, mapError_ok]
  refine exists_congr fun a => and_congr_right fun _ => ?_
  cases a with
  | sim =>
    constructor
    · intro h
      obtain rfl := Except.ok.inj h
      exact .sim
    · rintro ⟨⟩
      rfl
  | liberator =>
    refine Liberator.getPositions_ok.trans ⟨?_, ?_⟩
    · rintro ⟨market, result, rows, parsed, haccount, hgranted, hrows, hparsed, rfl⟩
      exact .liberator haccount hgranted hrows hparsed
    · rintro (_ | ⟨haccount, hgranted, hrows, hparsed⟩)
      exact ⟨_, _, _, _, haccount, hgranted, hrows, hparsed, rfl⟩
  | streamingPro => exact StreamingPro.getPositions_ok

/-- The balance the router answers with is the one that the venue of that adapter tells. -/
theorem account_told {info : AccountInfo} :
    R.getAccount venue b account = .ok info ↔
      ∃ a, R.resolveAdapter b account .read = .ok a ∧ BalanceTold venue account a info := by
  unfold Router.getAccount
  simp only [bind_ok, mapError_ok]
  refine exists_congr fun a => and_congr_right fun _ => ?_
  cases a with
  | sim =>
    constructor
    · intro h
      exact .sim (Except.ok.inj h).symm
    · rintro ⟨rfl⟩
      rfl
  | liberator =>
    refine Liberator.getAccount_ok.trans ⟨?_, ?_⟩
    · rintro ⟨result, accounts, raw, hgranted, haccounts, hentry, htold⟩
      exact .liberator hgranted haccounts hentry htold
    · rintro (_ | ⟨hgranted, haccounts, hentry, htold⟩)
      exact ⟨_, _, _, hgranted, haccounts, hentry, htold⟩
  | streamingPro => exact StreamingPro.getAccount_ok

end Router

end ExecutionEngine
