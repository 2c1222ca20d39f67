/-
  The risk caps under concurrent native amends.

  An amend reads the order once, checks the caps on that row with its own change
  merged in, and writes only the columns it was asked to change. `AmendRule` is what
  its code guarantees by itself: the merged snapshot was within the caps. Another
  amend may have moved the other column in between, so the row that is stored need
  not be. `caps_run`: it is, in every run in which no column an amend leaves alone
  has grown since its snapshot and no new price rounds up (`Fresh`).
-/
import ExecutionEngine.Async.Rely
import ExecutionEngine.Contracts.Value
import ExecutionEngine.Core.AmendInPlace

namespace ExecutionEngine

open Async Async.Prog

namespace AmendCaps

/-! ## The caps -/

def qtyCap (R : Router) (account : String) : Int :=
  (Router.forAccount R.settings.accountMaxQty account).getD R.settings.riskMaxOrderQty

def notionalCap (R : Router) (account : String) : Decimal :=
  (Router.forAccount R.settings.accountMaxNotional account).getD R.settings.riskMaxOrderValue

/-- What the notional is taken on: the price, else the stop price. -/
def basis (row : OrderRow) : Option Decimal := row.price.or row.stopPrice

/-- The row is within the quantity cap and the notional cap of its account. -/
structure WithinCaps (R : Router) (row : OrderRow) : Prop where
  quantity : row.quantity ≤ qtyCap R row.account
  notional : ∀ b, basis row = some b →
    b.value * row.quantity ≤ (notionalCap R row.account).value

/-- The row with the change of an amend merged in, as it is checked. -/
def merged (row : OrderRow) (p : Option Decimal) (q : Option Int) : OrderRow :=
  { row with price := p.or row.price, quantity := q.getD row.quantity }

theorem basis_pos (o : NormalizedOrder) {b : Decimal} (hb : o.price.or o.stopPrice = some b) :
    0 < b.value := by
  rw [← Decimal.isPos_iff]
  cases hp : o.price with
  | some p =>
    rw [hp] at hb
    exact o.price_pos (hp.trans hb)
  | none =>
    rw [hp] at hb
    exact o.stopPrice_pos hb

variable {R : Router}

/-- What passes the two caps is within them. -/
theorem within_of_checks {row : OrderRow} {cid : String} {p : Option Decimal} {q : Option Int}
    {o : NormalizedOrder} (hbuild : Router.amendedOrder row cid p q = .ok o)
    (hqty : R.checkQuantity o = .ok ()) (hnotional : R.checkNotional o = .ok ()) :
    WithinCaps R (merged row p q) ∧ ∀ b, basis (merged row p q) = some b → 0 < b.value := by
  have hfields : o.toOrderFields = Router.amendedFields row cid p q := NormalizedOrder.build_ok hbuild
  have hbasis : o.price.or o.stopPrice = basis (merged row p q) := by
    rw [hfields]
    rfl
  have hquantity : o.quantity = (merged row p q).quantity := by
    rw [hfields]
    rfl
  have haccount : o.account = (merged row p q).account := by
    rw [hfields]
    rfl
  refine ⟨⟨?_, ?_⟩, ?_⟩
  · unfold Router.checkQuantity at hqty
    dsimp only at hqty
    split at hqty
    · cases hqty
    · rename_i hle
      rw [hquantity, haccount] at hle
      exact not_lt.mp hle
  · intro b hb
    unfold Router.checkNotional at hnotional
    rw [hbasis, hb] at hnotional
    dsimp only at hnotional
    split at hnotional
    · cases hnotional
    · rename_i hle
      rw [hquantity, haccount, Bool.not_eq_true, Decimal.not_lt_iff, Decimal.value_mulInt] at hle
      exact hle
  · intro b hb
    exact basis_pos o (hbasis.trans hb)

/-! ## One amend -/

/-- What a row keeps whatever happens to it. -/
structure SameOrder (row row' : OrderRow) : Prop where
  clientOrderId : row'.clientOrderId = row.clientOrderId
  broker : row'.broker = row.broker
  account : row'.account = row.account
  stopPrice : row'.stopPrice = row.stopPrice

theorem SameOrder.refl (row : OrderRow) : SameOrder row row := ⟨rfl, rfl, rfl, rfl⟩

theorem SameOrder.trans {row row' row'' : OrderRow} (h : SameOrder row row')
    (h' : SameOrder row' row'') : SameOrder row row'' :=
  ⟨h'.clientOrderId.trans h.clientOrderId, h'.broker.trans h.broker,
    h'.account.trans h.account, h'.stopPrice.trans h.stopPrice⟩

theorem SameOrder.symm {row row' : OrderRow} (h : SameOrder row row') : SameOrder row' row :=
  ⟨h.clientOrderId.symm, h.broker.symm, h.account.symm, h.stopPrice.symm⟩

/-- A read of the order finds the order. -/
def ReadsOrder (row₀ : OrderRow) : Event engineSig → Prop
  | ⟨.store (.fetchOrder cid), .ok (some row)⟩ => cid = row₀.clientOrderId → SameOrder row₀ row
  | _ => True

/-- The row an amend works from: the first one it has read. -/
def snapshot (h : History) : Option OrderRow := (reads h).head?

/-- What is written was within the caps when merged into the snapshot. -/
def AmendRule (R : Router) (row₀ : OrderRow) (h : History) : EngineOp → Prop
  | .store (.replaceOrder cid p q) => cid = row₀.clientOrderId ∧
    ∃ row, snapshot h = some row ∧ SameOrder row₀ row ∧ WithinCaps R (merged row p q) ∧
      ∀ b, basis (merged row p q) = some b → 0 < b.value
  | _ => True

/-- Any operation but a replacement. -/
def Keeping : EngineOp → Prop
  | .store (.replaceOrder _ _ _) => False
  | _ => True

theorem amendRule_keeping {row₀ : OrderRow} {h : History} {op : EngineOp} (hop : Keeping op) :
    AmendRule R row₀ h op := by
  rcases op with o | o
  · cases o <;> first | exact hop.elim | trivial
  · trivial

theorem keeping_probe {op : EngineOp} (hop : Probe op) : Keeping op := by
  rcases op with o | o <;> cases o <;> first | exact hop.elim | trivial

section Amend

variable {α β : Type} {row₀ : OrderRow} {h : History}

/-- The history so far with more at its end. -/
def Longer (h h' : History) : Prop := ∃ t, h' = h ++ t

theorem snapshot_longer {h h' : History} {row : OrderRow} (hs : snapshot h = some row)
    (hl : Longer h h') : snapshot h' = some row := by
  obtain ⟨t, rfl⟩ := hl
  unfold snapshot reads at hs ⊢
  rw [List.flatMap_append, List.head?_append, hs]
  rfl

theorem wp_keeping {p : Eff α} (hp : Uses Keeping p) (h : History) :
    wp (Sem.answering (ReadsOrder row₀)) (AmendRule R row₀) p (fun _ h' => Longer h h') h := by
  refine hp.keeps ⟨[], (List.append_nil h).symm⟩ (fun _ _ hop _ => amendRule_keeping hop) ?_
  intro s op r s' _ hs hr
  obtain ⟨t, rfl⟩ := hs
  exact ⟨t ++ [⟨op, r⟩], by rw [hr.2, List.append_assoc]⟩

/-- Before the rest: a stretch that replaces nothing. -/
theorem wp_keeping_bind {p : Eff α} {f : α → Eff β} (hp : Uses Keeping p)
    (hf : ∀ a h', Longer h h' →
      wp (Sem.answering (ReadsOrder row₀)) (AmendRule R row₀) (f a) (fun _ _ => True) h') :
    wp (Sem.answering (ReadsOrder row₀)) (AmendRule R row₀) (p.bind f) (fun _ _ => True) h := by
  refine wp_bind.mpr (wp_mono (wp_keeping hp h) fun r h' hl => ?_)
  cases r with
  | error er => trivial
  | ok a => exact hf a h' hl

/-- A stretch outside the store reads no row. -/
theorem wp_unread {p : Eff α} (hp : Uses Probe p) (hnone : reads h = []) :
    wp (Sem.answering (ReadsOrder row₀)) (AmendRule R row₀) p (fun _ h' => reads h' = []) h := by
  refine hp.keeps hnone (fun _ _ hop _ => amendRule_keeping (keeping_probe hop)) ?_
  intro s op r s' hop hs hr
  rw [hr.2, reads_snoc, hs]
  rcases op with o | o
  · cases o <;> exact hop.elim
  · rfl

theorem keeping_updateStatus (cid : String) (s : OrderState) : Uses Keeping (updateStatus cid s) :=
  uses_updateStatus trivial trivial

theorem keeping_restorePartial (cid : String) (filled : Int) :
    Uses Keeping (Router.restorePartial cid filled) := by
  unfold Router.restorePartial
  split
  · exact keeping_updateStatus cid .partiallyFilled
  · trivial

theorem keeping_venueAmend (a : AdapterId) (cid : String) (p : Option Decimal) (q : Option Int) :
    Uses Keeping (Router.venueAmend a cid p q) := by
  refine (Router.external_venueAmend a cid p q).mono fun op hop => ?_
  rcases op with o | o
  · exact hop.elim
  · trivial

theorem amendAt_rule {p : Option Decimal} {q : Option Int} {row : OrderRow} (a : AdapterId)
    (filled : Int) (hsnap : snapshot h = some row) (hsame : SameOrder row₀ row)
    (hcaps : WithinCaps R (merged row p q))
    (hpos : ∀ b, basis (merged row p q) = some b → 0 < b.value) :
    wp (Sem.answering (ReadsOrder row₀)) (AmendRule R row₀)
      (Router.amendAt a row₀.clientOrderId p q filled) (fun _ _ => True) h := by
  unfold Router.amendAt
  refine wp_keeping_bind (keeping_updateStatus _ _) fun _ h₁ h₁l => ?_
  refine wp_keeping_bind (keeping_venueAmend _ _ _ _) fun ack h₂ h₂l => ?_
  have hsnap₂ : snapshot h₂ = some row := snapshot_longer (snapshot_longer hsnap h₁l) h₂l
  split
  · rw [Prog.bind_eq, wp_bind]
    refine wp_perform.mpr ⟨⟨rfl, row, hsnap₂, hsame, hcaps, hpos⟩, fun r h₃ _ => ?_⟩
    cases r with
    | error er => trivial
    | ok u =>
      refine wp_keeping_bind (keeping_restorePartial _ _) fun _ h₄ _ => ?_
      refine wp_keeping_bind (Router.uses_get trivial) fun _ _ _ => ?_
      trivial
  · refine wp_keeping_bind (keeping_updateStatus _ _) fun _ h₃ _ => ?_
    refine wp_keeping_bind (keeping_restorePartial _ _) fun _ _ _ => ?_
    trivial

theorem amendNative_rule {p : Option Decimal} {q : Option Int} {row : OrderRow}
    (newCid : Option String) (hsnap : snapshot h = some row) (hsame : SameOrder row₀ row) :
    wp (Sem.answering (ReadsOrder row₀)) (AmendRule R row₀)
      (R.amendNative row newCid p q) (fun _ _ => True) h := by
  unfold Router.amendNative
  rw [hsame.clientOrderId]
  dsimp only
  split
  · trivial
  · split
    · trivial
    · refine wp_keeping_bind (uses_store trivial) fun result h₁ h₁l => ?_
      cases result with
      | none => trivial
      | some result =>
        refine wp_keeping_bind (uses_lift _) fun _ h₂ h₂l => ?_
        cases hbuild : Router.amendedOrder row row₀.clientOrderId p q with
        | error er => trivial
        | ok amended =>
          have hsnap₂ : snapshot h₂ = some row := snapshot_longer (snapshot_longer hsnap h₁l) h₂l
          dsimp only [Eff.lift, Prog.bind_eq, Prog.bind]
          unfold Router.riskCheck
          cases hqty : R.checkQuantity amended with
          | error er => trivial
          | ok u =>
            cases hnotional : R.checkNotional amended with
            | error er => trivial
            | ok u' =>
              obtain ⟨hcaps, hpos⟩ := within_of_checks hbuild hqty hnotional
              dsimp only [Eff.lift, Prog.bind_eq, Prog.bind]
              refine wp_keeping_bind ((R.uses_windowedChecks amended).mono fun _ => keeping_probe)
                fun _ h₃ h₃l => ?_
              refine wp_keeping_bind (uses_lift _) fun a h₄ h₄l => ?_
              refine wp_keeping_bind ((Router.uses_breakerGuard a).mono fun _ => keeping_probe)
                fun _ h₅ h₅l => ?_
              have hsnap₅ : snapshot h₅ = some row :=
                snapshot_longer (snapshot_longer (snapshot_longer hsnap₂ h₃l) h₄l) h₅l
              exact amendAt_rule a result.filledQty hsnap₅ hsame hcaps hpos

/-- An amend of a simulator order writes only what it has checked. -/
theorem amend_rule (hsim : row₀.broker = .sim) (fuel : Nat) (newCid : Option String)
    (p : Option Decimal) (q : Option Int) :
    wp (Sem.answering (ReadsOrder row₀)) (AmendRule R row₀)
      (R.amend fuel row₀.clientOrderId newCid p q) (fun _ _ => True) [] := by
  unfold Router.amend
  refine wp_bind.mpr (wp_mono (wp_unread R.uses_assertDisengaged rfl) fun r h₁ hnone => ?_)
  cases r with
  | error er => trivial
  | ok u =>
    rw [outcome_ok]
    split
    · trivial
    · rw [Prog.bind_eq, wp_bind]
      refine wp_perform.mpr ⟨trivial, fun r h₂ hr => ?_⟩
      obtain ⟨hread, rfl⟩ := hr
      cases r with
      | error er => trivial
      | ok found =>
        cases found with
        | none => trivial
        | some row =>
          have hsame : SameOrder row₀ row := hread rfl
          have hsnap : snapshot (h₁ ++ [⟨.store (.fetchOrder row₀.clientOrderId),
              .ok (some row)⟩]) = some row := by
            unfold snapshot
            rw [reads_snoc, hnone]
            rfl
          obtain ⟨caps, hcaps, hnative⟩ := Capabilities.lookup_ok row.broker row.market
          rw [outcome_ok]
          dsimp only
          rw [hcaps, Eff.lift, Prog.bind_eq, Prog.bind, if_pos (hnative.mpr (hsame.broker.trans hsim))]
          exact amendNative_rule newCid hsnap hsame

end Amend

/-! ## One write -/

/-- The same order on the same terms. -/
structure SameTerms (row row' : OrderRow) : Prop extends SameOrder row row' where
  price : row'.price = row.price
  quantity : row'.quantity = row.quantity

theorem WithinCaps.of_sameTerms {row row' : OrderRow} (h : WithinCaps R row)
    (ht : SameTerms row row') : WithinCaps R row' := by
  obtain ⟨⟨-, -, haccount, hstop⟩, hprice, hquantity⟩ := ht
  constructor
  · rw [hquantity, haccount]
    exact h.quantity
  · unfold basis
    rw [hprice, hstop, hquantity, haccount]
    exact h.notional

/-- A statement leaves the terms alone or is a replacement of an order in PENDING_REPLACE. -/
theorem change_terms {o : StoreOp} {e e' : Entry} (h : Change o e e') :
    SameTerms e.row e'.row ∨ ∃ p q, o = .replaceOrder e.row.clientOrderId p q ∧
      e.row.status = .pendingReplace ∧ SameOrder e.row e'.row ∧
      e'.row.price = (p.map Decimal.numeric).or e.row.price ∧
      e'.row.quantity = q.getD e.row.quantity := by
  cases h with
  | ack | status | reason => exact .inl ⟨⟨rfl, rfl, rfl, rfl⟩, rfl, rfl⟩
  | @fill e f price total =>
    have hrow : (Db.withStatus (Db.addFill e f) (Db.fillTarget (Db.addFill e f) total)).row =
        { e.row with status := Db.fillTarget (Db.addFill e f) total } := by
      simp [Db.withStatus]
    rw [hrow]
    exact .inl ⟨⟨rfl, rfl, rfl, rfl⟩, rfl, rfl⟩
  | replace p q hs hrow hfills =>
    refine .inr ⟨p, q, rfl, hs, ?_, ?_, ?_⟩
    · rw [hrow]
      exact ⟨rfl, rfl, rfl, rfl⟩
    · rw [hrow]
    · rw [hrow]

/-- `b` is there only if `b₀` is, and is then at most as much. -/
def AtMost (b b₀ : Option Decimal) : Prop :=
  ∀ x, b = some x → ∃ x₀, b₀ = some x₀ ∧ x.value ≤ x₀.value

/-- Since the snapshot nothing that the amend keeps has grown, and its price does not round up. -/
structure NotGrown (row₀ row : OrderRow) (p : Option Decimal) (q : Option Int) : Prop where
  kept_price : p = none → AtMost (basis row) (basis row₀)
  kept_quantity : q = none → row.quantity ≤ row₀.quantity
  rounding : ∀ x, p = some x → x.numeric.value ≤ x.value

/-- What an amend that checked `row₀` stores over `row`. -/
theorem within_replaced {row₀ row row' : OrderRow} {p : Option Decimal} {q : Option Int}
    (hsame₀ : SameOrder row₀ row) (hsame : SameOrder row row')
    (hprice : row'.price = (p.map Decimal.numeric).or row.price)
    (hquantity : row'.quantity = q.getD row.quantity) (hqty_pos : 0 < row'.quantity)
    (hcaps : WithinCaps R (merged row₀ p q))
    (hpos : ∀ b, basis (merged row₀ p q) = some b → 0 < b.value)
    (hfresh : NotGrown row₀ row p q) : WithinCaps R row' := by
  have haccount : row'.account = (merged row₀ p q).account :=
    hsame.account.trans hsame₀.account
  have hle : row'.quantity ≤ (merged row₀ p q).quantity := by
    rw [hquantity]
    cases q with
    | none => exact hfresh.kept_quantity rfl
    | some n => exact le_refl n
  have hbasis : AtMost (basis row') (basis (merged row₀ p q)) := by
    intro x hx
    unfold basis at hx
    rw [hprice, hsame.stopPrice] at hx
    cases p with
    | none => exact hfresh.kept_price rfl x hx
    | some y =>
      obtain rfl : y.numeric = x := Option.some.inj hx
      exact ⟨y, rfl, hfresh.rounding y rfl⟩
  constructor
  · rw [haccount]
    exact hle.trans hcaps.quantity
  · intro x hx
    obtain ⟨x₀, hx₀, hxle⟩ := hbasis x hx
    have hqty : (0 : ℚ) ≤ row'.quantity := by exact_mod_cast hqty_pos.le
    have hqle : (row'.quantity : ℚ) ≤ (merged row₀ p q).quantity := by exact_mod_cast hle
    rw [haccount]
    calc x.value * row'.quantity
        ≤ x₀.value * row'.quantity := mul_le_mul_of_nonneg_right hxle hqty
      _ ≤ x₀.value * (merged row₀ p q).quantity := mul_le_mul_of_nonneg_left hqle (hpos x₀ hx₀).le
      _ ≤ _ := hcaps.notional x₀ hx₀

/-! ## Any number of them -/

/-- Whoever else writes leaves the terms of the order alone. -/
def keepsTerms (cid : String) (db db' : Db) : Prop :=
  ∀ e, db.find cid = some e → ∃ e', db'.find cid = some e' ∧ SameTerms e.row e'.row

/-- Nothing that a replacement keeps has grown since the snapshot it was checked on. -/
def Fresh (h : History) (db : Db) : EngineOp → Prop
  | .store (.replaceOrder cid p q) => ∀ row₀ e, snapshot h = some row₀ → db.find cid = some e →
    e.row.status = .pendingReplace → NotGrown row₀ e.row p q
  | _ => True

section Runs

variable {ι : Type} [DecidableEq ι] {E : Env} {P₀ P : Pool engineSig Db ι} {e₀ : Entry}

/-- The order stays, and every read of it finds it. -/
structure Tracked (e₀ : Entry) (db : Db) (tr : Trace ι) : Prop where
  found : ∃ e, db.find e₀.row.clientOrderId = some e ∧ SameOrder e₀.row e.row
  reads : ∀ x ∈ tr, ReadsOrder e₀.row x.2

omit [DecidableEq ι] in
theorem Tracked.step {db db' : Db} {tr : Trace ι} {i : ι} {op : EngineOp}
    {r : Except Exn op.Res} (h : Tracked e₀ db tr) (hs : (sem E).step db op r db') :
    Tracked e₀ db' (tr ++ [(i, ⟨op, r⟩)]) := by
  obtain ⟨e, he, hsame⟩ := h.found
  constructor
  · obtain heq | ⟨_, _, _, _, _, _, hnone, _⟩ | ⟨o, e₁, e', _, hc, _, he₁, he'⟩ :=
      step_find hs e₀.row.clientOrderId
    · exact ⟨e, heq.trans he, hsame⟩
    · rw [he] at hnone
      cases hnone
    · rw [he] at he₁
      obtain rfl := Option.some.inj he₁
      obtain hterms | ⟨_, _, _, _, hsame', _⟩ := change_terms hc
      · exact ⟨e', he', hsame.trans hterms.toSameOrder⟩
      · exact ⟨e', he', hsame.trans hsame'⟩
  · refine List.forall_mem_append.mpr ⟨h.reads, fun x hx => ?_⟩
    rw [List.mem_singleton.mp hx]
    unfold ReadsOrder
    split
    · rename_i cid row hev
      intro hcid
      obtain ⟨rfl, hr⟩ := Event.mk.inj hev
      obtain rfl := eq_of_heq hr
      obtain ⟨rfl, hread⟩ := step_fetchOrder hs
      have hrow := hread (some row) rfl
      rw [hcid, fetchOrder_of_find he] at hrow
      rw [Option.some.inj hrow]
      exact hsame
    · trivial

theorem tracked_run (htr : P₀.trace = []) (he₀ : P₀.state.find e₀.row.clientOrderId = some e₀)
    (hP : PoolReach (sem E) (keepsTerms e₀.row.clientOrderId) P₀ P) :
    Tracked e₀ P.state P.trace := by
  have hstart : Tracked e₀ P₀.state P₀.trace := by
    refine ⟨⟨e₀, he₀, .refl e₀.row⟩, fun x hx => ?_⟩
    rw [htr] at hx
    cases hx
  refine pool_invariant hstart (fun db tr i op r db' h hs => h.step hs) (fun db tr db' h henv => ?_) hP
  obtain ⟨e, he, hsame⟩ := h.found
  obtain ⟨e', he', hterms⟩ := henv e he
  exact ⟨⟨e', he', hsame.trans hterms.toSameOrder⟩, h.reads⟩

/-- In every interleaving of any number of native amends in which nothing an amend keeps has grown
    since its snapshot, an order that starts within the caps stays within them. -/
theorem caps_run {db : Db} (fuel : ι → Nat) (newCid : ι → Option String)
    (p : ι → Option Decimal) (q : ι → Option Int)
    (he₀ : db.find e₀.row.clientOrderId = some e₀) (hsim : e₀.row.broker = .sim)
    (hcaps : WithinCaps R e₀.row)
    (hP : Relation.ReflTransGen (StepAll (sem E) (keepsTerms e₀.row.clientOrderId) Fresh)
      (engine (fun i => .amend R (fuel i) e₀.row.clientOrderId (newCid i) (p i) (q i)) db) P) :
    ∃ e, P.state.find e₀.row.clientOrderId = some e ∧ WithinCaps R e.row := by
  induction hP with
  | refl => exact ⟨e₀, he₀, hcaps⟩
  | @tail Q P hQ hstep ih =>
    obtain ⟨e, he, hwithin⟩ := ih
    obtain ⟨hstep, hfresh⟩ := hstep
    cases hstep with
    | env henv =>
      obtain ⟨e', he', hterms⟩ := henv e he
      exact ⟨e', he', hwithin.of_sameTerms hterms⟩
    | @thread i op k r db' hi hs =>
      dsimp only at hfresh ⊢
      obtain heq | ⟨_, _, _, _, _, _, hnone, _⟩ | ⟨o, e₁, e', rfl, hc, hkey, he₁, he'⟩ :=
        step_find hs e₀.row.clientOrderId
      · exact ⟨e, heq.trans he, hwithin⟩
      · rw [he] at hnone
        cases hnone
      · rw [he] at he₁
        obtain rfl := Option.some.inj he₁
        refine ⟨e', he', ?_⟩
        obtain hterms | ⟨a, n, rfl, hst, hsame, hprice, hquantity⟩ := change_terms hc
        · exact hwithin.of_sameTerms hterms
        · have hreach := all_reach hQ
          have htracked : Tracked e₀ Q.state Q.trace := tracked_run rfl he₀ hreach
          have hprogs : ∀ j, wp (Sem.answering (ReadsOrder e₀.row)) (AmendRule R e₀.row)
              ((R.amend (fuel j) e₀.row.clientOrderId (newCid j) (p j) (q j)).bind fun _ => .ret ())
              (fun _ _ => True) [] := fun j =>
            wp_bind.mpr (wp_mono (amend_rule hsim (fuel j) (newCid j) (p j) (q j)) fun r _ _ => by
              cases r <;> trivial)
          have hrule := (local_discipline_of rfl hprogs hreach htracked.reads).2 i
          rw [hi] at hrule
          obtain ⟨-, row₀, hsnap, hsame₀, hchecked, hpos⟩ := hrule.1
          obtain ⟨e₂, he₂, hsame₂⟩ := htracked.found
          rw [he] at he₂
          obtain rfl := Option.some.inj he₂
          have hng : NotGrown row₀ e.row a n := hfresh i _ r rfl row₀ e hsnap (hkey ▸ he) hst
          exact within_replaced (hsame₀.symm.trans hsame₂) hsame hprice hquantity e'.quantity_pos
            hchecked hpos hng

end Runs

/-! ## Two amends -/

section Sample

open Redelivery (restingStore evolves_resting)

/-- `AtMost`, computed. -/
def atMost (b b₀ : Option Decimal) : Bool := b.all fun x => b₀.any fun x₀ => !x₀.lt x

theorem atMost_iff {b b₀ : Option Decimal} : atMost b b₀ = true ↔ AtMost b b₀ := by
  unfold atMost AtMost
  cases b with
  | none => simp
  | some x =>
    cases b₀ with
    | none => simp
    | some x₀ => simp [Decimal.not_lt_iff]

/-- `Fresh`, computed. -/
def freshTest (h : History) (db : Db) : EngineOp → Bool
  | .store (.replaceOrder cid p q) => (snapshot h).all fun row₀ => (db.find cid).all fun e =>
    (p.isSome || atMost (basis e.row) (basis row₀)) &&
      (q.isSome || e.row.quantity ≤ row₀.quantity) && p.all fun x => !x.lt x.numeric
  | _ => true

theorem fresh_of_test {h : History} {db : Db} {op : EngineOp} (ht : freshTest h db op = true) :
    Fresh h db op := by
  rcases op with o | o
  · cases o with
    | replaceOrder cid p q =>
      intro row₀ e hsnap he _
      simp only [freshTest, hsnap, he, Option.all_some, Bool.and_eq_true, Bool.or_eq_true,
        decide_eq_true_eq] at ht
      obtain ⟨⟨hprice, hquantity⟩, hround⟩ := ht
      constructor
      · rintro rfl
        exact atMost_iff.mp (hprice.resolve_left (by decide))
      · rintro rfl
        exact hquantity.resolve_left (by decide)
      · rintro x rfl
        rw [Option.all_some, Bool.not_eq_true'] at hround
        exact Decimal.not_lt_iff.mp hround
    | _ => trivial
  · trivial

/-- One amend raises the quantity to 1000, the other the price. -/
def raisedPrice (price : Decimal) (second : Bool) : Option Decimal :=
  if second then some price else none

def raisedQty (second : Bool) : Option Int := if second then none else some 1000

def twoAmends (price : Decimal) : Pool engineSig Db Bool :=
  engine (fun b => .amend simRouter 0 cidA none (raisedPrice price b) (raisedQty b)) restingStore

theorem resting_within :
    ∃ e, restingStore.find cidA = some e ∧ e.row.broker = .sim ∧ WithinCaps simRouter e.row := by
  refine ⟨_, rfl, rfl, by decide, ?_⟩
  intro b hb
  obtain rfl : (⟨10000000, -6⟩ : Decimal) = b := Option.some.inj hb
  have hle : (Decimal.mk 1000000 0).lt ((Decimal.mk 10000000 (-6)).mulInt 100) = false := by decide
  rwa [Decimal.not_lt_iff, Decimal.value_mulInt] at hle

/-- One after the other, up to 900,000. -/
theorem amends_in_turn :
    ∃ P e, Relation.ReflTransGen (StepAll (sem plainEnv) (keepsTerms cidA) Fresh)
        (twoAmends ⟨900, 0⟩) P ∧
      P.state.find cidA = some e ∧ e.row.quantity = 1000 ∧ WithinCaps simRouter e.row := by
  have htest : runsAll liveHandler.step freshTest (List.replicate 20 false ++ List.replicate 20 true)
      (twoAmends ⟨900, 0⟩) = true := by
    decide +kernel
  have hend : (((runPool liveHandler.step (List.replicate 20 false ++ List.replicate 20 true)
      (twoAmends ⟨900, 0⟩)).state.find cidA).any fun e => e.row.quantity = 1000) = true := by
    decide +kernel
  obtain ⟨e, he, hquantity⟩ := (Option.any_eq_true _ _).mp hend
  obtain ⟨e₀, he₀, hsim, hcaps⟩ := resting_within
  have hkey : e₀.row.clientOrderId = cidA := Db.find_key he₀
  have hrun : Relation.ReflTransGen
      (StepAll (sem plainEnv) (keepsTerms e₀.row.clientOrderId) Fresh)
      (engine (fun b => .amend simRouter 0 e₀.row.clientOrderId none (raisedPrice ⟨900, 0⟩ b)
        (raisedQty b)) restingStore)
      (runPool liveHandler.step (List.replicate 20 false ++ List.replicate 20 true)
        (twoAmends ⟨900, 0⟩)) := by
    rw [hkey]
    exact runPool_all (plain_follows liveHandler) (fun _ _ _ => fresh_of_test) _ _ htest
  have hend := caps_run (fun _ => 0) (fun _ => none) (raisedPrice ⟨900, 0⟩) raisedQty
    (by rw [hkey]; exact he₀) hsim hcaps hrun
  rw [hkey] at hrun hend
  obtain ⟨e', he', hwithin⟩ := hend
  rw [he] at he'
  obtain rfl := Option.some.inj he'
  exact ⟨_, e, hrun, he, of_decide_eq_true hquantity, hwithin⟩

/-- Both take their snapshot first: each is within the caps, and the row that is stored is worth
    twice the notional cap. -/
theorem amends_combine :
    Evolves plainEnv Db.empty restingStore ∧
    ∃ P e₀ e, PoolReach (sem plainEnv) closed (twoAmends ⟨2000, 0⟩) P ∧
      restingStore.find cidA = some e₀ ∧ e₀.row.broker = .sim ∧ WithinCaps simRouter e₀.row ∧
      P.state.find cidA = some e ∧ ¬ WithinCaps simRouter e.row := by
  have hend : (((runPool liveHandler.step (List.replicate 2 false ++ List.replicate 2 true ++
      List.replicate 20 false ++ List.replicate 20 true) (twoAmends ⟨2000, 0⟩)).state.find cidA).any
        fun e => e.row.quantity = 1000 && basis e.row = some ⟨2000000000, -6⟩) = true := by
    decide +kernel
  obtain ⟨e, he, hend⟩ := (Option.any_eq_true _ _).mp hend
  obtain ⟨hquantity, hbasis⟩ := Bool.and_eq_true_iff.mp hend
  obtain ⟨e₀, he₀, hsim, hcaps⟩ := resting_within
  refine ⟨evolves_resting, _, e₀, e, runPool_reach (plain_follows liveHandler) _ _, he₀, hsim,
    hcaps, he, fun hwithin => ?_⟩
  have hle := hwithin.notional ⟨2000000000, -6⟩ (of_decide_eq_true hbasis)
  have hcap : notionalCap simRouter e.row.account = ⟨1000000, 0⟩ := rfl
  have hover : (Decimal.mk 1000000 0).lt ((Decimal.mk 2000000000 (-6)).mulInt 1000) = true := by
    decide
  rw [of_decide_eq_true hquantity, hcap, ← Decimal.value_mulInt] at hle
  exact absurd (Decimal.lt_iff.mp hover) (not_lt.mpr hle)

end Sample

end AmendCaps

end ExecutionEngine
