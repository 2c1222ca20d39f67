/-
  Fills under concurrent readers of the book.

  A pass and a burst each take the difference between their own snapshot of the
  book and the aggregate they read, and record it as a fill. `Computed` is what
  the code guarantees of such a fill from the history of its own thread. What no
  thread can see is a fill that another one records between the read and the
  write. If there is none, or it carries the same name and is dropped as a
  duplicate (`Undisturbed`), the fills stay at or below a counter the venue
  reported (`fills_bounded`); otherwise they can run past it (`racing_readers_overfill`).
-/
import ExecutionEngine.Core.StatusFills

namespace ExecutionEngine

open Async Async.Prog

/-! ## What a thread knows when it writes a fill -/

/-- A read of the aggregate of this order. -/
def isReadOf (cid : String) : EngineOp → Bool
  | .store (.fetchOrderResult c) => c = cid
  | _ => false

/-- A fill of this order. -/
def isFillOf (cid : String) : EngineOp → Bool
  | .store (.applyFill c _ _ _ _ _) => c = cid
  | _ => false

/-- A fill of this order under this name. -/
def isFillNamed (cid fid : String) : EngineOp → Bool
  | .store (.applyFill c f _ _ _ _) => c = cid && f = fid
  | _ => false

/-- Neither a read of an aggregate nor a fill. -/
def Neutral : EngineOp → Prop
  | .store (.fetchOrderResult _) => False
  | .store (.applyFill _ _ _ _ _ _) => False
  | _ => True

theorem Neutral.not_read {op : EngineOp} (h : Neutral op) (cid : String) :
    isReadOf cid op = false := by
  rcases op with o | o
  · cases o <;> first | exact h.elim | rfl
  · rfl

theorem Neutral.not_fill {op : EngineOp} (h : Neutral op) (cid : String) :
    isFillOf cid op = false := by
  rcases op with o | o
  · cases o <;> first | exact h.elim | rfl
  · rfl

namespace Reconcile

open Liberator (VenueOrderItem)

/-- The history holds the answer of a book. -/
def BookIn (h : History) (items : List VenueOrderItem) : Prop :=
  ∃ account, (⟨.ext (.liberatorOrders account), .ok items⟩ : Event engineSig) ∈ h

/-- The history holds a read of this row. -/
def RowIn (h : History) (row : OrderRow) : Prop :=
  (∃ cid, (⟨.store (.fetchOrder cid), .ok (some row)⟩ : Event engineSig) ∈ h) ∨
    ∃ b i rows, (⟨.store (.fetchOrdersForReconcile b i), .ok rows⟩ : Event engineSig) ∈ h ∧
      row ∈ rows

/-- The matcher can give this venue row to this order. -/
def Resolves (row : OrderRow) (items : List VenueOrderItem) (item : VenueOrderItem) : Prop :=
  ∃ claimed now requireStuck res, resolveRow row items claimed now requireStuck = .ok res ∧
    res.item = some item

/-- A fill is the difference between the counter of a venue row of the order, from a book the
    thread has read, and the aggregate it read last. -/
def Computed (h : History) : EngineOp → Prop
  | .store (.applyFill cid fid _ qty _ _) =>
    ∃ before result after items item row,
      h = before ++ ⟨.store (.fetchOrderResult cid), .ok result⟩ :: after ∧
      (∀ ev ∈ after, Neutral ev.op) ∧ BookIn before items ∧ RowIn before row ∧
      row.clientOrderId = cid ∧ Resolves row items item ∧
      fid = fillId item.orderNo item.matched ∧ qty = item.matched - filledOf result
  | _ => True

theorem BookIn.mono {h h' : History} {items : List VenueOrderItem} (hin : BookIn h items)
    (hsub : h ⊆ h') : BookIn h' items := by
  obtain ⟨account, hmem⟩ := hin
  exact ⟨account, hsub hmem⟩

theorem RowIn.mono {h h' : History} {row : OrderRow} (hin : RowIn h row) (hsub : h ⊆ h') :
    RowIn h' row := by
  rcases hin with ⟨cid, hmem⟩ | ⟨b, i, rows, hmem, hrow⟩
  · exact .inl ⟨cid, hsub hmem⟩
  · exact .inr ⟨b, i, rows, hsub hmem, hrow⟩

/-- Operations other than fills ask for nothing. -/
theorem computed_of_not_fill {h : History} {op : EngineOp}
    (hop : ∀ cid, isFillOf cid op = false) : Computed h op := by
  rcases op with o | o
  · cases o with
    | applyFill cid => simp [isFillOf] at hop
    | _ => trivial
  · trivial

/-- A coroutine without fills keeps the rule, and the history only grows. -/
theorem computed_uses {α : Type} {p : Eff α} (h : Uses (fun op => ∀ cid, isFillOf cid op = false) p)
    (hist : History) : wp Sem.free Computed p (fun _ hist' => hist ⊆ hist') hist := by
  refine h.keeps (List.Subset.refl hist) (fun _ _ hop _ => computed_of_not_fill hop) ?_
  intro s op r s' _ hs hr
  rw [hr]
  exact fun ev hev => List.mem_append_left _ (hs hev)

theorem neutral_attempt {a : ReconcileAction} (h : a.isFill = false) :
    Uses Neutral (attempt a) := by
  refine (performs_attempt a).mono fun op hop => ?_
  cases hop with
  | fill => cases h
  | _ => trivial

/-- The history since a read of the aggregate, if nothing but neutral operations came after. -/
def Since (base hist : History) : Prop := ∃ after, hist = base ++ after ∧ ∀ ev ∈ after, Neutral ev.op

theorem Since.snoc {base hist : History} (h : Since base hist) {ev : Event engineSig}
    (hev : Neutral ev.op) : Since base (hist ++ [ev]) := by
  obtain ⟨after, rfl, hafter⟩ := h
  refine ⟨after ++ [ev], List.append_assoc .., fun x hx => ?_⟩
  rcases List.mem_append.mp hx with hx | hx
  · exact hafter x hx
  · rw [List.mem_singleton.mp hx]
    exact hev

theorem since_uses {α : Type} {p : Eff α} (h : Uses Neutral p) {base hist : History}
    (hs : Since base hist) : wp Sem.free Computed p (fun _ hist' => Since base hist') hist := by
  refine h.keeps hs (fun _ _ hop _ => computed_of_not_fill fun cid => hop.not_fill cid) ?_
  intro s op r s' hop hs hr
  rw [hr]
  exact hs.snoc hop

/-- A plan with at most one fill keeps the rule, if that fill is the difference. -/
theorem attempts_computed {actions : List ReconcileAction} {base hist : History}
    (hone : (actions.filter ReconcileAction.isFill).length ≤ 1)
    (hfill : ∀ cid qty price fid total, .fill cid qty price fid total ∈ actions →
      ∀ hist', Since base hist' → ∀ ts, Computed hist' (.store (.applyFill cid fid price qty ts total)))
    (hs : Since base hist) :
    wp Sem.free Computed (sumOver attempt actions) (fun _ _ => True) hist := by
  induction actions generalizing hist with
  | nil => trivial
  | cons a as ih =>
    rw [sumOver, wp_bind]
    cases ha : a.isFill with
    | false =>
      rw [List.filter_cons_of_neg (by simp [ha])] at hone
      refine wp_mono (since_uses (neutral_attempt ha) hs) fun r hist₁ hs₁ => ?_
      cases r with
      | error er => trivial
      | ok n =>
        rw [outcome_ok, wp_bind]
        have hrest := ih hone (fun cid qty price fid total hmem =>
          hfill cid qty price fid total (List.mem_cons_of_mem _ hmem)) hs₁
        refine wp_mono hrest fun r hist₂ _ => ?_
        cases r <;> trivial
    | true =>
      -- the one fill; nothing after it writes another
      rw [List.filter_cons_of_pos ha, List.length_cons] at hone
      have hnone : ∀ b ∈ as, b.isFill = false := by
        have hnil : as.filter ReconcileAction.isFill = [] :=
          List.length_eq_zero_iff.mp (by omega)
        intro b hb
        exact Bool.eq_false_iff.mpr (List.filter_eq_nil_iff.mp hnil b hb)
      have hrest (hist₁ : History) :
          wp Sem.free Computed (sumOver attempt as) (fun _ _ => True) hist₁ := by
        refine wp_sumOver (I := fun _ => True) trivial fun b hb hist₂ _ => ?_
        refine wp_mono (computed_uses ?_ hist₂) fun _ _ _ => trivial
        exact (neutral_attempt (hnone b hb)).mono fun op hop cid => hop.not_fill cid
      have hfirst : wp Sem.free Computed (attempt a) (fun _ _ => True) hist := by
        cases a with
        | fill cid qty price fid total =>
          rw [attempt, wp_tryExcept, wp_bind, execute, Prog.bind_eq, wp_bind]
          refine wp_perform.mpr ⟨trivial, fun r hist₁ hr => ?_⟩
          cases r with
          | error er => trivial
          | ok ts =>
            rw [outcome_ok, Prog.bind_eq, wp_bind]
            have hs₁ : Since base hist₁ := by
              rw [hr]
              exact hs.snoc trivial
            refine wp_perform.mpr ⟨?_, fun r hist₂ _ => ?_⟩
            · exact hfill cid qty price fid total (List.mem_cons_self ..) hist₁ hs₁ ts
            · cases r <;> trivial
        | _ => cases ha
      refine wp_mono hfirst fun r hist₁ _ => ?_
      cases r with
      | error er => trivial
      | ok n =>
        rw [outcome_ok, wp_bind]
        refine wp_mono (hrest hist₁) fun r hist₂ _ => ?_
        cases r <;> trivial

/-- A plan fills once at most, by the difference to the counter. -/
theorem planActions_fill {row : OrderRow} {filled : Int} {item : Option VenueOrderItem} {now : Time}
    {ambiguous : Bool} {cid fid : String} {qty total : Int} {price : Decimal}
    (h : .fill cid qty price fid total ∈ planActions row filled item now ambiguous) :
    ∃ i, item = some i ∧ cid = row.clientOrderId ∧ fid = fillId i.orderNo i.matched ∧
      qty = i.matched - filled := by
  have hmem := List.mem_filter.mpr ⟨h, (rfl : ReconcileAction.isFill (.fill ..) = true)⟩
  rcases planActions_fills row filled item now ambiguous with hnil | ⟨i, hi, hf⟩
  · rw [hnil] at hmem
    cases hmem
  · rw [hf, fillActions] at hmem
    split at hmem
    · split at hmem
      · cases hmem
      · have heq := List.mem_singleton.mp hmem
        injection heq with hcid hqty _ hfid _
        exact ⟨i, hi, hcid, hfid, hqty⟩
    · cases hmem

theorem planActions_fills_le (row : OrderRow) (filled : Int) (item : Option VenueOrderItem)
    (now : Time) (ambiguous : Bool) :
    ((planActions row filled item now ambiguous).filter ReconcileAction.isFill).length ≤ 1 := by
  rcases planActions_fills row filled item now ambiguous with hnil | ⟨i, -, hf⟩
  · rw [hnil]
    simp
  · rw [hf]
    unfold fillActions
    repeat' split
    all_goals simp

theorem applyVisit_computed {row : OrderRow} {res : Resolution VenueOrderItem} {now : Time}
    {items : List VenueOrderItem} {hist : History} (hbook : BookIn hist items)
    (hrow : RowIn hist row) (hres : ∀ item, res.item = some item → Resolves row items item) :
    wp Sem.free Computed (applyVisit row res now) (fun _ _ => True) hist := by
  unfold applyVisit
  rw [Prog.bind_eq, wp_bind]
  refine wp_perform.mpr ⟨trivial, fun r hist₁ hr => ?_⟩
  cases r with
  | error er => trivial
  | ok result =>
    rw [outcome_ok, Prog.bind_eq, wp_bind]
    have hs : Since (hist ++ [⟨.store (.fetchOrderResult row.clientOrderId), .ok result⟩]) hist₁ :=
      ⟨[], by rw [hr, List.append_nil], fun _ hev => nomatch hev⟩
    refine runPlan_cases (motive := fun p => wp Sem.free Computed p _ hist₁) (fun _ _ => trivial)
      fun _ => wp_mono (attempts_computed (planActions_fills_le ..) ?_ hs) fun r _ _ => ?_
    · intro cid qty price fid total hmem hist' hs' ts
      obtain ⟨item, hitem, rfl, rfl, rfl⟩ := planActions_fill hmem
      obtain ⟨after, rfl, hafter⟩ := hs'
      exact ⟨hist, result, after, items, item, row, by simp, hafter, hbook, hrow, rfl,
        hres item hitem, rfl, rfl⟩
    · cases r <;> trivial

/-- What any coroutine does to the history. -/
theorem free_grows {α : Type} (p : Eff α) (hist : History) :
    wp Sem.free (fun _ _ => True) p (fun _ hist' => hist ⊆ hist') hist := by
  refine (uses_univ p).keeps (List.Subset.refl hist) (fun _ _ _ _ => trivial) ?_
  intro s op r s' _ hs hr
  rw [hr]
  exact fun ev hev => List.mem_append_left _ (hs hev)

theorem applyRow_computed {row : OrderRow} {items : List VenueOrderItem} {claimed : List String}
    {now : Time} {requireStuck : Bool} {hist : History} (hbook : BookIn hist items)
    (hrow : RowIn hist row) :
    wp Sem.free Computed (applyRow row items claimed now requireStuck)
      (fun _ hist' => hist ⊆ hist') hist := by
  have h : wp Sem.free Computed (applyRow row items claimed now requireStuck)
      (fun _ _ => True) hist := by
    rw [applyRow_eq, wp_bind]
    cases hres : resolveRow row items claimed now requireStuck with
    | error er => trivial
    | ok res =>
      rw [Eff.lift, wp_ret, outcome_ok]
      exact applyVisit_computed hbook hrow fun item hitem =>
        ⟨claimed, now, requireStuck, res, hres, hitem⟩
  exact wp_mono (wp_and h (free_grows _ hist)) fun _ _ h => h.2

theorem applyRows_computed {items : List VenueOrderItem} {now : Time} (rows : List OrderRow)
    {claimed : List String} {hist : History} (hbook : BookIn hist items)
    (hrows : ∀ row ∈ rows, RowIn hist row) :
    wp Sem.free Computed (applyRows items now rows claimed) (fun _ hist' => hist ⊆ hist') hist := by
  induction rows generalizing claimed hist with
  | nil => exact List.Subset.refl hist
  | cons row rows ih =>
    unfold applyRows
    rw [Prog.bind_eq, wp_bind]
    refine wp_mono (applyRow_computed hbook (hrows row (List.mem_cons_self ..))) fun r hist₁ h₁ => ?_
    cases r with
    | error er => exact h₁
    | ok out =>
      obtain ⟨n, claimed'⟩ := out
      rw [outcome_ok]
      dsimp only
      rw [Prog.bind_eq, wp_bind]
      have hrest := @ih claimed' hist₁ (hbook.mono h₁) fun r hr =>
        (hrows r (List.mem_cons_of_mem _ hr)).mono h₁
      refine wp_mono hrest fun r hist₂ h₂ => ?_
      cases r <;> exact List.Subset.trans h₁ h₂

theorem reconcileGroup_computed {now : Time} {g : GroupKey × List OrderRow} {hist : History}
    (hrows : ∀ row ∈ g.2, RowIn hist row) :
    wp Sem.free Computed (reconcileGroup VenueOrderItem now g)
      (fun _ hist' => hist ⊆ hist') hist := by
  unfold reconcileGroup readBook
  rw [Prog.bind_eq, wp_bind, wp_tryExcept, wp_bind]
  refine wp_perform.mpr ⟨trivial, fun r hist₁ hr => ?_⟩
  have hsub : hist ⊆ hist₁ := by
    rw [hr]
    exact List.subset_append_left ..
  cases r with
  | error er =>
    rw [outcome_error, outcome_error]
    split
    · exact hsub
    · exact hsub
  | ok items =>
    have hbook : BookIn hist₁ items := by
      refine ⟨g.1.1, ?_⟩
      rw [hr]
      exact List.mem_append_right _ (List.mem_singleton_self _)
    rw [outcome_ok, wp_ret, outcome_ok, outcome_ok]
    refine wp_mono (applyRows_computed g.2 hbook fun row hrow => (hrows row hrow).mono hsub)
      fun _ hist₂ h₂ => ?_
    exact List.Subset.trans hsub h₂

theorem reconcileOnce_computed (hist : History) :
    wp Sem.free Computed (reconcileOnce VenueOrderItem) (fun _ _ => True) hist := by
  unfold reconcileOnce
  rw [Prog.bind_eq, wp_bind]
  refine wp_perform.mpr ⟨trivial, fun r hist₁ hr => ?_⟩
  cases r with
  | error er => trivial
  | ok rows =>
    have hrows : ∀ row ∈ rows, RowIn hist₁ row := by
      intro row hrow
      refine .inr ⟨_, _, rows, ?_, hrow⟩
      rw [hr]
      exact List.mem_append_right _ (List.mem_singleton_self _)
    rw [outcome_ok]
    split
    · trivial
    · rw [Prog.bind_eq, wp_bind]
      refine wp_perform.mpr ⟨trivial, fun r hist₂ hr₂ => ?_⟩
      have hsub : hist₁ ⊆ hist₂ := by
        rw [hr₂]
        exact List.subset_append_left ..
      cases r with
      | error er => trivial
      | ok now =>
        rw [outcome_ok]
        refine wp_mono (wp_sumOver (I := fun h => hist₂ ⊆ h) (List.Subset.refl hist₂)
          fun g hg h hh => ?_) fun _ _ _ => trivial
        refine wp_mono (reconcileGroup_computed fun row hrow => ?_) fun _ _ h' => List.Subset.trans hh h'
        rw [mem_groups hg] at hrow
        exact (hrows row (List.mem_filter.mp hrow).1).mono (List.Subset.trans hsub hh)

theorem resolveOrderNow_computed (cid : String) (hist : History) :
    wp Sem.free Computed (Liberator.resolveOrderNow cid) (fun _ _ => True) hist := by
  unfold Liberator.resolveOrderNow
  rw [Prog.bind_eq, wp_bind]
  refine wp_perform.mpr ⟨trivial, fun r hist₁ hr => ?_⟩
  cases r with
  | error er => trivial
  | ok found =>
    rw [outcome_ok]
    cases found with
    | none => trivial
    | some row =>
      dsimp only
      have hrow : RowIn hist₁ row := by
        refine .inl ⟨cid, ?_⟩
        rw [hr]
        exact List.mem_append_right _ (List.mem_singleton_self _)
      split
      · trivial
      · rw [Prog.bind_eq, wp_bind]
        refine wp_perform.mpr ⟨trivial, fun r hist₂ hr₂ => ?_⟩
        cases r with
        | error er => trivial
        | ok working =>
          rw [outcome_ok, Prog.bind_eq, wp_bind]
          refine wp_perform.mpr ⟨trivial, fun r hist₃ hr₃ => ?_⟩
          cases r with
          | error er => trivial
          | ok items =>
            rw [outcome_ok, Prog.bind_eq, wp_bind]
            refine wp_perform.mpr ⟨trivial, fun r hist₄ hr₄ => ?_⟩
            cases r with
            | error er => trivial
            | ok now =>
              have hbook : BookIn hist₄ items := by
                refine ⟨row.account, ?_⟩
                rw [hr₄, hr₃]
                simp
              have hrow₄ : RowIn hist₄ row := by
                refine hrow.mono fun ev hev => ?_
                rw [hr₄, hr₃, hr₂]
                simp [hev]
              rw [outcome_ok, Prog.bind_eq, wp_bind]
              refine wp_mono (applyRow_computed hbook hrow₄) fun r hist₅ _ => ?_
              cases r with
              | error er => trivial
              | ok out =>
                rw [outcome_ok, Prog.bind_eq, wp_bind]
                refine wp_perform.mpr ⟨trivial, fun r _ _ => ?_⟩
                cases r <;> trivial

end Reconcile

/-! ## What the store holds -/

/-- The recorded fills of an order; an unknown order has none. -/
def filledAt (cid : String) (db : Db) : Int :=
  match db.find cid with
  | some e => e.filled
  | none => 0

/-- The order has a fill under this name. -/
def Named (cid fid : String) (db : Db) : Prop :=
  ∃ e, db.find cid = some e ∧ ∃ f ∈ e.fills, f.brokerFillId = fid

theorem filledAt_of_find {cid : String} {db : Db} {e : Entry} (h : db.find cid = some e) :
    filledAt cid db = e.filled := by
  rw [filledAt, h]

theorem filledOf_fetchOrderResult (cid : String) (db : Db) :
    Reconcile.filledOf (db.fetchOrderResult cid) = filledAt cid db := by
  cases h : db.find cid with
  | none => simp [Db.fetchOrderResult, filledAt, h, Reconcile.filledOf]
  | some e => rw [fetchOrderResult_of_find h, filledAt_of_find h]; rfl

/-- A step leaves the fills of an order alone, or adds one under a new name. -/
theorem step_filledAt {E : Env} {db db' : Db} {op : EngineOp} {r : Except Exn op.Res}
    (h : (sem E).step db op r db') (cid : String) :
    (filledAt cid db' = filledAt cid db ∧ ∀ fid, Named cid fid db → Named cid fid db') ∨
    ∃ fid price qty ts total, op = .store (.applyFill cid fid price qty ts total) ∧
      filledAt cid db' = filledAt cid db + qty ∧ ¬ Named cid fid db ∧ Named cid fid db' ∧
      ∀ g, Named cid g db → Named cid g db' := by
  have hsame {e e' : Entry} (he : db.find cid = some e) (he' : db'.find cid = some e')
      (hf : e'.fills = e.fills) :
      filledAt cid db' = filledAt cid db ∧ ∀ fid, Named cid fid db → Named cid fid db' := by
    constructor
    · rw [filledAt_of_find he, filledAt_of_find he', Entry.filled, Entry.filled, hf]
    · rintro fid ⟨e₁, he₁, f, hmem, hname⟩
      rw [he] at he₁
      refine ⟨e', he', f, ?_, hname⟩
      rw [hf, Option.some.inj he₁]
      exact hmem
  rcases step_find h cid with heq | ⟨_, _, _, e, _, _, hnone, _, hfills, he⟩ |
    ⟨o, e, e', rfl, hch, hcid, he, he'⟩
  · refine .inl ⟨by rw [filledAt, filledAt, heq], fun fid hn => ?_⟩
    rw [Named, heq]
    exact hn
  · left
    constructor
    · rw [filledAt_of_find he, filledAt, hnone, Entry.filled, hfills]
      rfl
    · rintro fid ⟨e₁, he₁, -⟩
      rw [hnone] at he₁
      cases he₁
  · cases hch with
    | ack => exact .inl (hsame he he' rfl)
    | replace p q hs hrow hfills => exact .inl (hsame he he' hfills)
    | status => exact .inl (hsame he he' rfl)
    | reason => exact .inl (hsame he he' rfl)
    | @fill _ f price total hp hl =>
      rw [hcid]
      by_cases hold : ∃ g ∈ e.fills, g.brokerFillId = f.brokerFillId
      · -- the name is taken: the row is dropped
        obtain ⟨g, hg, hname⟩ := hold
        refine .inl (hsame he he' ?_)
        rw [withStatus_fills, addFill_old hg hname]
      · push Not at hold
        obtain ⟨hadd, hsum⟩ := addFill_new hold
        refine .inr ⟨f.brokerFillId, price, f.quantity, f.execTs, total, rfl, ?_, ?_, ?_, ?_⟩
        · rw [filledAt_of_find he, filledAt_of_find he', withStatus_filled, hsum]
        · rintro ⟨e₁, he₁, g, hg, hname⟩
          rw [he] at he₁
          obtain rfl := Option.some.inj he₁
          exact hold g hg hname
        · exact ⟨_, he', f, by rw [withStatus_fills, hadd]; simp, rfl⟩
        · rintro fid ⟨e₁, he₁, g, hg, hname⟩
          rw [he] at he₁
          obtain rfl := Option.some.inj he₁
          exact ⟨_, he', g, by rw [withStatus_fills, hadd]; simp [hg], hname⟩

/-! ## Interleavings -/

section Race

variable {ι : Type} [DecidableEq ι] {cid : String}

/-- Between the read of an aggregate and the fill computed from it, every fill that another thread
    writes to the order carries the same name. -/
def Undisturbed (cid : String) (tr : Trace ι) : Prop :=
  ∀ a i result b fid price qty ts total r c,
    tr = a ++ (i, ⟨.store (.fetchOrderResult cid), .ok result⟩) ::
      (b ++ (i, ⟨.store (.applyFill cid fid price qty ts total), r⟩) :: c) →
    (∀ x ∈ b, x.1 = i → isReadOf cid x.2.op = false) →
    ∀ x ∈ b, x.1 ≠ i → isFillOf cid x.2.op = true → isFillNamed cid fid x.2.op = true

omit [DecidableEq ι] in
theorem Undisturbed.of_append {tr tr' : Trace ι} (h : Undisturbed cid (tr ++ tr')) :
    Undisturbed cid tr := by
  intro a i result b fid price qty ts total r c heq
  refine h a i result b fid price qty ts total r (c ++ tr') ?_
  rw [heq]
  simp

/-- A book of the run holds a row with this counter that the matcher can give to the order. -/
def Reported (cid : String) (tr : Trace ι) (m : Int) : Prop :=
  ∃ i items item row, Reconcile.BookIn (localHistory i tr) items ∧
    Reconcile.RowIn (localHistory i tr) row ∧ row.clientOrderId = cid ∧
    Reconcile.Resolves row items item ∧ item.matched = m

theorem Reported.append {tr : Trace ι} {m : Int} (h : Reported cid tr m) (tr' : Trace ι) :
    Reported cid (tr ++ tr') m := by
  obtain ⟨i, items, item, row, hbook, hrow, hcid, hres, hm⟩ := h
  have hsub := localHistory_subset i tr tr'
  exact ⟨i, items, item, row, hbook.mono hsub, hrow.mono hsub, hcid, hres, hm⟩

/-- As long as only fills of one name have come since, a read of the aggregate is current or that
    name is taken. -/
def ReadsCurrent (cid : String) (db : Db) (tr : Trace ι) : Prop :=
  ∀ fid a i result b, tr = a ++ (i, ⟨.store (.fetchOrderResult cid), .ok result⟩) :: b →
    (∀ x ∈ b, isFillOf cid x.2.op = true → isFillNamed cid fid x.2.op = true) →
    filledAt cid db = Reconcile.filledOf result ∨ Named cid fid db

omit [DecidableEq ι] in
theorem ReadsCurrent.step {E : Env} {db db' : Db} {tr : Trace ι} {i : ι} {op : EngineOp}
    {r : Except Exn op.Res} (h : ReadsCurrent cid db tr) (hs : (sem E).step db op r db') :
    ReadsCurrent cid db' (tr ++ [(i, ⟨op, r⟩)]) := by
  intro fid a j result b heq hb
  rcases List.eq_nil_or_concat b with rfl | ⟨b', x, rfl⟩
  · -- the read itself
    obtain ⟨-, hlast⟩ := List.append_inj' heq rfl
    obtain ⟨-, hev⟩ := Prod.mk.inj (List.cons.inj hlast).1
    injection hev with hop hr
    subst hop
    obtain rfl := eq_of_heq hr
    obtain ⟨rfl, hread⟩ := step_fetchOrderResult hs
    rw [hread result rfl, filledOf_fetchOrderResult]
    exact .inl rfl
  · have heq' : tr ++ [(i, ⟨op, r⟩)] =
        (a ++ (j, ⟨.store (.fetchOrderResult cid), .ok result⟩) :: b') ++ [x] := by
      rw [heq]
      simp
    obtain ⟨htr, hx⟩ := List.append_inj' heq' rfl
    obtain rfl := (List.cons.inj hx).1
    have hold := h fid a j result b' htr fun y hy => hb y (by simp [hy])
    rcases step_filledAt hs cid with ⟨hfilled, hnamed⟩ | ⟨fid', price, qty, ts, total, rfl, -, -, hnew, -⟩
    · rw [hfilled]
      exact hold.imp_right (hnamed fid)
    · have hname := hb (i, ⟨.store (.applyFill cid fid' price qty ts total), r⟩) (by simp)
        (by simp [isFillOf])
      simp only [isFillNamed, decide_true, Bool.true_and, decide_eq_true_eq] at hname
      exact .inr (hname ▸ hnew)

theorem readsCurrent_run {E : Env} {P₀ P : Pool engineSig Db ι} (htr : P₀.trace = [])
    (hP : PoolReach (sem E) closed P₀ P) : ReadsCurrent cid P.state P.trace := by
  refine pool_invariant (I := ReadsCurrent cid) ?_ (fun s tr i op r s' h hs => h.step hs)
    (fun _ _ _ _ he => he.elim) hP
  rw [htr]
  intro fid a i result b heq
  simp at heq

/-- The fills are as many as at the start, or at most a reported counter. -/
def Bounded (cid : String) (start : Int) (db : Db) (tr : Trace ι) : Prop :=
  filledAt cid db ≤ start ∨ ∃ m, Reported cid tr m ∧ filledAt cid db ≤ m

/-- One step: a fill computed from a current aggregate brings the fills to the counter. -/
theorem Bounded.step {E : Env} {db db' : Db} {tr : Trace ι} {i : ι} {op : EngineOp}
    {r : Except Exn op.Res} {start : Int} (h : Bounded cid start db tr)
    (hread : ReadsCurrent cid db tr) (hcomp : Reconcile.Computed (localHistory i tr) op)
    (hfree : Undisturbed cid (tr ++ [(i, ⟨op, r⟩)])) (hs : (sem E).step db op r db') :
    Bounded cid start db' (tr ++ [(i, ⟨op, r⟩)]) := by
  rcases step_filledAt hs cid with ⟨hfilled, -⟩ | ⟨fid, price, qty, ts, total, rfl, hfilled, hnew, -⟩
  · rw [Bounded, hfilled]
    exact h.imp_right fun ⟨m, hm, hle⟩ => ⟨m, hm.append _, hle⟩
  · obtain ⟨before, result, after, items, item, row, hhist, hneutral, hbook, hrow, hcid, hres,
      hfid, hqty⟩ := hcomp
    obtain ⟨a, b, rfl, ha, hb⟩ := localHistory_split hhist
    have hown : ∀ x ∈ b, x.1 = i → Neutral x.2.op := by
      intro x hx hxi
      refine hneutral x.2 ?_
      rw [← hb, mem_localHistory, ← hxi]
      exact hx
    have hnames : ∀ x ∈ b, isFillOf cid x.2.op = true → isFillNamed cid fid x.2.op = true := by
      intro x hx hxfill
      by_cases hxi : x.1 = i
      · rw [(hown x hx hxi).not_fill cid] at hxfill
        cases hxfill
      · refine hfree a i result b fid price qty ts total r [] (by simp) ?_ x hx hxi hxfill
        intro y hy hyi
        exact (hown y hy hyi).not_read cid
    have hcurrent := (hread fid a i result b rfl hnames).resolve_right hnew
    have hreach : filledAt cid db' = item.matched := by
      rw [hfilled, hcurrent, hqty]
      omega
    have hsub : before ⊆ localHistory i
        (a ++ (i, ⟨.store (.fetchOrderResult cid), .ok result⟩) :: b) := by
      rw [hhist]
      exact List.subset_append_left ..
    refine .inr ⟨item.matched, Reported.append ?_ _, hreach.le⟩
    exact ⟨i, items, item, row, hbook.mono hsub, hrow.mono hsub, hcid, hres, rfl⟩

/-- However passes and bursts interleave: if no fill comes between the read of the aggregate and
    the fill computed from it except under the same name, the recorded fills never exceed what was
    there at the start or a counter that the venue reported for the order. -/
theorem fills_bounded {requests : ι → Request}
    (hreq : ∀ i, requests i = .reconcileLiberator ∨ ∃ c, requests i = .resolveOrderNow c)
    {E : Env} {db : Db} {P : Pool engineSig Db ι}
    (hP : PoolReach (sem E) closed (engine requests db) P) (cid : String)
    (hfree : Undisturbed cid P.trace) :
    filledAt cid P.state ≤ filledAt cid db ∨
      ∃ m, Reported cid P.trace m ∧ filledAt cid P.state ≤ m := by
  have hprog : ∀ i, wp Sem.free Reconcile.Computed ((engine requests db).threads i)
      (fun _ _ => True) [] := by
    intro i
    change wp Sem.free Reconcile.Computed (requests i).prog (fun _ _ => True) []
    rcases hreq i with h | ⟨c, h⟩
    · rw [h, Request.prog, wp_bind]
      refine wp_mono (Reconcile.reconcileOnce_computed []) fun r _ _ => ?_
      cases r <;> trivial
    · rw [h, Request.prog, wp_bind]
      refine wp_mono (Reconcile.resolveOrderNow_computed c []) fun r _ _ => ?_
      cases r <;> trivial
  suffices hinv : Bounded cid (filledAt cid db) P.state P.trace from hinv
  induction hP with
  | refl => exact .inl le_rfl
  | @tail Q P' hQ hstep ih =>
    cases hstep with
    | env he => exact he.elim
    | @thread i op k r s' hi hs =>
      have hQfree : Undisturbed cid Q.trace := hfree.of_append
      have hok := local_discipline rfl hprog (hQ.tail (.thread i hi hs))
      have hcomp : Reconcile.Computed (localHistory i Q.trace) op :=
        hok Q.trace i ⟨op, r⟩ [] rfl
      exact (ih hQfree).step (readsCurrent_run rfl hQ) hcomp hfree hs

omit [DecidableEq ι] in
/-- A thread that is alone in filling the order is not disturbed. -/
theorem undisturbed_of_one_filler {tr : Trace ι} {k : ι}
    (h : ∀ x ∈ tr, isFillOf cid x.2.op = true → x.1 = k) : Undisturbed cid tr := by
  intro a i result b fid price qty ts total r c heq _ x hx hxi hfill
  have hxk : x.1 = k := h x (by simp [heq, hx]) hfill
  have hik : i = k := by
    refine h (i, ⟨.store (.applyFill cid fid price qty ts total), r⟩) (by simp [heq]) ?_
    simp [isFillOf]
  exact absurd (hxk.trans hik.symm) hxi

end Race

/-! ## A pass and a burst -/

/-- The sample order, inserted at 0 and waiting for its ack. -/
def waitingDb : Db := (Db.empty.insertOrder (sampleFields cidA .liberator) none 0).2

inductive Reader where
  | pass | burst
  deriving DecidableEq

def passAndBurst : Reader → Request
  | .pass => .reconcileLiberator
  | .burst => .resolveOrderNow cidA

theorem passAndBurst_reads (i : Reader) :
    passAndBurst i = .reconcileLiberator ∨ ∃ c, passAndBurst i = .resolveOrderNow c := by
  cases i with
  | pass => exact .inl rfl
  | burst => exact .inr ⟨cidA, rfl⟩

/-- The venue with the order matched by `m`. -/
def matchedHandler (m : Int) : Handler := plainHandler (Reconcile.seconds 10) (fun _ => {}) [sampleItem m]

/-- The pass lists the order and reads the book at 40, then the venue matches the rest; what
    follows is left to the schedule. -/
def raceFrom (schedule : List Reader) : Pool engineSig Db Reader :=
  runPool (matchedHandler 100).step schedule
    (runPool (matchedHandler 40).step [.pass, .pass, .pass] (engine passAndBurst waitingDb))

theorem raceFrom_reach (schedule : List Reader) :
    PoolReach (sem plainEnv) closed (engine passAndBurst waitingDb) (raceFrom schedule) :=
  (runPool_reach (plain_follows (matchedHandler 40)) _ _).trans
    (runPool_reach (plain_follows (matchedHandler 100)) _ _)

def burstFirst : List Reader := List.replicate 9 .burst ++ [.pass, .pass]

/-- The burst is done before the pass reads the aggregate: the pass has nothing to add. -/
theorem burst_then_pass_bounded :
    filledAt cidA (raceFrom burstFirst).state = 100 ∧
      ∃ m, Reported cidA (raceFrom burstFirst).trace m ∧ 100 ≤ m := by
  have hfilled : filledAt cidA waitingDb = 0 ∧
      filledAt cidA (raceFrom burstFirst).state = 100 := by decide +kernel
  have hone : ((raceFrom burstFirst).trace.all fun x =>
      !isFillOf cidA x.2.op || x.1 = .burst) = true := by decide +kernel
  have hfree : Undisturbed cidA (raceFrom burstFirst).trace := by
    refine undisturbed_of_one_filler (k := .burst) fun x hx hfill => ?_
    simpa [hfill] using List.all_eq_true.mp hone x hx
  refine ⟨hfilled.2, ?_⟩
  have hbound := fills_bounded passAndBurst_reads (raceFrom_reach _) cidA hfree
  rw [hfilled.1, hfilled.2] at hbound
  exact hbound.resolve_left (by decide)

/-- The counters of the books read in a run, in the order of the reads. -/
def reportedCounters {ι : Type} (tr : Trace ι) : List Int :=
  tr.flatMap fun x => match x.2 with
    | ⟨.ext (.liberatorOrders _), .ok items⟩ => items.map (·.matched)
    | _ => []

/-- Both read the aggregate before either fills: 140 units recorded of the 100 reported. -/
theorem racing_readers_overfill :
    ∃ P, PoolReach (sem plainEnv) closed (engine passAndBurst waitingDb) P ∧
      filledAt cidA waitingDb = 0 ∧ reportedCounters P.trace = [40, 100] ∧
      filledAt cidA P.state = 140 :=
  ⟨raceFrom ([.burst, .burst, .burst, .burst, .pass, .burst] ++ List.replicate 3 .pass ++
    List.replicate 4 .burst), raceFrom_reach _, by decide +kernel⟩

end ExecutionEngine
