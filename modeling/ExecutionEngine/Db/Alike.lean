/-
  Statements about one order depend on that order only.

  `Alike cid db db'`: the two stores show the order `cid` alike, up to the times at
  which its fills were written. From stores that do, every statement the
  reconcilers send for `cid` answers alike and leaves the order alike; a fill does
  so whatever its time.
-/
import ExecutionEngine.Db.Fills

namespace ExecutionEngine

/-! ## An order up to the times of its fills -/

/-- A fill without its time. -/
def FillRow.content (f : FillRow) : String × Decimal × Int := (f.brokerFillId, f.price, f.quantity)

/-- An order without the times of its fills. -/
def Entry.content (e : Entry) : OrderRow × List (String × Decimal × Int) :=
  (e.row, e.fills.map FillRow.content)

theorem content_iff {e e' : Entry} : e.content = e'.content ↔
    e.row = e'.row ∧ e.fills.map FillRow.content = e'.fills.map FillRow.content :=
  Prod.ext_iff

section Content

variable {e e' : Entry} {f f' : FillRow}

theorem ids_of_content (h : e.fills.map FillRow.content = e'.fills.map FillRow.content) :
    e.fills.map FillRow.brokerFillId = e'.fills.map FillRow.brokerFillId := by
  have hids := congrArg (List.map Prod.fst) h
  rwa [List.map_map, List.map_map] at hids

theorem filled_of_content (h : e.fills.map FillRow.content = e'.fills.map FillRow.content) :
    e.filled = e'.filled := by
  have hqty := congrArg (List.map fun c => c.2.2) h
  rw [List.map_map, List.map_map] at hqty
  exact congrArg List.sum hqty

theorem fillNotional_of_content {fs fs' : List FillRow}
    (h : fs.map FillRow.content = fs'.map FillRow.content) :
    Db.fillNotional fs = Db.fillNotional fs' := by
  have hfold (acc : Decimal) (gs : List FillRow) :
      gs.foldl (fun acc g => acc.add (g.price.mulInt g.quantity)) acc =
        (gs.map FillRow.content).foldl (fun acc c => acc.add (c.2.1.mulInt c.2.2)) acc := by
    rw [List.foldl_map]
    rfl
  cases fs with
  | nil =>
    cases fs' with
    | nil => rfl
    | cons g gs => cases h
  | cons f fs =>
    cases fs' with
    | nil => cases h
    | cons f' fs' =>
      rw [List.map_cons, List.map_cons, List.cons.injEq] at h
      obtain ⟨hhead, htail⟩ := h
      have hprice : f.price = f'.price := congrArg (fun c => c.2.1) hhead
      have hqty : f.quantity = f'.quantity := congrArg (fun c => c.2.2) hhead
      rw [Db.fillNotional, Db.fillNotional, hfold, hfold, htail, hprice, hqty]

theorem content_withStatus (h : e.content = e'.content) (s : OrderState) :
    (Db.withStatus e s).content = (Db.withStatus e' s).content := by
  obtain ⟨hrow, hfills⟩ := content_iff.mp h
  exact content_iff.mpr ⟨congrArg (fun r : OrderRow => { r with status := s }) hrow, hfills⟩

theorem content_addFill (h : e.content = e'.content) (hf : f.content = f'.content) :
    (Db.addFill e f).content = (Db.addFill e' f').content := by
  obtain ⟨hrow, hfills⟩ := content_iff.mp h
  have hid : f.brokerFillId = f'.brokerFillId := congrArg Prod.fst hf
  refine content_iff.mpr ⟨by rw [addFill_row, addFill_row, hrow], ?_⟩
  have hmem : f.brokerFillId ∈ e.fills.map FillRow.brokerFillId ↔
      f'.brokerFillId ∈ e'.fills.map FillRow.brokerFillId := by
    rw [hid, ids_of_content hfills]
  unfold Db.addFill
  by_cases hin : f'.brokerFillId ∈ e'.fills.map FillRow.brokerFillId
  · rw [dif_pos (hmem.mpr hin), dif_pos hin]
    exact hfills
  · rw [dif_neg (mt hmem.mp hin), dif_neg hin]
    simp [hfills, hf]

theorem fillTarget_of_content (h : e.content = e'.content) (total : Int) :
    Db.fillTarget e total = Db.fillTarget e' total := by
  rw [Db.fillTarget, Db.fillTarget, filled_of_content (content_iff.mp h).2]

end Content

/-- Two stores hold an order alike. -/
def Alike (cid : String) (db db' : Db) : Prop :=
  (db.find cid).map Entry.content = (db'.find cid).map Entry.content

section Alike

variable {cid : String} {db db' : Db}

theorem Alike.cases (h : Alike cid db db') :
    db.find cid = none ∧ db'.find cid = none ∨
      ∃ e e', db.find cid = some e ∧ db'.find cid = some e' ∧ e.content = e'.content := by
  unfold Alike at h
  cases hx : db.find cid with
  | none =>
    rw [hx] at h
    exact .inl ⟨rfl, Option.map_eq_none_iff.mp h.symm⟩
  | some e =>
    rw [hx] at h
    obtain ⟨e', he', heq⟩ := Option.map_eq_some_iff.mp h.symm
    exact .inr ⟨e, e', rfl, he', heq.symm⟩

theorem alike_set {e e' x x' : Entry} (he : db.find cid = some e) (he' : db'.find cid = some e')
    (hk : x.row.clientOrderId = e.row.clientOrderId)
    (hk' : x'.row.clientOrderId = e'.row.clientOrderId) (h : x.content = x'.content) :
    Alike cid (db.set x) (db'.set x') := by
  have hx : x.row.clientOrderId = cid := hk.trans (Db.find_key he)
  have hx' : x'.row.clientOrderId = cid := hk'.trans (Db.find_key he')
  have hs : (db.set x).find cid = some x := by
    rw [← hx]
    exact Db.find_set_self (hx.symm ▸ he)
  have hs' : (db'.set x').find cid = some x' := by
    rw [← hx']
    exact Db.find_set_self (hx'.symm ▸ he')
  rw [Alike, hs, hs', Option.map_some, Option.map_some, h]

theorem alike_fetchOrder (h : Alike cid db db') : db.fetchOrder cid = db'.fetchOrder cid := by
  unfold Db.fetchOrder
  rcases h.cases with ⟨hx, hx'⟩ | ⟨e, e', hx, hx', heq⟩
  · rw [hx, hx']
  · rw [hx, hx', Option.map_some, Option.map_some, (content_iff.mp heq).1]

theorem alike_fetchOrderResult (h : Alike cid db db') :
    db.fetchOrderResult cid = db'.fetchOrderResult cid := by
  unfold Db.fetchOrderResult
  rcases h.cases with ⟨hx, hx'⟩ | ⟨e, e', hx, hx', heq⟩
  · rw [hx, hx']
  · obtain ⟨hrow, hfills⟩ := content_iff.mp heq
    rw [hx, hx', Option.map_some, Option.map_some, hrow, filled_of_content hfills,
      fillNotional_of_content hfills]

theorem alike_ackOrder (h : Alike cid db db') (no : String) :
    (db.ackOrder cid no).1 = (db'.ackOrder cid no).1 ∧
      Alike cid (db.ackOrder cid no).2 (db'.ackOrder cid no).2 := by
  unfold Db.ackOrder
  rcases h.cases with ⟨hx, hx'⟩ | ⟨e, e', hx, hx', heq⟩
  · rw [hx, hx']
    exact ⟨rfl, h⟩
  · obtain ⟨hrow, hfills⟩ := content_iff.mp heq
    have hstatus : e.row.status = e'.row.status := congrArg OrderRow.status hrow
    rw [hx, hx']
    dsimp only
    by_cases hs : e'.row.status = .pendingNew
    · rw [if_pos (hstatus.trans hs), if_pos hs]
      refine ⟨rfl, alike_set hx hx' rfl rfl (content_iff.mpr ⟨?_, hfills⟩)⟩
      exact congrArg (fun r : OrderRow => { r with status := .new, brokerOrderId := some no }) hrow
    · rw [if_neg (hstatus ▸ hs), if_neg hs]
      exact ⟨rfl, h⟩

theorem alike_writeStatus (h : Alike cid db db') (s : OrderState) :
    (db.writeStatus cid s).1 = (db'.writeStatus cid s).1 ∧
      Alike cid (db.writeStatus cid s).2 (db'.writeStatus cid s).2 := by
  unfold Db.writeStatus
  rcases h.cases with ⟨hx, hx'⟩ | ⟨e, e', hx, hx', heq⟩
  · rw [hx, hx']
    exact ⟨rfl, h⟩
  · have hstatus : e.row.status = e'.row.status := congrArg OrderRow.status (content_iff.mp heq).1
    rw [hx, hx']
    dsimp only
    by_cases hl : StateMachine.isLegal e'.row.status s = true
    · rw [if_pos (hstatus ▸ hl), if_pos hl]
      exact ⟨rfl, alike_set hx hx' rfl rfl (content_withStatus heq s)⟩
    · rw [if_neg (hstatus ▸ hl), if_neg hl]
      exact ⟨rfl, h⟩

theorem alike_setRejectReason (h : Alike cid db db') (reason : String) :
    (db.setRejectReason cid reason).1 = (db'.setRejectReason cid reason).1 ∧
      Alike cid (db.setRejectReason cid reason).2 (db'.setRejectReason cid reason).2 := by
  unfold Db.setRejectReason
  rcases h.cases with ⟨hx, hx'⟩ | ⟨e, e', hx, hx', heq⟩
  · rw [hx, hx']
    exact ⟨rfl, h⟩
  · obtain ⟨hrow, hfills⟩ := content_iff.mp heq
    rw [hx, hx']
    refine ⟨rfl, alike_set hx hx' rfl rfl ?_⟩
    exact content_iff.mpr ⟨congrArg (fun r : OrderRow => { r with rejectReason := some reason }) hrow,
      hfills⟩

/-- A fill comes out alike whatever its time. -/
theorem alike_applyFill (h : Alike cid db db') (fid : String) (price : Decimal) (qty : Int)
    (ts ts' : Time) (total : Int) :
    (db.applyFill cid fid price qty ts total).1 = (db'.applyFill cid fid price qty ts' total).1 ∧
      Alike cid (db.applyFill cid fid price qty ts total).2
        (db'.applyFill cid fid price qty ts' total).2 := by
  unfold Db.applyFill
  rcases h.cases with ⟨hx, hx'⟩ | ⟨e, e', hx, hx', heq⟩
  · rw [hx, hx']
    exact ⟨rfl, h⟩
  · rw [hx, hx']
    dsimp only
    split
    · rename_i hq
      split
      · have hadd : (Db.addFill e ⟨fid, price.numeric, qty, ts, hq⟩).content =
            (Db.addFill e' ⟨fid, price.numeric, qty, ts', hq⟩).content :=
          content_addFill heq rfl
        have hstatus : e.row.status = e'.row.status :=
          congrArg OrderRow.status (content_iff.mp heq).1
        rw [hstatus, fillTarget_of_content hadd]
        split
        · exact ⟨rfl, alike_set hx hx' (by simp) (by simp) (content_withStatus hadd _)⟩
        · exact ⟨rfl, h⟩
      · exact ⟨rfl, h⟩
    · exact ⟨rfl, h⟩

end Alike

end ExecutionEngine
