/-
  What a status write and a fill do to an entry.

  A status write leaves the fills alone and a fill leaves the row alone. The
  aggregate only grows, by the quantity of the fill if its name is new and by
  nothing otherwise.
-/
import Mathlib.Algebra.Order.BigOperators.Group.List
import ExecutionEngine.Db.Store

namespace ExecutionEngine

@[simp] theorem withStatus_status (e : Entry) (s : OrderState) :
    (Db.withStatus e s).row.status = s := rfl

@[simp] theorem withStatus_fills (e : Entry) (s : OrderState) :
    (Db.withStatus e s).fills = e.fills := rfl

@[simp] theorem withStatus_filled (e : Entry) (s : OrderState) :
    (Db.withStatus e s).filled = e.filled := rfl

@[simp] theorem withStatus_key (e : Entry) (s : OrderState) :
    (Db.withStatus e s).row.clientOrderId = e.row.clientOrderId := rfl

@[simp] theorem withStatus_quantity (e : Entry) (s : OrderState) :
    (Db.withStatus e s).row.quantity = e.row.quantity := rfl

theorem withStatus_self {e : Entry} {s : OrderState} (h : e.row.status = s) :
    Db.withStatus e s = e := by
  subst h
  rfl

@[simp] theorem addFill_row (e : Entry) (f : FillRow) : (Db.addFill e f).row = e.row := by
  unfold Db.addFill
  split <;> rfl

/-! ## The aggregate -/

theorem filledQty_nonneg (fills : List FillRow) : 0 ≤ filledQty fills := by
  refine List.sum_nonneg fun q hq => ?_
  obtain ⟨f, -, rfl⟩ := List.mem_map.mp hq
  exact f.quantity_pos.le

theorem filledQty_append (fills : List FillRow) (f : FillRow) :
    filledQty (fills ++ [f]) = filledQty fills + f.quantity := by
  simp [filledQty]

/-- An order with a fill has a positive aggregate. -/
theorem filledQty_pos {fills : List FillRow} (h : fills ≠ []) : 0 < filledQty fills := by
  cases fills with
  | nil => exact absurd rfl h
  | cons f fs =>
    have hf := f.quantity_pos
    have hfs := filledQty_nonneg fs
    simp only [filledQty, List.map_cons, List.sum_cons] at hfs ⊢
    omega

/-- A fill is added, or its id was there already and the order has fills. -/
theorem addFill_cases (e : Entry) (f : FillRow) :
    Db.addFill e f = e ∧ e.fills ≠ [] ∨ (Db.addFill e f).fills = e.fills ++ [f] := by
  unfold Db.addFill
  split
  · rename_i h
    refine .inl ⟨rfl, fun hnil => ?_⟩
    rw [hnil] at h
    cases h
  · exact .inr rfl

/-- A fill that is new is one more fill. -/
theorem recorded_addFill {e : Entry} {f : FillRow}
    (h : f.brokerFillId ∉ e.fills.map FillRow.brokerFillId) :
    (Db.addFill e f).fills = e.fills ++ [f] := by
  rw [Db.addFill, dif_neg h]

theorem addFill_redelivered {e : Entry} {f : FillRow}
    (h : f.brokerFillId ∈ e.fills.map FillRow.brokerFillId) : Db.addFill e f = e := by
  rw [Db.addFill, dif_pos h]

/-- A fill under a new name: the aggregate grows by its quantity. -/
theorem addFill_new {e : Entry} {f : FillRow} (h : ∀ g ∈ e.fills, g.brokerFillId ≠ f.brokerFillId) :
    (Db.addFill e f).fills = e.fills ++ [f] ∧ (Db.addFill e f).filled = e.filled + f.quantity := by
  have hfresh : f.brokerFillId ∉ e.fills.map FillRow.brokerFillId := by
    intro hmem
    obtain ⟨g, hg, hname⟩ := List.mem_map.mp hmem
    exact h g hg hname
  have hadd := recorded_addFill hfresh
  refine ⟨hadd, ?_⟩
  rw [Entry.filled, hadd, filledQty_append]
  rfl

/-- A fill under a name that is taken is dropped. -/
theorem addFill_old {e : Entry} {f g : FillRow} (hg : g ∈ e.fills)
    (h : g.brokerFillId = f.brokerFillId) : Db.addFill e f = e :=
  addFill_redelivered (List.mem_map.mpr ⟨g, hg, h⟩)

/-- A fill leaves the aggregate positive, and larger by no more than its quantity. -/
theorem addFill_filled (e : Entry) (f : FillRow) :
    0 < (Db.addFill e f).filled ∧ (Db.addFill e f).filled ≤ e.filled + f.quantity := by
  have hf := f.quantity_pos
  rcases addFill_cases e f with ⟨heq, hne⟩ | hadd
  · rw [heq]
    exact ⟨filledQty_pos hne, by omega⟩
  · have hnn := filledQty_nonneg e.fills
    have hsum : (Db.addFill e f).filled = e.filled + f.quantity := by
      rw [Entry.filled, hadd, filledQty_append]
      rfl
    rw [hsum]
    exact ⟨by rw [Entry.filled]; omega, le_rfl⟩

theorem addFill_withStatus (e : Entry) (s : OrderState) (f : FillRow) :
    Db.addFill (Db.withStatus e s) f = Db.withStatus (Db.addFill e f) s := by
  by_cases h : f.brokerFillId ∈ e.fills.map FillRow.brokerFillId
  · simp [Db.addFill, Db.withStatus, h]
  · simp [Db.addFill, Db.withStatus, h]

theorem filled_le_addFill (e : Entry) (f : FillRow) : e.filled ≤ (Db.addFill e f).filled := by
  rcases addFill_cases e f with ⟨heq, -⟩ | hadd
  · rw [heq]
  · have hf := f.quantity_pos
    rw [Entry.filled, Entry.filled, hadd, filledQty_append]
    omega

/-- The names after a fill are those before and its own. -/
theorem addFill_named {e : Entry} {f : FillRow} {fid : String} :
    (∃ g ∈ (Db.addFill e f).fills, g.brokerFillId = fid) ↔
      (∃ g ∈ e.fills, g.brokerFillId = fid) ∨ f.brokerFillId = fid := by
  by_cases hold : ∃ g ∈ e.fills, g.brokerFillId = f.brokerFillId
  · obtain ⟨g, hg, hname⟩ := hold
    rw [addFill_old hg hname]
    refine ⟨.inl, fun h => h.elim id fun hfid => ⟨g, hg, hname.trans hfid⟩⟩
  · push Not at hold
    rw [(addFill_new hold).1]
    simp [or_and_right, exists_or]

/-- A fill under another name takes nothing away. -/
theorem addFill_mono {e : Entry} {f g : FillRow} (h : f.brokerFillId ≠ g.brokerFillId) :
    (Db.addFill e g).filled ≤ (Db.addFill (Db.addFill e f) g).filled := by
  have hmono := filled_le_addFill e f
  by_cases hold : ∃ x ∈ e.fills, x.brokerFillId = g.brokerFillId
  · obtain ⟨x, hx, hname⟩ := hold
    rw [addFill_old hx hname]
    exact hmono.trans (filled_le_addFill _ _)
  · have hnew : ¬ ∃ x ∈ (Db.addFill e f).fills, x.brokerFillId = g.brokerFillId := by
      rw [addFill_named]
      exact fun hor => hor.elim hold h
    push Not at hold hnew
    rw [(addFill_new hold).2, (addFill_new hnew).2]
    omega

end ExecutionEngine
