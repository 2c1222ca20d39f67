/-
  The planning half of the two reconcilers.

  `adapters/liberator/reconciler.py` and `adapters/streaming_pro/reconciler.py`
  are twins: the same matcher and planner over two wire models. `VenueItem` is
  what the code reads of a venue row, plus the three places where the twins
  differ (the fill price, the reject text, and whether absence of a
  PENDING_CANCEL row confirms the cancel). The functions here are the common
  body; `Adapters.Liberator` and `Adapters.StreamingPro` give each twin its own.

  `planActions` is the plan where the price of a fill can be computed; where that raises,
  `plan_actions` raises (`plan`).

  A venue timestamp may lack an offset. Subtracting it from the aware
  `created_at` raises, so the matcher is partial (`fuzzyMatch` in `Except`).
  When it does not raise it is a filter by `isCandidate` (`candidates_ok`).
-/
import ExecutionEngine.Db.Store

namespace ExecutionEngine

/-- A timestamp as parsed: with an offset (an instant), or without. -/
inductive Stamp where
  | aware (t : Time)
  | naive (t : Int)
  deriving DecidableEq, Repr

/-- Coarse venue classification. -/
inductive VenueOrderState where
  | resting | cancelled | rejected | expired
  deriving DecidableEq, Repr

/-- What the reconcilers read of one venue row. -/
class VenueItem (ι : Type) where
  orderNo : ι → String
  symbol : ι → String
  /-- The venue's own side string. -/
  rawSide : ι → String
  fromVenueSide : String → Option Side
  volume : ι → Int
  price : ι → Option Decimal
  /-- Cumulative matched quantity. -/
  matched : ι → Int
  entryTime : ι → Option Stamp
  classifyVenueState : ι → VenueOrderState
  rejectReason : ι → String
  fillPriceFor : OrderRow → ι → Option Decimal
  /-- Is the fill price an average, which `quantize` rounds? -/
  averaged : ι → Bool
  /-- May a PENDING_CANCEL row absent from the book at this time be confirmed? -/
  absenceConfirms : OrderRow → Time → Bool

namespace Reconcile

open VenueItem

def seconds (n : Int) : Time := n * 1000000

/-- `_STUCK_PENDING_SECONDS`. -/
def stuckPending : Time := seconds 5

/-- `_ACK_LOST_TIMEOUT_SECONDS`. -/
def ackLostTimeout : Time := seconds 60

/-- `_FUZZY_WINDOW_SECONDS`. -/
def fuzzyWindow : Time := seconds 5

/-- Both sides carry a real price (`_has_price`: present and positive) and the prices differ. -/
def priceMismatch (a b : Option Decimal) : Bool :=
  match a, b with
  | some a, some b => a.isPos && b.isPos && !a.numEq b
  | _, _ => false

variable {ι : Type} [VenueItem ι]

/-- Everything the matcher compares before it looks at the entry time. -/
def agreesButTime (row : OrderRow) (claimed : List String) (item : ι) : Bool :=
  !(orderNo item ∈ claimed) && symbol item = row.symbol && volume item = row.quantity &&
    fromVenueSide ι (rawSide item) = some row.side && !priceMismatch (price item) row.price

/-- The candidate loop of `fuzzy_match`, in its order of tests. -/
def candidates (row : OrderRow) (claimed : List String) : List ι → Except Exn (List ι)
  | [] => .ok []
  | item :: rest =>
    if agreesButTime row claimed item then
      match entryTime item with
      | none => candidates row claimed rest
      | some (.naive _) =>
        .error (.typeError "can't subtract offset-naive and offset-aware datetimes")
      | some (.aware t) =>
        if |t - row.createdAt| ≤ fuzzyWindow then
          (candidates row claimed rest).map (item :: ·)
        else candidates row claimed rest
    else candidates row claimed rest

structure MatchOutcome (ι : Type) where
  item : Option ι
  candidateCount : Nat

/-- Candidates existed but none was unique. -/
def MatchOutcome.ambiguous (m : MatchOutcome ι) : Bool := m.item.isNone && 1 < m.candidateCount

/-- Only a unique candidate counts. -/
def outcomeOf (cs : List ι) : MatchOutcome ι :=
  match cs with
  | [item] => ⟨some item, 1⟩
  | cs => ⟨none, cs.length⟩

/-- `fuzzy_match`. -/
def fuzzyMatch (row : OrderRow) (items : List ι) (claimed : List String) :
    Except Exn (MatchOutcome ι) :=
  (candidates row claimed items).map outcomeOf

/-- One persistence step, with the data its kind carries. -/
inductive ReconcileAction where
  | ack (cid brokerOrderId : String)
  | fill (cid : String) (qty : Int) (price : Decimal) (fillId : String) (total : Int)
  | cancelTwoStep (cid : String)
  | cancelConfirm (cid : String)
  | expire (cid : String)
  | reject (cid reason : String)
  | postAckReject (cid reason : String)
  deriving DecidableEq, Repr

/-- `_venue_terminal_actions`. -/
def venueTerminalActions (row : OrderRow) (item : ι) : List ReconcileAction :=
  match classifyVenueState item with
  | .cancelled => [.cancelTwoStep row.clientOrderId]
  | .expired => [.expire row.clientOrderId]
  | .rejected =>
    if row.status = .pendingNew then [.reject row.clientOrderId (VenueItem.rejectReason item)]
    else [.postAckReject row.clientOrderId (VenueItem.rejectReason item)]
  | .resting => []

/-- `ack_lost_unmatched`, the reason of a lost-ack rejection. -/
def ackLostUnmatched : String := "ack_lost_unmatched"

/-- `f"{order_no}:{matched}"`. -/
def fillId (no : String) (matched : Int) : String := no ++ ":" ++ toString matched

/-- The matched delta as a fill, when there is one and a price can be derived. -/
def fillActions (row : OrderRow) (filledQty : Int) (item : ι) : List ReconcileAction :=
  if 0 < matched item - filledQty then
    match fillPriceFor row item with
    | none => []
    | some p => [.fill row.clientOrderId (matched item - filledQty) p
        (fillId (orderNo item) (matched item)) row.quantity]
  else []

/-- `plan_actions` when no venue row was found. -/
def planAbsent (ι : Type) [VenueItem ι] (row : OrderRow) (now : Time) (ambiguous : Bool) :
    List ReconcileAction :=
  if row.status = .pendingNew then
    if ambiguous then []
    else if ackLostTimeout < now - row.createdAt then [.reject row.clientOrderId ackLostUnmatched]
    else []
  else if row.status = .pendingCancel then
    if absenceConfirms ι row now then [.cancelConfirm row.clientOrderId] else []
  else []

/-- `plan_actions` against a venue row. -/
def planPresent (row : OrderRow) (filledQty : Int) (item : ι) : List ReconcileAction :=
  if row.status = .pendingNew && classifyVenueState item = .rejected then
    venueTerminalActions row item
  else if row.status = .pendingCancel then
    if classifyVenueState item ∈ [VenueOrderState.cancelled, .expired] then
      [.cancelConfirm row.clientOrderId]
    else []
  else
    (if row.status = .pendingNew then [.ack row.clientOrderId (orderNo item)] else []) ++
      fillActions row filledQty item ++
      if matched item < row.quantity then venueTerminalActions row item else []

/-- `plan_actions`: one local row and its venue counterpart to persistence steps. -/
def planActions (row : OrderRow) (filledQty : Int) (item : Option ι) (now : Time)
    (ambiguous : Bool) : List ReconcileAction :=
  match item with
  | none => planAbsent ι row now ambiguous
  | some item => planPresent row filledQty item

/-- Does `plan_actions` ask for the price of a fill? -/
def asksPrice (row : OrderRow) (filledQty : Int) (item : ι) : Bool :=
  !(row.status = .pendingNew && classifyVenueState item = .rejected) &&
    row.status ≠ .pendingCancel && 0 < matched item - filledQty

/-- What `fill_price_for` raises: an average may be wider than `quantize` can give. -/
def fillPriceError (row : OrderRow) (item : ι) : Option Exn :=
  if averaged item && (fillPriceFor row item).any (fun p => !p.fitsQuantum) then
    some (.other "decimal.InvalidOperation")
  else none

/-- What `plan_actions` raises, where it does. -/
def planError (row : OrderRow) (filledQty : Int) : Option ι → Option Exn
  | none => none
  | some item => if asksPrice row filledQty item then fillPriceError row item else none

/-- `plan_actions`, with the exception of the price. -/
def plan (row : OrderRow) (filledQty : Int) (item : Option ι) (now : Time) (ambiguous : Bool) :
    Except Exn (List ReconcileAction) :=
  match planError row filledQty item with
  | some e => .error e
  | none => .ok (planActions row filledQty item now ambiguous)

theorem plan_ok {row : OrderRow} {filledQty : Int} {item : Option ι} {now : Time} {ambiguous : Bool}
    (h : planError row filledQty item = none) :
    plan row filledQty item now ambiguous = .ok (planActions row filledQty item now ambiguous) := by
  rw [plan, h]

/-! ## Which venue row belongs to a local row -/

/-- `{item.order_no: item for item in items}.get(no)`: the last of equal keys. -/
def indexGet (items : List ι) (no : String) : Option ι :=
  items.reverse.find? fun i => orderNo i = no

/-- `index.get(row.broker_order_id) if row.broker_order_id else None`. -/
def byHandle (row : OrderRow) (items : List ι) : Option ι :=
  match row.brokerOrderId with
  | some no => if no.isEmpty then none else indexGet items no
  | none => none

/-- What the row resolves to, whether it was ambiguous, and the claimed set afterwards. -/
structure Resolution (ι : Type) where
  item : Option ι
  ambiguous : Bool
  claimed : List String

/-- The matching half of `_apply_row`: handle first, then the lost-ack match of a PENDING_NEW
    row, gated on its age unless `requireStuck` is off. A match claims its order number. -/
def resolveRow (row : OrderRow) (items : List ι) (claimed : List String) (now : Time)
    (requireStuck : Bool) : Except Exn (Resolution ι) :=
  match byHandle row items with
  | some item => .ok ⟨some item, false, claimed⟩
  | none =>
    if row.status = .pendingNew && (stuckPending < now - row.createdAt || !requireStuck) then
      (fuzzyMatch row items claimed).map fun m =>
        ⟨m.item, m.ambiguous, match m.item with
          | some item => orderNo item :: claimed
          | none => claimed⟩
    else .ok ⟨none, false, claimed⟩

/-- `{r.broker_order_id for r in rows if r.broker_order_id is not None}`. -/
def handlesOf (rows : List OrderRow) : List String := rows.filterMap OrderRow.brokerOrderId

/-! ## The matcher as a filter -/

/-- An unclaimed row that agrees on every field and was entered inside the window. -/
def isCandidate (row : OrderRow) (claimed : List String) (item : ι) : Bool :=
  agreesButTime row claimed item && match entryTime item with
    | some (.aware t) => |t - row.createdAt| ≤ fuzzyWindow
    | _ => false

/-- The claimed set only takes numbers away. -/
theorem isCandidate_iff {row : OrderRow} {claimed : List String} {item : ι} :
    isCandidate row claimed item = true ↔
      orderNo item ∉ claimed ∧ isCandidate row [] item = true := by
  simp only [isCandidate, agreesButTime, Bool.and_eq_true, Bool.not_eq_true',
    decide_eq_false_iff_not, List.not_mem_nil, not_false_eq_true, true_and]
  tauto

theorem candidates_ok {row : OrderRow} {claimed : List String} {items cs : List ι}
    (h : candidates row claimed items = .ok cs) : cs = items.filter (isCandidate row claimed) := by
  induction items generalizing cs with
  | nil =>
    simp only [candidates, Except.ok.injEq] at h
    rw [List.filter_nil, h]
  | cons item rest ih =>
    unfold candidates at h
    split at h
    · rename_i hag
      split at h
      · rename_i ht
        rw [List.filter_cons_of_neg (by simp [isCandidate, ht])]
        exact ih h
      · cases h
      · rename_i t ht
        split at h
        · rename_i hw
          rw [List.filter_cons_of_pos (by simp [isCandidate, hag, ht, hw])]
          cases hr : candidates row claimed rest with
          | error e => rw [hr] at h; cases h
          | ok cs' =>
            rw [hr] at h
            obtain rfl := Except.ok.inj h
            rw [ih hr]
        · rename_i hw
          rw [List.filter_cons_of_neg (by simp [isCandidate, ht, hw])]
          exact ih h
    · rename_i hag
      rw [List.filter_cons_of_neg (by simp [isCandidate, hag])]
      exact ih h

/-- The matcher raises on an agreeing venue row whose entry time has no offset. -/
theorem candidates_error_iff {row : OrderRow} {claimed : List String} {items : List ι} :
    (∃ er, candidates row claimed items = .error er) ↔
      ∃ item ∈ items, agreesButTime row claimed item = true ∧
        ∃ t, entryTime item = some (.naive t) := by
  induction items with
  | nil => simp [candidates]
  | cons item rest ih =>
    rw [candidates, List.exists_mem_cons_iff, ← ih]
    by_cases hag : agreesButTime row claimed item = true
    · rw [if_pos hag]
      cases ht : entryTime item with
      | none => simp
      | some stamp =>
        cases stamp with
        | naive t => simp [hag]
        | aware t =>
          dsimp only
          split
          · cases hrest : candidates row claimed rest with
            | error er => simp [Except.map]
            | ok cs => simp [Except.map]
          · simp
    · rw [if_neg hag]
      simp [hag]

omit [VenueItem ι] in
theorem outcomeOf_item {cs : List ι} {item : ι} (h : (outcomeOf cs).item = some item) :
    cs = [item] := by
  unfold outcomeOf at h
  split at h
  · rw [Option.some.inj h]
  · cases h

theorem fuzzyMatch_ok {row : OrderRow} {claimed : List String} {items : List ι}
    {m : MatchOutcome ι} (h : fuzzyMatch row items claimed = .ok m) :
    m = outcomeOf (items.filter (isCandidate row claimed)) := by
  unfold fuzzyMatch at h
  cases hc : candidates row claimed items with
  | error e => rw [hc] at h; cases h
  | ok cs =>
    rw [hc] at h
    rw [← candidates_ok hc]
    exact (Except.ok.inj h).symm

theorem mem_of_indexGet {items : List ι} {no : String} {item : ι}
    (h : indexGet items no = some item) : item ∈ items ∧ orderNo item = no := by
  have hno := List.find?_some h
  exact ⟨List.mem_reverse.mp (List.mem_of_find?_eq_some h), of_decide_eq_true hno⟩

theorem byHandle_some {row : OrderRow} {items : List ι} {item : ι}
    (h : byHandle row items = some item) :
    item ∈ items ∧ row.brokerOrderId = some (orderNo item) := by
  unfold byHandle at h
  split at h
  · rename_i no hno
    split at h
    · cases h
    · obtain ⟨hmem, hn⟩ := mem_of_indexGet h
      exact ⟨hmem, by rw [hno, hn]⟩
  · cases h

theorem byHandle_none {row : OrderRow} (h : row.brokerOrderId = none) (items : List ι) :
    byHandle row items = none := by
  simp only [byHandle, h]

/-- Does the lost-ack match look at this row? -/
def looksFor (row : OrderRow) (now : Time) (requireStuck : Bool) : Bool :=
  row.status = .pendingNew && (stuckPending < now - row.createdAt || !requireStuck)

/-- The three ways a row resolves: by handle, by the lost-ack match, not at all. -/
theorem resolveRow_cases {row : OrderRow} {items : List ι} {claimed : List String} {now : Time}
    {requireStuck : Bool} {res : Resolution ι}
    (h : resolveRow row items claimed now requireStuck = .ok res) :
    (∃ item, byHandle row items = some item ∧ res = ⟨some item, false, claimed⟩) ∨
    (byHandle row items = none ∧ looksFor row now requireStuck = true ∧
      ∃ m, m = outcomeOf (items.filter (isCandidate row claimed)) ∧ res = ⟨m.item, m.ambiguous,
        match m.item with
        | some item => orderNo item :: claimed
        | none => claimed⟩) ∨
    (byHandle row items = none ∧ looksFor row now requireStuck = false ∧
      res = ⟨none, false, claimed⟩) := by
  unfold resolveRow at h
  split at h
  · rename_i item hi
    exact .inl ⟨item, hi, (Except.ok.inj h).symm⟩
  · rename_i hi
    split at h
    · rename_i hl
      cases hm : fuzzyMatch row items claimed with
      | error e => rw [hm] at h; cases h
      | ok m =>
        rw [hm] at h
        exact .inr (.inl ⟨hi, hl, m, fuzzyMatch_ok hm, (Except.ok.inj h).symm⟩)
    · rename_i hl
      exact .inr (.inr ⟨hi, Bool.eq_false_iff.mpr hl, (Except.ok.inj h).symm⟩)

/-- A row resolves if the matcher does not raise on it. -/
theorem exists_resolveRow {row : OrderRow} {items cs : List ι} {claimed : List String}
    (h : candidates row claimed items = .ok cs) (now : Time) (requireStuck : Bool) :
    ∃ res, resolveRow row items claimed now requireStuck = .ok res := by
  unfold resolveRow fuzzyMatch
  rw [h]
  split
  · exact ⟨_, rfl⟩
  · split
    · exact ⟨_, rfl⟩
    · exact ⟨_, rfl⟩

theorem isCandidate_volume {row : OrderRow} {claimed : List String} {item : ι}
    (h : isCandidate row claimed item = true) : volume item = row.quantity := by
  simp only [isCandidate, agreesButTime, Bool.and_eq_true, decide_eq_true_eq] at h
  exact h.1.1.1.2

/-- A row resolves to a venue row that carries its handle, or its quantity. -/
theorem resolveRow_item {row : OrderRow} {items : List ι} {claimed : List String} {now : Time}
    {requireStuck : Bool} {res : Resolution ι} {item : ι}
    (h : resolveRow row items claimed now requireStuck = .ok res) (hi : res.item = some item) :
    item ∈ items ∧ (row.brokerOrderId = some (orderNo item) ∨ volume item = row.quantity) := by
  rcases resolveRow_cases h with ⟨item', hh, rfl⟩ | ⟨-, -, m, rfl, rfl⟩ | ⟨-, -, rfl⟩
  · obtain rfl := Option.some.inj hi
    obtain ⟨hmem, hno⟩ := byHandle_some hh
    exact ⟨hmem, .inl hno⟩
  · have hcs := outcomeOf_item hi
    have hmem : item ∈ items.filter (isCandidate row claimed) := by
      rw [hcs]
      exact List.mem_singleton_self item
    obtain ⟨hmem, hc⟩ := List.mem_filter.mp hmem
    exact ⟨hmem, .inr (isCandidate_volume hc)⟩
  · cases hi

end Reconcile

end ExecutionEngine
