/-
  The two planners, each as its own file has it.

  The rest of the development works with the common body (`Reconcile.fuzzyMatch`,
  `Reconcile.planActions`; `Reconcile.plan` adds what the price raises). Here each
  hand-kept copy is translated by itself and shown to be that body (`fuzzyMatch_eq`,
  `planActions_eq` of either twin).

  * `twins_agree`: on corresponding books and rows the twins match and plan alike,
    but for an absent PENDING_CANCEL row of an earlier venue day and for a fill
    priced by the Liberator `amount`.
  * `fill_before_terminal_iff`: when the matched delta precedes every terminal action.
-/
import ExecutionEngine.Adapters.Liberator
import ExecutionEngine.Adapters.StreamingPro

namespace ExecutionEngine

open Reconcile

/-- `abs((entry_time - created_at).total_seconds())`: a timestamp without offset raises. -/
def skew (entryTime : Stamp) (createdAt : Time) : Except Exn Time :=
  match entryTime with
  | .aware t => .ok |t - createdAt|
  | .naive _ => .error (.typeError "can't subtract offset-naive and offset-aware datetimes")

/-- `a != b` on optional prices. -/
def priceDiffers : Option Decimal → Option Decimal → Bool
  | some a, some b => !a.numEq b
  | none, none => false
  | _, _ => true

/-- `terminal and terminal[0].kind == "reject"`. -/
def headIsReject : List ReconcileAction → Bool
  | .reject _ _ :: _ => true
  | _ => false

namespace Liberator.Reconciler

/-- `_has_price`. -/
def hasPrice (value : Option Decimal) : Bool := value.any Decimal.isPos

/-- The candidate loop of `fuzzy_match`. -/
def matchLoop (row : OrderRow) (claimedOrderNos : List String) :
    List VenueOrderItem → Except Exn (List VenueOrderItem)
  | [] => .ok []
  | item :: items =>
    if item.orderNo ∈ claimedOrderNos then matchLoop row claimedOrderNos items
    else if item.symbol ≠ row.symbol || item.volume ≠ row.quantity then
      matchLoop row claimedOrderNos items
    else if fromVenueSide item.side ≠ some row.side then matchLoop row claimedOrderNos items
    else if hasPrice item.price && hasPrice row.price && priceDiffers item.price row.price then
      matchLoop row claimedOrderNos items
    else match item.entryTime with
      | none => matchLoop row claimedOrderNos items
      | some t => do
        if (← skew t row.createdAt) ≤ fuzzyWindow then
          return item :: (← matchLoop row claimedOrderNos items)
        else matchLoop row claimedOrderNos items

/-- `fuzzy_match`. -/
def fuzzyMatch (row : OrderRow) (items : List VenueOrderItem) (claimedOrderNos : List String) :
    Except Exn (MatchOutcome VenueOrderItem) := do
  match ← matchLoop row claimedOrderNos items with
  | [item] => return ⟨some item, 1⟩
  | candidates => return ⟨none, candidates.length⟩

/-- `_venue_terminal_actions`. -/
def venueTerminalActions (row : OrderRow) (item : VenueOrderItem) : List ReconcileAction :=
  let cid := row.clientOrderId
  match classifyVenueState item with
  | .cancelled => [.cancelTwoStep cid]
  | .expired => [.expire cid]
  | .rejected =>
    if row.status = .pendingNew then [.reject cid (rejectReason item)]
    else [.postAckReject cid (rejectReason item)]
  | .resting => []

/-- `plan_actions`, where `fill_price_for` does not raise. -/
def planActions (row : OrderRow) (filledQty : Int) (item : Option VenueOrderItem) (now : Time)
    (ambiguous : Bool) : List ReconcileAction :=
  let cid := row.clientOrderId
  let age := now - row.createdAt
  match item with
  | none =>
    if row.status = .pendingNew then
      if ambiguous then []
      else if ackLostTimeout < age then [.reject cid "ack_lost_unmatched"]
      else []
    else if row.status = .pendingCancel then
      if !absenceIsInformative row now then [] else [.cancelConfirm cid]
    else []
  | some item =>
    if row.status = .pendingNew && headIsReject (venueTerminalActions row item) then
      venueTerminalActions row item
    else
      let acks := if row.status = .pendingNew then [.ack cid item.orderNo] else []
      if row.status = .pendingCancel then
        if classifyVenueState item ∈ [VenueOrderState.cancelled, .expired] then
          [.cancelConfirm cid]
        else []
      else
        let delta := item.matched - filledQty
        let fills :=
          if 0 < delta then
            match fillPriceFor row item with
            | none => []
            | some price =>
              [.fill cid delta price (fillId item.orderNo item.matched) row.quantity]
          else []
        if item.matched < row.quantity then acks ++ fills ++ venueTerminalActions row item
        else acks ++ fills

end Liberator.Reconciler

namespace StreamingPro.Reconciler

/-- `_has_price`. -/
def hasPrice (value : Option Decimal) : Bool := value.any Decimal.isPos

/-- The candidate loop of `fuzzy_match`. -/
def matchLoop (row : OrderRow) (claimedOrderNos : List String) :
    List VenueOrderRow → Except Exn (List VenueOrderRow)
  | [] => .ok []
  | item :: items =>
    if item.orderNo ∈ claimedOrderNos then matchLoop row claimedOrderNos items
    else if item.symbol ≠ row.symbol || item.volume ≠ row.quantity then
      matchLoop row claimedOrderNos items
    else if fromVenueSide item.side ≠ some row.side then matchLoop row claimedOrderNos items
    else if hasPrice item.price && hasPrice row.price && priceDiffers item.price row.price then
      matchLoop row claimedOrderNos items
    else match item.entryTime with
      | none => matchLoop row claimedOrderNos items
      | some t => do
        if (← skew t row.createdAt) ≤ fuzzyWindow then
          return item :: (← matchLoop row claimedOrderNos items)
        else matchLoop row claimedOrderNos items

/-- `fuzzy_match`. -/
def fuzzyMatch (row : OrderRow) (items : List VenueOrderRow) (claimedOrderNos : List String) :
    Except Exn (MatchOutcome VenueOrderRow) := do
  match ← matchLoop row claimedOrderNos items with
  | [item] => return ⟨some item, 1⟩
  | candidates => return ⟨none, candidates.length⟩

/-- `_venue_terminal_actions`. -/
def venueTerminalActions (row : OrderRow) (item : VenueOrderRow) : List ReconcileAction :=
  let cid := row.clientOrderId
  match classifyVenueState item with
  | .cancelled => [.cancelTwoStep cid]
  | .expired => [.expire cid]
  | .rejected =>
    if row.status = .pendingNew then [.reject cid (rejectReason item)]
    else [.postAckReject cid (rejectReason item)]
  | .resting => []

/-- `plan_actions`. -/
def planActions (row : OrderRow) (filledQty : Int) (item : Option VenueOrderRow) (now : Time)
    (ambiguous : Bool) : List ReconcileAction :=
  let cid := row.clientOrderId
  let age := now - row.createdAt
  match item with
  | none =>
    if row.status = .pendingNew then
      if ambiguous then []
      else if ackLostTimeout < age then [.reject cid "ack_lost_unmatched"]
      else []
    else if row.status = .pendingCancel then [.cancelConfirm cid]
    else []
  | some item =>
    if row.status = .pendingNew && headIsReject (venueTerminalActions row item) then
      venueTerminalActions row item
    else
      let acks := if row.status = .pendingNew then [.ack cid item.orderNo] else []
      if row.status = .pendingCancel then
        if classifyVenueState item ∈ [VenueOrderState.cancelled, .expired] then
          [.cancelConfirm cid]
        else []
      else
        let delta := item.matched - filledQty
        let fills :=
          if 0 < delta then
            match fillPriceFor row item with
            | none => []
            | some price =>
              [.fill cid delta price (fillId item.orderNo item.matched) row.quantity]
          else []
        if item.matched < row.quantity then acks ++ fills ++ venueTerminalActions row item
        else acks ++ fills

end StreamingPro.Reconciler

/-! ## Each twin is the common body -/

section Common

variable {ι : Type} [VenueItem ι]

/-- The four tests of the candidate loop are the one test of the common matcher. -/
theorem agreesButTime_chain {α : Type} {row : OrderRow} {claimed : List String} {item : ι}
    (x y : α) :
    (if agreesButTime row claimed item then x else y) =
      if VenueItem.orderNo item ∈ claimed then y
      else if VenueItem.symbol item ≠ row.symbol || VenueItem.volume item ≠ row.quantity then y
      else if VenueItem.fromVenueSide ι (VenueItem.rawSide item) ≠ some row.side then y
      else if (VenueItem.price item).any Decimal.isPos && row.price.any Decimal.isPos &&
        priceDiffers (VenueItem.price item) row.price then y
      else x := by
  have hprice : priceMismatch (VenueItem.price item) row.price =
      ((VenueItem.price item).any Decimal.isPos && row.price.any Decimal.isPos &&
        priceDiffers (VenueItem.price item) row.price) := by
    cases VenueItem.price item <;> cases row.price <;> simp [priceMismatch, priceDiffers]
  rw [agreesButTime, hprice]
  by_cases hno : VenueItem.orderNo item ∈ claimed
  · simp [hno]
  · by_cases hsym : VenueItem.symbol item = row.symbol
    · by_cases hvol : VenueItem.volume item = row.quantity
      · by_cases hside : VenueItem.fromVenueSide ι (VenueItem.rawSide item) = some row.side
        · by_cases hp : ((VenueItem.price item).any Decimal.isPos && row.price.any Decimal.isPos &&
            priceDiffers (VenueItem.price item) row.price) = true
          · simp [hno, hsym, hvol, hside, hp]
          · simp [hno, hsym, hvol, hside, hp]
        · simp [hno, hsym, hvol, hside]
      · simp [hno, hsym, hvol]
    · simp [hno, hsym]

/-- The common matcher with the subtraction where the loops have it. -/
theorem candidates_cons (row : OrderRow) (claimed : List String) (item : ι) (items : List ι) :
    candidates row claimed (item :: items) =
      if agreesButTime row claimed item then
        match VenueItem.entryTime item with
        | none => candidates row claimed items
        | some t => do
          if (← skew t row.createdAt) ≤ fuzzyWindow then
            return item :: (← candidates row claimed items)
          else candidates row claimed items
      else candidates row claimed items := by
  rw [candidates]
  refine if_congr Iff.rfl ?_ rfl
  rcases VenueItem.entryTime item with _ | (t | t)
  · rfl
  · by_cases hw : |t - row.createdAt| ≤ fuzzyWindow
    · cases candidates row claimed items <;>
        simp [skew, hw, bind, Except.bind, pure, Except.pure, Except.map]
    · simp [skew, hw, bind, Except.bind]
  · rfl

theorem headIsReject_eq {row : OrderRow} {item : ι} (hs : row.status = .pendingNew) :
    headIsReject (Reconcile.venueTerminalActions row item) =
      decide (VenueItem.classifyVenueState item = .rejected) := by
  unfold Reconcile.venueTerminalActions
  cases VenueItem.classifyVenueState item <;> simp [headIsReject, hs]

/-- The common plan with its early return and its last test where the twins have them. -/
theorem planPresent_stepwise (row : OrderRow) (filledQty : Int) (item : ι) :
    planPresent row filledQty item =
      if row.status = .pendingNew && headIsReject (Reconcile.venueTerminalActions row item) then
        Reconcile.venueTerminalActions row item
      else if row.status = .pendingCancel then
        if VenueItem.classifyVenueState item ∈ [VenueOrderState.cancelled, .expired] then
          [.cancelConfirm row.clientOrderId]
        else []
      else
        let acks := if row.status = .pendingNew then
          [ReconcileAction.ack row.clientOrderId (VenueItem.orderNo item)] else []
        if VenueItem.matched item < row.quantity then
          acks ++ fillActions row filledQty item ++ Reconcile.venueTerminalActions row item
        else acks ++ fillActions row filledQty item := by
  have hstop : (row.status = .pendingNew &&
      headIsReject (Reconcile.venueTerminalActions row item)) =
      (row.status = .pendingNew && VenueItem.classifyVenueState item = .rejected) := by
    by_cases hs : row.status = .pendingNew
    · rw [headIsReject_eq hs]
    · simp [hs]
  unfold planPresent
  rw [hstop]
  refine if_congr Iff.rfl rfl (if_congr Iff.rfl rfl ?_)
  by_cases hm : VenueItem.matched item < row.quantity
  · rw [if_pos hm, if_pos hm]
  · rw [if_neg hm, if_neg hm, List.append_nil]

end Common

namespace Liberator.Reconciler

theorem matchLoop_eq (row : OrderRow) (claimed : List String) (items : List VenueOrderItem) :
    matchLoop row claimed items = candidates row claimed items := by
  induction items with
  | nil => rfl
  | cons item items ih =>
    rw [candidates_cons, agreesButTime_chain, ← ih, matchLoop]
    rfl

theorem fuzzyMatch_eq (row : OrderRow) (items : List VenueOrderItem) (claimed : List String) :
    fuzzyMatch row items claimed = Liberator.fuzzyMatch row items claimed := by
  unfold fuzzyMatch Liberator.fuzzyMatch Reconcile.fuzzyMatch
  rw [matchLoop_eq]
  rcases candidates row claimed items with er | (_ | ⟨item, _ | _⟩) <;> rfl

theorem venueTerminalActions_eq (row : OrderRow) (item : VenueOrderItem) :
    venueTerminalActions row item = Reconcile.venueTerminalActions row item := by
  have hstate : VenueItem.classifyVenueState item = classifyVenueState item := rfl
  unfold venueTerminalActions Reconcile.venueTerminalActions
  rw [hstate]
  cases classifyVenueState item <;> rfl

theorem planActions_eq (row : OrderRow) (filledQty : Int) (item : Option VenueOrderItem)
    (now : Time) (ambiguous : Bool) :
    planActions row filledQty item now ambiguous =
      Liberator.planActions row filledQty item now ambiguous := by
  cases item with
  | none =>
    have habs : VenueItem.absenceConfirms VenueOrderItem row now = absenceIsInformative row now :=
      rfl
    cases hinf : absenceIsInformative row now <;>
      simp [planActions, Liberator.planActions, Reconcile.planActions, planAbsent, hinf, habs,
        ackLostUnmatched]
  | some item =>
    unfold planActions
    simp only [venueTerminalActions_eq]
    exact (planPresent_stepwise row filledQty item).symm

end Liberator.Reconciler

namespace StreamingPro.Reconciler

theorem matchLoop_eq (row : OrderRow) (claimed : List String) (items : List VenueOrderRow) :
    matchLoop row claimed items = candidates row claimed items := by
  induction items with
  | nil => rfl
  | cons item items ih =>
    rw [candidates_cons, agreesButTime_chain, ← ih, matchLoop]
    rfl

theorem fuzzyMatch_eq (row : OrderRow) (items : List VenueOrderRow) (claimed : List String) :
    fuzzyMatch row items claimed = StreamingPro.fuzzyMatch row items claimed := by
  unfold fuzzyMatch StreamingPro.fuzzyMatch Reconcile.fuzzyMatch
  rw [matchLoop_eq]
  rcases candidates row claimed items with er | (_ | ⟨item, _ | _⟩) <;> rfl

theorem venueTerminalActions_eq (row : OrderRow) (item : VenueOrderRow) :
    venueTerminalActions row item = Reconcile.venueTerminalActions row item := by
  have hstate : VenueItem.classifyVenueState item = classifyVenueState item := rfl
  unfold venueTerminalActions Reconcile.venueTerminalActions
  rw [hstate]
  cases classifyVenueState item <;> rfl

theorem planActions_eq (row : OrderRow) (filledQty : Int) (item : Option VenueOrderRow)
    (now : Time) (ambiguous : Bool) :
    planActions row filledQty item now ambiguous =
      StreamingPro.planActions row filledQty item now ambiguous := by
  cases item with
  | none => rfl
  | some item =>
    unfold planActions
    simp only [venueTerminalActions_eq]
    exact (planPresent_stepwise row filledQty item).symm

end StreamingPro.Reconciler

/-! ## Corresponding books -/

/-- Both raise the same, or both answer, in relation. -/
inductive SameAnswer {ε α β : Type} (R : α → β → Prop) : Except ε α → Except ε β → Prop where
  | ok {a : α} {b : β} (h : R a b) : SameAnswer R (.ok a) (.ok b)
  | error (e : ε) : SameAnswer R (.error e) (.error e)

theorem SameAnswer.map {ε α β α' β' : Type} {R : α → β → Prop} {R' : α' → β' → Prop}
    {f : α → α'} {g : β → β'} {a : Except ε α} {b : Except ε β} (h : SameAnswer R a b)
    (hf : ∀ x y, R x y → R' (f x) (g y)) : SameAnswer R' (a.map f) (b.map g) := by
  cases h with
  | ok h => exact .ok (hf _ _ h)
  | error e => exact .error e

theorem SameAnswer.comp {ε α β γ : Type} {R : α → β → Prop} {R' : β → γ → Prop}
    {R'' : α → γ → Prop} {a : Except ε α} {b : Except ε β} {c : Except ε γ} (h : SameAnswer R a b)
    (h' : SameAnswer R' b c) (hR : ∀ x y z, R x y → R' y z → R'' x z) : SameAnswer R'' a c := by
  cases h with
  | ok h =>
    cases h' with
    | ok h' => exact .ok (hR _ _ _ h h')
  | error e =>
    cases h' with
    | error => exact .error e

theorem sameAnswer_refl {ε α : Type} {R : α → α → Prop} (hR : ∀ x, R x x) (a : Except ε α) :
    SameAnswer R a a := by
  cases a with
  | ok a => exact .ok (hR a)
  | error e => exact .error e

/-- One venue order as either venue lists it. Nothing is asked of the sign of the price. -/
structure SameRow (x : Liberator.VenueOrderItem) (y : StreamingPro.VenueOrderRow) : Prop where
  orderNo : x.orderNo = y.orderNo
  symbol : x.symbol = y.symbol
  side : x.side = y.side
  volume : x.volume = y.volume
  matched : x.matched = y.matched
  entryTime : x.entryTime = y.entryTime
  price : x.price = y.price
  state : Liberator.classifyVenueState x = StreamingPro.classifyVenueState y

/-- Two books whose rows correspond one to one, in whatever order each lists them. -/
def SameListing (xs : List Liberator.VenueOrderItem) (ys : List StreamingPro.VenueOrderRow) : Prop :=
  ∃ ys', List.Forall₂ SameRow xs ys' ∧ ys'.Perm ys

section Books

variable {row : OrderRow} {claimed : List String}

theorem SameRow.agreesButTime {x : Liberator.VenueOrderItem} {y : StreamingPro.VenueOrderRow}
    (h : SameRow x y) : agreesButTime row claimed x = agreesButTime row claimed y := by
  have hside : Liberator.fromVenueSide x.side = StreamingPro.fromVenueSide y.side := by
    rw [h.side]
    rfl
  simp only [Reconcile.agreesButTime, VenueItem.orderNo, VenueItem.symbol, VenueItem.volume,
    VenueItem.fromVenueSide, VenueItem.rawSide, VenueItem.price, h.orderNo, h.symbol, h.volume,
    h.price, hside]

theorem candidates_same {xs : List Liberator.VenueOrderItem} {ys : List StreamingPro.VenueOrderRow}
    (h : List.Forall₂ SameRow xs ys) :
    SameAnswer (List.Forall₂ SameRow) (candidates row claimed xs) (candidates row claimed ys) := by
  induction h with
  | nil => exact .ok .nil
  | @cons x y xs ys hxy _ ih =>
    have htime : VenueItem.entryTime x = VenueItem.entryTime y := hxy.entryTime
    unfold candidates
    rw [hxy.agreesButTime, htime]
    split
    · split
      · exact ih
      · exact .error _
      · split
        · exact ih.map fun _ _ hrest => .cons hxy hrest
        · exact ih
    · exact ih

/-- What the loop does with one venue row, whatever follows it: skip, raise or keep. -/
theorem candidates_step {ι : Type} [VenueItem ι] (row : OrderRow) (claimed : List String)
    (item : ι) :
    (∀ rest, candidates row claimed (item :: rest) = candidates row claimed rest) ∨
    (∀ rest, candidates row claimed (item :: rest) =
      .error (.typeError "can't subtract offset-naive and offset-aware datetimes")) ∨
    ∀ rest, candidates row claimed (item :: rest) =
      (candidates row claimed rest).map (item :: ·) := by
  by_cases hag : Reconcile.agreesButTime row claimed item = true
  · rcases htime : VenueItem.entryTime item with _ | (t | t)
    · exact .inl fun rest => by simp [candidates, hag, htime]
    · by_cases hw : |t - row.createdAt| ≤ fuzzyWindow
      · exact .inr (.inr fun rest => by simp [candidates, hag, htime, hw])
      · exact .inl fun rest => by simp [candidates, hag, htime, hw]
    · exact .inr (.inl fun rest => by simp [candidates, hag, htime])
  · exact .inl fun rest => by simp [candidates, hag]

/-- The order of a book does not matter to the loop. -/
theorem candidates_perm {ι : Type} [VenueItem ι] (row : OrderRow) (claimed : List String)
    {items items' : List ι} (h : items.Perm items') :
    SameAnswer List.Perm (candidates row claimed items) (candidates row claimed items') := by
  induction h with
  | nil => exact .ok .nil
  | cons x _ ih =>
    rcases candidates_step row claimed x with hx | hx | hx
    · rw [hx, hx]
      exact ih
    · rw [hx, hx]
      exact .error _
    · rw [hx, hx]
      exact ih.map fun _ _ hp => hp.cons x
  | swap x y l =>
    have hself := sameAnswer_refl List.Perm.refl (candidates row claimed l)
    rcases candidates_step row claimed x with hx | hx | hx <;>
      rcases candidates_step row claimed y with hy | hy | hy <;>
      simp only [hx, hy]
    · exact hself
    · exact .error _
    · exact hself.map fun _ _ hp => hp.cons y
    · exact .error _
    · exact .error _
    · exact .error _
    · exact hself.map fun _ _ hp => hp.cons x
    · exact .error _
    · cases candidates row claimed l with
      | error er => exact .error er
      | ok cs => exact .ok (List.Perm.swap x y cs)
  | trans _ _ ih ih' => exact ih.comp ih' fun _ _ _ => List.Perm.trans

theorem outcomeOf_same {xs : List Liberator.VenueOrderItem} {ys : List StreamingPro.VenueOrderRow}
    (h : List.Forall₂ SameRow xs ys) :
    Option.Rel SameRow (outcomeOf xs).item (outcomeOf ys).item ∧
      (outcomeOf xs).candidateCount = (outcomeOf ys).candidateCount := by
  cases h with
  | nil => exact ⟨.none, rfl⟩
  | cons hxy hrest =>
    cases hrest with
    | nil => exact ⟨.some hxy, rfl⟩
    | cons _ hrest => exact ⟨.none, congrArg (· + 2) hrest.length_eq⟩

theorem outcomeOf_perm {ι : Type} {cs cs' : List ι} (h : cs.Perm cs') :
    outcomeOf cs = outcomeOf cs' := by
  by_cases hone : ∃ a, cs = [a]
  · obtain ⟨a, rfl⟩ := hone
    rw [List.singleton_perm.mp h]
  · have hone' : ¬ ∃ a, cs' = [a] := by
      rintro ⟨a, rfl⟩
      exact hone ⟨a, List.perm_singleton.mp h⟩
    have hnone : ∀ ds : List ι, (¬ ∃ a, ds = [a]) → outcomeOf ds = ⟨none, ds.length⟩ := by
      intro ds hds
      unfold outcomeOf
      split
      · exact absurd ⟨_, rfl⟩ hds
      · rfl
    rw [hnone cs hone, hnone cs' hone', h.length_eq]

/-- Corresponding picks, from as many candidates. -/
structure SameMatch (m : MatchOutcome Liberator.VenueOrderItem)
    (m' : MatchOutcome StreamingPro.VenueOrderRow) : Prop where
  item : Option.Rel SameRow m.item m'.item
  count : m.candidateCount = m'.candidateCount

theorem fuzzyMatch_same {xs : List Liberator.VenueOrderItem}
    {ys : List StreamingPro.VenueOrderRow} (h : SameListing xs ys) :
    SameAnswer SameMatch (Liberator.Reconciler.fuzzyMatch row xs claimed)
      (StreamingPro.Reconciler.fuzzyMatch row ys claimed) := by
  obtain ⟨ys', hsame, hperm⟩ := h
  rw [Liberator.Reconciler.fuzzyMatch_eq, StreamingPro.Reconciler.fuzzyMatch_eq]
  have hcs := (candidates_same hsame).comp (candidates_perm row claimed hperm)
    fun xs ys' ys hxs hys => (⟨ys', hxs, hys⟩ : SameListing xs ys)
  refine hcs.map fun cs cs' hcs => ?_
  obtain ⟨ds, hds, hp⟩ := hcs
  obtain ⟨hitem, hcount⟩ := outcomeOf_same hds
  rw [← outcomeOf_perm hp]
  exact ⟨hitem, hcount⟩

end Books

/-! ## Corresponding plans -/

/-- An action without the text of its reason. -/
def Reconcile.ReconcileAction.unexplained : ReconcileAction → ReconcileAction
  | .reject cid _ => .reject cid ""
  | .postAckReject cid _ => .postAckReject cid ""
  | a => a

/-- Does the action carry a price? -/
def Reconcile.ReconcileAction.priced : ReconcileAction → Bool
  | .fill _ _ _ _ _ => true
  | _ => false

/-- The first documented difference: an absent PENDING_CANCEL row of another venue day. -/
def AbsentOldCancel (row : OrderRow) (item : Option Liberator.VenueOrderItem) (now : Time) : Prop :=
  item = none ∧ row.status = .pendingCancel ∧ Liberator.absenceIsInformative row now = false

/-- The second: the matched delta is priced by the cumulative `amount`. -/
def AmountPriced (filledQty : Int) (item : Option Liberator.VenueOrderItem) : Prop :=
  ∃ x a, item = some x ∧ x.amount = some a ∧ a.isPos = true ∧ 0 < x.matched ∧
    filledQty < x.matched ∧ x.price.any Decimal.isPos = false

/-- The same plan up to the text of its reasons. -/
def SamePlan (plan plan' : List ReconcileAction) : Prop :=
  plan.map ReconcileAction.unexplained = plan'.map ReconcileAction.unexplained

/-- The same plan but for the price of its fill, which the second may be without. -/
structure SamePlanButPrice (plan plan' : List ReconcileAction) : Prop where
  rest : SamePlan (plan.filter fun a => !a.priced) (plan'.filter fun a => !a.priced)
  fill : ∀ cid qty price fid total, .fill cid qty price fid total ∈ plan' →
    ∃ price', .fill cid qty price' fid total ∈ plan

section Plans

variable {row : OrderRow} {x : Liberator.VenueOrderItem} {y : StreamingPro.VenueOrderRow}

theorem venueTerminalActions_same (h : SameRow x y) :
    SamePlan (Reconcile.venueTerminalActions row x) (Reconcile.venueTerminalActions row y) := by
  have hstate : VenueItem.classifyVenueState x = VenueItem.classifyVenueState y := h.state
  unfold Reconcile.venueTerminalActions SamePlan
  rw [hstate]
  split
  · rfl
  · rfl
  · split <;> simp [Reconcile.ReconcileAction.unexplained]
  · rfl

theorem fillPriceFor_same (h : SameRow x y) (hp : ¬ ∃ a, x.amount = some a ∧ a.isPos = true ∧
      0 < x.matched ∧ x.price.any Decimal.isPos = false) :
    Liberator.fillPriceFor row x = StreamingPro.fillPriceFor row y := by
  unfold Liberator.fillPriceFor StreamingPro.fillPriceFor
  rw [← h.price]
  split
  · rfl
  · rename_i hprice
    cases ha : x.amount with
    | none => rfl
    | some a =>
      dsimp only
      split
      · rename_i hpos
        simp only [Bool.and_eq_true, decide_eq_true_eq] at hpos
        exact absurd ⟨a, ha, hpos.1, hpos.2, Bool.eq_false_iff.mpr hprice⟩ hp
      · rfl

theorem fillActions_same (row : OrderRow) {filledQty : Int} (h : SameRow x y)
    (hp : ¬ AmountPriced filledQty (some x)) :
    fillActions row filledQty x = fillActions row filledQty y := by
  have hmatched : VenueItem.matched x = VenueItem.matched y := h.matched
  have hno : VenueItem.orderNo x = VenueItem.orderNo y := h.orderNo
  unfold fillActions
  rw [← hmatched, ← hno]
  refine ite_congr rfl (fun hd => ?_) fun _ => rfl
  have hprice : VenueItem.fillPriceFor row x = VenueItem.fillPriceFor row y := by
    refine fillPriceFor_same h ?_
    rintro ⟨a, ha, hpos, hm, hnone⟩
    have hlt : 0 < x.matched - filledQty := hd
    exact hp ⟨x, a, rfl, ha, hpos, hm, by omega, hnone⟩
  rw [hprice]

theorem SamePlan.append {p p' q q' : List ReconcileAction} (hp : SamePlan p p')
    (hq : SamePlan q q') : SamePlan (p ++ q) (p' ++ q') := by
  unfold SamePlan at *
  rw [List.map_append, List.map_append, hp, hq]

theorem samePlan_refl (p : List ReconcileAction) : SamePlan p p := rfl

theorem venueTerminalActions_unpriced {ι : Type} [VenueItem ι] {item : ι} :
    (Reconcile.venueTerminalActions row item).filter (fun a => !a.priced) =
      Reconcile.venueTerminalActions row item := by
  unfold Reconcile.venueTerminalActions
  repeat' split
  all_goals rfl

theorem fillActions_priced {ι : Type} [VenueItem ι] {filledQty : Int} {item : ι} :
    (fillActions row filledQty item).filter (fun a => !a.priced) = [] := by
  unfold fillActions
  repeat' split
  all_goals rfl

/-- A relation between plans that goes piece by piece. -/
theorem planPresent_related {R : List ReconcileAction → List ReconcileAction → Prop}
    {filledQty : Int} (h : SameRow x y) (hrefl : ∀ p, R p p)
    (happ : ∀ p p' q q', R p p' → R q q' → R (p ++ q) (p' ++ q'))
    (hterm : R (Reconcile.venueTerminalActions row x) (Reconcile.venueTerminalActions row y))
    (hfills : R (fillActions row filledQty x) (fillActions row filledQty y)) :
    R (planPresent row filledQty x) (planPresent row filledQty y) := by
  have hstate : VenueItem.classifyVenueState x = VenueItem.classifyVenueState y := h.state
  have hmatched : VenueItem.matched x = VenueItem.matched y := h.matched
  have hno : VenueItem.orderNo x = VenueItem.orderNo y := h.orderNo
  unfold planPresent
  rw [hstate, hmatched, hno]
  split
  · exact hterm
  · split
    · exact hrefl _
    · refine happ _ _ _ _ (happ _ _ _ _ (hrefl _) hfills) ?_
      split
      · exact hterm
      · exact hrefl _

theorem fillActions_sameButPrice {filledQty : Int} (h : SameRow x y) {cid fid : String}
    {qty total : Int} {price : Decimal}
    (hmem : .fill cid qty price fid total ∈ fillActions row filledQty y) :
    ∃ price', .fill cid qty price' fid total ∈ fillActions row filledQty x := by
  have hmatched : VenueItem.matched x = VenueItem.matched y := h.matched
  have hno : VenueItem.orderNo x = VenueItem.orderNo y := h.orderNo
  unfold fillActions at hmem ⊢
  rw [hmatched, hno]
  split at hmem
  · rename_i hd
    rw [if_pos hd]
    split at hmem
    · cases hmem
    · rename_i q hq
      obtain ⟨rfl, rfl, rfl, rfl, rfl⟩ : cid = _ ∧ qty = _ ∧ price = _ ∧ fid = _ ∧ total = _ := by
        have heq := List.mem_singleton.mp hmem
        injection heq with h₁ h₂ h₃ h₄ h₅
        exact ⟨h₁, h₂, h₃, h₄, h₅⟩
      have hsome : ∃ p, Liberator.fillPriceFor row x = some p := by
        by_cases hp : ∃ a, x.amount = some a ∧ a.isPos = true ∧ 0 < x.matched ∧
            x.price.any Decimal.isPos = false
        · obtain ⟨a, ha, hpos, hm, hnone⟩ := hp
          refine ⟨a.quantizeDiv x.matched, ?_⟩
          simp [Liberator.fillPriceFor, hnone, ha, hpos, hm]
        · exact ⟨_, (fillPriceFor_same h hp).trans hq⟩
      obtain ⟨p, hp⟩ := hsome
      have hp' : VenueItem.fillPriceFor row x = some p := hp
      exact ⟨p, by rw [hp']; exact List.mem_singleton_self _⟩
  · cases hmem

theorem SamePlanButPrice.append {p p' q q' : List ReconcileAction} (hp : SamePlanButPrice p p')
    (hq : SamePlanButPrice q q') : SamePlanButPrice (p ++ q) (p' ++ q') := by
  constructor
  · rw [List.filter_append, List.filter_append]
    exact hp.rest.append hq.rest
  · intro cid qty price fid total hmem
    rcases List.mem_append.mp hmem with hmem | hmem
    · obtain ⟨price', h⟩ := hp.fill _ _ _ _ _ hmem
      exact ⟨price', List.mem_append_left _ h⟩
    · obtain ⟨price', h⟩ := hq.fill _ _ _ _ _ hmem
      exact ⟨price', List.mem_append_right _ h⟩

theorem planPresent_sameButPrice {filledQty : Int} (h : SameRow x y) :
    SamePlanButPrice (planPresent row filledQty x) (planPresent row filledQty y) := by
  refine planPresent_related h (fun p => ⟨rfl, fun _ _ price _ _ hmem => ⟨price, hmem⟩⟩)
    (fun _ _ _ _ => SamePlanButPrice.append) ⟨?_, ?_⟩ ⟨?_, ?_⟩
  · rw [venueTerminalActions_unpriced, venueTerminalActions_unpriced]
    exact venueTerminalActions_same h
  · intro cid qty price fid total hmem
    rw [← venueTerminalActions_unpriced] at hmem
    cases (List.mem_filter.mp hmem).2
  · rw [fillActions_priced, fillActions_priced]
    exact samePlan_refl []
  · intro cid qty price fid total hmem
    exact fillActions_sameButPrice h hmem

/-- The twins agree: corresponding books give corresponding matches from as many candidates, and
    corresponding venue rows give the same plan up to the reason texts. The exceptions are the two
    documented ones, and there the plans differ in exactly the cancel, or in the fill's price. -/
theorem twins_agree (row : OrderRow) (claimed : List String) (filledQty : Int) (now : Time)
    (ambiguous : Bool) {xs : List Liberator.VenueOrderItem} {ys : List StreamingPro.VenueOrderRow}
    (hbook : SameListing xs ys) {x : Option Liberator.VenueOrderItem}
    {y : Option StreamingPro.VenueOrderRow} (hitem : Option.Rel SameRow x y) :
    let liberator := Liberator.Reconciler.planActions row filledQty x now ambiguous
    let streamingPro := StreamingPro.Reconciler.planActions row filledQty y now ambiguous
    SameAnswer SameMatch (Liberator.Reconciler.fuzzyMatch row xs claimed)
      (StreamingPro.Reconciler.fuzzyMatch row ys claimed) ∧
    (¬ AbsentOldCancel row x now → ¬ AmountPriced filledQty x →
      SamePlan liberator streamingPro) ∧
    (AbsentOldCancel row x now →
      liberator = [] ∧ streamingPro = [.cancelConfirm row.clientOrderId]) ∧
    (AmountPriced filledQty x → SamePlanButPrice liberator streamingPro) := by
  intro liberator streamingPro
  refine ⟨fuzzyMatch_same hbook, ?_⟩
  have hlib : liberator = Liberator.planActions row filledQty x now ambiguous :=
    Liberator.Reconciler.planActions_eq row filledQty x now ambiguous
  have hpro : streamingPro = StreamingPro.planActions row filledQty y now ambiguous :=
    StreamingPro.Reconciler.planActions_eq row filledQty y now ambiguous
  rw [hlib, hpro]
  cases hitem with
  | none =>
    refine ⟨fun hold _ => ?_, ?_, ?_⟩
    · by_cases hs : row.status = .pendingCancel
      · have hinf : Liberator.absenceIsInformative row now = true := by
          by_contra hinf
          exact hold ⟨rfl, hs, Bool.eq_false_iff.mpr hinf⟩
        simp [Liberator.planActions, StreamingPro.planActions, Reconcile.planActions, planAbsent,
          hs, hinf, VenueItem.absenceConfirms, SamePlan]
      · simp [Liberator.planActions, StreamingPro.planActions, Reconcile.planActions, planAbsent,
          hs, SamePlan]
    · rintro ⟨-, hs, hinf⟩
      simp [Liberator.planActions, StreamingPro.planActions, Reconcile.planActions, planAbsent,
        hs, hinf, VenueItem.absenceConfirms]
    · rintro ⟨_, _, h, -⟩
      cases h
  | some h =>
    refine ⟨fun _ hprice => ?_, ?_, fun _ => planPresent_sameButPrice h⟩
    · have hfills := fillActions_same row h hprice
      exact planPresent_related h samePlan_refl (fun _ _ _ _ => SamePlan.append)
        (venueTerminalActions_same h) (hfills ▸ samePlan_refl _)
    · rintro ⟨hnone, -⟩
      cases hnone

end Plans

/-! ### A pair of twins at work -/

/-- A Liberator order of 100 at 10 that waits for its ack. -/
def waitingRow : OrderRow where
  clientOrderId := "A"
  broker := .liberator
  brokerOrderId := none
  account := "12345672"
  symbol := "PTT"
  market := .set
  side := .buy
  orderType := .limit
  price := some ⟨10, 0⟩
  stopPrice := none
  quantity := 100
  displayQty := none
  tif := .day
  positionEffect := none
  status := .pendingNew
  rejectReason := none
  strategyId := none
  createdAt := 0

/-- The venue's row of it, matched by 40, as Liberator lists it. -/
def waitingItem : Liberator.VenueOrderItem where
  orderNo := "V1"
  symbol := "PTT"
  side := "B"
  volume := 100
  price := some ⟨10, 0⟩
  matched := 40
  balance := 60
  entryTime := some (.aware 0)

/-- The same row as Streaming Pro lists it. -/
def waitingVenueRow : StreamingPro.VenueOrderRow where
  orderNo := "V1"
  symbol := "PTT"
  side := "B"
  volume := 100
  price := some ⟨10, 0⟩
  matched := 40
  balance := 60
  entryTime := some (.aware 0)

theorem waiting_same : SameRow waitingItem waitingVenueRow :=
  ⟨rfl, rfl, rfl, rfl, rfl, rfl, rfl, by decide⟩

/-- Both match the one row and plan its ack and its fill of 40. -/
theorem twins_agree_waiting :
    (SameAnswer SameMatch (Liberator.Reconciler.fuzzyMatch waitingRow [waitingItem] [])
      (StreamingPro.Reconciler.fuzzyMatch waitingRow [waitingVenueRow] []) ∧
    SamePlan (Liberator.Reconciler.planActions waitingRow 0 (some waitingItem) 0 false)
      (StreamingPro.Reconciler.planActions waitingRow 0 (some waitingVenueRow) 0 false)) ∧
    StreamingPro.Reconciler.planActions waitingRow 0 (some waitingVenueRow) 0 false =
      [.ack "A" "V1", .fill "A" 40 ⟨10, 0⟩ "V1:40" 100] := by
  have h := twins_agree waitingRow [] 0 0 false
    ⟨[waitingVenueRow], .cons waiting_same .nil, .refl _⟩ (.some waiting_same)
  refine ⟨⟨h.1, h.2.1 ?_ ?_⟩, by decide⟩
  · rintro ⟨hnone, -⟩
    cases hnone
  · rintro ⟨x, a, hx, ha, -⟩
    obtain rfl := Option.some.inj hx
    cases ha

/-! ## Fills before labels -/

/-- Does the action lead to a terminal state? -/
def Reconcile.ReconcileAction.isTerminal : ReconcileAction → Bool
  | .cancelTwoStep _ => true
  | .expire _ => true
  | .reject _ _ => true
  | .postAckReject _ _ => true
  | _ => false

/-- Before every terminal action of the plan stands a fill of the order by `qty`. -/
def FillsFirst (cid : String) (qty : Int) (plan : List ReconcileAction) : Prop :=
  ∀ (before : List ReconcileAction) a after, plan = before ++ a :: after → a.isTerminal = true →
    ∃ price fid total, .fill cid qty price fid total ∈ before

/-- What is not among the first part of a list has the first part before it. -/
theorem prefix_of_not_mem {α : Type} {xs ys before after : List α} {a : α}
    (h : xs ++ ys = before ++ a :: after) (ha : a ∉ xs) : xs <+: before := by
  rcases List.append_eq_append_iff.mp h with ⟨l, rfl, -⟩ | ⟨l, rfl, hl⟩
  · exact List.prefix_append xs l
  · cases l with
    | nil => simp
    | cons b l =>
      obtain ⟨rfl, -⟩ := List.cons.inj hl
      exact absurd (by simp) ha

/-- The statuses in which a row can still be filled from the book. -/
def fillableStates : List OrderState := [.pendingNew, .new, .partiallyFilled]

section FillsFirst

variable {ι : Type} [VenueItem ι] {row : OrderRow} {filledQty : Int} {item : ι}

theorem planPresent_rejected (hs : row.status = .pendingNew)
    (hr : VenueItem.classifyVenueState item = .rejected) :
    planPresent row filledQty item = [.reject row.clientOrderId (VenueItem.rejectReason item)] := by
  simp [planPresent, Reconcile.venueTerminalActions, hs, hr]

theorem planPresent_fills (filledQty : Int) (hs : row.status ∈ fillableStates)
    (hr : ¬ (row.status = .pendingNew ∧ VenueItem.classifyVenueState item = .rejected)) :
    planPresent row filledQty item =
      ((if row.status = .pendingNew then [.ack row.clientOrderId (VenueItem.orderNo item)]
        else []) ++ fillActions row filledQty item) ++
      if VenueItem.matched item < row.quantity then Reconcile.venueTerminalActions row item
      else [] := by
  have hcancel : row.status ≠ .pendingCancel := by
    intro h
    rw [h] at hs
    exact absurd hs (by decide)
  have hearly : (row.status = .pendingNew && VenueItem.classifyVenueState item = .rejected) =
      false := by
    simpa using hr
  unfold planPresent
  rw [hearly, if_neg Bool.false_ne_true, if_neg hcancel]

/-- The matched delta is captured before any terminal label, except on a row that the venue
    rejects while it waits for its ack: that plan is the rejection alone. -/
theorem fill_before_terminal_iff {price : Decimal} (now : Time) (ambiguous : Bool)
    (hs : row.status ∈ fillableStates) (hm : filledQty < VenueItem.matched item)
    (hp : VenueItem.fillPriceFor row item = some price) :
    FillsFirst row.clientOrderId (VenueItem.matched item - filledQty)
        (Reconcile.planActions row filledQty (some item) now ambiguous) ↔
      ¬ (row.status = .pendingNew ∧ VenueItem.classifyVenueState item = .rejected) := by
  constructor
  · rintro hfirst ⟨hnew, hr⟩
    obtain ⟨_, _, _, hmem⟩ := hfirst [] _ [] (planPresent_rejected hnew hr) rfl
    cases hmem
  · intro hr before a after hplan ha
    have hfill : fillActions row filledQty item =
        [.fill row.clientOrderId (VenueItem.matched item - filledQty) price
          (fillId (VenueItem.orderNo item) (VenueItem.matched item)) row.quantity] := by
      unfold fillActions
      rw [if_pos (by omega), hp]
    have hparts := (planPresent_fills filledQty hs hr).symm.trans hplan
    rw [hfill] at hparts
    have hpre := prefix_of_not_mem hparts fun hmem => by
      rcases List.mem_append.mp hmem with hmem | hmem
      · split at hmem
        · rw [List.mem_singleton.mp hmem] at ha
          cases ha
        · cases hmem
      · rw [List.mem_singleton.mp hmem] at ha
        cases ha
    exact ⟨_, _, _, hpre.subset (List.mem_append_right _ (List.mem_singleton_self _))⟩

end FillsFirst

/-- A working order that the venue cancelled at 40 is filled by 40 first. -/
theorem cancelled_fill_first :
    FillsFirst "A" 40 (Reconcile.planActions { waitingRow with status := .new } 0
      (some { waitingItem with status := "CANCELLED" }) 0 false) :=
  (fill_before_terminal_iff 0 false (by decide) (by decide) rfl).mpr (by decide)

/-- A row waiting for its ack, matched by 40 and carrying a reject code, is only rejected. -/
theorem rejected_drops_fill :
    Liberator.Reconciler.planActions waitingRow 0
        (some { waitingItem with rejectCode := "E1" }) 0 false =
      [.reject "A" "liberator reject E1"] ∧
    ¬ FillsFirst "A" 40 (Reconcile.planActions waitingRow 0
      (some { waitingItem with rejectCode := "E1" }) 0 false) := by
  have hplan : Liberator.Reconciler.planActions waitingRow 0
      (some { waitingItem with rejectCode := "E1" }) 0 false =
      [.reject "A" "liberator reject E1"] := by decide
  refine ⟨hplan, fun hfirst => ?_⟩
  rw [Liberator.Reconciler.planActions_eq] at hplan
  obtain ⟨_, _, _, hmem⟩ := hfirst [] _ [] hplan rfl
  cases hmem

end ExecutionEngine
