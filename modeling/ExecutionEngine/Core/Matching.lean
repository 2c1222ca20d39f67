/-
  Lost-ack matching, seen from the venue.

  The matcher wants its candidate to be unique for the row. Nothing asks whether
  the row is unique for the candidate: two rows may have one venue order as their
  only candidate, and then the one that is visited first gets it, because a match
  claims its number. `Contested` is that situation. Where no only candidate is
  contested, a match is decided by the row and the book alone (`visits_matchOf`),
  so it is the same in every processing order (`matching_unambiguous`).
-/
import ExecutionEngine.Core.Handles

namespace ExecutionEngine

open Async Async.Prog

namespace Reconcile

/-- The open rows of one book, as the store keeps them. -/
structure WorkingSet where
  rows : List OrderRow
  ids : (rows.map OrderRow.clientOrderId).Nodup
  unacked : ∀ row ∈ rows, Unacked row

/-- Any part of a listing of the store is one. -/
def WorkingSet.ofListing {db : Db} {rows : List OrderRow} {b : Broker} {i : Bool}
    (hu : AllUnacked db) (hl : IsListing rows (db.fetchOrdersForReconcile b i))
    (p : OrderRow → Bool) : WorkingSet where
  rows := rows.filter p
  ids := (listing_nodup hl).sublist (List.filter_sublist.map _)
  unacked row hrow := by
    obtain ⟨e, he, rfl⟩ := (mem_listing hl (List.mem_filter.mp hrow).1).1.find
    exact hu _ e he

variable {ι : Type} [VenueItem ι]

/-- Another PENDING_NEW row without a handle has a candidate with this number. -/
def Contested (rows : List OrderRow) (claimed : List String) (items : List ι) (cid no : String) :
    Prop :=
  ∃ row ∈ rows, row.clientOrderId ≠ cid ∧ row.status = .pendingNew ∧ row.brokerOrderId = none ∧
    ∃ item ∈ items, isCandidate row claimed item = true ∧ VenueItem.orderNo item = no

instance (rows : List OrderRow) (claimed : List String) (items : List ι) (cid no : String) :
    Decidable (Contested rows claimed items cid no) :=
  inferInstanceAs (Decidable (∃ row ∈ rows, _ ∧ _ ∧ _ ∧ ∃ item ∈ items, _ ∧ _))

/-- If the row has an only candidate, no other row wants it. -/
def Uncontested (rows : List OrderRow) (claimed : List String) (items : List ι) (row : OrderRow) :
    Prop :=
  ∀ item, items.filter (isCandidate row claimed) = [item] →
    ¬ Contested rows claimed items row.clientOrderId (VenueItem.orderNo item)

/-- The pass resolves the PENDING_NEW order `cid` to the venue order `no`. -/
def Assigns (items : List ι) (now : Time) (order : List OrderRow) (cid no : String) : Prop :=
  ∃ row res item, (row, res) ∈ visits items now order (handlesOf order) ∧
    row.clientOrderId = cid ∧ row.status = .pendingNew ∧ res.item = some item ∧
    VenueItem.orderNo item = no

theorem assigns_iff_any {items : List ι} {now : Time} {order : List OrderRow} {cid no : String} :
    Assigns items now order cid no ↔
      ((visits items now order (handlesOf order)).any fun v => v.1.clientOrderId = cid &&
        v.1.status = .pendingNew && v.2.item.any fun i => VenueItem.orderNo i = no) = true := by
  simp only [Assigns, List.any_eq_true, Bool.and_eq_true, decide_eq_true_eq, Option.any_eq_true]
  constructor
  · rintro ⟨row, res, item, hv, hcid, hnew, hitem, hno⟩
    exact ⟨(row, res), hv, ⟨hcid, hnew⟩, item, hitem, hno⟩
  · rintro ⟨⟨row, res⟩, hv, ⟨hcid, hnew⟩, item, hitem, hno⟩
    exact ⟨row, res, item, hv, hcid, hnew, hitem, hno⟩

instance (items : List ι) (now : Time) (order : List OrderRow) (cid no : String) :
    Decidable (Assigns items now order cid no) :=
  decidable_of_iff _ assigns_iff_any.symm

/-- No row raises. -/
def Completes (items : List ι) (now : Time) (order : List OrderRow) : Prop :=
  (visits items now order (handlesOf order)).map Prod.fst = order

/-! ## What decides a match -/

/-- The match of a row, from the row and the book alone. -/
def matchOf (claimed : List String) (items : List ι) (now : Time) (row : OrderRow) : Option ι :=
  if looksFor row now true then (outcomeOf (items.filter (isCandidate row claimed))).item else none

theorem filter_isCandidate_congr {claimed claimed' : List String} {items : List ι} {row : OrderRow}
    (h : ∀ item ∈ items, isCandidate row [] item = true →
      (VenueItem.orderNo item ∈ claimed ↔ VenueItem.orderNo item ∈ claimed')) :
    items.filter (isCandidate row claimed) = items.filter (isCandidate row claimed') := by
  refine List.filter_congr fun item hitem => ?_
  rw [Bool.eq_iff_iff]
  constructor
  · intro hcand
    obtain ⟨hno, hc⟩ := isCandidate_iff.mp hcand
    exact isCandidate_iff.mpr ⟨fun hin => hno ((h item hitem hc).mpr hin), hc⟩
  · intro hcand
    obtain ⟨hno, hc⟩ := isCandidate_iff.mp hcand
    exact isCandidate_iff.mpr ⟨fun hin => hno ((h item hitem hc).mp hin), hc⟩

/-- A row without a handle resolves as the matcher says. -/
theorem resolveRow_lost {row : OrderRow} {items : List ι} {claimed : List String} {now : Time}
    {requireStuck : Bool} {res : Resolution ι} (hrow : row.brokerOrderId = none)
    (h : resolveRow row items claimed now requireStuck = .ok res) :
    res.item = (if looksFor row now requireStuck then
      (outcomeOf (items.filter (isCandidate row claimed))).item else none) ∧
    res.claimed = match res.item with
      | some item => VenueItem.orderNo item :: claimed
      | none => claimed := by
  rcases resolveRow_cases h with ⟨item, hh, -⟩ | ⟨-, hl, m, rfl, rfl⟩ | ⟨-, hl, rfl⟩
  · rw [byHandle_none hrow] at hh
    cases hh
  · rw [if_pos hl]
    exact ⟨rfl, rfl⟩
  · rw [hl]
    exact ⟨rfl, rfl⟩

/-- A row that is not PENDING_NEW claims nothing. -/
theorem resolveRow_claimed_self {row : OrderRow} {items : List ι} {claimed : List String}
    {now : Time} {requireStuck : Bool} {res : Resolution ι} (hrow : row.status ≠ .pendingNew)
    (h : resolveRow row items claimed now requireStuck = .ok res) : res.claimed = claimed := by
  rcases resolveRow_cases h with ⟨item, -, rfl⟩ | ⟨-, hl, -⟩ | ⟨-, -, rfl⟩
  · rfl
  · simp [looksFor, hrow] at hl
  · rfl

/-- What has been claimed on top of `H` was an uncontested only candidate of a row that is done. -/
def Settled (W : WorkingSet) (H : List String) (items : List ι) (rest : List OrderRow)
    (claimed : List String) : Prop :=
  H ⊆ claimed ∧ ∀ no ∈ claimed, no ∈ H ∨
    ∃ cid, cid ∉ rest.map OrderRow.clientOrderId ∧ ¬ Contested W.rows H items cid no

theorem Settled.filter {W : WorkingSet} {H : List String} {items : List ι} {rest : List OrderRow}
    {claimed : List String} (h : Settled W H items rest claimed) {row : OrderRow}
    (hrest : row ∈ rest) (hrow : row ∈ W.rows) (hnew : row.status = .pendingNew) :
    items.filter (isCandidate row claimed) = items.filter (isCandidate row H) := by
  refine filter_isCandidate_congr fun item hitem hc => ⟨fun hin => ?_, fun hin => h.1 hin⟩
  rcases h.2 _ hin with hH | ⟨cid, hcid, hfree⟩
  · exact hH
  · by_contra hH
    refine hfree ⟨row, hrow, ?_, hnew, W.unacked row hrow hnew, item, hitem, ?_, rfl⟩
    · rintro rfl
      exact hcid (List.mem_map_of_mem hrest)
    · exact isCandidate_iff.mpr ⟨hH, hc⟩

/-- Where no only candidate is contested, every visit resolves as the row and the book say. -/
theorem visits_matchOf {W : WorkingSet} {H : List String} {items : List ι} {now : Time}
    (hfree : ∀ row ∈ W.rows, looksFor row now true = true → Uncontested W.rows H items row)
    {rest : List OrderRow} {claimed : List String} (hrest : rest ⊆ W.rows)
    (hids : (rest.map OrderRow.clientOrderId).Nodup) (h : Settled W H items rest claimed) :
    ∀ v ∈ visits items now rest claimed, v.1.status = .pendingNew →
      v.2.item = matchOf H items now v.1 := by
  induction rest generalizing claimed with
  | nil => exact fun v hv => by cases hv
  | cons row rest ih =>
    rw [List.map_cons, List.nodup_cons] at hids
    have hrow : row ∈ W.rows := hrest (List.mem_cons_self ..)
    unfold visits
    cases hres : resolveRow row items claimed now true with
    | error er => exact fun v hv => by cases hv
    | ok res =>
      have hsettled : (row.status = .pendingNew → res.item = matchOf H items now row) ∧
          Settled W H items rest res.claimed := by
        have hdrop : ∀ no ∈ claimed, no ∈ H ∨
            ∃ cid, cid ∉ rest.map OrderRow.clientOrderId ∧ ¬ Contested W.rows H items cid no := by
          intro no hno
          rcases h.2 no hno with hin | ⟨cid, hcid, hc⟩
          · exact .inl hin
          · exact .inr ⟨cid, fun hin => hcid (List.mem_cons_of_mem _ hin), hc⟩
        by_cases hnew : row.status = .pendingNew
        · obtain ⟨hitem, hclaimed⟩ := resolveRow_lost (W.unacked row hrow hnew) hres
          rw [h.filter (List.mem_cons_self ..) hrow hnew] at hitem
          refine ⟨fun _ => hitem, ?_⟩
          rw [hclaimed]
          cases hi : res.item with
          | none => exact ⟨h.1, hdrop⟩
          | some item =>
            -- the number claimed here is the only candidate of `row`
            rw [hi] at hitem
            obtain ⟨hl, hone⟩ : looksFor row now true = true ∧
                items.filter (isCandidate row H) = [item] := by
              split at hitem
              · rename_i hl
                exact ⟨hl, outcomeOf_item hitem.symm⟩
              · cases hitem
            refine ⟨fun no hno => List.mem_cons_of_mem _ (h.1 hno), fun no hno => ?_⟩
            rcases List.mem_cons.mp hno with rfl | hno
            · exact .inr ⟨row.clientOrderId, hids.1, hfree row hrow hl item hone⟩
            · exact hdrop no hno
        · refine ⟨fun hs => absurd hs hnew, ?_⟩
          rw [resolveRow_claimed_self hnew hres]
          exact ⟨h.1, hdrop⟩
      intro v hv hnew
      rcases List.mem_cons.mp hv with rfl | hv
      · exact hsettled.1 hnew
      · exact ih (fun r hr => hrest (List.mem_cons_of_mem _ hr)) hids.2 hsettled.2 v hv hnew

/-! ## Acks come from matches -/

section Acks

variable {ι : Type} [ReconcilerVenue ι] {items : List ι} {now : Time}

/-- An ack writes the match of one of these visits. -/
def AckIn (vs : List (OrderRow × Resolution ι)) : EngineOp → Prop
  | .store (.ackOrder cid no) => ∃ v ∈ vs, v.1.clientOrderId = cid ∧ v.1.status = .pendingNew ∧
    ∃ item, v.2.item = some item ∧ VenueItem.orderNo item = no
  | _ => True

theorem AckIn.of_subset {vs vs' : List (OrderRow × Resolution ι)} (h : vs ⊆ vs') {op : EngineOp}
    (hop : AckIn vs op) : AckIn vs' op := by
  rcases op with o | o
  · cases o with
    | ackOrder cid no =>
      obtain ⟨v, hv, hrest⟩ := hop
      exact ⟨v, h hv, hrest⟩
    | _ => trivial
  · trivial

theorem ackIn_routine {vs : List (OrderRow × Resolution ι)} {op : EngineOp} (hop : Routine op) :
    AckIn vs op := by
  rcases op with o | o
  · cases o <;> first | exact hop.elim | trivial
  · trivial

theorem applyVisit_acks (row : OrderRow) (res : Resolution ι) :
    Uses (AckIn [(row, res)]) (applyVisit row res now) := by
  refine Uses.bind (uses_store trivial) fun result => ?_
  refine Uses.bind (runPlan_cases (fun _ _ => trivial) fun _ => uses_sumOver fun a ha => ?_)
    fun _ => trivial
  by_cases hack : ∃ cid no, a = .ack cid no
  · obtain ⟨cid, no, rfl⟩ := hack
    obtain ⟨hnew, rfl, item, hitem, rfl⟩ := planActions_ack ha
    refine Uses.tryExcept (Uses.bind (uses_store ?_) fun _ => uses_ret 1) fun _ => trivial
    exact ⟨(row, res), List.mem_singleton_self _, rfl, hnew, item, hitem, rfl⟩
  · exact (routine_attempt fun cid no heq => hack ⟨cid, no, heq⟩).mono fun _ => ackIn_routine

/-- Whatever runs beside it, a group acks the matches of its visits only. -/
theorem applyRows_acks {E : Env} (rows : List OrderRow) (claimed : List String) (db : Db) :
    wp (sem E) (fun _ op => AckIn (visits items now rows claimed) op)
      (applyRows items now rows claimed) (fun _ _ => True) db := by
  induction rows generalizing claimed db with
  | nil => trivial
  | cons row rows ih =>
    unfold applyRows visits
    rw [applyRow_eq, Prog.bind_eq, wp_bind, wp_bind]
    cases hres : resolveRow row items claimed now true with
    | error er => trivial
    | ok res =>
      rw [Eff.lift, wp_ret, outcome_ok]
      dsimp only
      have hvisit : wp (sem E)
          (fun _ op => AckIn ((row, res) :: visits items now rows res.claimed) op)
          (applyVisit row res now) (fun _ _ => True) db := by
        refine ((applyVisit_acks row res).mono fun op hop => ?_).keeps (I := fun _ => True) trivial
          (fun _ _ hop _ => hop) fun _ _ _ _ _ _ _ => trivial
        exact hop.of_subset (by simp)
      refine wp_mono (wp_and hvisit (applyVisit_claimed row res db)) fun o db₁ h => ?_
      cases o with
      | error er => trivial
      | ok out =>
        obtain ⟨n, claimed'⟩ := out
        obtain rfl : claimed' = res.claimed := h.2
        rw [outcome_ok]
        dsimp only
        rw [Prog.bind_eq, wp_bind]
        have hrest := wp_pre_mono (ih res.claimed db₁) fun _ op hop =>
          AckIn.of_subset (List.subset_cons_self (row, res) _) hop
        refine wp_mono hrest fun o db₂ _ => ?_
        cases o <;> trivial

theorem assigns_of_ack {E : Env} {order : List OrderRow} {db db' : Db} {cid no : String}
    (h : Reaches (sem E) (applyRows items now order (handlesOf order)) db
      (.store (.ackOrder cid no)) db') : Assigns items now order cid no := by
  obtain ⟨⟨row, res⟩, hv, hcid, hnew, item, hitem, hno⟩ :=
    (applyRows_acks order (handlesOf order) db).reaches h
  exact ⟨row, res, item, hv, hcid, hnew, hitem, hno⟩

end Acks

/-! ## Every processing order -/

section Orders

variable {ι : Type} [ReconcilerVenue ι] {W : WorkingSet} {items : List ι} {now : Time}

theorem mem_handlesOf_perm {rows rows' : List OrderRow} (h : rows.Perm rows') {no : String} :
    no ∈ handlesOf rows ↔ no ∈ handlesOf rows' :=
  (h.filterMap _).mem_iff

/-- No row that a pass looks for has a contested only candidate. -/
def PassUncontested (W : WorkingSet) (items : List ι) (now : Time) : Prop :=
  ∀ row ∈ W.rows, looksFor row now true = true → Uncontested W.rows (handlesOf W.rows) items row

/-- In whatever order a pass goes over the rows, what it assigns is contested by no other row. -/
def PassUnique (W : WorkingSet) (items : List ι) (now : Time) : Prop :=
  ∀ order, order.Perm W.rows → ∀ cid no, Assigns items now order cid no →
    ¬ Contested W.rows (handlesOf W.rows) items cid no

theorem order_matchOf (hfree : PassUncontested W items now) {order : List OrderRow}
    (hperm : order.Perm W.rows) :
    ∀ v ∈ visits items now order (handlesOf order), v.1.status = .pendingNew →
      v.2.item = matchOf (handlesOf W.rows) items now v.1 := by
  refine visits_matchOf hfree hperm.subset ((hperm.map _).nodup_iff.mpr W.ids) ⟨?_, ?_⟩
  · exact fun no hno => (mem_handlesOf_perm hperm).mpr hno
  · exact fun no hno => .inl ((mem_handlesOf_perm hperm).mp hno)

/-- The assignments of an uncontested pass are the only candidates of its rows. -/
theorem assigns_iff (hfree : PassUncontested W items now) {order : List OrderRow}
    (hperm : order.Perm W.rows) (hdone : Completes items now order) {cid no : String} :
    Assigns items now order cid no ↔ ∃ row ∈ W.rows, row.clientOrderId = cid ∧
      row.status = .pendingNew ∧ ∃ item, matchOf (handlesOf W.rows) items now row = some item ∧
        VenueItem.orderNo item = no := by
  constructor
  · rintro ⟨row, res, item, hv, hcid, hnew, hitem, hno⟩
    obtain ⟨-, hrow, -⟩ := mem_visits hv
    refine ⟨row, hperm.subset hrow, hcid, hnew, item, ?_, hno⟩
    rw [← hitem]
    exact (order_matchOf hfree hperm _ hv hnew).symm
  · rintro ⟨row, hrow, hcid, hnew, item, hitem, hno⟩
    have hin : row ∈ (visits items now order (handlesOf order)).map Prod.fst := by
      rw [hdone]
      exact hperm.symm.subset hrow
    obtain ⟨⟨row', res⟩, hv, rfl⟩ := List.mem_map.mp hin
    exact ⟨row', res, item, hv, hcid, hnew, (order_matchOf hfree hperm _ hv hnew).trans hitem, hno⟩

theorem matchOf_some {claimed : List String} {row : OrderRow} {item : ι}
    (h : matchOf claimed items now row = some item) :
    looksFor row now true = true ∧ items.filter (isCandidate row claimed) = [item] := by
  unfold matchOf at h
  split at h
  · rename_i hl
    exact ⟨hl, outcomeOf_item h⟩
  · cases h

theorem passUnique_of_uncontested (hfree : PassUncontested W items now) :
    PassUnique W items now := by
  rintro order hperm cid no ⟨row, res, item, hv, rfl, hnew, hitem, rfl⟩
  obtain ⟨-, hrow, -⟩ := mem_visits hv
  have hmatch := order_matchOf hfree hperm _ hv hnew
  dsimp only at hmatch
  rw [hitem] at hmatch
  obtain ⟨hl, hone⟩ := matchOf_some hmatch.symm
  exact hfree row (hperm.subset hrow) hl item hone

/-- Every entry time of the book carries an offset, so the matcher does not raise. -/
def Aware (items : List ι) : Prop :=
  ∀ item ∈ items, ∀ t, VenueItem.entryTime item ≠ some (.naive t)

theorem candidates_aware (h : Aware items) (row : OrderRow) (claimed : List String) :
    ∃ cs, candidates row claimed items = .ok cs := by
  induction items with
  | nil => exact ⟨[], rfl⟩
  | cons item rest ih =>
    obtain ⟨cs, hcs⟩ := ih fun i hi => h i (List.mem_cons_of_mem _ hi)
    unfold candidates
    rw [hcs]
    split
    · split
      · exact ⟨cs, rfl⟩
      · rename_i t ht
        exact absurd ht (h item (List.mem_cons_self ..) t)
      · split
        · exact ⟨item :: cs, rfl⟩
        · exact ⟨cs, rfl⟩
    · exact ⟨cs, rfl⟩

theorem resolveRow_aware (h : Aware items) (row : OrderRow) (claimed : List String) (now : Time)
    (requireStuck : Bool) : ∃ res, resolveRow row items claimed now requireStuck = .ok res := by
  obtain ⟨cs, hcs⟩ := candidates_aware h row claimed
  exact exists_resolveRow hcs now requireStuck

/-- A pass that visits the row first gives it its only candidate. -/
theorem uncontested_of_passUnique (haware : Aware items) (h : PassUnique W items now) :
    PassUncontested W items now := by
  intro row hrow hl item hone
  have hnew : row.status = .pendingNew := by
    simp only [looksFor, Bool.and_eq_true, decide_eq_true_eq] at hl
    exact hl.1
  have hperm : (row :: W.rows.erase row).Perm W.rows := (List.perm_cons_erase hrow).symm
  refine h _ hperm row.clientOrderId _ ?_
  obtain ⟨res, hres⟩ := resolveRow_aware haware row (handlesOf (row :: W.rows.erase row)) now true
  refine ⟨row, res, item, ?_, rfl, hnew, ?_, rfl⟩
  · unfold visits
    rw [hres]
    exact List.mem_cons_self ..
  · rw [(resolveRow_lost (W.unacked row hrow hnew) hres).1, if_pos hl,
      filter_isCandidate_congr fun _ _ _ => mem_handlesOf_perm hperm, hone]
    rfl

/-! ## Bursts -/

/-- The rows of the working set a burst for `row` is matched beside. -/
def besides (row : OrderRow) (W : WorkingSet) : List OrderRow :=
  W.rows.filter fun r => r.account = row.account

/-- What a burst assigns is contested by no other row of the account. -/
def BurstUnique (W : WorkingSet) (items : List ι) (now : Time) (row : OrderRow) : Prop :=
  ∀ res item, resolveRow row items (Liberator.claimedByOthers row W.rows) now false = .ok res →
    res.item = some item → ¬ Contested (besides row W) (Liberator.claimedByOthers row W.rows) items
      row.clientOrderId (VenueItem.orderNo item)

/-- The same condition for the one row of a burst, however young. -/
def BurstUncontested (W : WorkingSet) (items : List ι) (row : OrderRow) : Prop :=
  Uncontested (besides row W) (Liberator.claimedByOthers row W.rows) items row

section Burst

variable {row : OrderRow} (hnew : row.status = .pendingNew) (hno : row.brokerOrderId = none)

include hnew hno

theorem burst_resolves {claimed : List String} {res : Resolution ι}
    (h : resolveRow row items claimed now false = .ok res) :
    res.item = (outcomeOf (items.filter (isCandidate row claimed))).item := by
  have hl : looksFor row now false = true := by simp [looksFor, hnew]
  rw [(resolveRow_lost hno h).1, if_pos hl]

theorem burstUnique_of_uncontested (hfree : BurstUncontested W items row) :
    BurstUnique W items now row := by
  intro res item hres hitem
  rw [burst_resolves hnew hno hres] at hitem
  exact hfree item (outcomeOf_item hitem)

theorem uncontested_of_burstUnique (haware : Aware items) (h : BurstUnique W items now row) :
    BurstUncontested W items row := by
  intro item hone
  obtain ⟨res, hres⟩ :=
    resolveRow_aware haware row (Liberator.claimedByOthers row W.rows) now false
  refine h res item hres ?_
  rw [burst_resolves hnew hno hres, hone]
  rfl

end Burst

/-- A pass acks what it assigns, in any order of the rows. Where no only candidate is contested,
    nothing it assigns is wanted by another row and the order of the rows makes no difference;
    and only there, if no entry time makes the matcher raise. The same goes for a burst. -/
theorem matching_unambiguous (W : WorkingSet) (items : List ι) (now : Time) :
    (∀ (E : Env) order db db' cid no, Reaches (sem E) (applyRows items now order (handlesOf order))
      db (.store (.ackOrder cid no)) db' → Assigns items now order cid no) ∧
    (PassUncontested W items now → PassUnique W items now ∧
      ∀ order order', order.Perm W.rows → order'.Perm W.rows → Completes items now order →
        Completes items now order' → ∀ cid no,
          (Assigns items now order cid no ↔ Assigns items now order' cid no)) ∧
    (Aware items → PassUnique W items now → PassUncontested W items now) ∧
    ∀ row : OrderRow, row.status = .pendingNew → row.brokerOrderId = none →
      (BurstUncontested W items row → BurstUnique W items now row) ∧
      (Aware items → BurstUnique W items now row → BurstUncontested W items row) := by
  refine ⟨fun E order db db' cid no h => assigns_of_ack h, fun hfree => ⟨?_, ?_⟩, ?_, ?_⟩
  · exact passUnique_of_uncontested hfree
  · intro order order' hperm hperm' hdone hdone' cid no
    rw [assigns_iff hfree hperm hdone, assigns_iff hfree hperm' hdone']
  · exact uncontested_of_passUnique
  · intro row hnew hno
    exact ⟨burstUnique_of_uncontested hnew hno, uncontested_of_burstUnique hnew hno⟩

end Orders

/-! ## Twins -/

/-- The two sample orders, inserted together. -/
def twinDb : Db :=
  ((Db.empty.insertOrder (sampleFields cidA .liberator) none 0).2.insertOrder
    (sampleFields cidB .liberator) none 0).2

theorem twinDb_unacked : AllUnacked twinDb := by
  intro cid e he _
  have hall : (twinDb.entries.all fun e => e.row.brokerOrderId = none) = true := by decide +kernel
  exact of_decide_eq_true (List.all_eq_true.mp hall e (Db.mem_of_find he))

/-- The working set a pass lists from it. -/
def twinSet : WorkingSet :=
  .ofListing (b := .liberator) (i := false) twinDb_unacked (isListing_refl_byCreatedAt _)
    fun row => row.account = "12345672"

/-- An ack of this order under this number. -/
def isAckOf (cid no : String) : EngineOp → Bool
  | .store (.ackOrder c n) => c = cid && n = no
  | _ => false

theorem isAckOf_iff {cid no : String} {op : EngineOp} :
    isAckOf cid no op = true ↔ op = .store (.ackOrder cid no) := by
  constructor
  · intro h
    unfold isAckOf at h
    split at h
    · simp only [Bool.and_eq_true, decide_eq_true_eq] at h
      rw [h.1, h.2]
    · cases h
  · rintro rfl
    simp [isAckOf]

/-- One venue order for two rows that look alike: a pass acks A with it although B wants it too,
    and a pass that comes to B first gives it to B. -/
theorem twin_match_contested :
    (∃ db, Reaches (sem plainEnv)
      (applyRows [sampleItem 0] (seconds 10) twinSet.rows (handlesOf twinSet.rows)) twinDb
      (.store (.ackOrder cidA "V1")) db) ∧
    Contested twinSet.rows (handlesOf twinSet.rows) [sampleItem 0] cidA "V1" ∧
    Assigns [sampleItem 0] (seconds 10) twinSet.rows cidA "V1" ∧
    ¬ Assigns [sampleItem 0] (seconds 10) twinSet.rows.reverse cidA "V1" ∧
    Assigns [sampleItem 0] (seconds 10) twinSet.rows.reverse cidB "V1" := by
  refine ⟨?_, by decide +kernel, by decide +kernel, by decide +kernel, by decide +kernel⟩
  have h : ((calls (plainHandler 0 (fun _ => {}) []).step
      (applyRows [sampleItem 0] (seconds 10) twinSet.rows (handlesOf twinSet.rows))
      twinDb).any fun c => isAckOf cidA "V1" c.1) = true := by decide +kernel
  obtain ⟨⟨op, db⟩, hmem, hop⟩ := List.any_eq_true.mp h
  obtain rfl := isAckOf_iff.mp hop
  exact ⟨db, mem_calls_reaches (plain_follows _) _ _ _ hmem⟩

end Reconcile

end ExecutionEngine
