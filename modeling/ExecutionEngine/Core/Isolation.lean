/-
  Accounts in one reconcile pass.

  A pass goes over the accounts (over account and market for Streaming Pro) one
  after the other. Nothing that is done for one of them touches the orders of
  another, so what becomes of an account's orders is decided by its own rows and
  its own response (`GroupOutcome`), provided the pass gets to it. It may not: an
  unreadable venue is skipped, but any other exception on the way (a row that does
  not validate, an entry time without an offset, an average price too wide to be
  rounded) ends the whole pass.

  `pass_isolated_iff` is the two-run law: with the account's own rows and response
  the same, the account comes out the same exactly if a group before it ends the
  pass in both runs or in neither, or if its own response changes nothing.

  Alike means up to the times at which the fills were written.
-/
import ExecutionEngine.Async.Relational
import ExecutionEngine.Core.Pass
import ExecutionEngine.Db.Alike

namespace ExecutionEngine

open Async Async.Prog

/-! ## One order in two runs -/

section InStep

variable {allows allows' : Db → (o : ExtOp) → Except Exn o.Res → Prop} {cid : String}

/-- The clock can be read. -/
def ClockRuns (allows : Db → (o : ExtOp) → Except Exn o.Res → Prop) : Prop :=
  ∀ db r, allows db .now r → ∃ t, r = .ok t

/-- Two runs, over stores that do not fail, treat the order alike. -/
abbrev AgreesOn (allows allows' : Db → (o : ExtOp) → Except Exn o.Res → Prop) (cid : String)
    {α : Type} (p q : Eff α) : Prop :=
  InStep (sem (.reliable allows)) (sem (.reliable allows')) (Alike cid) p q

/-- A statement that answers alike whenever it is served. -/
theorem agrees_store {o : StoreOp}
    (h : ∀ db db' r d r' d', Alike cid db db' → o.Served db r d → o.Served db' r' d' →
      r = r' ∧ Alike cid d d') :
    AgreesOn allows allows' cid (Eff.store o) (Eff.store o) :=
  inStep_perform fun db db' r d r' d' hrel hs hs' =>
    h db db' r d r' d' hrel (step_reliable hs) (step_reliable hs')

theorem agrees_fetchOrder :
    AgreesOn allows allows' cid (Eff.store (.fetchOrder cid)) (Eff.store (.fetchOrder cid)) := by
  refine agrees_store ?_
  rintro db db' r d r' d' hrel ⟨t, ht⟩ ⟨t', ht'⟩
  cases ht
  cases ht'
  exact ⟨congrArg Except.ok (alike_fetchOrder hrel), hrel⟩

theorem agrees_fetchOrderResult :
    AgreesOn allows allows' cid (Eff.store (.fetchOrderResult cid))
      (Eff.store (.fetchOrderResult cid)) := by
  refine agrees_store ?_
  rintro db db' r d r' d' hrel ⟨t, ht⟩ ⟨t', ht'⟩
  cases ht
  cases ht'
  exact ⟨congrArg Except.ok (alike_fetchOrderResult hrel), hrel⟩

theorem agrees_ackOrder (no : String) :
    AgreesOn allows allows' cid (Eff.store (.ackOrder cid no)) (Eff.store (.ackOrder cid no)) := by
  refine agrees_store ?_
  rintro db db' r d r' d' hrel ⟨t, ht⟩ ⟨t', ht'⟩
  have h := alike_ackOrder hrel no
  change db.ackOrder cid no = _ at ht
  change db'.ackOrder cid no = _ at ht'
  rwa [ht, ht'] at h

theorem agrees_writeStatus (s : OrderState) :
    AgreesOn allows allows' cid (Eff.store (.writeStatus cid s))
      (Eff.store (.writeStatus cid s)) := by
  refine agrees_store ?_
  rintro db db' r d r' d' hrel ⟨t, ht⟩ ⟨t', ht'⟩
  have h := alike_writeStatus hrel s
  change db.writeStatus cid s = _ at ht
  change db'.writeStatus cid s = _ at ht'
  rwa [ht, ht'] at h

theorem agrees_setRejectReason (reason : String) :
    AgreesOn allows allows' cid (Eff.store (.setRejectReason cid reason))
      (Eff.store (.setRejectReason cid reason)) := by
  refine agrees_store ?_
  rintro db db' r d r' d' hrel ⟨t, ht⟩ ⟨t', ht'⟩
  have h := alike_setRejectReason hrel reason
  change db.setRejectReason cid reason = _ at ht
  change db'.setRejectReason cid reason = _ at ht'
  rwa [ht, ht'] at h

theorem agrees_applyFill (fid : String) (price : Decimal) (qty : Int) (ts ts' : Time)
    (total : Int) :
    AgreesOn allows allows' cid (Eff.store (.applyFill cid fid price qty ts total))
      (Eff.store (.applyFill cid fid price qty ts' total)) := by
  intro db db' r d r' d' hrel hp hq
  obtain ⟨t, ht⟩ := step_reliable (exec_perform hp)
  obtain ⟨t', ht'⟩ := step_reliable (exec_perform hq)
  have h := alike_applyFill hrel fid price qty ts ts' total
  change db.applyFill cid fid price qty ts total = _ at ht
  change db'.applyFill cid fid price qty ts' total = _ at ht'
  rwa [ht, ht'] at h

theorem agrees_updateStatus (s : OrderState) :
    AgreesOn allows allows' cid (updateStatus cid s) (updateStatus cid s) := by
  unfold updateStatus
  refine agrees_fetchOrder.bind fun row => ?_
  split
  · exact inStep_raise _
  · split
    · exact inStep_ret _
    · split
      · exact agrees_writeStatus s
      · exact inStep_raise _

namespace Reconcile

theorem agrees_execute (hc : ClockRuns allows) (hc' : ClockRuns allows') (a : ReconcileAction) :
    AgreesOn allows allows' a.cid (execute a) (execute a) := by
  cases a with
  | ack c no => exact agrees_ackOrder no
  | fill c qty price fid total =>
    refine inStep_perform_bind (fun db db' r d r' d' hrel hs hs' => ?_) fun ts ts' => ?_
    · obtain ⟨rfl, hr⟩ := step_ext hs
      obtain ⟨rfl, hr'⟩ := step_ext hs'
      exact ⟨hc _ r hr, hc' _ r' hr', hrel⟩
    · exact (agrees_applyFill fid price qty ts ts' total).bind fun _ => inStep_ret _
  | cancelTwoStep c => exact (agrees_updateStatus _).bind fun _ => agrees_updateStatus _
  | cancelConfirm c => exact agrees_updateStatus _
  | expire c => exact agrees_updateStatus _
  | reject c reason => exact (agrees_updateStatus _).bind fun _ => agrees_setRejectReason _
  | postAckReject c reason =>
    exact (agrees_setRejectReason _).bind fun _ => (agrees_updateStatus _).bind fun _ =>
      agrees_updateStatus _

variable {ι : Type} [VenueItem ι]

/-- A visit treats its order alike in two runs. -/
theorem agrees_applyVisit (hc : ClockRuns allows) (hc' : ClockRuns allows') (row : OrderRow)
    (res : Resolution ι) (now : Time) :
    AgreesOn allows allows' row.clientOrderId (applyVisit row res now) (applyVisit row res now) := by
  unfold applyVisit
  refine agrees_fetchOrderResult.bind fun result => ?_
  refine InStep.bind (runPlan_cases (motive := fun p => AgreesOn allows allows' row.clientOrderId p p)
    (fun e _ => inStep_raise (S := engineSig) e) fun _ => inStep_sumOver fun a ha => ?_)
    fun n => inStep_ret _
  have hcid : a.cid = row.clientOrderId := planActions_cid row _ _ now _ a ha
  unfold attempt
  rw [← hcid]
  exact ((agrees_execute hc hc' a).bind fun _ => inStep_ret 1).tryExcept fun _ => inStep_ret 0

end Reconcile

end InStep

namespace Reconcile

/-! ## What a response makes of its own group -/

section Exact

variable {ι : Type}

/-- Some run of the visit takes the order from `x` to `y`. -/
def Visit [VenueItem ι] (v : OrderRow × Resolution ι) (now : Time) (x y : Option Entry) : Prop :=
  ∃ allows db r db', ClockRuns allows ∧ db.find v.1.clientOrderId = x ∧
    Exec (sem (.reliable allows)) (applyVisit v.1 v.2 now) db r db' ∧
    db'.find v.1.clientOrderId = y

/-- What a visit makes of an order is decided by the order. -/
theorem Visit.alike [VenueItem ι] {v : OrderRow × Resolution ι} {now : Time}
    {x y x' y' : Option Entry} (h : Visit v now x y) (h' : Visit v now x' y')
    (hx : x.map Entry.content = x'.map Entry.content) :
    y.map Entry.content = y'.map Entry.content := by
  obtain ⟨allows, db, r, d, hc, rfl, hexec, rfl⟩ := h
  obtain ⟨allows', db', r', d', hc', rfl, hexec', rfl⟩ := h'
  exact (agrees_applyVisit hc hc' v.1 v.2 now _ _ _ _ _ _ hx hexec hexec').2

/-- What a row of visits makes of one order. -/
def Outcome [VenueItem ι] (vs : List (OrderRow × Resolution ι)) (now : Time) (cid : String)
    (x y : Option Entry) : Prop :=
  (∀ v ∈ vs, v.1.clientOrderId ≠ cid) ∧ y = x ∨
    ∃ v ∈ vs, v.1.clientOrderId = cid ∧ Visit v now x y

theorem Outcome.untouched [VenueItem ι] {vs : List (OrderRow × Resolution ι)} {now : Time}
    {cid : String} {x y : Option Entry} (h : Outcome vs now cid x y)
    (hvs : ∀ v ∈ vs, v.1.clientOrderId ≠ cid) : y = x := by
  rcases h with ⟨-, heq⟩ | ⟨v, hv, hcid, -⟩
  · exact heq
  · exact absurd hcid (hvs v hv)

theorem Outcome.of_nil [VenueItem ι] {now : Time} {cid : String} {x y : Option Entry}
    (h : Outcome ([] : List (OrderRow × Resolution ι)) now cid x y) : y = x :=
  h.untouched fun _ hv => nomatch hv

/-- The filled quantity that `_apply_row` reads. -/
def filledIn (db : Db) (cid : String) : Int := filledOf (db.fetchOrderResult cid)

theorem filledIn_find {db db' : Db} {cid : String} (h : db.find cid = db'.find cid) :
    filledIn db cid = filledIn db' cid := by
  rw [filledIn, filledIn, Db.fetchOrderResult, Db.fetchOrderResult, h]

theorem filledIn_alike {db db' : Db} {cid : String} (h : Alike cid db db') :
    filledIn db cid = filledIn db' cid := by
  rw [filledIn, filledIn, alike_fetchOrderResult h]

/-- Does the matcher or the planner raise on a row of the group? -/
def stops [VenueItem ι] (filled : String → Int) (items : List ι) (now : Time) :
    List OrderRow → List String → Bool
  | [], _ => false
  | row :: rows, claimed =>
    match resolveRow row items claimed now true with
    | .error _ => true
    | .ok res => (planError row (filled row.clientOrderId) res.item).isSome ||
        stops filled items now rows res.claimed

/-- The visits of a group up to the one that raises. -/
def reached [VenueItem ι] (filled : String → Int) (items : List ι) (now : Time) :
    List OrderRow → List String → List (OrderRow × Resolution ι)
  | [], _ => []
  | row :: rows, claimed =>
    match resolveRow row items claimed now true with
    | .error _ => []
    | .ok res => (row, res) ::
        if (planError row (filled row.clientOrderId) res.item).isSome then []
        else reached filled items now rows res.claimed

theorem reached_sublist [VenueItem ι] (filled : String → Int) (items : List ι) (now : Time)
    (rows : List OrderRow) (claimed : List String) :
    (reached filled items now rows claimed).Sublist (visits items now rows claimed) := by
  induction rows generalizing claimed with
  | nil => exact List.Sublist.refl _
  | cons row rows ih =>
    unfold reached visits
    cases resolveRow row items claimed now true with
    | error e => exact List.Sublist.refl _
    | ok res =>
      dsimp only
      split
      · exact (List.nil_sublist _).cons_cons _
      · exact (ih _).cons_cons _

theorem stops_congr [VenueItem ι] {filled filled' : String → Int} (items : List ι) (now : Time)
    {rows : List OrderRow} (claimed : List String)
    (h : ∀ row ∈ rows, filled row.clientOrderId = filled' row.clientOrderId) :
    stops filled items now rows claimed = stops filled' items now rows claimed ∧
      reached filled items now rows claimed = reached filled' items now rows claimed := by
  induction rows generalizing claimed with
  | nil => exact ⟨rfl, rfl⟩
  | cons row rows ih =>
    have hrest (claimed' : List String) := ih claimed' fun r hr => h r (List.mem_cons_of_mem _ hr)
    unfold stops reached
    rw [h row List.mem_cons_self]
    split
    · exact ⟨rfl, rfl⟩
    · rw [(hrest _).1, (hrest _).2]
      exact ⟨rfl, rfl⟩

/-- Does a group end the pass, with this coming of its response? Only an unreadable venue is
    skipped. -/
def groupStops [VenueItem ι] (filled : String → Int) (now : Time) (rows : List OrderRow) :
    Except Exn (List ι) → Bool
  | .error e => !e.isTransport
  | .ok items => stops filled items now rows (handlesOf rows)

/-- The visits of a group. -/
def groupVisits [VenueItem ι] (filled : String → Int) (now : Time) (rows : List OrderRow) :
    Except Exn (List ι) → List (OrderRow × Resolution ι)
  | .error _ => []
  | .ok items => reached filled items now rows (handlesOf rows)

theorem group_congr [VenueItem ι] {filled filled' : String → Int} {now : Time}
    {rows : List OrderRow} (h : ∀ row ∈ rows, filled row.clientOrderId = filled' row.clientOrderId)
    (ans : Except Exn (List ι)) : groupStops filled now rows ans = groupStops filled' now rows ans ∧
      groupVisits filled now rows ans = groupVisits filled' now rows ans := by
  cases ans with
  | error e => exact ⟨rfl, rfl⟩
  | ok items => exact stops_congr items now _ h

variable {allows : Db → (o : ExtOp) → Except Exn o.Res → Prop} {now : Time}

/-- A visit raises what its planning raises, and returns otherwise. -/
theorem applyVisit_ends [VenueItem ι] (row : OrderRow) (res : Resolution ι) (db : Db) :
    wp (sem (.reliable allows)) (fun _ _ => True) (applyVisit row res now)
      (fun r _ => (∃ e, planError row (filledIn db row.clientOrderId) res.item = some e ∧
          r = .error e) ∨
        planError row (filledIn db row.clientOrderId) res.item = none ∧
          ∃ n, r = .ok (n, res.claimed)) db := by
  unfold applyVisit
  rw [Prog.bind_eq, wp_bind]
  refine wp_perform.mpr ⟨trivial, fun r d hs => ?_⟩
  obtain ⟨t, ht⟩ := step_reliable hs
  cases ht
  rw [outcome_ok, Prog.bind_eq, wp_bind]
  refine runPlan_cases (motive := fun p => wp _ _ p _ db) (fun e he => .inl ⟨e, he, rfl⟩)
    fun hnone => wp_mono (attempts_return _) fun r d hr => ?_
  obtain ⟨n, rfl⟩ := hr
  exact .inr ⟨hnone, n, rfl⟩

variable [ReconcilerVenue ι]

/-- The rows of a group: it returns unless the matcher or the planner raises, and each order is left
    as its visit leaves it. -/
theorem applyRows_exact (hc : ClockRuns allows) {items : List ι} {rows : List OrderRow}
    {claimed : List String} (hnodup : (rows.map OrderRow.clientOrderId).Nodup) (db : Db) :
    wp (sem (.reliable allows)) (fun _ _ => True) (applyRows items now rows claimed)
      (fun r db' => ((∃ n, r = .ok n) ↔ stops (filledIn db) items now rows claimed = false) ∧
        ∀ cid, Outcome (reached (filledIn db) items now rows claimed) now cid (db.find cid)
          (db'.find cid)) db := by
  induction rows generalizing claimed db with
  | nil => exact ⟨⟨fun _ => rfl, fun _ => ⟨0, rfl⟩⟩, fun cid => .inl ⟨(fun _ hv => by cases hv), rfl⟩⟩
  | cons row rows ih =>
    rw [List.map_cons, List.nodup_cons] at hnodup
    unfold applyRows stops reached
    rw [applyRow_eq, Prog.bind_eq, wp_bind, wp_bind]
    cases hres : resolveRow row items claimed now true with
    | error er =>
      refine ⟨⟨fun h => ?_, fun h => by cases h⟩, fun cid => .inl ⟨(fun _ hv => by cases hv), rfl⟩⟩
      obtain ⟨n, hn⟩ := h
      cases hn
    | ok res =>
      rw [Eff.lift, wp_ret, outcome_ok]
      refine wp_mono (wp_and (wp_and (applyVisit_ends row res db) (wp_strongest _ db))
        (wp_on_frame (on_applyVisit row res) db)) fun r db₁ h₁ => ?_
      obtain ⟨⟨hends, hexec⟩, hframe⟩ := h₁
      -- its own visit, where no later one comes back to it
      have hown {vs : List (OrderRow × Resolution ι)} {x : Option Entry}
          (hx : x = db₁.find row.clientOrderId) :
          Outcome ((row, res) :: vs) now row.clientOrderId (db.find row.clientOrderId) x :=
        .inr ⟨(row, res), List.mem_cons_self .., rfl, allows, db, _, db₁, hc, rfl, hexec, hx.symm⟩
      rcases hends with ⟨e, hraises, rfl⟩ | ⟨hquiet, n, rfl⟩
      · dsimp only
        rw [hraises, outcome_error]
        refine ⟨⟨fun h => ?_, fun h => by cases h⟩, fun cid => ?_⟩
        · obtain ⟨n, hn⟩ := h
          cases hn
        · by_cases hcid : row.clientOrderId = cid
          · exact hcid ▸ hown rfl
          · refine .inl ⟨fun v hv => ?_, hframe cid (Ne.symm hcid)⟩
            rwa [List.mem_singleton.mp hv]
      dsimp only
      rw [hquiet, outcome_ok]
      dsimp only
      rw [Prog.bind_eq, wp_bind]
      have hread : ∀ row' ∈ rows,
          filledIn db₁ row'.clientOrderId = filledIn db row'.clientOrderId := fun row' hrow' =>
        filledIn_find <| hframe _ fun heq => hnodup.1 (heq ▸ List.mem_map_of_mem hrow')
      have hsame := stops_congr items now res.claimed hread
      refine wp_mono (ih hnodup.2 db₁) fun r db₂ h₂ => ?_
      rw [hsame.1, hsame.2] at h₂
      obtain ⟨hok, hout⟩ := h₂
      have hothers : ∀ v ∈ reached (filledIn db) items now rows res.claimed,
          v.1.clientOrderId ≠ row.clientOrderId := by
        intro v hv heq
        have hmem := (visits_sublist items now rows res.claimed).subset
          (List.mem_map_of_mem (f := Prod.fst) ((reached_sublist ..).subset hv))
        exact hnodup.1 (List.mem_map.mpr ⟨v.1, hmem, heq⟩)
      have hall : ∀ cid, Outcome ((row, res) :: reached (filledIn db) items now rows res.claimed) now
          cid (db.find cid) (db₂.find cid) := by
        intro cid
        by_cases hcid : row.clientOrderId = cid
        · subst hcid
          exact hown ((hout row.clientOrderId).untouched hothers)
        · have hsame : db₁.find cid = db.find cid := hframe cid (Ne.symm hcid)
          have hrest := hout cid
          rw [hsame] at hrest
          rcases hrest with ⟨hnone, heq⟩ | ⟨v, hv, hvcid, hvisit⟩
          · refine .inl ⟨fun v hv => ?_, heq⟩
            rcases List.mem_cons.mp hv with rfl | hv
            · exact hcid
            · exact hnone v hv
          · exact .inr ⟨v, List.mem_cons_of_mem _ hv, hvcid, hvisit⟩
      cases r with
      | error er =>
        refine ⟨⟨fun h => ?_, fun h => ?_⟩, hall⟩
        · obtain ⟨m, hm⟩ := h
          cases hm
        · obtain ⟨m, hm⟩ := hok.mpr h
          cases hm
      | ok m => exact ⟨⟨fun _ => hok.mp ⟨m, rfl⟩, fun _ => ⟨n + m, rfl⟩⟩, hall⟩

/-- What comes of each group's response: the rows it lists, or what reading it raises. -/
abbrev Answer (ι : Type) := GroupKey → Except Exn (List ι)

/-- The venue responds so. -/
def Responds (E : Env) (answer : Answer ι) : Prop :=
  ∀ key db, wp (sem E) (fun _ _ => True) (ReconcilerVenue.fetchVenueOrders key : Eff (List ι))
    (fun r db' => db' = db ∧ r = answer key) db

/-- One group: it ends the pass or not, and each order is left as its visit leaves it. -/
theorem reconcileGroup_exact (hc : ClockRuns allows) {answer : Answer ι}
    (hans : Responds (.reliable allows) answer) {g : GroupKey × List OrderRow}
    (hnodup : (g.2.map OrderRow.clientOrderId).Nodup) (db : Db) :
    wp (sem (.reliable allows)) (fun _ _ => True) (reconcileGroup ι now g)
      (fun r db' => ((∃ n, r = .ok n) ↔ groupStops (filledIn db) now g.2 (answer g.1) = false) ∧
        ∀ cid, Outcome (groupVisits (filledIn db) now g.2 (answer g.1)) now cid (db.find cid)
          (db'.find cid))
      db := by
  have hstay {r : Except Exn Nat} {b : Bool} (hr : (∃ n, r = .ok n) ↔ b = false) :
      ((∃ n, r = .ok n) ↔ b = false) ∧
        ∀ cid, Outcome ([] : List (OrderRow × Resolution ι)) now cid (db.find cid) (db.find cid) :=
    ⟨hr, fun cid => .inl ⟨(fun _ hv => nomatch hv), rfl⟩⟩
  unfold reconcileGroup readBook
  rw [Prog.bind_eq, wp_bind, wp_tryExcept, wp_bind]
  refine wp_mono (hans g.1 db) fun r db₁ h₁ => ?_
  obtain ⟨rfl, rfl⟩ := h₁
  cases hanswer : answer g.1 with
  | ok items => exact applyRows_exact hc hnodup db₁
  | error e =>
    rw [outcome_error, outcome_error]
    simp only [groupStops, groupVisits]
    cases htransport : e.isTransport with
    | true => exact hstay ⟨fun _ => rfl, fun _ => ⟨0, rfl⟩⟩
    | false =>
      refine hstay ⟨fun h => ?_, fun h => nomatch h⟩
      obtain ⟨n, hn⟩ := h
      cases hn

/-- A group before the one of `key` ends the pass. -/
def cutOff (filled : String → Int) (now : Time) (answer : Answer ι)
    (gs : List (GroupKey × List OrderRow)) (key : GroupKey) : Bool :=
  (gs.takeWhile fun g => g.1 ≠ key).any fun g => groupStops filled now g.2 (answer g.1)

theorem cutOff_congr {filled filled' : String → Int} {answer : Answer ι}
    {gs : List (GroupKey × List OrderRow)} (key : GroupKey)
    (h : ∀ g ∈ gs, ∀ row ∈ g.2, filled row.clientOrderId = filled' row.clientOrderId) :
    cutOff filled now answer gs key = cutOff filled' now answer gs key := by
  have hsame : ∀ g ∈ gs.takeWhile fun g => g.1 ≠ key, groupStops filled now g.2 (answer g.1) =
      groupStops filled' now g.2 (answer g.1) := fun g hg =>
    (group_congr (h g ((List.takeWhile_sublist _).subset hg)) _).1
  rw [cutOff, cutOff, Bool.eq_iff_iff, List.any_eq_true, List.any_eq_true]
  exact exists_congr fun g => and_congr_right fun hg => by rw [hsame g hg]

omit [ReconcilerVenue ι] in
theorem groupVisits_mem [VenueItem ι] {filled : String → Int} {rows : List OrderRow}
    {ans : Except Exn (List ι)} {v : OrderRow × Resolution ι}
    (hv : v ∈ groupVisits filled now rows ans) : v.1 ∈ rows := by
  cases ans with
  | error e => cases hv
  | ok items =>
    obtain ⟨-, hrow, -⟩ := mem_visits ((reached_sublist ..).subset hv)
    exact hrow

/-- All groups: an order is left as its group's response says if the pass gets to the group, and
    as it was if not. -/
theorem groups_exact (hc : ClockRuns allows) {answer : Answer ι}
    (hans : Responds (.reliable allows) answer) {gs : List (GroupKey × List OrderRow)}
    (hapart : gs.Pairwise Apart) (hkeys : (gs.map Prod.fst).Nodup)
    (hnodup : ∀ g ∈ gs, (g.2.map OrderRow.clientOrderId).Nodup) (db : Db) :
    wp (sem (.reliable allows)) (fun _ _ => True) (sumOver (reconcileGroup ι now) gs)
      (fun _ db' =>
        (∀ c, (∀ g ∈ gs, ∀ row ∈ g.2, row.clientOrderId ≠ c) → db'.find c = db.find c) ∧
        ∀ g ∈ gs, ∀ row ∈ g.2,
          Outcome (if cutOff (filledIn db) now answer gs g.1 then []
            else groupVisits (filledIn db) now g.2 (answer g.1)) now
            row.clientOrderId (db.find row.clientOrderId) (db'.find row.clientOrderId)) db := by
  induction gs generalizing db with
  | nil => exact ⟨fun _ _ => rfl, fun _ hg => by cases hg⟩
  | cons g gs ih =>
    rw [List.pairwise_cons] at hapart
    rw [List.map_cons, List.nodup_cons] at hkeys
    have hown : cutOff (filledIn db) now answer (g :: gs) g.1 = false := by simp [cutOff]
    have hlater {g' : GroupKey × List OrderRow} (hg' : g' ∈ gs) :
        cutOff (filledIn db) now answer (g :: gs) g'.1 =
          (groupStops (filledIn db) now g.2 (answer g.1) ||
            cutOff (filledIn db) now answer gs g'.1) := by
      have hne : g.1 ≠ g'.1 := fun heq => hkeys.1 (heq ▸ List.mem_map_of_mem hg')
      simp [cutOff, hne]
    rw [Prog.sumOver, wp_bind]
    refine wp_mono (reconcileGroup_exact hc hans (hnodup g (List.mem_cons_self ..)) db)
      fun r db₁ h₁ => ?_
    obtain ⟨hok, hout⟩ := h₁
    have hframe : ∀ c, (∀ row ∈ g.2, row.clientOrderId ≠ c) → db₁.find c = db.find c :=
      fun c hne => (hout c).untouched fun v hv => hne v.1 (groupVisits_mem hv)
    cases r with
    | error e =>
      -- the group raised: nothing after it is reached
      have hstop : groupStops (filledIn db) now g.2 (answer g.1) = true := by
        cases hs : groupStops (filledIn db) now g.2 (answer g.1) with
        | true => rfl
        | false =>
          obtain ⟨n, hn⟩ := hok.mpr hs
          cases hn
      refine ⟨fun c hne => hframe c (hne g (List.mem_cons_self ..)), fun g' hg' row hrow => ?_⟩
      rcases List.mem_cons.mp hg' with rfl | hg'
      · rw [hown]
        exact hout row.clientOrderId
      · rw [hlater hg', hstop, Bool.true_or, if_pos rfl]
        exact .inl ⟨(fun _ hv => by cases hv), hframe _ fun row' hrow' =>
          hapart.1 g' hg' row' hrow' row hrow⟩
    | ok n =>
      have hgo : groupStops (filledIn db) now g.2 (answer g.1) = false := hok.mp ⟨n, rfl⟩
      rw [outcome_ok, wp_bind]
      refine wp_mono (ih hapart.2 hkeys.2 (fun g' hg' => hnodup g' (List.mem_cons_of_mem _ hg'))
        db₁) fun r db₂ h₂ => ?_
      obtain ⟨hframe₂, hout₂⟩ := h₂
      -- the group has left what the later ones read
      have hread : ∀ g' ∈ gs, ∀ row ∈ g'.2,
          filledIn db₁ row.clientOrderId = filledIn db row.clientOrderId := fun g' hg' row hrow =>
        filledIn_find <| hframe _ fun row' hrow' => hapart.1 g' hg' row' hrow' row hrow
      have hend : (∀ c, (∀ g' ∈ g :: gs, ∀ row ∈ g'.2, row.clientOrderId ≠ c) →
            db₂.find c = db.find c) ∧
          ∀ g' ∈ g :: gs, ∀ row ∈ g'.2,
            Outcome (if cutOff (filledIn db) now answer (g :: gs) g'.1 then []
                else groupVisits (filledIn db) now g'.2 (answer g'.1)) now
              row.clientOrderId (db.find row.clientOrderId) (db₂.find row.clientOrderId) := by
        refine ⟨fun c hne => ?_, fun g' hg' row hrow => ?_⟩
        · rw [hframe₂ c fun g' hg' => hne g' (List.mem_cons_of_mem _ hg')]
          exact hframe c (hne g (List.mem_cons_self ..))
        · rcases List.mem_cons.mp hg' with rfl | hg'
          · rw [hown, hframe₂ row.clientOrderId fun g'' hg'' row' hrow' heq =>
              hapart.1 g'' hg'' row hrow row' hrow' heq.symm]
            exact hout row.clientOrderId
          · rw [hlater hg', hgo, Bool.false_or, ← hframe row.clientOrderId fun row' hrow' =>
              hapart.1 g' hg' row' hrow' row hrow]
            rw [← cutOff_congr g'.1 hread, ← (group_congr (hread g' hg') (answer g'.1)).2]
            exact hout₂ g' hg' row hrow
      cases r <;> exact hend

end Exact

/-! ## Two passes -/

section TwoRuns

variable {ι : Type} [ReconcilerVenue ι] {now : Time} {key : GroupKey} {filled : String → Int}

/-- The listed rows of one group. -/
def groupRows (ι : Type) [ReconcilerVenue ι] (rows : List OrderRow) (key : GroupKey) :
    List OrderRow :=
  rows.filter fun r => ReconcilerVenue.groupKey ι r = key

/-- A pass over the listing `rows` at `now`, its responses coming to `answer`. -/
structure Ran (answer : Answer ι) (rows : List OrderRow) (now : Time) (db db' : Db) : Prop where
  listing : IsListing rows (db.fetchOrdersForReconcile (ReconcilerVenue.broker ι) false)
  exec : ∃ allows o, ClockRuns allows ∧ Responds (.reliable allows) answer ∧
    Exec (sem (.reliable allows)) (sumOver (reconcileGroup ι now) (groups ι rows)) db o db'

/-- Every `reconcileOnce`, however it ends, is such a pass. -/
theorem ran_of_reconcileOnce {allows : Db → (o : ExtOp) → Except Exn o.Res → Prop}
    {answer : Answer ι} {db db' : Db} {o : Except Exn Nat} (hc : ClockRuns allows)
    (hans : Responds (.reliable allows) answer)
    (h : Exec (sem (.reliable allows)) (reconcileOnce ι) db o db') :
    ∃ rows now, Ran answer rows now db db' := by
  have hpass {rows : List OrderRow} (t : Time)
      (hl : IsListing rows (db.fetchOrdersForReconcile (ReconcilerVenue.broker ι) false)) :
      wp (sem (.reliable allows)) (fun _ _ => True)
        (sumOver (reconcileGroup ι t) (groups ι rows))
        (fun _ db' => ∃ rows now, Ran answer rows now db db') db :=
    wp_mono (wp_strongest _ db) fun o _ hexec => ⟨rows, t, hl, allows, o, hc, hans, hexec⟩
  have hwp : wp (sem (.reliable allows)) (fun _ _ => True) (reconcileOnce ι)
      (fun _ db' => ∃ rows now, Ran answer rows now db db') db := by
    unfold reconcileOnce
    rw [Prog.bind_eq, wp_bind]
    refine wp_perform.mpr ⟨trivial, fun r db₁ hs => ?_⟩
    obtain ⟨rfl, rows, rfl, hl⟩ := step_reliable hs
    rw [outcome_ok]
    split
    · rename_i hempty
      obtain rfl := List.isEmpty_iff.mp hempty
      exact hpass 0 hl
    · rw [Prog.bind_eq, wp_bind]
      refine wp_perform.mpr ⟨trivial, fun r db₂ hs => ?_⟩
      obtain ⟨rfl, hr⟩ := step_ext hs
      obtain ⟨t, rfl⟩ := hc _ r hr
      exact hpass t hl
  exact hwp.exec h

theorem groups_keys (rows : List OrderRow) : ((groups ι rows).map Prod.fst).Nodup := by
  unfold groups
  rw [List.map_map]
  exact (nodup_firstKeys _).map_on fun a _ b _ h => h

theorem groupRows_nodup {rows : List OrderRow}
    (h : (rows.map OrderRow.clientOrderId).Nodup) (key : GroupKey) :
    ((groupRows ι rows key).map OrderRow.clientOrderId).Nodup :=
  h.sublist (List.filter_sublist.map _)

theorem Ran.exact {answer : Answer ι} {rows : List OrderRow} {db db' : Db}
    (h : Ran answer rows now db db') :
    (∀ c, (∀ g ∈ groups ι rows, ∀ row ∈ g.2, row.clientOrderId ≠ c) → db'.find c = db.find c) ∧
    ∀ g ∈ groups ι rows, ∀ row ∈ g.2,
      Outcome (if cutOff (filledIn db) now answer (groups ι rows) g.1 then []
          else groupVisits (filledIn db) now g.2 (answer g.1)) now
        row.clientOrderId (db.find row.clientOrderId) (db'.find row.clientOrderId) := by
  obtain ⟨allows, o, hc, hans, hexec⟩ := h.exec
  have hlisted := listing_nodup h.listing
  have hgroups : ∀ g ∈ groups ι rows, (g.2.map OrderRow.clientOrderId).Nodup := by
    intro g hg
    rw [mem_groups hg]
    exact groupRows_nodup hlisted g.1
  exact (groups_exact hc hans (groups_apart hlisted) (groups_keys rows) hgroups db).exec hexec

/-- What a pass makes of a listed order: what its own response does, unless the pass is cut off. -/
theorem Ran.outcome {answer : Answer ι} {rows : List OrderRow} {db db' : Db}
    (h : Ran answer rows now db db') {row : OrderRow} (hrow : row ∈ groupRows ι rows key) :
    Outcome (if cutOff (filledIn db) now answer (groups ι rows) key then []
        else groupVisits (filledIn db) now (groupRows ι rows key) (answer key)) now
      row.clientOrderId (db.find row.clientOrderId) (db'.find row.clientOrderId) := by
  obtain ⟨hmem, hkey⟩ := List.mem_filter.mp hrow
  have hkey : ReconcilerVenue.groupKey ι row = key := of_decide_eq_true hkey
  obtain ⟨g, hg, hgkey, hin⟩ := exists_group (ι := ι) hmem
  have hout := h.exact.2 g hg row hin
  have hg₂ : g.2 = groupRows ι rows key := by
    rw [mem_groups hg, hgkey, hkey]
    rfl
  rwa [hg₂, hgkey, hkey] at hout

/-- An order that is not listed is left alone. -/
theorem Ran.unlisted {answer : Answer ι} {rows : List OrderRow} {db db' : Db}
    (h : Ran answer rows now db db') {cid : String}
    (hcid : ∀ row ∈ rows, row.clientOrderId ≠ cid) : db'.find cid = db.find cid := by
  refine h.exact.1 cid fun g hg row hrow => hcid row ?_
  rw [mem_groups hg] at hrow
  exact (List.mem_filter.mp hrow).1

theorem groupVisits_unique {rows : List OrderRow}
    (hnodup : (rows.map OrderRow.clientOrderId).Nodup) {ans : Except Exn (List ι)}
    {v w : OrderRow × Resolution ι} (hv : v ∈ groupVisits filled now rows ans)
    (hw : w ∈ groupVisits filled now rows ans) (h : v.1.clientOrderId = w.1.clientOrderId) :
    v = w := by
  cases ans with
  | error e => cases hv
  | ok items =>
    exact visit_unique hnodup ((reached_sublist ..).subset hv) ((reached_sublist ..).subset hw) h

/-- The response of a group decides what becomes of an order in it. -/
theorem Outcome.alike {rows : List OrderRow} (hnodup : (rows.map OrderRow.clientOrderId).Nodup)
    {ans : Except Exn (List ι)} {cid : String} {x y x' y' : Option Entry}
    (h : Outcome (groupVisits filled now rows ans) now cid x y)
    (h' : Outcome (groupVisits filled now rows ans) now cid x' y')
    (hx : x.map Entry.content = x'.map Entry.content) :
    y.map Entry.content = y'.map Entry.content := by
  rcases h with ⟨hnone, rfl⟩ | ⟨v, hv, hcid, hvisit⟩
  · rw [h'.untouched hnone]
    exact hx
  · rcases h' with ⟨hnone, -⟩ | ⟨w, hw, hcid', hvisit'⟩
    · exact absurd hcid (hnone v hv)
    · obtain rfl := groupVisits_unique hnodup hv hw (hcid.trans hcid'.symm)
      exact hvisit.alike hvisit' hx

/-- A response that leaves an order alone once does so always. -/
theorem Outcome.stays {rows : List OrderRow} (hnodup : (rows.map OrderRow.clientOrderId).Nodup)
    {ans : Except Exn (List ι)} {cid : String} {x y x' y' : Option Entry}
    (h : Outcome (groupVisits filled now rows ans) now cid x y)
    (hstay : y.map Entry.content = x.map Entry.content)
    (hx : x'.map Entry.content = x.map Entry.content)
    (h' : Outcome (groupVisits filled now rows ans) now cid x' y') :
    y'.map Entry.content = x'.map Entry.content :=
  (h'.alike hnodup h hx).trans (hstay.trans hx.symm)

section Cut

variable {rows : List OrderRow} {ans : Except Exn (List ι)} {cid : String} {b b' : Bool}
  {x y x' y' : Option Entry}

/-- Reached in both passes or in neither, the group leaves an order alike. -/
theorem Outcome.alike_of_cut (hnodup : (rows.map OrderRow.clientOrderId).Nodup)
    (h : Outcome (if b then [] else groupVisits filled now rows ans) now cid x y)
    (h' : Outcome (if b then [] else groupVisits filled now rows ans) now cid x' y')
    (hx : x.map Entry.content = x'.map Entry.content) :
    y.map Entry.content = y'.map Entry.content := by
  cases b with
  | true =>
    rw [h.of_nil, h'.of_nil]
    exact hx
  | false => exact h.alike hnodup h' hx

/-- Reached in one pass only, and still left alike: its response leaves the order alone. -/
theorem Outcome.stays_of_ne (hnodup : (rows.map OrderRow.clientOrderId).Nodup) (hne : b ≠ b')
    (h : Outcome (if b then [] else groupVisits filled now rows ans) now cid x y)
    (h' : Outcome (if b' then [] else groupVisits filled now rows ans) now cid x' y')
    (hx : x.map Entry.content = x'.map Entry.content)
    (hy : y.map Entry.content = y'.map Entry.content) {u w : Option Entry}
    (hu : u.map Entry.content = x.map Entry.content)
    (hw : Outcome (groupVisits filled now rows ans) now cid u w) :
    w.map Entry.content = u.map Entry.content := by
  cases b with
  | true =>
    obtain rfl : b' = false := Bool.eq_false_iff.mpr hne.symm
    rw [h.of_nil] at hy
    exact Outcome.stays hnodup h' (hy.symm.trans hx) (hu.trans hx) hw
  | false =>
    obtain rfl : b' = true := Bool.eq_true_of_not_eq_false hne.symm
    rw [h'.of_nil] at hy
    exact Outcome.stays hnodup h (hy.trans hx.symm) hu hw

/-- Reached or not, an idle response leaves the order alone. -/
theorem Outcome.stays_of_idle {x₀ : Option Entry}
    (hidle : ∀ u w, u.map Entry.content = x₀.map Entry.content →
      Outcome (groupVisits filled now rows ans) now cid u w →
        w.map Entry.content = u.map Entry.content)
    (hx : x.map Entry.content = x₀.map Entry.content)
    (h : Outcome (if b then [] else groupVisits filled now rows ans) now cid x y) :
    y.map Entry.content = x.map Entry.content := by
  cases b with
  | true => rw [h.of_nil]
  | false => exact hidle x y hx h

end Cut

/-- The order belongs to the group. -/
def Owned (ι : Type) [ReconcilerVenue ι] (db : Db) (key : GroupKey) (cid : String) : Prop :=
  ∃ e, db.find cid = some e ∧ ReconcilerVenue.groupKey ι e.row = key

/-- The group's own response changes none of its orders. -/
def Idle (now : Time) (rows : List OrderRow) (ans : Except Exn (List ι)) (db : Db) : Prop :=
  ∀ row ∈ rows, ∀ x y, x.map Entry.content = (db.find row.clientOrderId).map Entry.content →
    Outcome (groupVisits (filledIn db) now rows ans) now row.clientOrderId x y →
      y.map Entry.content = x.map Entry.content

/-- A listed row of a pass is the stored one. -/
theorem Ran.current {answer : Answer ι} {rows : List OrderRow} {db db' : Db}
    (h : Ran answer rows now db db') {row : OrderRow} (hrow : row ∈ rows) :
    ∃ e, db.find row.clientOrderId = some e ∧ e.row = row :=
  (mem_listing h.listing hrow).1.find

/-- An order of the group that is not listed in it is not listed at all. -/
theorem Ran.unlisted_of {answer : Answer ι} {rows : List OrderRow} {db db' : Db}
    (h : Ran answer rows now db db') {cid : String} {e : Entry} (he : db.find cid = some e)
    (hkey : ReconcilerVenue.groupKey ι e.row = key)
    (hcid : ∀ row ∈ groupRows ι rows key, row.clientOrderId ≠ cid) :
    db'.find cid = db.find cid := by
  refine h.unlisted fun row hrow heq => hcid row (List.mem_filter.mpr ⟨hrow, ?_⟩) heq
  obtain ⟨e', he', rfl⟩ := h.current hrow
  rw [heq, he] at he'
  obtain rfl := Option.some.inj he'
  exact decide_eq_true hkey

/-- An order of the group that neither pass lists is left alone by both. -/
theorem unlisted_alike {answer₁ answer₂ : Answer ι} {rows₁ rows₂ : List OrderRow}
    {db₁ db₁' db₂ db₂' : Db} (h₁ : Ran answer₁ rows₁ now db₁ db₁')
    (h₂ : Ran answer₂ rows₂ now db₂ db₂')
    (hrows : groupRows ι rows₁ key = groupRows ι rows₂ key) {cid : String}
    (hcid : Owned ι db₁ key cid) (hnone : ∀ row ∈ groupRows ι rows₁ key, row.clientOrderId ≠ cid)
    (hsame : Alike cid db₁ db₂) : Alike cid db₁' db₂' := by
  obtain ⟨e, he, hkey⟩ := hcid
  rcases hsame.cases with ⟨hno, -⟩ | ⟨e₁, e₂, he₁, he₂, hcontent⟩
  · rw [he] at hno
    cases hno
  · rw [he] at he₁
    obtain rfl := Option.some.inj he₁
    have hkey₂ : ReconcilerVenue.groupKey ι e₂.row = key := (content_iff.mp hcontent).1 ▸ hkey
    rw [Alike, h₁.unlisted_of he hkey hnone, h₂.unlisted_of he₂ hkey₂ (hrows ▸ hnone)]
    exact hsame

/-- The two-run law. Two passes at one time, alike in the rows and the response of one group: the
    group's orders come out alike exactly if a group before it ends the pass in both or in neither,
    or if its own response changes nothing. -/
theorem pass_isolated_iff {answer₁ answer₂ : Answer ι} {rows₁ rows₂ : List OrderRow}
    {db₁ db₁' db₂ db₂' : Db} (h₁ : Ran answer₁ rows₁ now db₁ db₁')
    (h₂ : Ran answer₂ rows₂ now db₂ db₂') (hans : answer₁ key = answer₂ key)
    (hrows : groupRows ι rows₁ key = groupRows ι rows₂ key)
    (hstart : ∀ cid, Owned ι db₁ key cid → Alike cid db₁ db₂) :
    (∀ cid, Owned ι db₁ key cid → Alike cid db₁' db₂') ↔
      cutOff (filledIn db₁) now answer₁ (groups ι rows₁) key =
          cutOff (filledIn db₂) now answer₂ (groups ι rows₂) key ∨
        Idle now (groupRows ι rows₁ key) (answer₁ key) db₁ := by
  have hnodup := groupRows_nodup (ι := ι) (listing_nodup h₁.listing) key
  have howned {row : OrderRow} (hrow : row ∈ groupRows ι rows₁ key) :
      Owned ι db₁ key row.clientOrderId := by
    obtain ⟨hmem, hkey⟩ := List.mem_filter.mp hrow
    obtain ⟨e, he, rfl⟩ := h₁.current hmem
    exact ⟨e, he, of_decide_eq_true hkey⟩
  have hout₁ {row : OrderRow} (hrow : row ∈ groupRows ι rows₁ key) := h₁.outcome hrow
  have hout₂ {row : OrderRow} (hrow : row ∈ groupRows ι rows₁ key) := h₂.outcome (hrows ▸ hrow)
  have hread : ∀ row ∈ groupRows ι rows₁ key,
      filledIn db₁ row.clientOrderId = filledIn db₂ row.clientOrderId :=
    fun row hrow => filledIn_alike (hstart _ (howned hrow))
  rw [← hrows, ← hans, ← (group_congr hread _).2] at hout₂
  constructor
  · intro hend
    by_cases hcut : cutOff (filledIn db₁) now answer₁ (groups ι rows₁) key =
        cutOff (filledIn db₂) now answer₂ (groups ι rows₂) key
    · exact .inl hcut
    · refine .inr fun row hrow x y hx hy => ?_
      exact Outcome.stays_of_ne hnodup hcut (hout₁ hrow) (hout₂ hrow) (hstart _ (howned hrow))
        (hend _ (howned hrow)) hx hy
  · intro hcond cid hcid
    have hsame := hstart cid hcid
    by_cases hlisted : ∃ row ∈ groupRows ι rows₁ key, row.clientOrderId = cid
    · obtain ⟨row, hrow, rfl⟩ := hlisted
      have ho₁ := hout₁ hrow
      have ho₂ := hout₂ hrow
      rcases hcond with hcut | hidle
      · rw [← hcut] at ho₂
        exact ho₁.alike_of_cut hnodup ho₂ hsame
      · have hstay₁ := Outcome.stays_of_idle (hidle row hrow) rfl ho₁
        have hstay₂ := Outcome.stays_of_idle (hidle row hrow) hsame.symm ho₂
        exact hstay₁.trans (hsame.trans hstay₂.symm)
    · have hnone : ∀ row ∈ groupRows ι rows₁ key, row.clientOrderId ≠ cid :=
        fun row hrow heq => hlisted ⟨row, hrow, heq⟩
      exact unlisted_alike h₁ h₂ hrows hcid hnone hsame

end TwoRuns

/-! ## Two accounts -/

section Sample

open Liberator (VenueOrderItem)

/-- The account in front of the sample account. -/
def frontAccount : String := "11111111"

/-- The front account has an order that waits for its ack since 0; the sample account has one that
    rests under V1. -/
def twoAccounts : Db :=
  let db := (Db.empty.insertOrder { sampleFields cidA .liberator with account := frontAccount }
    none 0).2
  let db := (db.insertOrder (sampleFields cidB .liberator) none 1).2
  (db.ackOrder cidB "V1").2

/-- The sample account's order is matched by 40; what comes of the front account's response is
    given. -/
def frontAnswer (front : Except Exn (List VenueOrderItem)) : Answer VenueOrderItem :=
  fun key => if key.1 = frontAccount then front else .ok [sampleItem 40]

/-- Two minutes later. -/
def accountsHandler (front : Except Exn (List VenueOrderItem)) : Handler where
  time := seconds 120
  ext _ o := match o with
    | .liberatorOrders account => frontAnswer front (account, none)
    | o => plainExt (seconds 120) (fun _ => {}) [] o

/-- The world of that handler. -/
def accountsAllow (front : Except Exn (List VenueOrderItem)) (_ : Db) (o : ExtOp)
    (r : Except Exn o.Res) : Prop :=
  r = (accountsHandler front).ext Db.empty o

theorem accounts_clock (front : Except Exn (List VenueOrderItem)) :
    ClockRuns (accountsAllow front) :=
  fun _ _ hr => ⟨seconds 120, hr⟩

theorem accounts_respond (front : Except Exn (List VenueOrderItem)) :
    Responds (.reliable (accountsAllow front)) (frontAnswer front) := by
  intro key db
  refine wp_perform.mpr ⟨trivial, fun r d hs => ?_⟩
  obtain ⟨rfl, rfl⟩ := step_ext hs
  exact ⟨rfl, rfl⟩

theorem accounts_follow (front : Except Exn (List VenueOrderItem)) :
    Follows (sem (.reliable (accountsAllow front))) (accountsHandler front).step :=
  handler_follows fun _ _ => rfl

/-- A row of the front account's book as its order would show, with an entry time without an
    offset. -/
def naiveItem : VenueOrderItem := { sampleItem 0 with orderNo := "V9", entryTime := some (.naive 0) }

/-- How a pass over the two accounts ends. -/
def accountsPass (front : Except Exn (List VenueOrderItem)) : Option (Except Exn Nat) × Db :=
  run (accountsHandler front).step
    (sumOver (reconcileGroup VenueOrderItem (seconds 120))
      (groups VenueOrderItem (twoAccounts.fetchOrdersForReconcile .liberator false))) twoAccounts

theorem accounts_ran (front : Except Exn (List VenueOrderItem))
    (h : (accountsPass front).1.isSome = true) :
    Ran (frontAnswer front) (twoAccounts.fetchOrdersForReconcile .liberator false) (seconds 120)
      twoAccounts (accountsPass front).2 where
  listing := isListing_refl_byCreatedAt _
  exec := by
    obtain ⟨o, ho⟩ := Option.isSome_iff_exists.mp h
    exact ⟨accountsAllow front, o, accounts_clock front, accounts_respond front,
      run_exec (accounts_follow front) _ _ ho⟩

/-- An empty book and an unreadable one of the front account: the sample account is filled alike. -/
theorem front_unreadable_isolated :
    Alike cidB (accountsPass (.ok [])).2 (accountsPass (.error (.transportError "timeout"))).2 := by
  have hans : frontAnswer (.ok []) ("12345672", none) =
      frontAnswer (.error (.transportError "timeout")) ("12345672", none) := rfl
  have hiff := pass_isolated_iff (accounts_ran (.ok []) (by decide +kernel))
    (accounts_ran (.error (.transportError "timeout")) (by decide +kernel)) hans rfl fun _ _ => rfl
  refine hiff.mpr (.inl (by decide +kernel)) cidB ?_
  unfold Owned
  decide +kernel

/-- One `reconcileOnce` over the two accounts. -/
def accountsOnce (front : Except Exn (List VenueOrderItem)) : Option (Except Exn Nat) × Db :=
  run (accountsHandler front).step (reconcileOnce VenueOrderItem) twoAccounts

theorem accountsOnce_exec {front : Except Exn (List VenueOrderItem)} {o : Except Exn Nat}
    (h : (accountsOnce front).1 = some o) :
    Exec (sem (.reliable (accountsAllow front))) (reconcileOnce VenueOrderItem) twoAccounts o
      (accountsOnce front).2 :=
  run_exec (accounts_follow front) _ _ h

/-- An empty book of the front account, and one with an entry time without an offset: the sample
    account's execution is recorded in the one pass and missed in the other. -/
theorem front_response_decides :
    ∃ o d o' d',
      Exec (sem (.reliable (accountsAllow (.ok [])))) (reconcileOnce VenueOrderItem) twoAccounts o d ∧
      Exec (sem (.reliable (accountsAllow (.ok [naiveItem])))) (reconcileOnce VenueOrderItem)
        twoAccounts o' d' ∧
      (∀ account, account ≠ frontAccount →
        frontAnswer (.ok []) (account, none) = frontAnswer (.ok [naiveItem]) (account, none)) ∧
      (d.find cidB).any (fun e => e.row.status = .partiallyFilled && e.filled = 40) = true ∧
      (d'.find cidB).any (fun e => e.row.status = .new && e.filled = 0) = true := by
  refine ⟨.ok 2, (accountsOnce (.ok [])).2, .error (.typeError
      "can't subtract offset-naive and offset-aware datetimes"), (accountsOnce (.ok [naiveItem])).2,
    accountsOnce_exec (by decide +kernel), accountsOnce_exec (by decide +kernel),
    fun account hne => ?_, by decide +kernel, by decide +kernel⟩
  simp [frontAnswer, hne]

end Sample

end Reconcile

end ExecutionEngine
