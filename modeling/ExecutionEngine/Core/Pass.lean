/-
  A reconcile pass, row by row.

  A pass works on rows it listed at its start. Applying one row touches that row
  only (`wp_on_frame`), so with nothing running beside the pass every row it has
  not come to yet is still as listed (`Current`). `visits` is the matching half of
  a group as a pure function. `pass_local` puts the two together: what a pass does
  to an order is what its own visit does to it.
-/
import ExecutionEngine.Core.Specs

namespace ExecutionEngine

open Async Async.Prog

/-! ## Frames -/

section Frame

variable {E : Env} {db db' : Db} {cid : String}

theorem step_on_frame {op : EngineOp} {r : Except Exn op.Res} (hon : On cid op)
    (h : (sem E).step db op r db') {c : String} (hc : c ≠ cid) : db'.find c = db.find c := by
  rcases step_find h c with heq | ⟨ord, sid, t, e, rfl, -⟩ | ⟨so, e, e', rfl, hch, hcid, -⟩
  · exact heq
  · exact hon.elim
  · exact absurd (hcid.symm.trans (hch.on hon).1) hc

/-- A coroutine on `cid` leaves every other order alone. -/
theorem wp_on_frame {α : Type} {p : Eff α} (h : Uses (On cid) p) (db : Db) :
    wp (sem E) (fun _ _ => True) p (fun _ db' => ∀ c, c ≠ cid → db'.find c = db.find c) db :=
  h.keeps (fun _ _ => rfl) (fun _ _ _ _ => trivial) fun _ _ _ _ hop hs hr c hc =>
    (step_on_frame hop hr hc).trans (hs c hc)

end Frame

/-! ## Listed rows -/

/-- The store holds exactly this row under its id. -/
def Current (row : OrderRow) (db : Db) : Prop := db.fetchOrder row.clientOrderId = some row

theorem Current.find {row : OrderRow} {db : Db} (h : Current row db) :
    ∃ e, db.find row.clientOrderId = some e ∧ e.row = row :=
  Option.map_eq_some_iff.mp h

theorem Current.of_find {row : OrderRow} {db db' : Db} (h : Current row db)
    (hf : db'.find row.clientOrderId = db.find row.clientOrderId) : Current row db' := by
  rw [Current, Db.fetchOrder, hf]
  exact h

theorem current_of_mem {db : Db} {e : Entry} (h : e ∈ db.entries) : Current e.row db :=
  fetchOrder_of_find (Db.find_of_mem h)

section Listing

variable {db : Db} {rows : List OrderRow} {b : Broker} {i : Bool}

/-- A listed row is current, of the broker, and in one of the reconcile states. -/
theorem mem_listing (h : IsListing rows (db.fetchOrdersForReconcile b i)) {row : OrderRow}
    (hrow : row ∈ rows) : Current row db ∧ row.broker = b ∧
      row.status ∈ Db.reconcileStates ++ if i then [OrderState.pendingReplace] else [] := by
  have hmem := h.1.mem_iff.mp hrow
  rw [Db.fetchOrdersForReconcile, Db.byCreatedAt, List.mem_insertionSort, List.mem_filter] at hmem
  obtain ⟨hmem, hcond⟩ := hmem
  obtain ⟨hb, hs⟩ := Bool.and_eq_true_iff.mp hcond
  obtain ⟨e, he, rfl⟩ := List.mem_map.mp hmem
  exact ⟨current_of_mem he, of_decide_eq_true hb, of_decide_eq_true hs⟩

/-- A row is listed at most once. -/
theorem listing_nodup (h : IsListing rows (db.fetchOrdersForReconcile b i)) :
    (rows.map OrderRow.clientOrderId).Nodup := by
  have hperm : rows.Perm (db.rows.filter fun r => r.broker = b &&
      r.status ∈ Db.reconcileStates ++ if i then [OrderState.pendingReplace] else []) :=
    h.1.trans (List.perm_insertionSort _ _)
  refine (hperm.map _).nodup_iff.mpr ?_
  refine List.Nodup.sublist (List.Sublist.map _ List.filter_sublist) ?_
  rw [Db.rows, List.map_map]
  exact db.pk

end Listing

namespace Reconcile

/-! ## Groups -/

theorem mem_firstKeys {κ : Type} [DecidableEq κ] {ks : List κ} {k : κ} :
    k ∈ firstKeys ks ↔ k ∈ ks := by
  induction ks with
  | nil => simp [firstKeys]
  | cons a as ih =>
    rw [firstKeys, List.mem_cons, List.mem_filter, ih, List.mem_cons]
    by_cases h : k = a <;> simp [h]

theorem nodup_firstKeys {κ : Type} [DecidableEq κ] (ks : List κ) : (firstKeys ks).Nodup := by
  induction ks with
  | nil => exact List.nodup_nil
  | cons a as ih =>
    rw [firstKeys, List.nodup_cons]
    exact ⟨by simp [List.mem_filter], ih.filter _⟩

/-- Two groups of one pass share no order. -/
def Apart (g g' : GroupKey × List OrderRow) : Prop :=
  ∀ row ∈ g.2, ∀ row' ∈ g'.2, row.clientOrderId ≠ row'.clientOrderId

theorem groups_apart {ι : Type} [ReconcilerVenue ι] {rows : List OrderRow}
    (h : (rows.map OrderRow.clientOrderId).Nodup) : (groups ι rows).Pairwise Apart := by
  unfold groups
  rw [List.pairwise_map]
  refine (nodup_firstKeys _).imp fun {k k'} hne => ?_
  intro row hrow row' hrow' heq
  obtain ⟨hrow, hk⟩ := List.mem_filter.mp hrow
  obtain ⟨hrow', hk'⟩ := List.mem_filter.mp hrow'
  obtain rfl := List.inj_on_of_nodup_map h hrow hrow' heq
  exact hne ((of_decide_eq_true hk).symm.trans (of_decide_eq_true hk'))

theorem mem_groups {ι : Type} [ReconcilerVenue ι] {rows : List OrderRow}
    {g : GroupKey × List OrderRow} (h : g ∈ groups ι rows) :
    g.2 = rows.filter fun r => ReconcilerVenue.groupKey ι r = g.1 := by
  obtain ⟨k, -, rfl⟩ := List.mem_map.mp h
  rfl

/-- Every listed row is in a group, under its key. -/
theorem exists_group {ι : Type} [ReconcilerVenue ι] {rows : List OrderRow} {row : OrderRow}
    (h : row ∈ rows) : ∃ g ∈ groups ι rows, g.1 = ReconcilerVenue.groupKey ι row ∧ row ∈ g.2 := by
  refine ⟨_, List.mem_map_of_mem (mem_firstKeys.mpr (List.mem_map_of_mem h)), rfl, ?_⟩
  exact List.mem_filter.mpr ⟨h, by simp⟩

/-! ## Visits -/

section Visits

variable {ι : Type}

/-- The rows of a group with what each resolves to, in order, up to the first that raises. -/
def visits [VenueItem ι] (items : List ι) (now : Time) :
    List OrderRow → List String → List (OrderRow × Resolution ι)
  | [], _ => []
  | row :: rows, claimed =>
    match resolveRow row items claimed now true with
    | .error _ => []
    | .ok res => (row, res) :: visits items now rows res.claimed

/-- The rows of a group that get their turn, with the claimed set they find. -/
def turns [VenueItem ι] (items : List ι) (now : Time) :
    List OrderRow → List String → List (OrderRow × List String)
  | [], _ => []
  | row :: rows, claimed =>
    (row, claimed) :: match resolveRow row items claimed now true with
      | .error _ => []
      | .ok res => turns items now rows res.claimed

/-- A visit is a turn that resolves. -/
theorem turn_of_visit [VenueItem ι] {items : List ι} {now : Time} {rows : List OrderRow}
    {claimed : List String} {row : OrderRow} {res : Resolution ι}
    (h : (row, res) ∈ visits items now rows claimed) :
    ∃ claimed', (row, claimed') ∈ turns items now rows claimed ∧
      resolveRow row items claimed' now true = .ok res := by
  induction rows generalizing claimed with
  | nil => cases h
  | cons r rs ih =>
    unfold visits at h
    unfold turns
    split at h
    · cases h
    · rename_i res' hres
      rcases List.mem_cons.mp h with heq | h
      · obtain ⟨rfl, rfl⟩ := Prod.mk.inj heq
        exact ⟨claimed, List.mem_cons_self .., hres⟩
      · obtain ⟨claimed', hmem, hres'⟩ := ih h
        exact ⟨claimed', List.mem_cons_of_mem _ hmem, hres'⟩

theorem turns_sublist [VenueItem ι] (items : List ι) (now : Time) (rows : List OrderRow)
    (claimed : List String) : ((turns items now rows claimed).map Prod.fst).Sublist rows := by
  induction rows generalizing claimed with
  | nil => exact List.Sublist.refl _
  | cons row rows ih =>
    unfold turns
    rw [List.map_cons]
    refine List.Sublist.cons_cons row ?_
    split
    · exact List.nil_sublist _
    · rename_i res _
      exact ih res.claimed

/-- A visit is of a row of the group, resolved against some claimed set. -/
theorem mem_visits [VenueItem ι] {items : List ι} {now : Time} {rows : List OrderRow}
    {claimed : List String} {row : OrderRow} {res : Resolution ι}
    (h : (row, res) ∈ visits items now rows claimed) :
    ∃ claimed', row ∈ rows ∧ resolveRow row items claimed' now true = .ok res := by
  obtain ⟨claimed', hturn, hres⟩ := turn_of_visit h
  have hmem := List.mem_map_of_mem (f := Prod.fst) hturn
  exact ⟨claimed', (turns_sublist items now rows claimed).subset hmem, hres⟩

/-- Each row of a group is visited at most once. -/
theorem visits_sublist [VenueItem ι] (items : List ι) (now : Time) (rows : List OrderRow)
    (claimed : List String) : ((visits items now rows claimed).map Prod.fst).Sublist rows := by
  induction rows generalizing claimed with
  | nil => exact List.Sublist.refl _
  | cons row rows ih =>
    unfold visits
    split
    · exact List.nil_sublist _
    · rename_i res _
      rw [List.map_cons]
      exact (ih res.claimed).cons_cons row

theorem visit_unique [VenueItem ι] {items : List ι} {now : Time} {rows : List OrderRow}
    {claimed : List String} (hnodup : (rows.map OrderRow.clientOrderId).Nodup)
    {v w : OrderRow × Resolution ι} (hv : v ∈ visits items now rows claimed)
    (hw : w ∈ visits items now rows claimed) (h : v.1.clientOrderId = w.1.clientOrderId) :
    v = w := by
  have hsub := (visits_sublist items now rows claimed).map OrderRow.clientOrderId
  rw [List.map_map] at hsub
  exact List.inj_on_of_nodup_map (hnodup.sublist hsub) hv hw h

/-- An attempt never raises. -/
theorem attempts_return {E : Env} {db : Db} (actions : List ReconcileAction) :
    wp (sem E) (fun _ _ => True) (sumOver attempt actions) (fun r _ => ∃ n, r = .ok n) db := by
  induction actions generalizing db with
  | nil => exact ⟨0, rfl⟩
  | cons a as ih =>
    rw [sumOver, wp_bind, attempt, wp_tryExcept]
    refine wp_mono (wp_strongest _ db) fun r db₁ _ => ?_
    have hrest (n : Nat) : wp (sem E) (fun _ _ => True)
        ((sumOver attempt as).bind fun m => .ret (n + m)) (fun r _ => ∃ n, r = .ok n) db₁ := by
      rw [wp_bind]
      refine wp_mono ih fun r _ h => ?_
      obtain ⟨m, rfl⟩ := h
      exact ⟨n + m, rfl⟩
    cases r with
    | error er => exact hrest 0
    | ok n => exact hrest n

/-- The second half of `_apply_row`: plan from the durable aggregate, and execute. -/
def applyVisit [VenueItem ι] (row : OrderRow) (res : Resolution ι) (now : Time) :
    Eff (Nat × List String) := do
  let result ← Eff.store (.fetchOrderResult row.clientOrderId)
  let applied ← runPlan (plan row (filledOf result) res.item now res.ambiguous)
  .ret (applied, res.claimed)

variable [ReconcilerVenue ι] {E : Env} {items : List ι} {now : Time}

theorem applyRow_eq (row : OrderRow) (claimed : List String) (requireStuck : Bool) :
    applyRow row items claimed now requireStuck =
      (Eff.lift (resolveRow row items claimed now requireStuck)).bind fun res =>
        applyVisit row res now := rfl

theorem on_applyVisit (row : OrderRow) (res : Resolution ι) :
    Uses (On row.clientOrderId) (applyVisit row res now) :=
  Uses.bind (uses_store trivial) fun _ =>
    (on_runPlan row _ _ now _).bind fun _ => trivial

theorem applyVisit_claimed (row : OrderRow) (res : Resolution ι) (db : Db) :
    wp (sem E) (fun _ _ => True) (applyVisit row res now)
      (outcome (fun out _ => out.2 = res.claimed) fun _ _ => True) db := by
  unfold applyVisit
  refine wp_readResult (fun _ => trivial) ?_
  rw [Prog.bind_eq, wp_bind]
  refine wp_mono (wp_on_frame (on_runPlan row _ _ now _) db) fun r db₁ _ => ?_
  cases r with
  | error er => trivial
  | ok n => rfl

/-- How a stretch of a pass leaves one order: as its visit does, or as it was, and then a normal
    return means `away`. -/
def Local {α : Type} (cid : String) (Q : Option Entry → Prop) (away : Prop) (db : Db)
    (r : Except Exn α) (db' : Db) : Prop :=
  Q (db'.find cid) ∨ db'.find cid = db.find cid ∧ ∀ a, r = .ok a → away

/-- A group leaves the orders outside it alone. -/
theorem applyRows_frame (rows : List OrderRow) (claimed : List String) (db : Db) :
    wp (sem E) (fun _ _ => True) (applyRows items now rows claimed)
      (fun _ db' => ∀ c, (∀ row ∈ rows, row.clientOrderId ≠ c) → db'.find c = db.find c) db := by
  induction rows generalizing claimed db with
  | nil => exact fun _ _ => rfl
  | cons row rows ih =>
    unfold applyRows
    rw [Prog.bind_eq, wp_bind]
    refine wp_mono (wp_on_frame (on_applyRow row items claimed now true) db) fun r db₁ h₁ => ?_
    cases r with
    | error er => exact fun c hc => h₁ c (hc row (List.mem_cons_self ..)).symm
    | ok out =>
      obtain ⟨n, claimed'⟩ := out
      rw [outcome_ok]
      dsimp only
      rw [Prog.bind_eq, wp_bind]
      refine wp_mono (ih claimed' db₁) fun r db₂ h₂ => ?_
      have h : ∀ c, (∀ row' ∈ row :: rows, row'.clientOrderId ≠ c) → db₂.find c = db.find c := by
        intro c hc
        rw [h₂ c fun row' hrow' => hc row' (List.mem_cons_of_mem _ hrow')]
        exact h₁ c (hc row (List.mem_cons_self ..)).symm
      cases r <;> exact h

theorem applyRows_local {cid : String} {Q : Option Entry → Prop} {rows : List OrderRow}
    {claimed : List String} {db : Db} (hnodup : (rows.map OrderRow.clientOrderId).Nodup)
    (hvisit : ∀ row res, (row, res) ∈ visits items now rows claimed → row.clientOrderId = cid →
      ∀ db', db'.find cid = db.find cid →
        wp (sem E) (fun _ _ => True) (applyVisit row res now)
          (fun _ db'' => Q (db''.find cid)) db') :
    wp (sem E) (fun _ _ => True) (applyRows items now rows claimed)
      (Local cid Q (∀ row ∈ rows, row.clientOrderId ≠ cid) db) db := by
  induction rows generalizing claimed db with
  | nil => exact .inr ⟨rfl, fun _ _ _ hrow => by cases hrow⟩
  | cons row rows ih =>
    rw [List.map_cons, List.nodup_cons] at hnodup
    unfold applyRows
    rw [applyRow_eq, Prog.bind_eq, wp_bind, wp_bind]
    unfold visits at hvisit
    cases hres : resolveRow row items claimed now true with
    | error er => exact .inr ⟨rfl, fun _ hn => by cases hn⟩
    | ok res =>
      rw [hres] at hvisit
      dsimp only at hvisit
      rw [Eff.lift, wp_ret, outcome_ok]
      by_cases hcid : row.clientOrderId = cid
      · -- its own visit; the rest of the group does not come back to it
        have hrest : ∀ row' ∈ rows, row'.clientOrderId ≠ cid := by
          intro row' hrow' heq
          exact hnodup.1 (List.mem_map.mpr ⟨row', hrow', heq.trans hcid.symm⟩)
        refine wp_mono (hvisit row res (List.mem_cons_self ..) hcid db rfl) fun r db₁ h₁ => ?_
        cases r with
        | error er => exact .inl h₁
        | ok out =>
          obtain ⟨n, claimed'⟩ := out
          rw [outcome_ok]
          dsimp only
          rw [Prog.bind_eq, wp_bind]
          refine wp_mono (applyRows_frame rows claimed' db₁) fun r db₂ h₂ => ?_
          have h : Q (db₂.find cid) := by
            rw [h₂ cid hrest]
            exact h₁
          cases r <;> exact .inl h
      · refine wp_mono (wp_and (wp_on_frame (on_applyVisit row res) db)
          (applyVisit_claimed row res db)) fun r db₁ h₁ => ?_
        obtain ⟨hframe, hclaimed⟩ := h₁
        have h₁ : db₁.find cid = db.find cid := hframe cid (Ne.symm hcid)
        cases r with
        | error er => exact .inr ⟨h₁, fun _ hn => by cases hn⟩
        | ok out =>
          obtain ⟨n, claimed'⟩ := out
          obtain rfl : claimed' = res.claimed := hclaimed
          rw [outcome_ok]
          dsimp only
          rw [Prog.bind_eq, wp_bind]
          have hih : wp (sem E) (fun _ _ => True) (applyRows items now rows res.claimed)
              (Local cid Q (∀ row ∈ rows, row.clientOrderId ≠ cid) db₁) db₁ :=
            ih hnodup.2 fun row' res' hmem hcid' db' hdb' =>
              hvisit row' res' (List.mem_cons_of_mem _ hmem) hcid' db' (hdb'.trans h₁)
          refine wp_mono hih fun r db₂ h₂ => ?_
          cases r with
          | error er => exact h₂.imp_right fun h => ⟨h.1.trans h₁, fun _ hn => by cases hn⟩
          | ok m =>
            refine h₂.imp_right fun h => ⟨h.1.trans h₁, fun _ _ row' hrow' => ?_⟩
            rcases List.mem_cons.mp hrow' with rfl | hrow'
            · exact hcid
            · exact h.2 m rfl row' hrow'

end Visits

/-! ## Groups and passes -/

section Pass

variable {ι : Type} [ReconcilerVenue ι] {E : Env} {now : Time} {cid : String}
  {Q : Option Entry → Prop} {books : Db → GroupKey → Option (List ι) → Prop}

/-- What reading a book can answer: `none` stands for an unreadable one. -/
def BookRead (E : Env) (books : Db → GroupKey → Option (List ι) → Prop) : Prop :=
  ∀ key db, wp (sem E) (fun _ _ => True) (readBook ι key)
    (outcome (fun ans db' => db' = db ∧ books db key ans) fun _ db' => db' = db) db

theorem readBook_spec {key : GroupKey} {db : Db} {B : Option (List ι) → Prop}
    (h : wp (sem E) (fun _ _ => True) (ReconcilerVenue.fetchVenueOrders key : Eff (List ι))
      (outcome (fun items db' => db' = db ∧ B (some items)) fun _ db' => db' = db ∧ B none) db) :
    wp (sem E) (fun _ _ => True) (readBook ι key)
      (outcome (fun ans db' => db' = db ∧ B ans) fun _ db' => db' = db) db := by
  unfold readBook
  rw [wp_tryExcept, wp_bind]
  refine wp_mono h fun r db₁ h₁ => ?_
  obtain ⟨rfl, hB⟩ : db₁ = db ∧ B r.toOption := by
    cases r <;> exact h₁
  cases r with
  | error er =>
    rw [outcome_error, outcome_error]
    split
    · exact ⟨rfl, hB⟩
    · exact rfl
  | ok items => exact ⟨rfl, hB⟩

/-- The order is not in the group, or the book of the group could not be read. -/
def Away (cid : String) (books : Db → GroupKey → Option (List ι) → Prop)
    (g : GroupKey × List OrderRow) : Prop :=
  (∀ row ∈ g.2, row.clientOrderId ≠ cid) ∨ ∃ db, books db g.1 none

/-- What is asked of the visit to the order in a group, from a store that holds it as `db` does. -/
def VisitSpec (E : Env) (now : Time) (cid : String) (Q : Option Entry → Prop)
    (books : Db → GroupKey → Option (List ι) → Prop) (db : Db) (g : GroupKey × List OrderRow) :
    Prop :=
  ∀ db' items, db'.find cid = db.find cid → books db' g.1 (some items) →
    ∀ row res, (row, res) ∈ visits items now g.2 (handlesOf g.2) → row.clientOrderId = cid →
      ∀ db'', db''.find cid = db.find cid →
        wp (sem E) (fun _ _ => True) (applyVisit row res now) (fun _ db' => Q (db'.find cid)) db''

theorem reconcileGroup_frame (hbook : BookRead E books) (g : GroupKey × List OrderRow) (db : Db) :
    wp (sem E) (fun _ _ => True) (reconcileGroup ι now g)
      (fun _ db' => ∀ c, (∀ row ∈ g.2, row.clientOrderId ≠ c) → db'.find c = db.find c) db := by
  unfold reconcileGroup
  rw [Prog.bind_eq, wp_bind]
  refine wp_mono (hbook g.1 db) fun r db₁ h₁ => ?_
  cases r with
  | error er =>
    obtain rfl : db₁ = db := h₁
    exact fun _ _ => rfl
  | ok ans =>
    obtain ⟨rfl, -⟩ := h₁
    rw [outcome_ok]
    cases ans with
    | none => exact fun _ _ => rfl
    | some items => exact applyRows_frame g.2 (handlesOf g.2) db₁

theorem reconcileGroup_local (hbook : BookRead E books) {g : GroupKey × List OrderRow} {db : Db}
    (hnodup : (g.2.map OrderRow.clientOrderId).Nodup) (hvisit : VisitSpec E now cid Q books db g) :
    wp (sem E) (fun _ _ => True) (reconcileGroup ι now g) (Local cid Q (Away cid books g) db) db := by
  unfold reconcileGroup
  rw [Prog.bind_eq, wp_bind]
  refine wp_mono (hbook g.1 db) fun r db₁ h₁ => ?_
  cases r with
  | error er =>
    obtain rfl : db₁ = db := h₁
    exact .inr ⟨rfl, fun _ hn => nomatch hn⟩
  | ok ans =>
    obtain ⟨rfl, hans⟩ := h₁
    rw [outcome_ok]
    cases ans with
    | none => exact .inr ⟨rfl, fun _ _ => .inr ⟨db₁, hans⟩⟩
    | some items =>
      refine wp_mono (applyRows_local hnodup (hvisit db₁ items rfl hans)) fun r db₂ h₂ => ?_
      exact h₂.imp_right fun h => ⟨h.1, fun n hn => .inl (h.2 n hn)⟩

theorem groups_frame (hbook : BookRead E books) (gs : List (GroupKey × List OrderRow)) (db : Db) :
    wp (sem E) (fun _ _ => True) (sumOver (reconcileGroup ι now) gs)
      (fun _ db' => ∀ c, (∀ g ∈ gs, ∀ row ∈ g.2, row.clientOrderId ≠ c) →
        db'.find c = db.find c) db := by
  refine wp_sumOver (fun _ _ => rfl) fun g hg db₁ h₁ => ?_
  refine wp_mono (reconcileGroup_frame hbook g db₁) fun _ db₂ h₂ c hc => ?_
  exact (h₂ c (hc g hg)).trans (h₁ c hc)

theorem groups_local (hbook : BookRead E books) {gs : List (GroupKey × List OrderRow)} {db : Db}
    (hapart : gs.Pairwise Apart)
    (hnodup : ∀ g ∈ gs, (g.2.map OrderRow.clientOrderId).Nodup)
    (hvisit : ∀ g ∈ gs, VisitSpec E now cid Q books db g) :
    wp (sem E) (fun _ _ => True) (sumOver (reconcileGroup ι now) gs)
      (Local cid Q (∀ g ∈ gs, Away cid books g) db) db := by
  induction gs generalizing db with
  | nil => exact .inr ⟨rfl, fun _ _ _ hg => by cases hg⟩
  | cons g gs ih =>
    rw [List.pairwise_cons] at hapart
    rw [Prog.sumOver, wp_bind]
    by_cases hin : ∀ row ∈ g.2, row.clientOrderId ≠ cid
    · -- not in this group
      refine wp_mono (reconcileGroup_frame hbook g db) fun r db₁ h₁ => ?_
      have h₁ : db₁.find cid = db.find cid := h₁ cid hin
      cases r with
      | error er => exact .inr ⟨h₁, fun _ hn => by cases hn⟩
      | ok n =>
        rw [outcome_ok, wp_bind]
        have hvisit₁ : ∀ g' ∈ gs, VisitSpec E now cid Q books db₁ g' := by
          intro g' hg' db' items hdb'
          have hv := hvisit g' (List.mem_cons_of_mem _ hg') db' items (hdb'.trans h₁)
          rwa [← h₁] at hv
        have hih := ih hapart.2 (fun g' hg' => hnodup g' (List.mem_cons_of_mem _ hg')) hvisit₁
        refine wp_mono hih fun r db₂ h₂ => ?_
        cases r with
        | error er => exact h₂.imp_right fun h => ⟨h.1.trans h₁, fun _ hn => by cases hn⟩
        | ok m =>
          refine h₂.imp_right fun h => ⟨h.1.trans h₁, fun _ _ g' hg' => ?_⟩
          rcases List.mem_cons.mp hg' with rfl | hg'
          · exact .inl hin
          · exact h.2 m rfl g' hg'
    · -- in this group, and in no other
      push Not at hin
      obtain ⟨row, hrow, hcid⟩ := hin
      have hrest : ∀ g' ∈ gs, ∀ row' ∈ g'.2, row'.clientOrderId ≠ cid := by
        intro g' hg' row' hrow' heq
        exact hapart.1 g' hg' row hrow row' hrow' (hcid.trans heq.symm)
      refine wp_mono (reconcileGroup_local hbook (hnodup g (List.mem_cons_self ..))
        (hvisit g (List.mem_cons_self ..))) fun r db₁ h₁ => ?_
      cases r with
      | error er => exact h₁.imp_right fun h => ⟨h.1, fun _ hn => by cases hn⟩
      | ok n =>
        rw [outcome_ok, wp_bind]
        refine wp_mono (groups_frame hbook gs db₁) fun r db₂ h₂ => ?_
        have h₂ : db₂.find cid = db₁.find cid := h₂ cid hrest
        have hall {m : Except Exn Nat} : Local cid Q (∀ g' ∈ g :: gs, Away cid books g') db m db₂ := by
          refine h₁.imp (fun h => h₂ ▸ h) fun h => ⟨h₂.trans h.1, fun _ _ g' hg' => ?_⟩
          rcases List.mem_cons.mp hg' with rfl | hg'
          · exact h.2 n rfl
          · exact .inl (hrest g' hg')
        cases r <;> exact hall

/-- What a pass over listed rows does to an order is what its own visit does. -/
theorem pass_local (hbook : BookRead E books) {rows : List OrderRow} {db : Db}
    (hnodup : (rows.map OrderRow.clientOrderId).Nodup)
    (hvisit : ∀ g ∈ groups ι rows, VisitSpec E now cid Q books db g) :
    wp (sem E) (fun _ _ => True) (sumOver (reconcileGroup ι now) (groups ι rows))
      (Local cid Q (∀ g ∈ groups ι rows, Away cid books g) db) db := by
  refine groups_local hbook (groups_apart hnodup) (fun g hg => ?_) hvisit
  rw [mem_groups hg]
  exact List.Nodup.sublist (List.Sublist.map _ List.filter_sublist) hnodup

/-- A pass fails before it starts, or goes over the groups of a listing at some time. -/
theorem wp_reconcileOnce {P : Except Exn Nat → Db → Prop} {db : Db} (herr : ∀ er, P (.error er) db)
    (hpass : ∀ rows now, IsListing rows (db.fetchOrdersForReconcile (ReconcilerVenue.broker ι) false) →
      wp (sem E) (fun _ _ => True) (sumOver (reconcileGroup ι now) (groups ι rows)) P db) :
    wp (sem E) (fun _ _ => True) (reconcileOnce ι) P db := by
  unfold reconcileOnce
  rw [Prog.bind_eq, wp_bind]
  refine wp_perform.mpr ⟨trivial, fun r db₁ hs => ?_⟩
  obtain ⟨rfl, hr⟩ := step_listing hs
  cases r with
  | error er => exact herr er
  | ok rows =>
    rw [outcome_ok]
    split
    · rename_i hempty
      obtain rfl := List.isEmpty_iff.mp hempty
      exact hpass [] 0 (hr [] rfl)
    · rw [Prog.bind_eq, wp_bind]
      refine wp_perform.mpr ⟨trivial, fun r db₂ hs => ?_⟩
      obtain rfl := (step_ext hs).1
      cases r with
      | error er => exact herr er
      | ok now => exact hpass rows now (hr rows rfl)

end Pass

/-! ## Passes with their data -/

/-- What a pass runs on: the answers around it, the books it reads, the rows as it listed them and
    the time it read. -/
structure PassData (ι : Type) where
  allows : Db → (o : ExtOp) → Except Exn o.Res → Prop
  book : GroupKey → List ι
  rows : List OrderRow
  now : Time

namespace PassData

variable {ι : Type} [ReconcilerVenue ι]

/-- The pass went over its groups and returned normally; books and clock could be read. -/
structure Runs (P : PassData ι) (db db' : Db) : Prop where
  clock : ∀ db r, P.allows db .now r → ∃ t, r = .ok t
  books : BookRead (.reliable P.allows) fun _ key ans => ans = some (P.book key)
  listing : IsListing P.rows (db.fetchOrdersForReconcile (ReconcilerVenue.broker ι) false)
  exec : ∃ n, Exec (sem (.reliable P.allows)) (sumOver (reconcileGroup ι P.now) (groups ι P.rows))
    db (.ok n) db'

/-- A `reconcileOnce` that returns is such a pass. -/
theorem runs_of_reconcileOnce {allows : Db → (o : ExtOp) → Except Exn o.Res → Prop}
    {book : GroupKey → List ι} {db db' : Db} {n : Nat}
    (hclock : ∀ db r, allows db .now r → ∃ t, r = .ok t)
    (hbooks : BookRead (.reliable allows) fun _ key ans => ans = some (book key))
    (h : Exec (sem (.reliable allows)) (reconcileOnce ι) db (.ok n) db') :
    ∃ rows now, Runs ⟨allows, book, rows, now⟩ db db' := by
  have hwp : wp (sem (.reliable allows)) (fun _ _ => True) (reconcileOnce ι)
      (outcome (fun _ db' => ∃ rows now, Runs ⟨allows, book, rows, now⟩ db db')
        fun _ _ => True) db := by
    refine wp_reconcileOnce (fun _ => trivial) fun rows now hl => ?_
    refine wp_mono (wp_strongest _ db) fun r db' hexec => ?_
    cases r with
    | error er => trivial
    | ok n => exact ⟨rows, now, hclock, hbooks, hl, n, hexec⟩
  exact hwp.exec h

/-- The rows of one group. -/
def group (P : PassData ι) (key : GroupKey) : List OrderRow :=
  P.rows.filter fun r => ReconcilerVenue.groupKey ι r = key

/-- The visits of one group. -/
def visitsOf (P : PassData ι) (key : GroupKey) : List (OrderRow × Resolution ι) :=
  visits (P.book key) P.now (P.group key) (handlesOf (P.group key))

/-- The turns of one group. -/
def turnsOf (P : PassData ι) (key : GroupKey) : List (OrderRow × List String) :=
  turns (P.book key) P.now (P.group key) (handlesOf (P.group key))

theorem mem_visitsOf {P : PassData ι} {key : GroupKey} {row : OrderRow} {res : Resolution ι}
    (h : (row, res) ∈ P.visitsOf key) :
    row ∈ P.rows ∧ ReconcilerVenue.groupKey ι row = key ∧
      ∃ claimed, resolveRow row (P.book key) claimed P.now true = .ok res := by
  obtain ⟨claimed, hrow, hres⟩ := mem_visits h
  obtain ⟨hrow, hkey⟩ := List.mem_filter.mp hrow
  exact ⟨hrow, of_decide_eq_true hkey, claimed, hres⟩

theorem mem_turnsOf {P : PassData ι} {key : GroupKey} {row : OrderRow} {claimed : List String}
    (h : (row, claimed) ∈ P.turnsOf key) : row ∈ P.rows := by
  have hmem := (turns_sublist _ _ _ _).subset (List.mem_map_of_mem (f := Prod.fst) h)
  exact (List.mem_filter.mp hmem).1

/-- A pass visits an order once. -/
theorem visit_unique {P : PassData ι} (hnodup : (P.rows.map OrderRow.clientOrderId).Nodup)
    {row row' : OrderRow} {res res' : Resolution ι}
    (hv : (row, res) ∈ P.visitsOf (ReconcilerVenue.groupKey ι row))
    (hv' : (row', res') ∈ P.visitsOf (ReconcilerVenue.groupKey ι row'))
    (hcid : row.clientOrderId = row'.clientOrderId) : row = row' ∧ res = res' := by
  obtain rfl := List.inj_on_of_nodup_map hnodup (mem_visitsOf hv).1 (mem_visitsOf hv').1 hcid
  have hgroup : ((P.group (ReconcilerVenue.groupKey ι row)).map OrderRow.clientOrderId).Nodup :=
    hnodup.sublist (List.filter_sublist.map _)
  exact Prod.mk.inj (Reconcile.visit_unique hgroup hv hv' rfl)

/-- What is asked of the visits of the pass, asked of each of its groups. -/
theorem visitSpec {P : PassData ι} {E : Env} {db : Db} {cid : String} {Q : Option Entry → Prop}
    (books : Db → GroupKey → Option (List ι) → Prop)
    (hbook : ∀ d key items, books d key (some items) → items = P.book key)
    (hvisit : ∀ row res, (row, res) ∈ P.visitsOf (ReconcilerVenue.groupKey ι row) →
      row.clientOrderId = cid → ∀ db'', db''.find cid = db.find cid →
        wp (sem E) (fun _ _ => True) (applyVisit row res P.now) (fun _ d => Q (d.find cid)) db'') :
    ∀ g ∈ groups ι P.rows, VisitSpec E P.now cid Q books db g := by
  intro g hg d items _ hitems row res hmem hcid d' hd'
  obtain rfl := hbook d g.1 items hitems
  obtain ⟨-, hrow, -⟩ := mem_visits hmem
  have hg₂ : g.2 = P.group g.1 := mem_groups hg
  rw [hg₂] at hrow hmem
  have hkey : ReconcilerVenue.groupKey ι row = g.1 :=
    of_decide_eq_true (List.mem_filter.mp hrow).2
  exact hvisit row res (by rw [hkey]; exact hmem) hcid d' hd'

/-- A listed order is left as its visit leaves it. -/
theorem Runs.visited {P : PassData ι} {db db' : Db} {cid : String} {Q : Option Entry → Prop}
    (h : P.Runs db db') (hin : ∃ row ∈ P.rows, row.clientOrderId = cid)
    (hvisit : ∀ row res, (row, res) ∈ P.visitsOf (ReconcilerVenue.groupKey ι row) →
      row.clientOrderId = cid → ∀ db'', db''.find cid = db.find cid →
        wp (sem (.reliable P.allows)) (fun _ _ => True) (applyVisit row res P.now)
          (fun _ d => Q (d.find cid)) db'') :
    Q (db'.find cid) := by
  obtain ⟨n, hexec⟩ := h.exec
  have hspec := visitSpec (fun _ key ans => ans = some (P.book key))
    (fun _ _ _ hitems => Option.some.inj hitems) hvisit
  rcases (pass_local h.books (listing_nodup h.listing) hspec).exec hexec with hQ | ⟨-, haway⟩
  · exact hQ
  · obtain ⟨row, hrow, hcid⟩ := hin
    obtain ⟨g, hg, -, hmem⟩ := exists_group (ι := ι) hrow
    rcases haway n rfl g hg with hout | ⟨d, hnone⟩
    · exact absurd hcid (hout row hmem)
    · cases hnone

/-- The pass went over its groups and ended somehow: books may have been unreadable, store calls
    may have failed. -/
structure Goes (P : PassData ι) (fails : Prop) (db db' : Db) : Prop where
  books : BookRead ⟨fails, P.allows⟩ fun _ key ans => ∀ items, ans = some items → items = P.book key
  listing : IsListing P.rows (db.fetchOrdersForReconcile (ReconcilerVenue.broker ι) false)
  exec : ∃ o, Exec (sem ⟨fails, P.allows⟩) (sumOver (reconcileGroup ι P.now) (groups ι P.rows))
    db o db'

theorem Runs.goes {P : PassData ι} {db db' : Db} (h : P.Runs db db') : P.Goes False db db' where
  books key d := by
    refine wp_mono (h.books key d) fun o d' ho => ?_
    cases o with
    | error er => exact ho
    | ok ans =>
      refine ⟨ho.1, fun items hitems => ?_⟩
      exact Option.some.inj (hitems.symm.trans ho.2)
  listing := h.listing
  exec := by
    obtain ⟨n, hexec⟩ := h.exec
    exact ⟨.ok n, hexec⟩

/-- An order is left as its visit leaves it, or as it was. -/
theorem Goes.visited {P : PassData ι} {fails : Prop} {db db' : Db} {cid : String}
    {Q : Option Entry → Prop} (h : P.Goes fails db db') (hstay : Q (db.find cid))
    (hvisit : ∀ row res, (row, res) ∈ P.visitsOf (ReconcilerVenue.groupKey ι row) →
      row.clientOrderId = cid → ∀ db'', db''.find cid = db.find cid →
        wp (sem ⟨fails, P.allows⟩) (fun _ _ => True) (applyVisit row res P.now)
          (fun _ d => Q (d.find cid)) db'') :
    Q (db'.find cid) := by
  obtain ⟨o, hexec⟩ := h.exec
  have hspec := visitSpec
    (fun _ key ans => ∀ items, ans = some items → items = P.book key)
    (fun _ _ items hitems => hitems items rfl) hvisit
  rcases (pass_local h.books (listing_nodup h.listing) hspec).exec hexec with hQ | ⟨heq, -⟩
  · exact hQ
  · rw [heq]
    exact hstay

end PassData

/-! ## Sample passes -/

section Sample

open Liberator (VenueOrderItem)

/-- The pass over `db` at time `t` that finds these rows in every book. -/
def samplePass (t : Time) (items : List VenueOrderItem) (db : Db) : PassData VenueOrderItem where
  allows _ o r := r = plainExt t (fun _ => {}) items o
  book _ := items
  rows := db.fetchOrdersForReconcile .liberator false
  now := t

/-- The store after that pass, if it returns. -/
def samplePassEnd (t : Time) (items : List VenueOrderItem) (db : Db) : Option Db :=
  match run (plainHandler t (fun _ => {}) items).step
    (sumOver (reconcileGroup VenueOrderItem t)
      (groups VenueOrderItem (samplePass t items db).rows)) db with
  | (some (.ok _), db') => some db'
  | _ => none

theorem samplePass_runs {t : Time} {items : List VenueOrderItem} {db db' : Db}
    (h : samplePassEnd t items db = some db') : (samplePass t items db).Runs db db' where
  clock _ r hr := ⟨t, hr⟩
  books key d := by
    refine readBook_spec (wp_perform.mpr ⟨trivial, fun r d' hs => ?_⟩)
    obtain ⟨rfl, rfl⟩ := step_ext hs
    exact ⟨rfl, rfl⟩
  listing := isListing_refl_byCreatedAt _
  exec := by
    unfold samplePassEnd at h
    split at h
    · rename_i n db₁ hr
      obtain rfl := Option.some.inj h
      have hfollows : Follows (sem (.reliable (samplePass t items db).allows))
          (plainHandler t (fun _ => {}) items).step := handler_follows fun _ _ => rfl
      have hexec := run_exec hfollows _ db (o := .ok n) (by rw [hr])
      rw [hr] at hexec
      exact ⟨n, hexec⟩
    · cases h

end Sample

end Reconcile

end ExecutionEngine
