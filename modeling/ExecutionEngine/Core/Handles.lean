/-
  Venue handles.

  A pass and a burst match a lost ack only against venue rows that nobody has
  claimed. What counts as claimed is what the call listed: the handles of the
  working set of the book, and those it has written itself since. `known` is that
  set as the history of the call has it, and `AckRule` what the code makes of it:
  no number is written that the call knows another order of the book to carry.

  Orders the call cannot see are a different matter: the working set has no
  terminal row and no PENDING_REPLACE row, and it is as old as the listing.
  `handles_injective` says that this is all that can go wrong. As long as every
  order that carries the number was visible to the call that writes it, no two
  orders of an account share one; `twin_takes_handle` is what happens otherwise.
-/
import ExecutionEngine.Core.Pass

namespace ExecutionEngine

open Async Async.Prog

/-! ## What a call knows -/

/-- The rows an operation returned. -/
def rowsRead : Event engineSig → List OrderRow
  | ⟨.store (.fetchOrder _), .ok (some row)⟩ => [row]
  | ⟨.store (.fetchOrdersForReconcile _ _), .ok rows⟩ => rows
  | _ => []

/-- The rows a call has read so far. -/
def reads (h : List (Event engineSig)) : List OrderRow := h.flatMap rowsRead

/-- The row with a new handle. -/
def OrderRow.stamp (r : OrderRow) (no : String) : OrderRow := { r with brokerOrderId := some no }

/-- The working set after one more event: a listing replaces it, an ack puts its number on the row
    whatever the answer, a placement drops it. -/
def learn (K : List OrderRow) : Event engineSig → List OrderRow
  | ⟨.store (.fetchOrdersForReconcile _ _), .ok rows⟩ => rows
  | ⟨.store (.ackOrder cid no), _⟩ => K.map fun r => if r.clientOrderId = cid then r.stamp no else r
  | ⟨.ext (.place _ _), _⟩ => []
  | _ => K

/-- The working set as a call has it. -/
def known (h : List (Event engineSig)) : List OrderRow := h.foldl learn []

theorem reads_snoc (h : List (Event engineSig)) (ev : Event engineSig) :
    reads (h ++ [ev]) = reads h ++ rowsRead ev := by
  simp [reads]

theorem known_snoc (h : List (Event engineSig)) (ev : Event engineSig) :
    known (h ++ [ev]) = learn (known h) ev := by
  simp [known]

theorem learn_routine {op : EngineOp} (hop : Routine op) (r : Except Exn op.Res)
    (K : List OrderRow) : learn K ⟨op, r⟩ = K := by
  rcases op with o | o <;> cases o <;> first | exact hop.elim | rfl

/-- Two rows are matched against the same venue book. -/
def SameBook (row r : OrderRow) : Prop :=
  r.broker = row.broker ∧ r.account = row.account ∧ (row.broker = .streamingPro → r.market = row.market)

/-- A handle comes with the ack. -/
def Unacked (row : OrderRow) : Prop := row.status = .pendingNew → row.brokerOrderId = none

/-- What the store guarantees of the rows it returns. -/
def WellRead : Event engineSig → Prop
  | ⟨.store (.fetchOrder cid), .ok (some row)⟩ => row.clientOrderId = cid ∧ Unacked row
  | ⟨.store (.fetchOrdersForReconcile b _), .ok rows⟩ =>
    (rows.map OrderRow.clientOrderId).Nodup ∧ ∀ row ∈ rows, row.broker = b ∧ Unacked row
  | _ => True

/-- An ack writes no number that the call knows another order of the same book to carry. -/
def AckRule (h : List (Event engineSig)) : EngineOp → Prop
  | .store (.ackOrder cid no) => ∀ r ∈ known h, r.brokerOrderId = some no → r.clientOrderId ≠ cid →
    ∃ row ∈ reads h, row.clientOrderId = cid ∧ ¬ SameBook row r
  | _ => True

theorem ackRule_routine {h : List (Event engineSig)} {op : EngineOp} (hop : Routine op) :
    AckRule h op := by
  rcases op with o | o
  · cases o <;> first | exact hop.elim | trivial
  · trivial

section Rules

variable {α β : Type} {h : List (Event engineSig)}

/-- The calls of a coroutine keep the rule, from any history. -/
def Ruled (p : Eff α) : Prop :=
  ∀ h, wp (Sem.answering WellRead) AckRule p (fun _ _ => True) h

theorem ruled_ret (a : α) : Ruled (.ret a) := fun _ => trivial

theorem Ruled.bind {p : Eff α} {f : α → Eff β} (hp : Ruled p) (hf : ∀ a, Ruled (f a)) :
    Ruled (p.bind f) := by
  intro h
  refine wp_bind.mpr (wp_mono (hp h) fun o h' _ => ?_)
  cases o with
  | error er => trivial
  | ok a => exact hf a h'

theorem Ruled.tryExcept {p : Eff α} {f : Exn → Eff α} (hp : Ruled p) (hf : ∀ e, Ruled (f e)) :
    Ruled (p.tryExcept f) := by
  intro h
  refine wp_tryExcept.mpr (wp_mono (hp h) fun o h' _ => ?_)
  cases o with
  | error er => exact hf er h'
  | ok a => trivial

theorem Ruled.tryFinally {p : Eff α} {f : Eff Unit} (hp : Ruled p) (hf : Ruled f) :
    Ruled (p.tryFinally f) := by
  intro h
  refine wp_tryFinally.mpr (wp_mono (hp h) fun o h' _ => ?_)
  refine wp_mono (hf h') fun x h'' _ => ?_
  cases x <;> trivial

/-- A history that went on without touching the working set. -/
def Steady (h h' : List (Event engineSig)) : Prop := known h' = known h ∧ reads h ⊆ reads h'

theorem Steady.refl (h : List (Event engineSig)) : Steady h h := ⟨rfl, fun _ hr => hr⟩

theorem Steady.snoc {h h' : List (Event engineSig)} (hs : Steady h h') {op : EngineOp}
    (hop : Routine op) (r : Except Exn op.Res) : Steady h (h' ++ [⟨op, r⟩]) := by
  refine ⟨?_, fun row hrow => ?_⟩
  · rw [known_snoc, learn_routine hop, hs.1]
  · rw [reads_snoc]
    exact List.mem_append_left _ (hs.2 hrow)

theorem wp_routine {p : Eff α} (hp : Uses Routine p) (h : List (Event engineSig)) :
    wp (Sem.answering WellRead) AckRule p (fun _ h' => Steady h h') h := by
  refine hp.keeps (Steady.refl h) (fun _ _ hop _ => ackRule_routine hop) ?_
  intro s op r s' hop hs hr
  rw [hr.2]
  exact hs.snoc hop r

theorem ruled_routine {p : Eff α} (hp : Uses Routine p) : Ruled p :=
  fun h => wp_mono (wp_routine hp h) fun _ _ _ => trivial

theorem ruled_probe {p : Eff α} (hp : Uses Probe p) : Ruled p :=
  ruled_routine (hp.mono fun _ => Probe.routine)

end Rules

/-! ## Passes and bursts -/

namespace Reconcile

section Matching

variable {ι : Type} [VenueItem ι] {row : OrderRow} {items : List ι} {claimed : List String}
  {now : Time} {requireStuck : Bool}

theorem resolveRow_claimed {res : Resolution ι}
    (h : resolveRow row items claimed now requireStuck = .ok res) : claimed ⊆ res.claimed := by
  rcases resolveRow_cases h with ⟨item, -, rfl⟩ | ⟨-, -, m, -, rfl⟩ | ⟨-, -, rfl⟩
  · exact fun _ hno => hno
  · intro no hno
    dsimp only
    split
    · exact List.mem_cons_of_mem _ hno
    · exact hno
  · exact fun _ hno => hno

/-- The number of a lost-ack match was free before it and is claimed after it. -/
theorem resolveRow_match {res : Resolution ι} {item : ι} (hrow : row.brokerOrderId = none)
    (h : resolveRow row items claimed now requireStuck = .ok res) (hi : res.item = some item) :
    isCandidate row claimed item = true ∧ VenueItem.orderNo item ∈ res.claimed := by
  rcases resolveRow_cases h with ⟨item', hh, -⟩ | ⟨-, -, m, rfl, rfl⟩ | ⟨-, -, rfl⟩
  · rw [byHandle_none hrow] at hh
    cases hh
  · dsimp only at hi ⊢
    have hmem : item ∈ items.filter (isCandidate row claimed) := by
      rw [outcomeOf_item hi]
      exact List.mem_singleton_self item
    rw [hi]
    exact ⟨(List.mem_filter.mp hmem).2, List.mem_cons_self ..⟩
  · cases hi

/-- A plan acks its own PENDING_NEW row, under the number of the venue row it resolved to. -/
theorem planActions_ack {filled : Int} {item : Option ι} {ambiguous : Bool} {cid no : String}
    (h : .ack cid no ∈ planActions row filled item now ambiguous) :
    row.status = .pendingNew ∧ cid = row.clientOrderId ∧
      ∃ i, item = some i ∧ no = VenueItem.orderNo i := by
  have hterm (i : ι) : .ack cid no ∉ venueTerminalActions row i := by
    unfold venueTerminalActions
    repeat' split
    all_goals simp
  unfold planActions at h
  cases item with
  | none =>
    dsimp only at h
    unfold planAbsent at h
    exfalso
    revert h
    repeat' split
    all_goals simp
  | some i =>
    dsimp only at h
    unfold planPresent at h
    split at h
    · exact absurd h (hterm i)
    · split at h
      · exfalso
        revert h
        split <;> simp
      · rcases List.mem_append.mp h with h | h
        · rcases List.mem_append.mp h with h | h
          · split at h
            · rename_i hs
              obtain ⟨rfl, rfl⟩ := ReconcileAction.ack.inj (List.mem_singleton.mp h)
              exact ⟨hs, rfl, i, rfl, rfl⟩
            · cases h
          · exfalso
            revert h
            unfold fillActions
            repeat' split
            all_goals simp
        · split at h
          · exact absurd h (hterm i)
          · cases h

end Matching

theorem routine_attempt {a : ReconcileAction} (h : ∀ cid no, a ≠ .ack cid no) :
    Uses Routine (attempt a) := by
  refine (performs_attempt a).mono fun op hop => ?_
  cases hop with
  | ack cid no => exact absurd rfl (h cid no)
  | _ => trivial

/-- The working set of `h'` is that of `h`, with claimed numbers put on `row` at most. -/
structure Stamped (row : OrderRow) (claimed : List String) (h h' : List (Event engineSig)) :
    Prop where
  reads : reads h ⊆ reads h'
  known : ∀ r' ∈ known h', r' ∈ known h ∨
    ∃ r ∈ known h, r.clientOrderId = row.clientOrderId ∧ ∃ no ∈ claimed, r' = r.stamp no

theorem Stamped.of_steady {row : OrderRow} {claimed : List String}
    {h h₁ h₂ : List (Event engineSig)} (hs : Stamped row claimed h h₁) (ht : Steady h₁ h₂) :
    Stamped row claimed h h₂ := by
  refine ⟨fun r hr => ht.2 (hs.reads hr), ?_⟩
  rw [ht.1]
  exact hs.known

theorem Stamped.refl (row : OrderRow) (claimed : List String) (h : List (Event engineSig)) :
    Stamped row claimed h h := ⟨fun _ hr => hr, fun _ hr => .inl hr⟩

theorem Stamped.ack {row : OrderRow} {claimed : List String} {h h' : List (Event engineSig)}
    (hs : Stamped row claimed h h') {no : String} (hno : no ∈ claimed) (r : Except Exn Unit) :
    Stamped row claimed h (h' ++ [⟨.store (.ackOrder row.clientOrderId no), r⟩]) := by
  constructor
  · rw [reads_snoc]
    exact fun row' hrow' => List.mem_append_left _ (hs.reads hrow')
  · intro r' hr'
    rw [known_snoc] at hr'
    obtain ⟨r₁, hr₁, rfl⟩ := List.mem_map.mp hr'
    split
    · rename_i hcid
      rcases hs.known r₁ hr₁ with hmem | ⟨r₀, hmem, hcid₀, no₀, -, rfl⟩
      · exact .inr ⟨r₁, hmem, hcid, no, hno, rfl⟩
      · exact .inr ⟨r₀, hmem, hcid₀, no, hno, rfl⟩
    · exact hs.known r₁ hr₁

/-- A row is matched against free numbers only. -/
theorem applyRow_rule {ι : Type} [ReconcilerVenue ι] {row : OrderRow} {items : List ι}
    {claimed : List String} {now : Time} {requireStuck : Bool} {h : List (Event engineSig)}
    (hrow : row ∈ ExecutionEngine.reads h) (hu : Unacked row)
    (hclaimed : ∀ r ∈ ExecutionEngine.known h, ∀ no, r.brokerOrderId = some no →
      r.clientOrderId ≠ row.clientOrderId → SameBook row r → no ∈ claimed) :
    wp (Sem.answering WellRead) AckRule (applyRow row items claimed now requireStuck)
      (outcome (fun out h' => claimed ⊆ out.2 ∧ Stamped row out.2 h h') fun _ _ => True) h := by
  rw [applyRow_eq, wp_bind]
  cases hres : resolveRow row items claimed now requireStuck with
  | error er => exact trivial
  | ok res =>
    rw [Eff.lift, wp_ret, outcome_ok]
    have hread : Uses Routine (Eff.store (.fetchOrderResult row.clientOrderId)) :=
      uses_store trivial
    unfold applyVisit
    rw [Prog.bind_eq, wp_bind]
    refine wp_mono (wp_routine hread h) fun r h₁ hsteady => ?_
    cases r with
    | error er => trivial
    | ok result =>
      rw [outcome_ok, Prog.bind_eq, wp_bind]
      have hattempts : wp (Sem.answering WellRead) AckRule
          (sumOver attempt (planActions row (filledOf result) res.item now res.ambiguous))
          (fun _ h' => Stamped row res.claimed h h') h₁ := by
        refine wp_sumOver ((Stamped.refl row _ h).of_steady hsteady) fun a ha h₂ hs => ?_
        by_cases hack : ∃ cid no, a = .ack cid no
        · obtain ⟨cid, no, rfl⟩ := hack
          obtain ⟨hnew, rfl, item, hitem, rfl⟩ := planActions_ack ha
          obtain ⟨hcand, hin⟩ := resolveRow_match (hu hnew) hres hitem
          unfold attempt
          rw [wp_tryExcept, wp_bind]
          refine wp_perform.mpr ⟨fun r hr hno hne => ?_, fun r h₃ h₃' => ?_⟩
          · -- another order of the book with this number would have been claimed
            refine ⟨row, hs.reads hrow, rfl, fun hbook => ?_⟩
            rcases hs.known r hr with hmem | ⟨r₀, -, hcid, _, -, rfl⟩
            · exact (isCandidate_iff.mp hcand).1 (hclaimed r hmem _ hno hne hbook)
            · exact hne hcid
          · rw [h₃'.2]
            have := hs.ack hin r
            cases r <;> exact this
        · refine wp_mono (wp_routine (routine_attempt fun cid no heq => hack ⟨cid, no, heq⟩) h₂)
            fun _ _ ht => hs.of_steady ht
      have hplan : wp (Sem.answering WellRead) AckRule
          (runPlan (plan row (filledOf result) res.item now res.ambiguous))
          (fun _ h' => Stamped row res.claimed h h') h₁ :=
        runPlan_cases (motive := fun p => wp (Sem.answering WellRead) AckRule p
          (fun _ h' => Stamped row res.claimed h h') h₁)
          (fun _ _ => (Stamped.refl row _ h).of_steady hsteady) fun _ => hattempts
      refine wp_mono hplan fun r h₂ hs => ?_
      cases r with
      | error er => trivial
      | ok n => exact ⟨resolveRow_claimed hres, hs⟩

section Pass

variable {ι : Type} [ReconcilerVenue ι] {items : List ι} {now : Time} {h : List (Event engineSig)}

/-- Rows of one book fall into one group, and a handle does not move a row. -/
structure BookIsGroup (ι : Type) [ReconcilerVenue ι] : Prop where
  same : ∀ row r : OrderRow, row.broker = ReconcilerVenue.broker ι → SameBook row r →
    ReconcilerVenue.groupKey ι r = ReconcilerVenue.groupKey ι row
  stamp : ∀ (row : OrderRow) (no : String),
    ReconcilerVenue.groupKey ι (row.stamp no) = ReconcilerVenue.groupKey ι row

theorem liberator_bookIsGroup : BookIsGroup Liberator.VenueOrderItem where
  same row r _ h := by
    show (r.account, none) = (row.account, none)
    rw [h.2.1]
  stamp _ _ := rfl

theorem streamingPro_bookIsGroup : BookIsGroup StreamingPro.VenueOrderRow where
  same row r hb h := by
    show (r.account, some r.market) = (row.account, some row.market)
    rw [h.2.1, h.2.2 hb]
  stamp _ _ := rfl

/-- The working set of `h'` is that of `h`, with numbers put on the given rows at most. -/
def StampedOn (rows : List OrderRow) (h h' : List (Event engineSig)) : Prop :=
  ExecutionEngine.reads h ⊆ ExecutionEngine.reads h' ∧
  ∀ r' ∈ ExecutionEngine.known h', r' ∈ ExecutionEngine.known h ∨
    ∃ r ∈ ExecutionEngine.known h, (∃ row ∈ rows, r.clientOrderId = row.clientOrderId) ∧
      ∃ no, r' = r.stamp no

theorem StampedOn.cons {row : OrderRow} {rows : List OrderRow} {claimed : List String}
    {h h₁ h₂ : List (Event engineSig)} (hs : Stamped row claimed h h₁) (ht : StampedOn rows h₁ h₂) :
    StampedOn (row :: rows) h h₂ := by
  refine ⟨fun r hr => ht.1 (hs.reads hr), fun r₂ hr₂ => ?_⟩
  rcases ht.2 r₂ hr₂ with hr₁ | ⟨r₁, hr₁, ⟨row', hrow', hcid⟩, no, rfl⟩
  · rcases hs.known r₂ hr₁ with hr | ⟨r, hr, hcid, no, -, rfl⟩
    · exact .inl hr
    · exact .inr ⟨r, hr, ⟨row, List.mem_cons_self .., hcid⟩, no, rfl⟩
  · have hin : ∃ row₀ ∈ row :: rows, r₁.clientOrderId = row₀.clientOrderId :=
      ⟨row', List.mem_cons_of_mem _ hrow', hcid⟩
    rcases hs.known r₁ hr₁ with hr | ⟨r, hr, -, no₁, -, rfl⟩
    · exact .inr ⟨r₁, hr, hin, no, rfl⟩
    · exact .inr ⟨r, hr, hin, no, rfl⟩

/-- The rows of one group, with every handle of the group claimed. -/
theorem applyRows_rule (hbook : BookIsGroup ι) (key : GroupKey) {rows : List OrderRow}
    {claimed : List String}
    (hrows : ∀ row ∈ rows, row ∈ ExecutionEngine.reads h ∧ Unacked row ∧
      row.broker = ReconcilerVenue.broker ι ∧ ReconcilerVenue.groupKey ι row = key)
    (hclaimed : ∀ r ∈ ExecutionEngine.known h, ReconcilerVenue.groupKey ι r = key →
      ∀ no, r.brokerOrderId = some no → no ∈ claimed) :
    wp (Sem.answering WellRead) AckRule (applyRows items now rows claimed)
      (outcome (fun _ h' => StampedOn rows h h') fun _ _ => True) h := by
  induction rows generalizing claimed h with
  | nil => exact ⟨fun _ hr => hr, fun _ hr => .inl hr⟩
  | cons row rows ih =>
    obtain ⟨hread, hu, hbroker, hkey⟩ := hrows row (List.mem_cons_self ..)
    unfold applyRows
    rw [Prog.bind_eq, wp_bind]
    have hrow : wp (Sem.answering WellRead) AckRule (applyRow row items claimed now true)
        (outcome (fun out h' => claimed ⊆ out.2 ∧ Stamped row out.2 h h') fun _ _ => True) h :=
      applyRow_rule hread hu fun r hr no hno _ hsame =>
        hclaimed r hr ((hbook.same row r hbroker hsame).trans hkey) no hno
    refine wp_mono hrow fun o h₁ h₁' => ?_
    cases o with
    | error er => trivial
    | ok out =>
      obtain ⟨n, claimed'⟩ := out
      obtain ⟨hsub, hs⟩ := h₁'
      rw [outcome_ok]
      dsimp only
      rw [Prog.bind_eq, wp_bind]
      have hrest : wp (Sem.answering WellRead) AckRule (applyRows items now rows claimed')
          (outcome (fun _ h' => StampedOn rows h₁ h') fun _ _ => True) h₁ := by
        refine ih (fun row' hrow' => ?_) fun r hr hrkey no hno => ?_
        · obtain ⟨hr, hrest⟩ := hrows row' (List.mem_cons_of_mem _ hrow')
          exact ⟨hs.reads hr, hrest⟩
        · rcases hs.known r hr with hmem | ⟨r₀, -, -, no₀, hin, rfl⟩
          · exact hsub (hclaimed r hmem hrkey no hno)
          · rw [← Option.some.inj hno]
            exact hin
      refine wp_mono hrest fun o h₂ h₂' => ?_
      cases o with
      | error er => trivial
      | ok m => exact StampedOn.cons hs h₂'

/-- The groups of a listing one after the other; those to come are still as listed. -/
theorem groups_rule (hbook : BookIsGroup ι)
    (hfetch : ∀ key, Uses Routine (ReconcilerVenue.fetchVenueOrders key : Eff (List ι)))
    {rows : List OrderRow} (hnodup : (rows.map OrderRow.clientOrderId).Nodup)
    (hrows : ∀ row ∈ rows, row.broker = ReconcilerVenue.broker ι ∧ Unacked row)
    {keys : List GroupKey} (hkeys : keys.Nodup)
    (hreads : rows ⊆ ExecutionEngine.reads h)
    (hlisted : ∀ r ∈ ExecutionEngine.known h, ReconcilerVenue.groupKey ι r ∈ keys → r ∈ rows) :
    wp (Sem.answering WellRead) AckRule (sumOver (reconcileGroup ι now)
      (keys.map fun k => (k, rows.filter fun r => ReconcilerVenue.groupKey ι r = k)))
      (fun _ _ => True) h := by
  induction keys generalizing h with
  | nil => trivial
  | cons key keys ih =>
    rw [List.nodup_cons] at hkeys
    rw [List.map_cons, sumOver, wp_bind]
    have hread : Uses Routine (readBook ι key) := by
      refine Uses.tryExcept ((hfetch key).bind fun _ => uses_ret _) fun e => ?_
      split <;> trivial
    have hskip {h₁ : List (Event engineSig)} (hs : Steady h h₁) :
        wp (Sem.answering WellRead) AckRule (sumOver (reconcileGroup ι now)
          (keys.map fun k => (k, rows.filter fun r => ReconcilerVenue.groupKey ι r = k)))
          (fun _ _ => True) h₁ := by
      refine ih hkeys.2 (fun r hr => hs.2 (hreads hr)) ?_
      rw [hs.1]
      exact fun r hr hrk => hlisted r hr (List.mem_cons_of_mem _ hrk)
    unfold reconcileGroup
    rw [Prog.bind_eq, wp_bind]
    refine wp_mono (wp_routine hread h) fun o h₁ hs => ?_
    cases o with
    | error er => trivial
    | ok book =>
      rw [outcome_ok]
      cases book with
      | none =>
        rw [wp_ret, outcome_ok, wp_bind]
        refine wp_mono (hskip hs) fun o _ _ => ?_
        cases o <;> trivial
      | some items =>
        have hgroup : wp (Sem.answering WellRead) AckRule
            (applyRows items now (rows.filter fun r => ReconcilerVenue.groupKey ι r = key)
              (handlesOf (rows.filter fun r => ReconcilerVenue.groupKey ι r = key)))
            (outcome (fun _ h' => StampedOn
              (rows.filter fun r => ReconcilerVenue.groupKey ι r = key) h₁ h') fun _ _ => True)
            h₁ := by
          refine applyRows_rule hbook key (fun row hrow => ?_) fun r hr hrkey no hno => ?_
          · obtain ⟨hrow, hkey⟩ := List.mem_filter.mp hrow
            obtain ⟨hb, hu⟩ := hrows row hrow
            exact ⟨hs.2 (hreads hrow), hu, hb, of_decide_eq_true hkey⟩
          · rw [hs.1] at hr
            have hin : r ∈ rows := hlisted r hr (hrkey ▸ List.mem_cons_self ..)
            refine List.mem_filterMap.mpr ⟨r, List.mem_filter.mpr ⟨hin, ?_⟩, hno⟩
            exact decide_eq_true hrkey
        refine wp_mono hgroup fun o h₂ hst => ?_
        cases o with
        | error er => trivial
        | ok n =>
          rw [outcome_ok, wp_bind]
          have hrest : wp (Sem.answering WellRead) AckRule (sumOver (reconcileGroup ι now)
              (keys.map fun k => (k, rows.filter fun r => ReconcilerVenue.groupKey ι r = k)))
              (fun _ _ => True) h₂ := by
            refine ih hkeys.2 (fun r hr => hst.1 (hs.2 (hreads hr))) fun r hr hrk => ?_
            rcases hst.2 r hr with hmem | ⟨r₀, hmem, ⟨row, hrow, hcid⟩, no, rfl⟩
            · rw [hs.1] at hmem
              exact hlisted r hmem (List.mem_cons_of_mem _ hrk)
            · -- a stamped row is one of this group, and the ids of a listing differ
              rw [hs.1] at hmem
              obtain ⟨hrow, hkey⟩ := List.mem_filter.mp hrow
              rw [hbook.stamp] at hrk
              have hr₀ : r₀ ∈ rows := hlisted r₀ hmem (List.mem_cons_of_mem _ hrk)
              obtain rfl := List.inj_on_of_nodup_map hnodup hr₀ hrow hcid
              rw [of_decide_eq_true hkey] at hrk
              exact absurd hrk hkeys.1
          refine wp_mono hrest fun o _ _ => ?_
          cases o <;> trivial

theorem ruled_reconcileOnce (hbook : BookIsGroup ι)
    (hfetch : ∀ key, Uses Routine (ReconcilerVenue.fetchVenueOrders key : Eff (List ι))) :
    Ruled (reconcileOnce ι) := by
  intro h
  unfold reconcileOnce
  rw [Prog.bind_eq, wp_bind]
  refine wp_perform.mpr ⟨trivial, fun r h₁ hs => ?_⟩
  cases r with
  | error er => trivial
  | ok rows =>
    obtain ⟨⟨hnodup, hrows⟩, rfl⟩ := hs
    rw [outcome_ok]
    split
    · trivial
    · have hclock : Uses Routine (Eff.ext .now) := uses_ext trivial
      rw [Prog.bind_eq, wp_bind]
      refine wp_mono (wp_routine hclock _) fun o h₂ hst => ?_
      cases o with
      | error er => trivial
      | ok now =>
        rw [outcome_ok]
        refine groups_rule hbook hfetch hnodup hrows (nodup_firstKeys _) ?_ fun r hr _ => ?_
        · intro row hrow
          refine hst.2 ?_
          rw [reads_snoc]
          exact List.mem_append_right _ hrow
        · rw [hst.1, known_snoc] at hr
          exact hr

end Pass

end Reconcile

/-- The match of a burst, with the handles of the account's working set claimed. -/
theorem burst_rule {row : OrderRow} {working : List OrderRow} {h : List (Event engineSig)}
    (items : List Liberator.VenueOrderItem) (now : Time) (hrow : row ∈ reads h) (hu : Unacked row)
    (hknown : known h = working) :
    wp (Sem.answering WellRead) AckRule
      (Reconcile.applyRow row items (Liberator.claimedByOthers row working) now false)
      (fun _ _ => True) h := by
  have hrule : wp (Sem.answering WellRead) AckRule
      (Reconcile.applyRow row items (Liberator.claimedByOthers row working) now false)
      (outcome (fun out h' => Liberator.claimedByOthers row working ⊆ out.2 ∧
        Reconcile.Stamped row out.2 h h') fun _ _ => True) h := by
    refine Reconcile.applyRow_rule hrow hu fun r hr no hno hne hsame => ?_
    rw [hknown] at hr
    refine List.mem_filterMap.mpr ⟨r, List.mem_filter.mpr ⟨hr, ?_⟩, hno⟩
    rw [hsame.2.1]
    simp [hne]
  exact wp_mono hrule fun _ _ _ => trivial

theorem ruled_resolveOrderNow (cid : String) : Ruled (Liberator.resolveOrderNow cid) := by
  intro h
  unfold Liberator.resolveOrderNow
  rw [Prog.bind_eq, wp_bind]
  refine wp_perform.mpr ⟨trivial, fun r h₁ hs => ?_⟩
  cases r with
  | error er => trivial
  | ok row =>
    rw [outcome_ok]
    cases row with
    | none => trivial
    | some row =>
      obtain ⟨⟨rfl, hu⟩, rfl⟩ := hs
      dsimp only
      split
      · trivial
      · rw [Prog.bind_eq, wp_bind]
        refine wp_perform.mpr ⟨trivial, fun r h₂ hs => ?_⟩
        cases r with
        | error er => trivial
        | ok working =>
          obtain ⟨-, rfl⟩ := hs
          have hbook : Uses Routine (Eff.ext (.liberatorOrders row.account)) := uses_ext trivial
          rw [outcome_ok, Prog.bind_eq, wp_bind]
          refine wp_mono (wp_routine hbook _) fun o h₃ hs₃ => ?_
          cases o with
          | error er => trivial
          | ok items =>
            have hclock : Uses Routine (Eff.ext .now) := uses_ext trivial
            rw [outcome_ok, Prog.bind_eq, wp_bind]
            refine wp_mono (wp_routine hclock _) fun o h₄ hs₄ => ?_
            cases o with
            | error er => trivial
            | ok now =>
              have hknown : known h₄ = working := by
                rw [hs₄.1, hs₃.1, known_snoc]
                rfl
              have hread : row ∈ reads h₄ := by
                refine hs₄.2 (hs₃.2 ?_)
                rw [reads_snoc, reads_snoc]
                refine List.mem_append_left _ (List.mem_append_right _ ?_)
                exact List.mem_singleton_self row
              have hback : Uses Routine (Eff.store (.fetchOrder row.clientOrderId)) :=
                uses_store trivial
              rw [outcome_ok, Prog.bind_eq, wp_bind]
              refine wp_mono (burst_rule items now hread hu hknown) fun o h₅ _ => ?_
              cases o with
              | error er => trivial
              | ok out =>
                refine Ruled.bind (ruled_routine hback) (fun after => ?_) h₅
                exact ruled_ret (after.any Liberator.isResolved)

/-! ## The router -/

theorem ruled_recoverHandle {resolve : Eff Bool} (h : Ruled resolve)
    (submittedAt cadence deadline : Time) (minPolls : Int) (fuel : Nat) (attempts : Int)
    (readOk : Bool) :
    Ruled (HandleRecovery.recoverHandle resolve submittedAt cadence deadline minPolls fuel
      attempts readOk) := by
  induction fuel generalizing attempts readOk with
  | zero => exact ruled_routine uses_stuck
  | succ fuel ih =>
    unfold HandleRecovery.recoverHandle HandleRecovery.poll
    have hpoll : Ruled (tryExcept (resolve.bind fun b => .ret (some b)) fun _ => .ret none) :=
      (h.bind fun b => ruled_ret (some b)).tryExcept fun _ => ruled_ret none
    refine hpoll.bind fun answer => ?_
    split
    · exact fun _ => trivial
    · have hclock : Uses Probe (Eff.ext .now) := uses_ext trivial
      have hsleep : Uses Probe (Eff.ext (.sleep cadence)) := uses_ext trivial
      refine (ruled_probe hclock).bind fun now => ?_
      split
      · exact ruled_ret _
      · exact (ruled_probe hsleep).bind fun _ => ih _ _

namespace Router

variable (R : Router)

theorem ruled_recover (fuel : Nat) (o : NormalizedOrder) : Ruled (R.recoverHandle fuel o) := by
  unfold recoverHandle
  split
  · have hread : Uses Routine (Eff.store (.fetchOrder o.clientOrderId)) := uses_store trivial
    refine (ruled_routine hread).bind fun row => ?_
    have hstart : Ruled (submittedAt row) := by
      cases row with
      | none => exact ruled_probe (uses_ext trivial)
      | some row => exact fun _ => trivial
    exact hstart.bind fun _ => ruled_recoverHandle (ruled_resolveOrderNow _) _ _ _ _ _ _ _
  · exact fun _ => trivial

/-- After a placement the call knows no working set. -/
theorem settle_rule (a : AdapterId) (o : NormalizedOrder) (no : String) (ack : PlaceAck)
    {h : List (Event engineSig)} (hk : known h = []) :
    wp (Sem.answering WellRead) AckRule (settle a o no ack) (fun _ _ => True) h := by
  unfold settle
  rw [Prog.bind_eq, wp_bind]
  refine wp_perform.mpr ⟨fun r hr => ?_, fun r h₁ _ => ?_⟩
  · rw [hk] at hr
    cases hr
  · cases r with
    | error er => trivial
    | ok u =>
      rw [outcome_ok]
      refine ruled_routine ?_ h₁
      refine Uses.bind (uses_forEach fun f => ?_) fun _ => ?_
      · exact Uses.bind (uses_store trivial) fun _ => trivial
      · split
        · refine Uses.bind (uses_updateStatus trivial trivial) fun _ =>
            Uses.bind (uses_ext trivial) fun _ => ?_
          exact Uses.bind (uses_updateStatus trivial trivial) fun _ => trivial
        · trivial

theorem ruled_placeAndSettle (fuel : Nat) (a : AdapterId) (o : NormalizedOrder) :
    Ruled (R.placeAndSettle fuel a o) := by
  intro h
  unfold placeAndSettle
  rw [Prog.bind_eq, wp_bind]
  refine wp_perform.mpr ⟨trivial, fun r h₁ hs => ?_⟩
  cases r with
  | error er => trivial
  | ok ack =>
    rw [outcome_ok]
    split
    · refine ruled_routine ?_ h₁
      refine Uses.bind (uses_updateStatus trivial trivial) fun _ => ?_
      exact Uses.bind (uses_store trivial) fun _ => trivial
    · split
      · exact R.ruled_recover fuel o h₁
      · refine settle_rule a o _ ack ?_
        rw [hs.2, known_snoc]
        rfl

theorem ruled_submitLocked (fuel : Nat) (a : AdapterId) (o : NormalizedOrder)
    (sid : Option String) (acquired : Bool) : Ruled (R.submitLocked fuel a o sid acquired) := by
  unfold submitLocked
  split
  · refine (ruled_routine (uses_insertFresh trivial)).bind fun fresh => ?_
    split
    · exact (R.ruled_placeAndSettle fuel a o).bind fun _ _ => trivial
    · refine ruled_routine (Uses.bind (uses_store trivial) fun row => ?_)
      split <;> trivial
  · exact (ruled_routine (uses_awaitConcurrent trivial trivial _)).bind fun _ _ => trivial

theorem ruled_singleFlight {α : Type} {key : String} {body : Bool → Eff α}
    (hbody : ∀ b, Ruled (body b)) : Ruled (R.singleFlight key body) := by
  unfold singleFlight
  exact (ruled_probe (R.uses_acquireLock key)).bind fun acquired =>
    (hbody acquired).tryFinally (ruled_probe (R.uses_releaseLock key acquired))

theorem ruled_submit (fuel : Nat) (o : NormalizedOrder) (sid : Option String) :
    Ruled (R.submit fuel o sid) := by
  have hread : Uses Routine (Eff.store (.fetchOrderResult o.clientOrderId)) := uses_store trivial
  unfold submit
  refine (ruled_probe R.uses_assertDisengaged).bind fun _ => ?_
  refine (ruled_routine hread).bind fun existing => ?_
  cases existing with
  | some row => exact fun _ => trivial
  | none =>
    refine (ruled_probe (R.uses_gates o)).bind fun a => ?_
    refine (R.ruled_singleFlight fun b => R.ruled_submitLocked fuel a o sid b).bind fun done => ?_
    exact ruled_routine (uses_readBack trivial done)

theorem ruled_amend (fuel : Nat) (cid : String) (newCid : Option String) (p : Option Decimal)
    (q : Option Int) : Ruled (R.amend fuel cid newCid p q) := by
  have hread : Uses Routine (Eff.store (.fetchOrder cid)) := uses_store trivial
  unfold amend
  refine (ruled_probe R.uses_assertDisengaged).bind fun _ => ?_
  split
  · exact fun _ => trivial
  · refine (ruled_routine hread).bind fun row => ?_
    cases row with
    | none => exact fun _ => trivial
    | some row =>
      refine (ruled_routine (uses_lift _)).bind fun caps => ?_
      split
      · exact ruled_routine (routine_of (R.tending_amendNative _ _ _ _))
      · unfold amendCancelReplace
        split
        · exact fun _ => trivial
        · rename_i newId
          generalize amendedOrder row newId p q = built
          refine (ruled_routine (routine_of (R.tending_cancel _))).bind fun _ => ?_
          refine (ruled_routine (uses_lift built)).bind fun replacement => ?_
          exact R.ruled_submit fuel replacement _

end Router

/-- Every call keeps the rule. -/
theorem ruled_request (q : Request) : Ruled q.prog := by
  cases q with
  | submit R fuel o sid => exact (R.ruled_submit fuel o sid).bind fun _ _ => trivial
  | cancel R cid => exact (ruled_routine (routine_of (R.tending_cancel cid))).bind fun _ _ => trivial
  | amend R fuel cid newCid p q => exact (R.ruled_amend fuel cid newCid p q).bind fun _ _ => trivial
  | massCancel R => exact (ruled_routine (routine_of R.tending_massCancel)).bind fun _ _ => trivial
  | reconcileLiberator =>
    exact (Reconcile.ruled_reconcileOnce Reconcile.liberator_bookIsGroup fun _ =>
      uses_ext trivial).bind fun _ _ => trivial
  | reconcileStreamingPro =>
    exact (Reconcile.ruled_reconcileOnce Reconcile.streamingPro_bookIsGroup fun _ =>
      uses_ext trivial).bind fun _ _ => trivial
  | resolveOrderNow cid => exact (ruled_resolveOrderNow cid).bind fun _ _ => trivial

/-! ## What a step does to handles -/

/-- Broker, account and market never change. -/
def OrderRow.book (r : OrderRow) : Broker × String × Market := (r.broker, r.account, r.market)

theorem SameBook.of_book {row row' r : OrderRow} (h : SameBook row r) (hb : row'.book = row.book) :
    SameBook row' r := by
  simp only [OrderRow.book, Prod.mk.injEq] at hb
  obtain ⟨hbroker, haccount, hmarket⟩ := hb
  refine ⟨h.1.trans hbroker.symm, h.2.1.trans haccount.symm, fun hsp => ?_⟩
  rw [h.2.2 (hbroker ▸ hsp), hmarket]

theorem Change.book {o : StoreOp} {e e' : Entry} (h : Change o e e') : e'.row.book = e.row.book := by
  cases h with
  | ack | status | reason => rfl
  | replace _ _ _ hrow => rw [hrow]; rfl
  | fill => simp [Db.withStatus, OrderRow.book]

/-- Only an ack writes a handle. -/
theorem Change.handle {o : StoreOp} {e e' : Entry} (h : Change o e e') :
    e'.row.brokerOrderId = e.row.brokerOrderId ∨
    ∃ no, o = .ackOrder e.row.clientOrderId no ∧ e.row.status = .pendingNew ∧
      e'.row.status = .new ∧ e'.row.brokerOrderId = some no := by
  cases h with
  | ack no hs => exact .inr ⟨no, rfl, hs, rfl, rfl⟩
  | replace _ _ _ hrow => exact .inl (by rw [hrow])
  | status => exact .inl rfl
  | reason => exact .inl rfl
  | fill => exact .inl (by simp [Db.withStatus])

/-- Nothing comes back to PENDING_NEW. -/
theorem Change.pendingNew {o : StoreOp} {e e' : Entry} (h : Change o e e')
    (hs : e'.row.status = .pendingNew) : e.row.status = .pendingNew := by
  have hl := h.legal
  rw [hs] at hl
  revert hl
  cases e.row.status <;> decide

/-- The row is still there, in the same book. -/
def Lasting (row : OrderRow) (db : Db) : Prop :=
  ∃ e, db.find row.clientOrderId = some e ∧ e.row.book = row.book

/-- No PENDING_NEW order carries a handle. -/
def AllUnacked (db : Db) : Prop := ∀ cid e, db.find cid = some e → Unacked e.row

section Step

variable {E : Env} {db db' : Db} {op : EngineOp} {r : Except Exn op.Res}

theorem step_lasting (h : (sem E).step db op r db') {row : OrderRow} (hrow : Lasting row db) :
    Lasting row db' := by
  obtain ⟨e, he, hbook⟩ := hrow
  rcases step_find h row.clientOrderId with heq | ⟨_, _, _, _, _, _, hnone, -⟩ |
    ⟨o, e₁, e', -, hc, -, he₁, he'⟩
  · exact ⟨e, heq.trans he, hbook⟩
  · rw [he] at hnone
    cases hnone
  · rw [he] at he₁
    obtain rfl := Option.some.inj he₁
    exact ⟨e', he', hc.book.trans hbook⟩

theorem step_unacked (h : (sem E).step db op r db') (hu : AllUnacked db) : AllUnacked db' := by
  intro cid e' he' hs
  rcases step_find h cid with heq | ⟨ord, sid, t, e, -, -, -, hrow, -, he⟩ |
    ⟨o, e, e₁, -, hc, -, he, he₁⟩
  · exact hu cid e' (heq ▸ he') hs
  · rw [he] at he'
    obtain rfl := Option.some.inj he'
    rw [hrow]
    rfl
  · rw [he₁] at he'
    obtain rfl := Option.some.inj he'
    rcases hc.handle with hh | ⟨no, -, -, hnew, -⟩
    · rw [hh]
      exact hu cid e he (hc.pendingNew hs)
    · rw [hnew] at hs
      cases hs

/-- Rows come back well read, and they are in the store. -/
theorem step_wellRead (h : (sem E).step db op r db') (hu : AllUnacked db) :
    WellRead ⟨op, r⟩ ∧ ∀ row ∈ rowsRead ⟨op, r⟩, Lasting row db := by
  have hcur {row : OrderRow} (hc : Current row db) : Unacked row ∧ Lasting row db := by
    obtain ⟨e, he, rfl⟩ := hc.find
    exact ⟨hu _ e he, e, he, rfl⟩
  rcases op with o | o
  · cases o with
    | fetchOrder cid =>
      cases r with
      | error er => exact ⟨trivial, fun _ hr => by cases hr⟩
      | ok x =>
        obtain rfl := (step_fetchOrder h).2 x rfl
        cases hx : db.fetchOrder cid with
        | none => exact ⟨trivial, fun _ hr => by cases hr⟩
        | some row =>
          obtain ⟨e, he, rfl⟩ := Option.map_eq_some_iff.mp hx
          have hkey := Db.find_key he
          have hc : Current e.row db := by rw [Current, hkey, hx]
          refine ⟨⟨hkey, (hcur hc).1⟩, fun row' hrow' => ?_⟩
          rw [List.mem_singleton.mp hrow']
          exact (hcur hc).2
    | fetchOrdersForReconcile b i =>
      cases r with
      | error er => exact ⟨trivial, fun _ hr => by cases hr⟩
      | ok rows =>
        have hl := (step_listing h).2 rows rfl
        refine ⟨⟨listing_nodup hl, fun row hrow => ?_⟩, fun row hrow => ?_⟩
        · obtain ⟨hc, hb, -⟩ := mem_listing hl hrow
          exact ⟨hb, (hcur hc).1⟩
        · exact (hcur (mem_listing hl hrow).1).2
    | _ => exact ⟨trivial, fun _ hr => by cases hr⟩
  · exact ⟨trivial, fun _ hr => by cases hr⟩

/-- A handle was there before the step, or the step is the ack that wrote it. -/
theorem step_handle (h : (sem E).step db op r db') {cid no : String} {e' : Entry}
    (he' : db'.find cid = some e') (hno : e'.row.brokerOrderId = some no) :
    ∃ e, db.find cid = some e ∧ e'.row.book = e.row.book ∧
      (e.row.brokerOrderId = some no ∨
        op = .store (.ackOrder cid no) ∧ e.row.status = .pendingNew) := by
  rcases step_find h cid with heq | ⟨ord, sid, t, e, -, -, -, hrow, -, he⟩ |
    ⟨o, e, e₁, rfl, hc, rfl, he, he₁⟩
  · exact ⟨e', heq ▸ he', rfl, .inl hno⟩
  · rw [he] at he'
    obtain rfl := Option.some.inj he'
    rw [hrow] at hno
    cases hno
  · rw [he₁] at he'
    obtain rfl := Option.some.inj he'
    refine ⟨e, he, hc.book, ?_⟩
    rcases hc.handle with hh | ⟨no', rfl, hnew, -, hh⟩
    · exact .inl (hh ▸ hno)
    · rw [hh] at hno
      obtain rfl := Option.some.inj hno
      exact .inr ⟨rfl, hnew⟩

end Step

/-! ## Runs -/

/-- No two orders of one broker and account carry one number. -/
def HandlesInjective (db : Db) : Prop :=
  ∀ cid cid' e e' no, db.find cid = some e → db.find cid' = some e' →
    e.row.broker = e'.row.broker → e.row.account = e'.row.account →
    e.row.brokerOrderId = some no → e'.row.brokerOrderId = some no → cid = cid'

/-- Every order that carries the number an ack is about to write is one the call knows to carry
    it. -/
def Visible (db : Db) (h : List (Event engineSig)) : EngineOp → Prop
  | .store (.ackOrder cid no) => ∀ e cid' e', db.find cid = some e → e.row.status = .pendingNew →
    db.find cid' = some e' → cid' ≠ cid → e'.row.broker = e.row.broker →
    e'.row.account = e.row.account → e'.row.brokerOrderId = some no →
    ∃ r ∈ known h, r.clientOrderId = cid' ∧ r.brokerOrderId = some no ∧ SameBook e.row r
  | _ => True

/-- No other order of the account carries the number an ack is about to write. -/
def Free (db : Db) (cid no : String) : Prop :=
  ∀ e cid' e', db.find cid = some e → e.row.status = .pendingNew → db.find cid' = some e' →
    cid' ≠ cid → e'.row.broker = e.row.broker → e'.row.account = e.row.account →
    e'.row.brokerOrderId ≠ some no

/-- What is visible is not written: the rule of the code turns visible into free. -/
theorem Visible.free {db : Db} {h : List (Event engineSig)} {cid no : String}
    (hv : Visible db h (.store (.ackOrder cid no))) (hrule : AckRule h (.store (.ackOrder cid no)))
    (hl : ∀ row ∈ reads h, Lasting row db) : Free db cid no := by
  intro e cid' e' he hs he' hne hb ha hno
  obtain ⟨r, hr, rfl, hrno, hsame⟩ := hv e cid' e' he hs he' hne hb ha hno
  obtain ⟨row, hrow, rfl, hnot⟩ := hrule r hr hrno hne
  obtain ⟨e₁, he₁, hbook⟩ := hl row hrow
  rw [he] at he₁
  obtain rfl := Option.some.inj he₁
  exact hnot (hsame.of_book hbook.symm)

theorem Free.visible {db : Db} {cid no : String} (h : Free db cid no)
    (hist : List (Event engineSig)) : Visible db hist (.store (.ackOrder cid no)) :=
  fun e cid' e' he hs he' hne hb ha hno => absurd hno (h e cid' e' he hs he' hne hb ha)

section Run

variable {E : Env} {db db' : Db} {op : EngineOp} {r : Except Exn op.Res}

theorem step_injective (h : (sem E).step db op r db') (hi : HandlesInjective db)
    (hfree : ∀ cid no, op = .store (.ackOrder cid no) → Free db cid no) : HandlesInjective db' := by
  intro cid cid' e e' no he he' hb ha hno hno'
  obtain ⟨e₁, he₁, hbook, hold⟩ := step_handle h he hno
  obtain ⟨e₁', he₁', hbook', hold'⟩ := step_handle h he' hno'
  simp only [OrderRow.book, Prod.mk.injEq] at hbook hbook'
  have hb₁ : e₁.row.broker = e₁'.row.broker := hbook.1.symm.trans (hb.trans hbook'.1)
  have ha₁ : e₁.row.account = e₁'.row.account := hbook.2.1.symm.trans (ha.trans hbook'.2.1)
  rcases hold with hold | ⟨hop, hs⟩
  · rcases hold' with hold' | ⟨hop', hs'⟩
    · exact hi cid cid' e₁ e₁' no he₁ he₁' hb₁ ha₁ hold hold'
    · by_contra hne
      exact hfree cid' no hop' e₁' cid e₁ he₁' hs' he₁ hne hb₁ ha₁ hold
  · by_contra hne
    rcases hold' with hold' | ⟨hop', -⟩
    · exact hfree cid no hop e₁ cid' e₁' he₁ hs he₁' (Ne.symm hne) hb₁.symm ha₁.symm hold'
    · rw [hop] at hop'
      simp only [EngineOp.store.injEq, StoreOp.ackOrder.injEq] at hop'
      exact hne hop'.1

/-- After an ack that answered ok the numbers are injective only if the number was free. -/
theorem free_of_injective {cid no : String}
    (h : (sem E).step db (.store (.ackOrder cid no)) (.ok ()) db') (hi : HandlesInjective db') :
    Free db cid no := by
  intro e cid' e' he hs he' hne hb ha hno
  have hack : db.ackOrder cid no = (.ok (), db.set { e with row := { e.row with
      status := .new, brokerOrderId := some no } }) := by
    simp only [Db.ackOrder, he, hs, if_true]
  have hdb : db' = db.set { e with row := { e.row with
      status := .new, brokerOrderId := some no } } := by
    rcases h with ⟨t, ht⟩ | ⟨-, x, hx, -⟩
    · change db.ackOrder cid no = _ at ht
      rw [hack] at ht
      exact (Prod.mk.inj ht).2.symm
    · cases hx
  have hkey := Db.find_key he
  subst hkey
  have hnew : db'.find e.row.clientOrderId = some { e with row := { e.row with
      status := .new, brokerOrderId := some no } } := by
    rw [hdb]
    exact Db.find_set_self he
  have hother : db'.find cid' = some e' := by
    rw [hdb]
    refine (Db.find_set_ne ?_).trans he'
    exact hne
  exact hne (hi cid' _ e' _ no hother hnew hb ha hno rfl)

end Run

section Runs

variable {ι : Type} [DecidableEq ι] {E : Env} {requests : ι → Request}
  {P Q : Pool engineSig Db ι}

/-- Events and store fit together. -/
structure Faithful (db : Db) (tr : List (ι × Event engineSig)) : Prop where
  unacked : AllUnacked db
  events : ∀ x ∈ tr, WellRead x.2
  lasting : ∀ x ∈ tr, ∀ row ∈ rowsRead x.2, Lasting row db

theorem faithful_run (hP : PoolReach (sem E) closed (engine requests Db.empty) P) :
    Faithful P.state P.trace := by
  have h₀ : Faithful (engine requests Db.empty).state (engine requests Db.empty).trace := by
    constructor
    · exact fun _ _ he => nomatch he
    · exact fun _ hx => nomatch hx
    · exact fun _ hx => nomatch hx
  refine pool_invariant h₀ (fun db tr i op r db' hf hs => ?_) (fun _ _ _ _ he => he.elim) hP
  obtain ⟨hwell, hin⟩ := step_wellRead hs hf.unacked
  refine ⟨step_unacked hs hf.unacked, fun x hx => ?_, fun x hx row hrow => ?_⟩
  · rcases List.mem_append.mp hx with hx | hx
    · exact hf.events x hx
    · rw [List.mem_singleton.mp hx]
      exact hwell
  · refine step_lasting hs ?_
    rcases List.mem_append.mp hx with hx | hx
    · exact hf.lasting x hx row hrow
    · rw [List.mem_singleton.mp hx] at hrow
      exact hin row hrow

theorem Faithful.reads {db : Db} {tr : List (ι × Event engineSig)} (h : Faithful db tr) (i : ι) :
    ∀ row ∈ reads (localHistory i tr), Lasting row db := by
  intro row hrow
  obtain ⟨ev, hev, hrow⟩ := List.mem_flatMap.mp hrow
  exact h.lasting (i, ev) (mem_localHistory.mp hev) row hrow

/-- Every ack of a run keeps the rule. -/
theorem ackRule_run (hP : PoolReach (sem E) closed (engine requests Db.empty) P) :
    TraceOk AckRule P.trace :=
  (local_discipline_of rfl (fun i => ruled_request (requests i) []) hP (faithful_run hP).events).1

/-- A step whose ack, if it is one, is visible. -/
def VisibleStep (E : Env) (P Q : Pool engineSig Db ι) : Prop :=
  PoolStep (sem E) closed P Q ∧ ∀ i ev, Q.trace = P.trace ++ [(i, ev)] →
    Visible P.state (localHistory i P.trace) ev.op

theorem visibleRun_reach (h : Relation.ReflTransGen (VisibleStep E) P Q) :
    PoolReach (sem E) closed P Q :=
  h.lift id fun _ _ hs => hs.1

/-- A visible ack of a run writes a free number. -/
theorem free_of_visible (hP : PoolReach (sem E) closed (engine requests Db.empty) P)
    (hstep : PoolStep (sem E) closed P Q) {i : ι} {cid no : String} {r : Except Exn Unit}
    (htr : Q.trace = P.trace ++ [(i, ⟨.store (.ackOrder cid no), r⟩)])
    (hv : Visible P.state (localHistory i P.trace) (.store (.ackOrder cid no))) :
    Free P.state cid no := by
  have hrule : AckRule (localHistory i P.trace) (.store (.ackOrder cid no)) :=
    ackRule_run (hP.tail hstep) P.trace i _ [] htr
  exact hv.free hrule ((faithful_run hP).reads i)

theorem injective_run
    (hrun : Relation.ReflTransGen (VisibleStep E) (engine requests Db.empty) P) :
    HandlesInjective P.state := by
  induction hrun with
  | refl => exact fun _ _ _ _ _ he => nomatch he
  | tail hrun hs ih =>
    obtain ⟨hstep, hvisible⟩ := hs
    have hthis := hstep
    cases hstep with
    | env he => exact he.elim
    | thread i hi hop =>
      refine step_injective hop ih fun cid no heq => ?_
      subst heq
      exact free_of_visible (visibleRun_reach hrun) hthis rfl (hvisible i _ rfl)

/-- In a run of any calls whose acks are all visible no two orders of an account share a handle,
    and then exactly the acks that are not visible break it. -/
theorem handles_injective
    (hrun : Relation.ReflTransGen (VisibleStep E) (engine requests Db.empty) P) :
    HandlesInjective P.state ∧
    ∀ Q i cid no, PoolStep (sem E) closed P Q →
      Q.trace = P.trace ++ [(i, ⟨.store (.ackOrder cid no), .ok ()⟩)] →
      (HandlesInjective Q.state ↔
        Visible P.state (localHistory i P.trace) (.store (.ackOrder cid no))) := by
  have hinj := injective_run hrun
  refine ⟨hinj, fun Q i cid no hstep htr => ?_⟩
  have hthis := hstep
  cases hstep with
  | env he => exact he.elim
  | thread j hj hop =>
    have hlast := List.append_cancel_left htr
    obtain ⟨rfl, hev⟩ := Prod.mk.inj (List.cons.inj hlast).1
    obtain ⟨rfl, hr⟩ := Event.mk.inj hev
    obtain rfl := eq_of_heq hr
    constructor
    · exact fun hi => (free_of_injective hop hi).visible _
    · intro hv
      refine step_injective hop hinj fun cid' no' heq => ?_
      simp only [EngineOp.store.injEq, StoreOp.ackOrder.injEq] at heq
      obtain ⟨rfl, rfl⟩ := heq
      exact free_of_visible (visibleRun_reach hrun) hthis htr hv

/-- The number an ack would write is nowhere else. -/
def ackIsFree (db : Db) : EngineOp → Bool
  | .store (.ackOrder cid no) =>
    db.entries.all fun e => e.row.clientOrderId = cid || e.row.brokerOrderId ≠ some no
  | _ => true

theorem ackIsFree_visible {db : Db} {op : EngineOp} (h : ackIsFree db op = true)
    (hist : List (Event engineSig)) : Visible db hist op := by
  rcases op with o | o
  · cases o with
    | ackOrder cid no =>
      intro e cid' e' _ _ he' hne _ _ hno
      have := List.all_eq_true.mp h e' (Db.mem_of_find he')
      rw [Db.find_key he'] at this
      simp [hne, hno] at this
    | _ => trivial
  · trivial

/-- A computed run that stops at an ack of a number in use. -/
def runVisible (H : Handler) : List ι → Pool engineSig Db ι → Option (Pool engineSig Db ι)
  | [], P => some P
  | i :: is, P =>
    match P.threads i with
    | .call op k =>
      if ackIsFree P.state op then
        runVisible H is ⟨Function.update P.threads i (k (H.step P.state op).1),
          (H.step P.state op).2, P.trace ++ [(i, ⟨op, (H.step P.state op).1⟩)]⟩
      else none
    | _ => runVisible H is P

theorem runVisible_run {H : Handler} (hf : Follows (sem E) H.step) {is : List ι}
    (h : runVisible H is P = some Q) : Relation.ReflTransGen (VisibleStep E) P Q := by
  induction is generalizing P with
  | nil => exact Option.some.inj h ▸ .refl
  | cons i is ih =>
    unfold runVisible at h
    split at h
    · rename_i op k hi
      split at h
      · rename_i hfree
        refine .head ⟨.thread i hi (hf P.state op), fun j ev htr => ?_⟩ (ih h)
        have hlast := List.append_cancel_left htr
        obtain ⟨rfl, rfl⟩ := Prod.mk.inj (List.cons.inj hlast).1
        exact ackIsFree_visible hfree _
      · cases h
    · exact ih h

end Runs

/-! ## Twins -/

/-- Both orders carry the number. -/
def bothCarry (cid cid' no : String) (db : Db) : Bool :=
  (db.find cid).any fun e => (db.find cid').any fun e' =>
    e.row.broker = e'.row.broker && e.row.account = e'.row.account &&
      e.row.brokerOrderId = some no && e'.row.brokerOrderId = some no

theorem not_injective_of_bothCarry {cid cid' no : String} {db : Db} (hne : cid ≠ cid')
    (h : bothCarry cid cid' no db = true) : ¬ HandlesInjective db := by
  obtain ⟨e, he, h⟩ := (Option.any_eq_true _ _).mp h
  obtain ⟨e', he', h⟩ := (Option.any_eq_true _ _).mp h
  simp only [Bool.and_eq_true, decide_eq_true_eq] at h
  obtain ⟨⟨⟨hb, ha⟩, hno⟩, hno'⟩ := h
  exact fun hi => hne (hi cid cid' e e' no he he' hb ha hno hno')

/-- One venue order, V1, filled; the placement of the second sample order gets lost. -/
def twinHandler : Handler where
  time := 0
  ext _ o := match o with
    | .place _ ord => if ord.clientOrderId = cidB then .error (.transportError "timeout") else .ok {}
    | o => plainExt (Reconcile.seconds 10) (fun _ => {}) [sampleItem 100] o

def twinEnv : Env := .reliable fun db o r => r = twinHandler.ext db o

/-- Two orders that look alike, then two passes. -/
def twinRequests (i : Fin 4) : Request :=
  [.submit liveRouter 0 (sampleOrderA .liberator) none,
    .submit liveRouter 0 (sampleOrderB .liberator) none,
    .reconcileLiberator, .reconcileLiberator].get i

def twinSchedule : List (Fin 4) :=
  List.replicate 20 0 ++ List.replicate 20 1 ++ List.replicate 20 2 ++ List.replicate 20 3

/-- The first pass fills A from V1. A is then out of the working set, so the second pass gives V1
    to B as well. -/
theorem twin_takes_handle :
    (∀ db account items, twinEnv.allows db (.liberatorOrders account) (.ok items) →
      items = [sampleItem 100]) ∧
    ∃ P, PoolReach (sem twinEnv) closed (engine twinRequests Db.empty) P ∧
      ¬ HandlesInjective P.state := by
  refine ⟨fun _ _ _ h => Except.ok.inj h,
    runPool twinHandler.step twinSchedule (engine twinRequests Db.empty),
    runPool_reach (handler_follows fun _ _ => rfl) _ _, ?_⟩
  have hboth : bothCarry cidA cidB "V1"
      (runPool twinHandler.step twinSchedule (engine twinRequests Db.empty)).state = true := by
    decide +kernel
  exact not_injective_of_bothCarry (by decide) hboth

/-- The second sample order at another price. -/
def dearOrderB : NormalizedOrder :=
  ⟨{ sampleFields cidB .liberator with price := some ⟨11, 0⟩ }, rfl⟩

/-- A book with both of them. -/
def ladderHandler : Handler :=
  ⟨0, fun _ => plainExt (Reconcile.seconds 10) (fun _ => {})
    [sampleItem 0, { sampleItem 0 with orderNo := "V2", price := some ⟨11, 0⟩ }]⟩

def ladderRequests (i : Fin 3) : Request :=
  [.submit liveRouter 0 (sampleOrderA .liberator) none, .submit liveRouter 0 dearOrderB none,
    .reconcileLiberator].get i

/-- One pass gives each order its own number. -/
theorem ladder_handles_injective :
    ∃ P e e', Relation.ReflTransGen (VisibleStep plainEnv) (engine ladderRequests Db.empty) P ∧
      P.state.find cidA = some e ∧ e.row.brokerOrderId = some "V1" ∧
      P.state.find cidB = some e' ∧ e'.row.brokerOrderId = some "V2" ∧
      HandlesInjective P.state := by
  have h : ((runVisible ladderHandler (List.replicate 20 0 ++ List.replicate 20 1 ++
      List.replicate 20 2) (engine ladderRequests Db.empty)).any fun P =>
        ((P.state.find cidA).any fun e => e.row.brokerOrderId = some "V1") &&
        (P.state.find cidB).any fun e => e.row.brokerOrderId = some "V2") = true := by
    decide +kernel
  obtain ⟨P, hP, hend⟩ := (Option.any_eq_true _ _).mp h
  obtain ⟨hA, hB⟩ := Bool.and_eq_true_iff.mp hend
  obtain ⟨e, he, hno⟩ := (Option.any_eq_true _ _).mp hA
  obtain ⟨e', he', hno'⟩ := (Option.any_eq_true _ _).mp hB
  have hrun := runVisible_run (plain_follows ladderHandler) hP
  exact ⟨P, e, e', hrun, he, of_decide_eq_true hno, he', of_decide_eq_true hno',
    (handles_injective hrun).1⟩

end ExecutionEngine
