/-
  At-most-once placement.

  Three layers race for one `client_order_id`: the dedupe read, the Redis lock and
  the primary key. Only the last one is used here. A call reaches `adapter.place`
  with its own successful insert behind it and no placement of its own
  (`discipline`, for every answer anything can give); the primary key lets one
  insert per id succeed in a whole run (`inserts_at_most_once`); so two placements
  of one id cannot be in one trace, whatever Redis, the adapters or later store
  calls do, and whatever the interleaving.
-/
import ExecutionEngine.Core.Engine
import ExecutionEngine.Core.Footprint

namespace ExecutionEngine

open Async Async.Prog

/-- An `adapter.place` call for `cid`. -/
def isPlaceOf (cid : String) (e : Event engineSig) : Bool :=
  match e.op with
  | .ext (.place _ o) => o.clientOrderId = cid
  | _ => false

/-- An insert of `cid` that answered ok. -/
def isInsertOf (cid : String) : Event engineSig → Bool
  | ⟨.store (.insertOrder o _), .ok _⟩ => o.clientOrderId = cid
  | _ => false

theorem isInsertOf_iff {cid : String} {e : Event engineSig} :
    isInsertOf cid e = true ↔
      ∃ o sid, o.clientOrderId = cid ∧ e = ⟨.store (.insertOrder o sid), .ok ()⟩ := by
  constructor
  · intro h
    unfold isInsertOf at h
    split at h
    · rename_i o sid u
      exact ⟨o, sid, of_decide_eq_true h, rfl⟩
    · cases h
  · rintro ⟨o, sid, rfl, rfl⟩
    exact decide_eq_true rfl

/-- What a call's own history must look like when it performs `op`. -/
def PlaceRule (h : List (Event engineSig)) : EngineOp → Prop
  | .ext (.place _ o) =>
    (∃ e ∈ h, isInsertOf o.clientOrderId e = true) ∧
      ∀ e ∈ h, isPlaceOf o.clientOrderId e = false
  | _ => True

theorem placeRule_of_placeless {h : List (Event engineSig)} {op : EngineOp} (hp : Placeless op) :
    PlaceRule h op := by
  rcases op with o | o
  · trivial
  · cases o <;> first | exact hp.elim | trivial

/-- No placement of anything so far. -/
def Unplaced (h : List (Event engineSig)) : Prop := ∀ cid, ∀ e ∈ h, isPlaceOf cid e = false

theorem Unplaced.snoc {h : List (Event engineSig)} (hu : Unplaced h) {op : EngineOp}
    (hp : Placeless op) (r : Except Exn op.Res) : Unplaced (h ++ [⟨op, r⟩]) := by
  intro cid e he
  rcases List.mem_append.mp he with he | he
  · exact hu cid e he
  · obtain rfl := List.mem_singleton.mp he
    rcases op with o | o
    · rfl
    · cases o <;> first | exact hp.elim | rfl

section Discipline

variable {α : Type} {h : List (Event engineSig)}

/-- A placeless coroutine needs nothing of the history and adds no placement. -/
theorem wp_placeless {p : Eff α} (hp : Uses Placeless p) (hu : Unplaced h) :
    wp Sem.free PlaceRule p (fun _ h' => Unplaced h') h := by
  refine hp.keeps hu (fun _ _ hop _ => placeRule_of_placeless hop) fun s op r s' hop hI hs => ?_
  rw [show s' = s ++ [⟨op, r⟩] from hs]
  exact hI.snoc hop r

theorem wp_placeless' {p : Eff α} (hp : Uses Placeless p) :
    wp Sem.free PlaceRule p (fun _ _ => True) h :=
  hp.keeps (I := fun _ => True) trivial (fun _ _ hop _ => placeRule_of_placeless hop)
    fun _ _ _ _ _ _ _ => trivial

theorem wp_probe_placeless {p : Eff α} (hp : Uses Probe p) (hu : Unplaced h) :
    wp Sem.free PlaceRule p (fun _ h' => Unplaced h') h :=
  wp_placeless (hp.mono fun _ => Probe.placeless) hu

/-- After `insertFresh` answers true, the insert is in the history. -/
theorem wp_insertFresh (o : NormalizedOrder) (sid : Option String) (hu : Unplaced h) :
    wp Sem.free PlaceRule (Router.insertFresh o sid)
      (outcome (fun fresh h' => Unplaced h' ∧
        (fresh = true → ∃ e ∈ h', isInsertOf o.clientOrderId e = true)) fun _ _ => True) h := by
  unfold Router.insertFresh
  rw [wp_tryExcept, wp_bind]
  refine wp_perform.mpr ⟨trivial, fun r h' hs => ?_⟩
  rw [show h' = h ++ [⟨.store (.insertOrder o sid), r⟩] from hs]
  have hu' := fun r => hu.snoc (show Placeless (.store (.insertOrder o sid)) from trivial) r
  cases r with
  | ok u =>
    refine ⟨hu' _, fun _ => ⟨_, List.mem_append_right _ (List.mem_singleton_self _), ?_⟩⟩
    exact isInsertOf_iff.mpr ⟨o, sid, rfl, rfl⟩
  | error x =>
    rw [outcome_error, outcome_error]
    cases x with
    | duplicateOrderSignal cid => exact ⟨hu' _, fun hf => nomatch hf⟩
    | _ => trivial

theorem wp_placeAndSettle (R : Router) (fuel : Nat) (a : AdapterId) (o : NormalizedOrder)
    (hu : Unplaced h) (hi : ∃ e ∈ h, isInsertOf o.clientOrderId e = true) :
    wp Sem.free PlaceRule (R.placeAndSettle fuel a o) (fun _ _ => True) h := by
  unfold Router.placeAndSettle
  rw [Prog.bind_eq, wp_bind]
  refine wp_perform.mpr ⟨⟨hi, hu o.clientOrderId⟩, fun r h' _ => ?_⟩
  cases r with
  | error x => trivial
  | ok ack =>
    rw [outcome_ok]
    refine wp_placeless' ?_
    split
    · exact Uses.bind (uses_updateStatus trivial trivial) fun _ =>
        (uses_store trivial).bind fun _ => trivial
    · split
      · exact placeless_of (upkeep_of_survey (R.survey_recover fuel o))
      · exact Router.uses_settle trivial trivial (fun _ => trivial) (fun _ _ => trivial) trivial

theorem wp_submitLocked (R : Router) (fuel : Nat) (a : AdapterId) (o : NormalizedOrder)
    (sid : Option String) (acquired : Bool) (hu : Unplaced h) :
    wp Sem.free PlaceRule (R.submitLocked fuel a o sid acquired) (fun _ _ => True) h := by
  unfold Router.submitLocked
  split
  · rw [Prog.bind_eq, wp_bind]
    refine wp_mono (wp_insertFresh o sid hu) fun x h' hx => ?_
    cases x with
    | error x => trivial
    | ok fresh =>
      obtain ⟨hu', hi⟩ := hx
      rw [outcome_ok]
      cases fresh with
      | true =>
        rw [if_pos rfl, Prog.bind_eq, wp_bind]
        refine wp_mono (wp_placeAndSettle R fuel a o hu' (hi rfl)) fun x _ _ => ?_
        cases x <;> trivial
      | false =>
        refine wp_placeless' ((uses_store trivial).bind fun row => ?_)
        split <;> trivial
  · exact wp_placeless' ((Router.uses_awaitConcurrent trivial trivial _).bind fun _ =>
      uses_ret _)

/-- The lock is a probe around a body that keeps the rule. -/
theorem wp_singleFlight {R : Router} {key : String} {body : Bool → Eff α}
    (hu : Unplaced h)
    (hbody : ∀ b h', Unplaced h' → wp Sem.free PlaceRule (body b) (fun _ _ => True) h') :
    wp Sem.free PlaceRule (R.singleFlight key body) (fun _ _ => True) h := by
  unfold Router.singleFlight
  rw [Prog.bind_eq, wp_bind]
  refine wp_mono (wp_probe_placeless (R.uses_acquireLock key) hu) fun x h' hu' => ?_
  cases x with
  | error x => trivial
  | ok acquired =>
    rw [outcome_ok, wp_tryFinally]
    refine wp_mono (hbody acquired h' hu') fun o h'' _ => ?_
    refine wp_mono (wp_placeless' ((R.uses_releaseLock key acquired).mono
      fun _ => Probe.placeless)) fun x _ _ => ?_
    cases x <;> trivial

theorem wp_submit (R : Router) (fuel : Nat) (o : NormalizedOrder) (sid : Option String)
    (hu : Unplaced h) : wp Sem.free PlaceRule (R.submit fuel o sid) (fun _ _ => True) h := by
  unfold Router.submit
  rw [Prog.bind_eq, wp_bind]
  refine wp_mono (wp_probe_placeless R.uses_assertDisengaged hu) fun x h₁ hu₁ => ?_
  cases x with
  | error x => trivial
  | ok _ =>
    rw [outcome_ok, Prog.bind_eq, wp_bind]
    refine wp_mono (wp_placeless (uses_store trivial) hu₁) fun x h₂ hu₂ => ?_
    cases x with
    | error x => trivial
    | ok existing =>
      rw [outcome_ok]
      cases existing with
      | some row => trivial
      | none =>
        dsimp only
        rw [Prog.bind_eq, wp_bind]
        refine wp_mono (wp_probe_placeless (R.uses_gates o) hu₂) fun x h₃ hu₃ => ?_
        cases x with
        | error x => trivial
        | ok a =>
          rw [outcome_ok, Prog.bind_eq, wp_bind]
          refine wp_mono (wp_singleFlight hu₃ fun b h' hu' =>
            wp_submitLocked R fuel a o sid b hu') fun x h₄ _ => ?_
          cases x with
          | error x => trivial
          | ok done => exact wp_placeless' (Router.uses_readBack trivial done)

theorem wp_amendCancelReplace (R : Router) (fuel : Nat) (row : OrderRow)
    (newCid : Option String) (p : Option Decimal) (q : Option Int) (hu : Unplaced h) :
    wp Sem.free PlaceRule (R.amendCancelReplace fuel row newCid p q) (fun _ _ => True) h := by
  unfold Router.amendCancelReplace
  split
  · trivial
  · rename_i newCid
    generalize Router.amendedOrder row newCid p q = built
    rw [Prog.bind_eq, wp_bind]
    refine wp_mono (wp_placeless (placeless_of (upkeep_of (R.tending_cancel _))) hu) fun x h₁ hu₁ => ?_
    cases x with
    | error x => trivial
    | ok result =>
      rw [outcome_ok, Prog.bind_eq, wp_bind]
      refine wp_mono (wp_placeless (uses_lift _) hu₁) fun x h₂ hu₂ => ?_
      cases x with
      | error x => trivial
      | ok replacement => exact wp_submit R fuel replacement _ hu₂

theorem wp_amend (R : Router) (fuel : Nat) (cid : String) (newCid : Option String)
    (p : Option Decimal) (q : Option Int) (hu : Unplaced h) :
    wp Sem.free PlaceRule (R.amend fuel cid newCid p q) (fun _ _ => True) h := by
  unfold Router.amend
  rw [Prog.bind_eq, wp_bind]
  refine wp_mono (wp_probe_placeless R.uses_assertDisengaged hu) fun x h₁ hu₁ => ?_
  cases x with
  | error x => trivial
  | ok _ =>
    rw [outcome_ok]
    split
    · trivial
    · rw [Prog.bind_eq, wp_bind]
      refine wp_mono (wp_placeless (uses_store trivial) hu₁) fun x h₂ hu₂ => ?_
      cases x with
      | error x => trivial
      | ok row =>
        rw [outcome_ok]
        cases row with
        | none => trivial
        | some row =>
          dsimp only
          rw [Prog.bind_eq, wp_bind]
          refine wp_mono (wp_placeless (uses_lift _) hu₂) fun x h₃ hu₃ => ?_
          cases x with
          | error x => trivial
          | ok caps =>
            rw [outcome_ok]
            split
            · exact wp_placeless' (placeless_of (upkeep_of (R.tending_amendNative _ _ _ _)))
            · exact wp_amendCancelReplace R fuel row newCid p q hu₃

/-- Whatever the answers, a call places only behind its own insert, and once. -/
theorem discipline (q : Request) : wp Sem.free PlaceRule q.prog (fun _ _ => True) [] := by
  have hu : Unplaced [] := fun _ _ he => nomatch he
  cases q with
  | submit R fuel o sid =>
    exact wp_bind.mpr (wp_mono (wp_submit R fuel o sid hu) fun x _ _ => by cases x <;> trivial)
  | amend R fuel cid newCid p q =>
    exact wp_bind.mpr (wp_mono (wp_amend R fuel cid newCid p q hu) fun x _ _ => by
      cases x <;> trivial)
  | cancel R cid =>
    exact wp_placeless' ((placeless_of (upkeep_of (R.tending_cancel cid))).bind fun _ => uses_ret _)
  | massCancel R =>
    exact wp_placeless' ((placeless_of (upkeep_of R.tending_massCancel)).bind fun _ => uses_ret _)
  | reconcileLiberator =>
    exact wp_placeless' ((placeless_of (upkeep_of_survey (Reconcile.survey_reconcileOnce
      fun _ => uses_ext trivial))).bind fun _ => uses_ret _)
  | reconcileStreamingPro =>
    exact wp_placeless' ((placeless_of (upkeep_of_survey (Reconcile.survey_reconcileOnce
      fun _ => uses_ext trivial))).bind fun _ => uses_ret _)
  | resolveOrderNow cid =>
    exact wp_placeless' ((placeless_of (upkeep_of_survey (survey_resolveOrderNow cid))).bind fun _ => uses_ret _)

end Discipline

/-! ## The primary key over a whole run -/

section Run

variable {ι : Type} [DecidableEq ι] {E : Env} {requests : ι → Request} {db₀ : Db}
  {P : Pool engineSig Db ι}

/-- At most one insert of `cid` has answered ok, and its row is there. -/
def OneInsert (cid : String) (db : Db) (tr : List (ι × Event engineSig)) : Prop :=
  tr.countP (fun x => isInsertOf cid x.2) ≤ 1 ∧
    (0 < tr.countP (fun x => isInsertOf cid x.2) → (db.find cid).isSome = true)

/-- One insert per id succeeds in a whole run. -/
theorem inserts_at_most_once (hP : PoolReach (sem E) closed (engine requests db₀) P)
    (cid : String) : OneInsert cid P.state P.trace := by
  have h₀ : OneInsert cid (engine requests db₀).state (engine requests db₀).trace :=
    ⟨Nat.zero_le 1, fun h => absurd h (Nat.lt_irrefl 0)⟩
  refine pool_invariant h₀ ?_ (fun _ _ _ _ he => he.elim) hP
  intro db tr i op r db' ⟨hle, hrow⟩ hs
  unfold OneInsert
  rw [List.countP_append, List.countP_singleton]
  dsimp only
  split
  · rename_i hins
    obtain ⟨o, sid, rfl, heq⟩ := isInsertOf_iff.mp hins
    obtain ⟨rfl, hr⟩ := Event.mk.inj heq
    obtain rfl := eq_of_heq hr
    obtain ⟨hnone, _, e, hsome, -⟩ := step_insert_ok hs
    have hzero : tr.countP (fun x => isInsertOf o.clientOrderId x.2) = 0 := by
      by_contra hne
      have := hrow (Nat.pos_of_ne_zero hne)
      rw [hnone] at this
      cases this
    exact ⟨by omega, fun _ => by rw [hsome]; rfl⟩
  · exact ⟨by omega, fun h => step_find_isSome hs (hrow (by omega))⟩

/-- Each placement has the thread's own insert behind it and no placement of its own. -/
theorem place_rule (hP : PoolReach (sem E) closed (engine requests db₀) P) :
    TraceOk PlaceRule P.trace :=
  local_discipline rfl (fun i => discipline (requests i)) hP

theorem reach_find_isSome {Q P : Pool engineSig Db ι} (hP : PoolReach (sem E) closed Q P)
    {cid : String} (hs : (Q.state.find cid).isSome = true) : (P.state.find cid).isSome = true := by
  induction hP with
  | refl => exact hs
  | tail _ hstep ih =>
    cases hstep with
    | env he => exact he.elim
    | thread i hi hop => exact step_find_isSome hop ih

/-- Two hits of a predicate, in order. -/
theorem two_of_countP {α : Type} {p : α → Bool} {l : List α} (h : 2 ≤ l.countP p) :
    ∃ a x b y c, l = a ++ x :: (b ++ y :: c) ∧ p x = true ∧ p y = true := by
  induction l with
  | nil => simp at h
  | cons z t ih =>
    by_cases hz : p z = true
    · rw [List.countP_cons_of_pos hz] at h
      obtain ⟨y, hy, hpy⟩ := List.countP_pos_iff.mp (by omega : 0 < t.countP p)
      obtain ⟨b, c, rfl⟩ := List.append_of_mem hy
      exact ⟨[], z, b, y, c, rfl, hz, hpy⟩
    · rw [List.countP_cons_of_neg hz] at h
      obtain ⟨a, x, b, y, c, rfl, hx, hy⟩ := ih h
      exact ⟨z :: a, x, b, y, c, rfl, hx, hy⟩

theorem eq_of_countP_le_one {α : Type} {p : α → Bool} {l : List α} (h : l.countP p ≤ 1) {x y : α}
    (hx : x ∈ l) (hy : y ∈ l) (hpx : p x = true) (hpy : p y = true) : x = y := by
  rw [List.countP_eq_length_filter] at h
  have hx' := List.mem_filter.mpr ⟨hx, hpx⟩
  have hy' := List.mem_filter.mpr ⟨hy, hpy⟩
  match hf : l.filter p, h with
  | [], _ => rw [hf] at hx'; cases hx'
  | [z], _ =>
    rw [hf] at hx' hy'
    rw [List.mem_singleton.mp hx', List.mem_singleton.mp hy']

/-- The insert behind a placement. -/
theorem insert_before_place {tr : Trace ι} (hrule : TraceOk PlaceRule tr)
    {pre post : List (ι × Event engineSig)} {i : ι} {e : Event engineSig} {cid : String}
    (h : tr = pre ++ (i, e) :: post) (he : isPlaceOf cid e = true) :
    (∃ e' ∈ localHistory i pre, isInsertOf cid e' = true) ∧
      ∀ e' ∈ localHistory i pre, isPlaceOf cid e' = false := by
  have hrule := hrule pre i e post h
  unfold isPlaceOf at he
  split at he
  · rename_i a o hop
    obtain rfl := of_decide_eq_true he
    rw [hop] at hrule
    exact hrule
  · cases he

/-- What a run has inserted is there. -/
theorem inserted_row {P₀ P : Pool engineSig Db ι} (htr : P₀.trace = [])
    (hP : PoolReach (sem E) closed P₀ P) {i : ι} {e : Event engineSig} {cid : String}
    (hmem : (i, e) ∈ P.trace) (he : isInsertOf cid e = true) :
    (P.state.find cid).isSome = true := by
  obtain ⟨o, sid, rfl, rfl⟩ := isInsertOf_iff.mp he
  obtain ⟨a, b, hsplit⟩ := List.append_of_mem hmem
  obtain ⟨Q, Q', -, hQ', hstep, -, -⟩ := event_source htr hP hsplit
  obtain ⟨-, t, y, hy, -, -⟩ := step_insert_ok hstep
  exact reach_find_isSome hQ' (by rw [hy]; rfl)

/-- `adapter.place` is called at most once per id over the whole run, and only after a row with
    that id went from absent to PENDING_NEW in the store, where a row with that id has been
    since. -/
theorem place_at_most_once (hP : PoolReach (sem E) closed (engine requests db₀) P)
    (cid : String) :
    P.trace.countP (fun x => isPlaceOf cid x.2) ≤ 1 ∧
    ∀ pre i e post, P.trace = pre ++ (i, e) :: post → isPlaceOf cid e = true →
      ∃ Q Q' : Pool engineSig Db ι, PoolReach (sem E) closed (engine requests db₀) Q ∧
        PoolReach (sem E) closed Q' P ∧ Q'.trace <+: pre ∧
        Q.state.find cid = none ∧
        (∃ x, Q'.state.find cid = some x ∧ x.row.status = .pendingNew) ∧
        (P.state.find cid).isSome = true := by
  constructor
  · by_contra hlt
    obtain ⟨a, ⟨i, e⟩, b, ⟨j, e'⟩, c, htr, he, he'⟩ := two_of_countP (not_le.mp hlt)
    obtain ⟨⟨x, hx, hxi⟩, -⟩ := insert_before_place (place_rule hP) htr he
    have htr' : P.trace = (a ++ (i, e) :: b) ++ (j, e') :: c := by rw [htr]; simp
    obtain ⟨⟨y, hy, hyi⟩, hnone⟩ := insert_before_place (place_rule hP) htr' he'
    rw [mem_localHistory] at hx hy
    have hxP : (i, x) ∈ P.trace := by rw [htr]; exact List.mem_append_left _ hx
    have hyP : (j, y) ∈ P.trace := by rw [htr']; exact List.mem_append_left _ hy
    -- one insert per id: both placements are behind the same insert, hence of one thread
    have hxy := eq_of_countP_le_one (inserts_at_most_once hP cid).1 hxP hyP hxi hyi
    obtain ⟨rfl, -⟩ := Prod.mk.inj hxy
    have hmem : e ∈ localHistory i (a ++ (i, e) :: b) := mem_localHistory.mpr (by simp)
    rw [hnone e hmem] at he
    cases he
  · intro pre i e post htr he
    obtain ⟨⟨x, hx, hxi⟩, -⟩ := insert_before_place (place_rule hP) htr he
    obtain ⟨o, sid, rfl, rfl⟩ := isInsertOf_iff.mp hxi
    obtain ⟨a, b, rfl⟩ := List.append_of_mem (mem_localHistory.mp hx)
    have htr' : P.trace = a ++ (i, ⟨.store (.insertOrder o sid), .ok ()⟩) ::
        (b ++ (i, e) :: post) := by rw [htr]; simp
    obtain ⟨Q, Q', hQ, hQ', hstep, -, htrace⟩ := event_source rfl hP htr'
    obtain ⟨hnone, t, y, hy, -, hrow⟩ := step_insert_ok hstep
    refine ⟨Q, Q', hQ, hQ', ?_, hnone, ⟨y, hy, by rw [hrow]; rfl⟩,
      reach_find_isSome hQ' (by rw [hy]; rfl)⟩
    rw [htrace]
    exact ⟨b, by simp⟩

end Run

/-- Two submits of one order without Redis, alternating until the second one has lost. -/
def raceRun : Pool engineSig Db (Fin 2) :=
  runPool (plainHandler 0 (fun _ => {}) []).step [0, 1, 0, 1, 0, 1, 0, 1, 0, 0, 0]
    (engine (fun _ => .submit { settings := {}, redis := false } 0 (sampleOrderA .sim) none)
      Db.empty)

theorem raceRun_place_once :
    raceRun.trace.countP (fun x => isPlaceOf cidA x.2) = 1 ∧
      raceRun.trace.countP (fun x => isPlaceOf cidA x.2) ≤ 1 :=
  ⟨by decide +kernel,
    (place_at_most_once (E := anyEnv)
      (runPool_reach (handler_follows fun _ _ => trivial) _ _) cidA).1⟩

end ExecutionEngine
