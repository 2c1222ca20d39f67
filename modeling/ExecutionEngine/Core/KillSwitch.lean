/-
  Tripping the kill-switch while the engine is at work.

  `killSwitchEngage` sets the trip key and then sweeps the open orders: those that
  are NEW or PARTIALLY_FILLED when it lists them. Submits and amends read the key
  once, at their start. So an order can come out of it live and unlisted: it was
  waiting for an ack, or for the answer to an amend, when the sweep listed the open
  orders, or a submit that had read the key before the trip (or could not read it)
  inserted it afterwards. `halt_leaves_live_orders` shows the three, and
  `engaged_accounts` says that these are all.
-/
import ExecutionEngine.Core.Placement
import ExecutionEngine.Core.Specs

namespace ExecutionEngine

open Async Async.Prog StateMachine

/-! ## The call -/

structure KillSwitchEngageResponse where
  engaged : Bool
  alreadyEngaged : Bool
  cancelledCount : Nat
  cancelled : List String
  failed : List String
  deriving DecidableEq

namespace Router

variable (R : Router)

/-- `KillSwitch.engage`. -/
def engage : Eff Unit :=
  if R.redis then Eff.ext (.redisSet killSwitchKey "engaged")
  else .raise (.cacheError "redis unavailable; cannot trip the runtime kill-switch")

/-- `kill_switch_engage`; a CacheError becomes a 503 with its text. -/
def killSwitchEngage : Eff KillSwitchEngageResponse := do
  match ← R.killSwitchStatus with
  | some _ => .ret ⟨true, true, 0, [], []⟩
  | none => do
    tryExcept R.engage fun
      | .cacheError m => .raise (.other m)
      | e => .raise e
    let (cancelled, failed) ← R.massCancel
    .ret ⟨true, false, cancelled.length, cancelled, failed⟩

end Router

/-- One engage beside any family of calls. -/
def halting {ι : Type} (R : Router) (requests : ι → Request) (db : Db) :
    Pool engineSig Db (Option ι) :=
  ⟨fun
    | none => R.killSwitchEngage.bind fun _ => .ret ()
    | some i => (requests i).prog, db, []⟩

/-! ## What the sweep reports -/

/-- Behind the response of a first engage: the trip, then the listing, and every listed order is
    reported. -/
def Reports (resp : KillSwitchEngageResponse) (h : History) : Prop :=
  ∃ a rows b, h = a ++ ⟨.store .fetchOpenOrders, .ok rows⟩ :: b ∧
    (∃ ev ∈ a, ∃ v r, ev = ⟨.ext (.redisSet Router.killSwitchKey v), .ok r⟩) ∧
    ∀ row ∈ rows, row.clientOrderId ∈ resp.cancelled ∨ row.clientOrderId ∈ resp.failed

section Engage

variable {R : Router} {h : History}

/-- The sweep lists every row on one side, and never raises. -/
theorem sweep_lists (rows : List OrderRow) (h : History) :
    wp Sem.free (fun _ _ => True) (R.sweep rows)
      (outcome (fun lists h' => (∃ t, h' = h ++ t) ∧
          ∀ row ∈ rows, row.clientOrderId ∈ lists.1 ∨ row.clientOrderId ∈ lists.2)
        fun _ _ => False) h := by
  induction rows generalizing h with
  | nil => exact ⟨⟨[], by simp⟩, fun _ hrow => nomatch hrow⟩
  | cons row rows ih =>
    unfold Router.sweep Router.sweepOne
    rw [Prog.bind_eq, wp_bind, wp_tryExcept]
    refine wp_mono ((uses_univ _).keeps (I := fun h' => ∃ t, h' = h ++ t) ⟨[], by simp⟩
      (fun _ _ _ _ => trivial) ?_) fun r h₁ hgrow => ?_
    · rintro h₁ op r h₂ - ⟨t, rfl⟩ rfl
      exact ⟨t ++ [⟨op, r⟩], by rw [List.append_assoc]⟩
    · have hrest (ok : Bool) : wp Sem.free (fun _ _ => True)
          (R.sweep rows >>= fun (cancelled, failed) =>
            (.ret (if ok then (row.clientOrderId :: cancelled, failed)
              else (cancelled, row.clientOrderId :: failed)) : Eff (List String × List String)))
          (outcome (fun lists h' => (∃ t, h' = h ++ t) ∧ ∀ row' ∈ row :: rows,
              row'.clientOrderId ∈ lists.1 ∨ row'.clientOrderId ∈ lists.2)
            fun _ _ => False) h₁ := by
        rw [Prog.bind_eq, wp_bind]
        refine wp_mono (ih h₁) fun r h₂ hr => ?_
        cases r with
        | error e => exact hr.elim
        | ok lists =>
          obtain ⟨t, rfl⟩ := hgrow
          obtain ⟨⟨t', rfl⟩, hlists⟩ := hr
          refine ⟨⟨t ++ t', by rw [List.append_assoc]⟩, fun row' hrow' => ?_⟩
          rcases List.mem_cons.mp hrow' with rfl | hrow'
          · cases ok <;> simp
          · rcases hlists row' hrow' with hin | hin <;> cases ok <;> simp [hin]
      cases r with
      | ok ok => exact hrest ok
      | error e => exact hrest false

/-- What an engage has done when it returns. -/
theorem killSwitchEngage_reports :
    wp Sem.free (fun _ _ => True) R.killSwitchEngage
      (outcome (fun resp h => resp.alreadyEngaged = false → R.redis = true ∧ Reports resp h)
        fun _ _ => True) [] := by
  unfold Router.killSwitchEngage
  rw [Prog.bind_eq, wp_bind]
  refine wp_mono (wp_strongest _ []) fun r h₁ _ => ?_
  cases r with
  | error e => trivial
  | ok source =>
    rw [outcome_ok]
    cases source with
    | some source => exact fun hnot => nomatch hnot
    | none =>
      dsimp only
      unfold Router.engage
      rw [Prog.bind_eq, wp_bind, wp_tryExcept]
      split
      · rename_i hredis
        refine wp_perform.mpr ⟨trivial, fun r h₂ hs => ?_⟩
        obtain rfl := hs
        cases r with
        | error e =>
          rw [outcome_error]
          split <;> trivial
        | ok u =>
          rw [outcome_ok, outcome_ok, Prog.bind_eq, wp_bind]
          unfold Router.massCancel
          rw [Prog.bind_eq, wp_bind]
          refine wp_perform.mpr ⟨trivial, fun r h₃ hs => ?_⟩
          obtain rfl := hs
          cases r with
          | error e => trivial
          | ok rows =>
            rw [outcome_ok]
            refine wp_mono (sweep_lists rows _) fun r h₄ hr => ?_
            cases r with
            | error e => exact hr.elim
            | ok lists =>
              obtain ⟨⟨t, rfl⟩, hlists⟩ := hr
              refine fun _ => ⟨hredis, h₁ ++ [⟨.ext (.redisSet Router.killSwitchKey "engaged"),
                .ok u⟩], rows, t, by simp, ⟨_, by simp, "engaged", u, rfl⟩, hlists⟩
      · trivial

end Engage

/-! ## Who inserts -/

/-- A read of the kill-switch that did not show a trip. -/
def isClear : Event engineSig → Bool
  | ⟨.ext (.redisGet _), .ok (some _)⟩ => false
  | ⟨.ext (.redisGet key), _⟩ => key = Router.killSwitchKey
  | _ => false

/-- An order is inserted only behind such a read. -/
def InsertRule (h : History) : EngineOp → Prop
  | .store (.insertOrder _ _) => ∃ ev ∈ h, isClear ev = true
  | _ => True

section Rule

variable {α : Type} {R : Router} {h : History}

theorem insertRule_upkeep {op : EngineOp} (hop : Upkeep op) : InsertRule h op := by
  rcases op with o | o
  · cases o <;> first | exact hop.elim | trivial
  · trivial

theorem wp_upkeep {p : Eff α} (hp : Uses Upkeep p) :
    wp Sem.free InsertRule p (fun _ _ => True) h :=
  wp_mono (hp.keeps (I := fun _ => True) trivial (fun _ _ hop _ => insertRule_upkeep hop)
    fun _ _ _ _ _ _ _ => trivial) fun _ _ _ => trivial

/-- Behind a clear read everything is allowed. -/
theorem wp_cleared {p : Eff α} (hclear : ∃ ev ∈ h, isClear ev = true) :
    wp Sem.free InsertRule p (fun _ _ => True) h := by
  refine wp_mono ((uses_univ p).keeps (I := fun h => ∃ ev ∈ h, isClear ev = true) hclear
    (fun h op _ hc => ?_) ?_) fun _ _ _ => trivial
  · rcases op with o | o
    · cases o <;> first | exact hc | trivial
    · trivial
  · rintro h₁ op r h₂ - ⟨ev, hev, hc⟩ rfl
    exact ⟨ev, List.mem_append_left _ hev, hc⟩

theorem assertDisengaged_clear (hredis : R.redis = true) :
    wp Sem.free InsertRule R.assertDisengaged
      (outcome (fun _ h' => ∃ ev ∈ h', isClear ev = true) fun _ _ => True) h := by
  unfold Router.assertDisengaged Router.killSwitchStatus
  rw [Prog.bind_eq, wp_bind]
  by_cases hflag : R.settings.killSwitchEngaged = true
  · rw [if_pos hflag]
    trivial
  · rw [if_neg hflag, if_pos hredis, Prog.bind_eq, wp_bind, wp_tryExcept, Prog.bind_eq, wp_bind]
    refine wp_perform.mpr ⟨trivial, fun r h₁ hs => ?_⟩
    obtain rfl := hs
    cases r with
    | error e => exact ⟨_, List.mem_append_right _ (List.mem_singleton_self _), by simp [isClear]⟩
    | ok v =>
      cases v with
      | some v => trivial
      | none => exact ⟨_, List.mem_append_right _ (List.mem_singleton_self _), by simp [isClear]⟩

/-- What follows the kill-switch check may insert. -/
theorem wp_afterCheck {f : Unit → Eff α} (hredis : R.redis = true) :
    wp Sem.free InsertRule (R.assertDisengaged.bind f) (fun _ _ => True) h := by
  refine wp_bind.mpr (wp_mono (assertDisengaged_clear hredis) fun r h₁ hr => ?_)
  cases r with
  | error e => trivial
  | ok u => exact wp_cleared hr

/-- Every call inserts behind its own kill-switch read only. -/
theorem request_insertRule {q : Request} (hR : ∀ R', q.router = some R' → R' = R)
    (hredis : R.redis = true) : wp Sem.free InsertRule q.prog (fun _ _ => True) [] := by
  have hdrop {β : Type} {p : Eff β} (hp : wp Sem.free InsertRule p (fun _ _ => True) []) :
      wp Sem.free InsertRule (p.bind fun _ => .ret ()) (fun _ _ => True) [] :=
    wp_bind.mpr (wp_mono hp fun r _ _ => by cases r <;> trivial)
  cases q with
  | submit R' fuel o sid =>
    obtain rfl := hR R' rfl
    exact hdrop (wp_afterCheck hredis)
  | amend R' fuel cid newCid p q =>
    obtain rfl := hR R' rfl
    exact hdrop (wp_afterCheck hredis)
  | cancel R' cid => exact hdrop (wp_upkeep (upkeep_of (R'.tending_cancel cid)))
  | massCancel R' => exact hdrop (wp_upkeep (upkeep_of R'.tending_massCancel))
  | reconcileLiberator =>
    exact hdrop (wp_upkeep (upkeep_of_survey (Reconcile.survey_reconcileOnce fun _ => uses_ext trivial)))
  | reconcileStreamingPro =>
    exact hdrop (wp_upkeep (upkeep_of_survey (Reconcile.survey_reconcileOnce fun _ => uses_ext trivial)))
  | resolveOrderNow cid => exact hdrop (wp_upkeep (upkeep_of_survey (survey_resolveOrderNow cid)))

theorem upkeep_killSwitchEngage (R : Router) : Uses Upkeep R.killSwitchEngage := by
  unfold Router.killSwitchEngage Router.engage Router.killSwitchStatus
  refine Uses.bind ?_ fun source => ?_
  · split
    · trivial
    · split
      · refine Uses.bind (Uses.tryExcept ?_ fun _ => trivial) fun _ => trivial
        exact (uses_ext trivial).bind fun _ => trivial
      · trivial
  · cases source with
    | some source => trivial
    | none =>
      refine Uses.bind (Uses.tryExcept ?_ fun e => ?_) fun _ => ?_
      · split
        · exact uses_ext trivial
        · trivial
      · split <;> trivial
      · exact (upkeep_of R.tending_massCancel).bind fun (_, _) => trivial

end Rule

/-! ## The run -/

/-- Terminal, or on the way there by a cancel. -/
def Halted (s : OrderState) : Prop := isTerminal s = true ∨ s = .pendingCancel

instance (s : OrderState) : Decidable (Halted s) := inferInstanceAs (Decidable (_ ∨ _))

theorem Halted.edge {s s' : OrderState} (h : Halted s) (hl : (s, s') ∈ legalEdges) :
    Halted s' := by
  revert h hl
  cases s <;> cases s' <;> simp [Halted, isTerminal, terminalStates, legalEdges]

/-- A kill-switch that has been set. -/
def isTrip : Event engineSig → Bool
  | ⟨.ext (.redisSet key _), .ok _⟩ => key = Router.killSwitchKey
  | _ => false

section Account

variable {ι : Type} [DecidableEq ι]

/-- A read of the kill-switch that came back empty. -/
def isEmptyRead : Event engineSig → Bool
  | ⟨.ext (.redisGet key), .ok none⟩ => key = Router.killSwitchKey
  | _ => false

/-- What Redis promises: the trip key has no expiry, so no read behind a trip comes back empty. -/
def TripSeen {κ : Type} (tr : Trace κ) : Prop :=
  tr.Pairwise fun x y => isTrip x.2 = true → isEmptyRead y.2 = false

instance {κ : Type} (tr : Trace κ) : Decidable (TripSeen tr) :=
  inferInstanceAs (Decidable (List.Pairwise _ _))

/-- How an engage accounts for an order of status `s`. `seen` is the store at the listing; the
    run went `before` the trip, on to the listing after `upto`, and on with `after`. -/
inductive Accounted (seen : Db) (before upto after : Trace (Option ι))
    (resp : KillSwitchEngageResponse) (cid : String) (s : OrderState) : Prop where
  | halted (h : Halted s)
  | cancelled (h : cid ∈ resp.cancelled)
  | failed (h : cid ∈ resp.failed)
  /-- Waiting for an ack, or for the answer to an amend, when the open orders were listed. -/
  | waiting {e : Entry} (he : seen.find cid = some e)
      (hs : e.row.status = .pendingNew ∨ e.row.status = .pendingReplace)
  /-- Inserted behind the listing, by a call that read the kill-switch before the trip or could
      not read it. -/
  | late {pre post : Trace (Option ι)} {i : ι} {o : NormalizedOrder} {sid : Option String}
      {r : Except Exn Unit} (hnone : seen.find cid = none)
      (hins : after = pre ++ (some i, ⟨.store (.insertOrder o sid), r⟩) :: post)
      (hcid : o.clientOrderId = cid)
      (hread : ⟨.ext (.redisGet Router.killSwitchKey), .ok none⟩ ∈ localHistory (some i) before ∨
        ∃ e, ⟨.ext (.redisGet Router.killSwitchKey), .error e⟩ ∈
          localHistory (some i) (upto ++ pre))

theorem isClear_cases {ev : Event engineSig} (h : isClear ev = true) :
    ev = ⟨.ext (.redisGet Router.killSwitchKey), .ok none⟩ ∨
      ∃ e, ev = ⟨.ext (.redisGet Router.killSwitchKey), .error e⟩ := by
  unfold isClear at h
  split at h
  · cases h
  · rename_i key r hnot
    obtain rfl := of_decide_eq_true h
    cases r with
    | error e => exact .inr ⟨e, rfl⟩
    | ok v =>
      cases v with
      | none => exact .inl rfl
      | some v => exact (hnot v rfl).elim
  · cases h

/-- An empty read of a run lies before the trip. -/
theorem read_before_trip {κ : Type} [DecidableEq κ] {a b : Trace κ} {x : κ × Event engineSig}
    {i : κ} (hseen : TripSeen (a ++ x :: b)) (hx : isTrip x.2 = true)
    (hmem : (i, ⟨.ext (.redisGet Router.killSwitchKey), .ok none⟩) ∈ a ++ x :: b) :
    (⟨.ext (.redisGet Router.killSwitchKey), .ok none⟩ : Event engineSig) ∈ localHistory i a := by
  have hrest := (List.pairwise_cons.mp (List.pairwise_append.mp hseen).2.1).1
  rcases List.mem_append.mp hmem with hmem | hmem
  · exact mem_localHistory.mpr hmem
  · rcases List.mem_cons.mp hmem with rfl | hmem
    · cases hx
    · cases hrest _ hmem hx

end Account

section Run

variable {ι : Type} [DecidableEq ι] {E : Env} {R : Router} {requests : ι → Request} {db : Db}
  {cid : String}

/-- A halted order stays halted. -/
theorem reach_halted {κ : Type} [DecidableEq κ] {Q P : Pool engineSig Db κ}
    (hP : PoolReach (sem E) closed Q P) {e : Entry} (he : Q.state.find cid = some e)
    (hh : Halted e.row.status) : ∃ e', P.state.find cid = some e' ∧ Halted e'.row.status := by
  induction hP with
  | refl => exact ⟨e, he, hh⟩
  | tail _ hstep ih =>
    obtain ⟨e₁, he₁, hh₁⟩ := ih
    cases hstep with
    | env henv => exact henv.elim
    | thread i hi hs =>
      obtain ⟨e', he', hsame | hedge⟩ := step_status hs he₁
      · exact ⟨e', he', hsame ▸ hh₁⟩
      · exact ⟨e', he', hh₁.edge hedge⟩

/-- An order that was not there has been inserted since. -/
theorem inserted_since {κ : Type} [DecidableEq κ] {Q P : Pool engineSig Db κ}
    (hP : PoolReach (sem E) closed Q P) (hnone : Q.state.find cid = none) {e : Entry}
    (he : P.state.find cid = some e) :
    ∃ pre i o sid r post, P.trace = Q.trace ++ (pre ++ (i, ⟨.store (.insertOrder o sid), r⟩) :: post) ∧
      o.clientOrderId = cid := by
  induction hP generalizing e with
  | refl =>
    rw [hnone] at he
    cases he
  | @tail P₁ P₂ hP₁ hstep ih =>
    cases hstep with
    | env henv => exact henv.elim
    | @thread i op k r s' hi hs =>
      cases hprev : P₁.state.find cid with
      | some e₁ =>
        obtain ⟨pre, j, o, sid, r', post, htr, hcid⟩ := ih hprev
        exact ⟨pre, j, o, sid, r', post ++ [(i, ⟨op, r⟩)], by simp [htr], hcid⟩
      | none =>
        rcases step_find hs cid with heq | ⟨o, sid, t, e', rfl, hcid, -⟩ | ⟨_, e₁, _, _, _, _, he₁, _⟩
        · rw [heq, hprev] at he
          cases he
        · obtain ⟨t', ht'⟩ := reach_trace hP₁
          refine ⟨t', i, o, sid, r, [], ?_, hcid⟩
          rw [ht', List.append_assoc]
        · rw [hprev] at he₁
          cases he₁

variable {P : Pool engineSig Db (Option ι)}

/-- An engage that has returned has a response, the one its own answers lead to. -/
theorem engage_returned (hP : PoolReach (sem E) closed (halting R requests db) P)
    (hdone : P.threads none = .ret ()) :
    ∃ resp, Exec Sem.free R.killSwitchEngage [] (.ok resp) (localHistory none P.trace) := by
  have hprog : ∀ j, wp (Sem.answering fun _ => True) (fun _ _ => True)
      ((halting R requests db).threads j)
      (fun o h => j = none → o = .ok () →
        ∃ resp, Exec Sem.free R.killSwitchEngage [] (.ok resp) h) [] := by
    intro j
    cases j with
    | some i => exact wp_mono (wp_strongest _ []) fun _ _ _ hj => nomatch hj
    | none =>
      refine wp_bind.mpr (wp_sem_mono (M := Sem.free) (fun _ _ _ _ hs => hs.2) ?_)
      refine wp_mono (wp_strongest R.killSwitchEngage []) fun r h hexec => ?_
      cases r with
      | error e => exact fun _ ho => nomatch ho
      | ok resp => exact fun _ _ => ⟨resp, hexec⟩
  have hend := (local_discipline_of rfl hprog hP fun _ _ => trivial).2 none
  rw [hdone] at hend
  exact hend rfl rfl

/-- Each insert of the run has a clear read of its own call behind it. -/
theorem inserts_cleared (hR : ∀ i R', (requests i).router = some R' → R' = R)
    (hredis : R.redis = true) (hP : PoolReach (sem E) closed (halting R requests db) P) :
    TraceOk InsertRule P.trace := by
  refine local_discipline rfl (fun j => ?_) hP
  cases j with
  | some i => exact request_insertRule (hR i) hredis
  | none => exact wp_upkeep ((upkeep_killSwitchEngage R).bind fun _ => uses_ret _)

/-- What was placed has a row. -/
theorem placed_has_row (hP : PoolReach (sem E) closed (halting R requests db) P)
    {x : Option ι × Event engineSig} (hx : x ∈ P.trace) (hplace : isPlaceOf cid x.2 = true) :
    (P.state.find cid).isSome = true := by
  have hrule : TraceOk PlaceRule P.trace := by
    refine local_discipline rfl (fun j => ?_) hP
    cases j with
    | some i => exact discipline (requests i)
    | none =>
      exact wp_placeless' (placeless_of ((upkeep_killSwitchEngage R).bind fun _ => uses_ret _))
  obtain ⟨pre, post, htr⟩ := List.append_of_mem hx
  obtain ⟨⟨e, he, hins⟩, -⟩ := insert_before_place hrule htr hplace
  refine inserted_row rfl hP (i := x.1) ?_ hins
  rw [htr]
  exact List.mem_append_left _ (mem_localHistory.mp he)

/-- What the open-order listing leaves out is halted already, or waiting. -/
theorem unlisted_cases {seen : Db} {rows : List OrderRow} {e : Entry}
    (hl : IsListing rows seen.fetchOpenOrders) (he : seen.find cid = some e)
    (hrow : e.row ∉ rows) :
    Halted e.row.status ∨ e.row.status = .pendingNew ∨ e.row.status = .pendingReplace := by
  have hclosed : e.row.status ∉ [OrderState.new, .partiallyFilled] := by
    intro hopen
    apply hrow
    rw [hl.1.mem_iff, Db.fetchOpenOrders, Db.byCreatedAt, List.mem_insertionSort, List.mem_filter]
    exact ⟨List.mem_map.mpr ⟨e, Db.mem_of_find he, rfl⟩, decide_eq_true hopen⟩
  revert hclosed
  cases e.row.status <;> simp [Halted, isTerminal, terminalStates]

/-- An engage performs upkeep only. -/
theorem engage_upkeep {r : Except Exn KillSwitchEngageResponse} {h : History}
    (hexec : Exec Sem.free R.killSwitchEngage [] r h) : ∀ ev ∈ h, Upkeep ev.op := by
  have hkeep : wp Sem.free (fun _ _ => True) R.killSwitchEngage
      (fun _ h => ∀ ev ∈ h, Upkeep ev.op) [] := by
    refine (upkeep_killSwitchEngage R).keeps (List.forall_mem_nil _) (fun _ _ _ _ => trivial) ?_
    rintro h op r' h' hop hh rfl ev hev
    rcases List.mem_append.mp hev with hev | hev
    · exact hh ev hev
    · obtain rfl := List.mem_singleton.mp hev
      exact hop
  exact hkeep.exec hexec

/-- An order inserted behind the listing was inserted by a call with a clear read. -/
theorem accounted_late {Q : Pool engineSig Db (Option ι)} {seen : Db} {e : Entry}
    {before between after : Trace (Option ι)} {trip listing : Event engineSig}
    {resp : KillSwitchEngageResponse}
    (hrule : TraceOk InsertRule P.trace) (hseen : TripSeen P.trace)
    (hkeep : ∀ ev ∈ localHistory none P.trace, Upkeep ev.op) (htrip : isTrip trip = true)
    (htr : P.trace = (before ++ (none, trip) :: between) ++ (none, listing) :: after)
    (hQ : PoolReach (sem E) closed Q P) (hstate : Q.state = seen)
    (hQtr : Q.trace = (before ++ (none, trip) :: between) ++ [(none, listing)])
    (hnone : seen.find cid = none) (he : P.state.find cid = some e) :
    Accounted seen before (before ++ (none, trip) :: between) after resp cid e.row.status := by
  obtain ⟨pre, j, o, sid, r, post, hins, hcid⟩ := inserted_since hQ (hstate ▸ hnone) he
  have hafter : after = pre ++ (j, ⟨.store (.insertOrder o sid), r⟩) :: post := by
    rw [htr, hQtr, List.append_assoc, List.append_assoc, List.append_assoc] at hins
    simpa using hins
  have hsplit : P.trace = (before ++ (none, trip) :: between ++ (none, listing) :: pre) ++
      (j, ⟨.store (.insertOrder o sid), r⟩) :: post := by
    rw [htr, hafter]
    simp
  cases j with
  | none =>
    refine (hkeep ⟨.store (.insertOrder o sid), r⟩ (mem_localHistory.mpr ?_)).elim
    rw [hsplit]
    exact List.mem_append_right _ (List.mem_cons_self ..)
  | some i =>
    obtain ⟨ev, hev, hclear⟩ := hrule _ _ _ _ hsplit
    refine .late hnone hafter hcid ?_
    rcases isClear_cases hclear with rfl | ⟨x, rfl⟩
    · left
      have hrest : P.trace = before ++ (none, trip) :: (between ++ (none, listing) :: after) := by
        rw [htr]
        simp
      rw [hrest] at hseen
      refine read_before_trip hseen htrip ?_
      rw [← hrest, hsplit]
      exact List.mem_append_left _ (mem_localHistory.mp hev)
    · right
      refine ⟨x, ?_⟩
      rw [localHistory_append, localHistory_append] at hev ⊢
      exact hev

/-- **What a first engage leaves behind.** Whatever runs beside it, every order with a row, and so
    every order placed at a venue, is halted or in the response, or it was waiting when the open
    orders were listed, or it was inserted later by a call that was past its kill-switch check. -/
theorem engaged_accounts (hR : ∀ i R', (requests i).router = some R' → R' = R)
    (hP : PoolReach (sem E) closed (halting R requests db) P) (hseen : TripSeen P.trace)
    (hdone : P.threads none = .ret ()) :
    (∀ cid, (∃ x ∈ P.trace, isPlaceOf cid x.2 = true) → (P.state.find cid).isSome = true) ∧
      ∃ resp, Exec Sem.free R.killSwitchEngage [] (.ok resp) (localHistory none P.trace) ∧
        (resp.alreadyEngaged = false → ∃ (Q : Pool engineSig Db (Option ι))
            (before between after : Trace (Option ι)) (trip : Event engineSig)
            (rows : List OrderRow),
          PoolReach (sem E) closed (halting R requests db) Q ∧
          Q.trace = before ++ (none, trip) :: between ∧ isTrip trip = true ∧
          P.trace = Q.trace ++ (none, ⟨.store .fetchOpenOrders, .ok rows⟩) :: after ∧
          ∀ cid e, P.state.find cid = some e →
            Accounted Q.state before Q.trace after resp cid e.row.status) := by
  refine ⟨fun cid ⟨x, hx, hplace⟩ => placed_has_row hP hx hplace, ?_⟩
  obtain ⟨resp, hexec⟩ := engage_returned hP hdone
  refine ⟨resp, hexec, fun hfirst => ?_⟩
  obtain ⟨hredis, a, rows, b, hsplit, ⟨ev, hev, v, u, rfl⟩, hrows⟩ :=
    killSwitchEngage_reports.exec hexec hfirst
  obtain ⟨upto, after, htr, rfl, -⟩ := localHistory_split hsplit
  obtain ⟨before, between, rfl⟩ := List.append_of_mem (mem_localHistory.mp hev)
  obtain ⟨Q, Q', hQ, hQ', hstep, hQtr, hQtr'⟩ := event_source rfl hP htr
  obtain ⟨hstate, hlisting⟩ := step_openOrders hstep
  have hlist := hlisting rows rfl
  refine ⟨Q, before, between, after, _, rows, hQ, hQtr, by rfl, by rw [hQtr]; exact htr,
    fun cid e he => ?_⟩
  cases hthen : Q.state.find cid with
  | none =>
    rw [hQtr]
    exact accounted_late (inserts_cleared hR hredis hP) hseen (engage_upkeep hexec) (by rfl) htr
      hQ' hstate hQtr' hthen he
  | some e₀ =>
    have hcid := Db.find_key hthen
    by_cases hrow : e₀.row ∈ rows
    · rcases hrows _ hrow with hin | hin
      · exact .cancelled (hcid ▸ hin)
      · exact .failed (hcid ▸ hin)
    · rcases unlisted_cases hlist hthen hrow with hh | hw
      · obtain ⟨e', he', hh'⟩ := reach_halted hQ' (hstate ▸ hthen) hh
        rw [he] at he'
        obtain rfl := Option.some.inj he'
        exact .halted hh'
      · exact .waiting hthen hw

end Run

/-! ## Concrete runs -/

section Samples

variable {ι : Type} [DecidableEq ι] {R : Router} {requests : ι → Request} {head tail : List ι}
  {cid : String}

/-- An engage over an empty store at first, behind the steps of `head` and before those of
    `tail`. -/
def haltRun (R : Router) (requests : ι → Request) (head tail : List ι) :
    Pool engineSig Db (Option ι) :=
  runPool liveHandler.step (head.map some ++ List.replicate 8 none ++ tail.map some)
    (halting R requests Db.empty)

theorem haltRun_reach : PoolReach (sem plainEnv) closed (halting R requests Db.empty)
    (haltRun R requests head tail) :=
  runPool_reach (plain_follows liveHandler) _ _

/-- Every call is done, and an order that was placed is neither halted nor in the response. -/
structure LeavesLive (R : Router) (P : Pool engineSig Db (Option ι)) (cid : String) : Prop where
  done : ∀ j, P.threads j = .ret ()
  seen : TripSeen P.trace
  placed : ∃ x ∈ P.trace, isPlaceOf cid x.2 = true
  live : ∃ e, P.state.find cid = some e ∧ ¬Halted e.row.status
  unlisted : ∃ resp, Exec Sem.free R.killSwitchEngage [] (.ok resp) (localHistory none P.trace) ∧
    resp.alreadyEngaged = false ∧ cid ∉ resp.cancelled ∧ cid ∉ resp.failed

/-- An engage that finds no open order. -/
def emptySweep : History :=
  [⟨.ext (.redisGet Router.killSwitchKey), .ok none⟩,
    ⟨.ext (.redisSet Router.killSwitchKey "engaged"), .ok ()⟩, ⟨.store .fetchOpenOrders, .ok []⟩]

theorem emptySweep_exec (hflag : R.settings.killSwitchEngaged = false) (hredis : R.redis = true) :
    Exec Sem.free R.killSwitchEngage [] (.ok ⟨true, false, 0, [], []⟩) emptySweep := by
  unfold Router.killSwitchEngage Router.killSwitchStatus Router.engage Router.massCancel
  rw [hflag, hredis]
  refine .call (r := .ok none) rfl ?_
  refine .call (r := .ok ()) rfl ?_
  refine .call (r := .ok []) rfl ?_
  exact .ret _ _

/-- What a concrete run shows. -/
def liveAndPlaced (P : Pool engineSig Db (Option ι)) (cid : String) : Bool :=
  P.trace.any (fun x => isPlaceOf cid x.2) && (P.state.find cid).any fun e => ¬Halted e.row.status

theorem leavesLive_of {P : Pool engineSig Db (Option ι)} (hflag : R.settings.killSwitchEngaged = false)
    (hredis : R.redis = true) (hdone : ∀ j, P.threads j = .ret ()) (hseen : TripSeen P.trace)
    (hsweep : localHistory none P.trace = emptySweep) (h : liveAndPlaced P cid = true) :
    LeavesLive R P cid := by
  obtain ⟨hplaced, hlive⟩ := Bool.and_eq_true_iff.mp h
  have hexec := emptySweep_exec hflag hredis
  rw [← hsweep] at hexec
  refine ⟨hdone, hseen, List.any_eq_true.mp hplaced, ?_, _, hexec, rfl, ?_, ?_⟩
  · simpa [Option.any_eq_true] using hlive
  · exact List.not_mem_nil
  · exact List.not_mem_nil

end Samples

/-- Submits of the two sample orders to Liberator. -/
def haltedSubmits : Bool → Request
  | false => .submit liveRouter 0 (sampleOrderA .liberator) none
  | true => .submit liveRouter 0 (sampleOrderB .liberator) none

/-- The first order rests when the engage lists the open orders; the second submit is past its
    kill-switch check, and inserts afterwards. -/
def pairRun : Pool engineSig Db (Option Bool) :=
  haltRun liveRouter haltedSubmits (List.replicate 14 false ++ List.replicate 9 true)
    (List.replicate 5 true)

theorem pairRun_accounts :
    (pairRun.state.find cidB).isSome = true ∧
      ∃ resp, Exec Sem.free liveRouter.killSwitchEngage [] (.ok resp)
          (localHistory none pairRun.trace) ∧
        (resp.alreadyEngaged = false → ∃ (seen : Db) (before upto after : Trace (Option Bool)),
          ∀ cid e, pairRun.state.find cid = some e →
            Accounted seen before upto after resp cid e.row.status) := by
  have hrouter : ∀ i R', (haltedSubmits i).router = some R' → R' = liveRouter := by
    intro i R' h
    cases i <;> exact (Option.some.inj h).symm
  have hreach : PoolReach (sem plainEnv) closed (halting liveRouter haltedSubmits Db.empty) pairRun :=
    haltRun_reach
  obtain ⟨hrows, resp, hexec, hacc⟩ := engaged_accounts hrouter hreach (by decide +kernel) rfl
  refine ⟨hrows cidB ?_, resp, hexec, fun hfirst => ?_⟩
  · rw [← List.any_eq_true]
    decide +kernel
  · obtain ⟨Q, before, between, after, _, _, _, _, _, _, h⟩ := hacc hfirst
    exact ⟨Q.state, before, Q.trace, after, h⟩

/-- The engage lists the open orders between the insert and the ack. -/
def waitingRun : Pool engineSig Db (Option Unit) :=
  haltRun liveRouter (fun _ => haltedSubmits false) (List.replicate 10 ()) (List.replicate 8 ())

/-- The engage lists the open orders between the kill-switch check and the insert. -/
def lateRun : Pool engineSig Db (Option Unit) :=
  haltRun liveRouter (fun _ => haltedSubmits false) (List.replicate 9 ()) (List.replicate 8 ())

/-- A submit to the simulator, and an amend of the order it leaves partially filled. -/
def haltedAmend : Bool → Request
  | false => .submit simRouter 0 partialOrderA none
  | true => .amend simRouter 0 cidA none none (some 50)

/-- The engage lists the open orders while the simulator amends a partially filled one. -/
def amendingRun : Pool engineSig Db (Option Bool) :=
  haltRun simRouter haltedAmend (List.replicate 15 false ++ List.replicate 11 true)
    (List.replicate 8 true)

theorem halt_leaves_live_orders :
    (PoolReach (sem plainEnv) closed (halting liveRouter (fun _ => haltedSubmits false) Db.empty)
        waitingRun ∧ LeavesLive liveRouter waitingRun cidA) ∧
    (PoolReach (sem plainEnv) closed (halting liveRouter (fun _ => haltedSubmits false) Db.empty)
        lateRun ∧ LeavesLive liveRouter lateRun cidA) ∧
    PoolReach (sem plainEnv) closed (halting simRouter haltedAmend Db.empty) amendingRun ∧
      LeavesLive simRouter amendingRun cidA := by
  refine ⟨⟨haltRun_reach, leavesLive_of rfl rfl ?_ (by decide +kernel) rfl (by decide +kernel)⟩,
    ⟨haltRun_reach, leavesLive_of rfl rfl ?_ (by decide +kernel) rfl (by decide +kernel)⟩,
    haltRun_reach, leavesLive_of rfl rfl ?_ (by decide +kernel) rfl (by decide +kernel)⟩
  · rintro (_ | _) <;> rfl
  · rintro (_ | _) <;> rfl
  · rintro (_ | _ | _) <;> rfl

end ExecutionEngine
