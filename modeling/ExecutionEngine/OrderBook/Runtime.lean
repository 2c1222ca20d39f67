/-
  The order-book runtime: the service with its router, and the provider.

  The first context of a key begins a `subscribe` of the provider, and the last one an
  `unsubscribe`, each under the number of its queue; what the call comes to is what the
  context awaits. A book that a reader emits is published in the same stretch of code. An
  error that it reports reaches the router in a task of its own, at any later time.

  A run of the runtime is a run of the service and one of the provider (`runs_desk`,
  `runs_provider`). For the latter, the calls of the provider are those of the contexts
  on their way in or out (`Attended`), so that no call begins under a number in use.
-/
import ExecutionEngine.OrderBook.Refcounts
import ExecutionEngine.OrderBook.Readers

namespace ExecutionEngine.OrderBooks

open Provider (Act)

/-- The service, its router and the provider behind it. -/
structure Runtime where
  desk : Desk
  provider : Provider := {}

inductive RuntimeAct where
  | enter (q : Nat) (key : Key)
  | leave (q : Nat)
  | answer (q : Nat) (a : Answer)
  | wake (q : Nat)
  | cancel (q : Nat)
  | reader (r : Nat) (now : Time) (a : Answer)
  /-- An event of the service that is nothing to the provider. -/
  | aside (e : Event)

/-- The events that are nothing to the provider. -/
def Event.isAside : Event → Bool
  | .get _ _ _ | .read _ _ | .error _ _ => true
  | _ => false

/-- What a context does whose call has ended. -/
def Desk.ended (d : Desk) (q : Nat) (result : Option Result) : List Event :=
  match result, d.contexts.lookup q with
  | some .returned, some ⟨_, .entering⟩ => [.subscribed q]
  | some .raised, some ⟨key, .entering⟩ => [.failed q key]
  | some _, some ⟨_, .leaving⟩ => [.released q]
  | _, _ => []

/-- `_on_book`. -/
def onBook : Option Signal → List Event
  | some (.book book) => [.publish book]
  | _ => []

namespace Runtime

/-- The provider has gone on, and the context with its call, if that has ended. -/
def call (d : Desk) (q : Nat) (m : Moved) : Option Runtime :=
  (d.runEvents (d.ended q m.result)).map fun d => ⟨d, m.provider⟩

/-- One stretch of code, if it can happen. -/
def step (rt : Runtime) : RuntimeAct → Option Runtime
  | .enter q key => (rt.desk.step (.enter q key)).bind fun d =>
    match d.contexts.lookup q with
    | some ⟨key, .entering⟩ => call d q (rt.provider.subscribe q key.symbol key.market)
    | _ => some { rt with desk := d }
  | .leave q => (rt.desk.step (.leave q)).bind fun d =>
    match d.contexts.lookup q with
    | some ⟨key, _⟩ => call d q (rt.provider.unsubscribe q key.symbol)
    | none => some { rt with desk := d }
  | .answer q a => (rt.provider.step (.answer q a)).bind (call rt.desk q)
  | .wake q => (rt.provider.step (.wake q)).bind (call rt.desk q)
  | .cancel q => (rt.provider.step (.cancel q)).bind (call rt.desk q)
  | .reader r now a => (rt.provider.step (.reader r now a)).bind fun m =>
    (rt.desk.runEvents (onBook m.signal)).map fun d => ⟨d, m.provider⟩
  | .aside e => if e.isAside then (rt.desk.step e).map fun d => { rt with desk := d } else none

/-- The runs of a runtime whose steps all are as `ok` says. -/
inductive Runs (c : Setup) (ok : Runtime → RuntimeAct → Prop) : Runtime → Prop
  | start : Runs c ok ⟨c.desk, {}⟩
  | step {rt rt' : Runtime} {a : RuntimeAct} (run : Runs c ok rt) (hok : ok rt a)
    (h : rt.step a = some rt') : Runs c ok rt'

/-- The steps one after the other, as far as they can happen. -/
def runActs : List RuntimeAct → Runtime → Option Runtime
  | [], rt => some rt
  | a :: as, rt => (rt.step a).bind (runActs as)

/-- What is computed is a run, if every such step is as `ok` says. -/
theorem Runs.acts {c : Setup} {ok : Runtime → RuntimeAct → Prop} {rt rt' : Runtime}
    (run : Runs c ok rt) (acts : List RuntimeAct) (hok : ∀ a ∈ acts, ∀ rt, ok rt a)
    (h : rt.runActs acts = some rt') : Runs c ok rt' := by
  induction acts generalizing rt with
  | nil =>
    obtain rfl := Option.some.inj h
    exact run
  | cons a acts ih =>
    obtain ⟨rt₁, hstep, hrest⟩ := Option.bind_eq_some_iff.mp h
    have hlater : ∀ a ∈ acts, ∀ rt, ok rt a := fun a ha => hok a (List.mem_cons_of_mem _ ha)
    exact ih (run.step (hok a List.mem_cons_self rt) hstep) hlater hrest

end Runtime

/-! ## The calls of the provider -/

namespace Provider

/-- A call is in progress after this if and only if it has not ended; the others are where they
    were. -/
structure Replies (p : Provider) (c : Nat) (m : Moved) : Prop where
  self : (m.provider.calls.lookup c).isSome = m.result.isNone
  other : ∀ c', c' ≠ c → (m.provider.calls.lookup c').isSome = (p.calls.lookup c').isSome

section Replies

variable {p p' : Provider} {c : Nat} {a : Answer} {call : Call} {m : Moved}

theorem replies_hold (hcalls : p'.calls = p.calls) (state : CallState) :
    Replies p c { provider := p'.hold c state } where
  self := by
    show ((Odict.set c _ p'.calls).lookup c).isSome = true
    rw [Odict.lookup_set_self]
    rfl
  other c' hne := by
    show ((Odict.set c _ p'.calls).lookup c').isSome = _
    rw [Odict.lookup_set_ne hne, hcalls]

theorem replies_ended (hc : p.calls.lookup c = none) (hcalls : p'.calls = p.calls)
    (signal : Option Signal) (result : Result) : Replies p c ⟨p', signal, some result⟩ where
  self := by
    rw [hcalls, hc]
    rfl
  other c' _ := by rw [hcalls]

theorem calls_cancelReader (p : Provider) (r : Nat) : (p.cancelReader r).calls = p.calls := by
  unfold cancelReader
  split <;> rfl

theorem replies_afterReader (hc : p.calls.lookup c = none) (hcalls : p'.calls = p.calls)
    (outcome : Option Fault) : Replies p c (p'.afterReader outcome) := by
  unfold afterReader
  split
  all_goals
    refine replies_ended hc ?_ _ _
    exact hcalls

theorem replies_awaitReader (hc : p.calls.lookup c = none) (hcalls : p'.calls = p.calls)
    (r : Nat) : Replies p c (p'.awaitReader c r) := by
  unfold awaitReader
  split
  · exact replies_afterReader hc hcalls _
  · exact replies_hold ((calls_cancelReader p' r).trans hcalls) _

theorem replies_dropReader (hc : p.calls.lookup c = none) (hcalls : p'.calls = p.calls) :
    Replies p c (p'.dropReader c) := by
  unfold dropReader
  split
  · split
    · exact replies_awaitReader hc hcalls _
    · exact replies_ended hc hcalls _ _
  · exact replies_ended hc hcalls _ _

theorem calls_track (p : Provider) (symbol : String) (market : Market) :
    (p.track symbol market).1.calls = p.calls := by
  unfold track
  split <;> rfl

theorem replies_subscribe (hc : p.calls.lookup c = none) (symbol : String) (market : Market) :
    Replies p c (p.subscribe c symbol market) ∧
      (p.subscribe c symbol market).result ≠ some .raised := by
  have hcalls := calls_track p symbol market
  unfold subscribe
  dsimp only
  split
  · refine ⟨replies_ended hc ?_ _ _, nofun⟩
    exact hcalls
  · split
    · exact ⟨replies_ended hc hcalls _ _, nofun⟩
    · split
      · exact ⟨replies_hold hcalls _, nofun⟩
      · refine ⟨replies_hold ?_ _, nofun⟩
        exact hcalls

theorem replies_unsubscribe (hc : p.calls.lookup c = none) (symbol : String) :
    Replies p c (p.unsubscribe c symbol) := by
  unfold unsubscribe
  split
  · exact replies_dropReader hc rfl
  · dsimp only
    split
    · exact replies_dropReader hc rfl
    · split
      · exact replies_dropReader hc rfl
      · refine replies_hold ?_ _
        rfl

theorem replies_joinFailed (hc : p.calls.lookup c = none) (f : Fault) :
    Replies p c (p.joinFailed f) := by
  unfold joinFailed
  split <;> exact replies_ended hc rfl _ _

theorem replies_resumeCall (hc : p.calls.lookup c = none) {state : CallState}
    (hm : p.resumeCall c state a = some m) : Replies p c m := by
  unfold resumeCall at hm
  split at hm
  case h_1 i id =>
    obtain rfl := Option.some.inj hm
    refine replies_hold ?_ _
    rfl
  case h_2 i f =>
    obtain rfl := Option.some.inj hm
    exact replies_joinFailed hc f
  case h_3 =>
    obtain rfl := Option.some.inj hm
    exact replies_ended hc rfl _ _
  case h_4 f =>
    obtain rfl := Option.some.inj hm
    exact replies_joinFailed hc f
  case h_5 =>
    obtain rfl := Option.some.inj hm
    exact replies_dropReader hc rfl
  case h_6 f =>
    obtain rfl := Option.some.inj hm
    split
    · exact replies_dropReader hc rfl
    · exact replies_ended hc rfl _ _
  case h_7 => cases hm

/-- A call that is no longer held when it goes on. -/
theorem Replies.of_pop (h : Replies { p with calls := Odict.pop c p.calls } c m) :
    Replies p c m where
  self := h.self
  other c' hne := (h.other c' hne).trans (congrArg _ (Odict.lookup_pop_ne hne p.calls))

theorem replies_answer (hm : p.step (.answer c a) = some m) : Replies p c m := by
  obtain ⟨call, -, hm⟩ := Option.bind_eq_some_iff.mp hm
  unfold answerCall at hm
  split at hm
  · exact (replies_resumeCall (Odict.lookup_pop_self c p.calls) hm).of_pop
  · cases hm

theorem replies_wake (hm : p.step (.wake c) = some m) : Replies p c m := by
  obtain ⟨call, -, hm⟩ := Option.bind_eq_some_iff.mp hm
  unfold wakeCall at hm
  split at hm
  · obtain ⟨outcome, -, rfl⟩ := Option.map_eq_some_iff.mp hm
    apply Replies.of_pop
    exact replies_afterReader (Odict.lookup_pop_self c p.calls) rfl _
  · cases hm

theorem replies_cancel (hm : p.step (.cancel c) = some m) : Replies p c m := by
  obtain ⟨call, hc, rfl⟩ := Option.map_eq_some_iff.mp hm
  have hsame : Replies p c { provider := p } := ⟨by rw [hc]; rfl, fun _ _ => rfl⟩
  have hmark : Replies p c
      { provider := { p with calls := Odict.set c { call with pending := true } p.calls } } :=
    ⟨by rw [Odict.lookup_set_self]; rfl, fun c' hne => by rw [Odict.lookup_set_ne hne]⟩
  show Replies p c { provider := p.cancelCall c call }
  unfold cancelCall
  split
  · split
    · exact hmark
    · rename_i r hstate hdone
      have hcalls := calls_cancelReader p r
      exact ⟨by rw [hcalls]; exact hsame.self, fun c' _ => by rw [hcalls]⟩
  · exact hmark

end Replies

end Provider

/-! ## Runs -/

namespace Runtime

/-- The calls of the provider are those of the contexts on their way in or out. -/
def Attended (rt : Runtime) : Prop :=
  ∀ q, (rt.provider.calls.lookup q).isSome = true ↔
    ∃ c, rt.desk.contexts.lookup q = some c ∧ c.phase ≠ .opened

section Run

variable {c : Setup} {ok : Runtime → RuntimeAct → Prop} {rt rt' : Runtime} {d : Desk} {q : Nat}
  {m : Moved} {a : RuntimeAct}

/-- What a context does whose call has ended, it can do, and then it awaits nothing. -/
theorem runEvents_ended (d : Desk) (q : Nat) (result : Option Result) :
    ∃ contexts, d.runEvents (d.ended q result) = some { d with contexts } ∧
      (∀ q', q' ≠ q → contexts.lookup q' = d.contexts.lookup q') ∧
      (result = none → contexts = d.contexts) ∧
      (result ≠ none → ∀ c, contexts.lookup q = some c → c.phase = .opened) := by
  unfold Desk.ended
  split
  · rename_i key hc
    refine ⟨Odict.set q ⟨key, .opened⟩ d.contexts, by simp [Desk.runEvents, Desk.step, hc],
      fun q' hne => Odict.lookup_set_ne hne _ _, nofun, fun _ c hc' => ?_⟩
    rw [Odict.lookup_set_self] at hc'
    rw [← Option.some.inj hc']
  · rename_i key hc
    refine ⟨Odict.pop q d.contexts, by simp [Desk.runEvents, Desk.step, hc],
      fun q' hne => Odict.lookup_pop_ne hne _, nofun, fun _ c hc' => ?_⟩
    rw [Odict.lookup_pop_self] at hc'
    cases hc'
  · rename_i result key hc
    refine ⟨Odict.pop q d.contexts, by simp [Desk.runEvents, Desk.step, hc],
      fun q' hne => Odict.lookup_pop_ne hne _, nofun, fun _ c hc' => ?_⟩
    rw [Odict.lookup_pop_self] at hc'
    cases hc'
  · rename_i hreturned hraised hleft
    refine ⟨d.contexts, rfl, fun _ _ => rfl, fun _ => rfl, fun hresult c hc => ?_⟩
    obtain ⟨key, phase⟩ := c
    obtain ⟨ended, rfl⟩ := Option.ne_none_iff_exists'.mp hresult
    cases phase with
    | opened => rfl
    | leaving => exact absurd hc (hleft ended key rfl)
    | entering =>
      cases ended with
      | returned => exact absurd hc (hreturned key rfl)
      | raised => exact absurd hc (hraised key rfl)

/-- A context goes on with its call. -/
theorem attended_call {p : Provider}
    (hothers : ∀ q', q' ≠ q → ((p.calls.lookup q').isSome = true ↔
      ∃ c, d.contexts.lookup q' = some c ∧ c.phase ≠ .opened))
    (hself : ∃ c, d.contexts.lookup q = some c ∧ c.phase ≠ .opened)
    (hreplies : p.Replies q m) (hcall : call d q m = some rt') : Attended rt' := by
  obtain ⟨contexts, hrun, hkept, hnone, hended⟩ := runEvents_ended d q m.result
  unfold call at hcall
  rw [hrun] at hcall
  obtain rfl := Option.some.inj hcall
  intro q'
  by_cases hq : q' = q
  · subst hq
    show (m.provider.calls.lookup q').isSome = true ↔ ∃ c, contexts.lookup q' = some c ∧ _
    rw [hreplies.self]
    cases hresult : m.result with
    | none =>
      rw [hnone hresult]
      exact iff_of_true rfl hself
    | some result =>
      refine iff_of_false Bool.false_ne_true ?_
      rintro ⟨c, hc, hphase⟩
      exact hphase (hended (by rw [hresult]; nofun) c hc)
  · show (m.provider.calls.lookup q').isSome = true ↔ ∃ c, contexts.lookup q' = some c ∧ _
    rw [hreplies.other q' hq, hkept q' hq]
    exact hothers q' hq

/-- What a step comes to: a context of a key that is counted comes or goes, the first one comes, the
    last one goes, and else the counts are as they were. -/
inductive Steps (rt rt' : Runtime) : RuntimeAct → Prop
  | join {q : Nat} {key : Key} (hcount : 0 < rt.desk.service.refcount key)
    (hservice : rt'.desk.service = (rt.desk.service.acquire key q).1)
    (hprovider : rt'.provider = rt.provider) : Steps rt rt' (.enter q key)
  | subscribe {q : Nat} {key : Key} (hcount : rt.desk.service.refcount key = 0)
    (hservice : rt'.desk.service = (rt.desk.service.acquire key q).1)
    (hcalls : rt.provider.calls.lookup q = none)
    (hprovider : rt'.provider = (rt.provider.subscribe q key.symbol key.market).provider) :
    Steps rt rt' (.enter q key)
  | part {q : Nat} {key : Key} (hc : rt.desk.contexts.lookup q = some ⟨key, .opened⟩)
    (hcount : 1 < rt.desk.service.refcount key)
    (hservice : rt'.desk.service = (rt.desk.service.release key q).1)
    (hprovider : rt'.provider = rt.provider) : Steps rt rt' (.leave q)
  | unsubscribe {q : Nat} {key : Key} (hc : rt.desk.contexts.lookup q = some ⟨key, .opened⟩)
    (hcount : rt.desk.service.refcount key = 1)
    (hservice : rt'.desk.service = (rt.desk.service.release key q).1)
    (hcalls : rt.provider.calls.lookup q = none)
    (hprovider : rt'.provider = (rt.provider.unsubscribe q key.symbol).provider) :
    Steps rt rt' (.leave q)
  | resume {a : RuntimeAct} {act : Act} {m : Moved} (hact : act.isResumption = true)
    (hm : rt.provider.step act = some m)
    (hcounts : ∀ key, rt'.desk.service.refcount key = rt.desk.service.refcount key)
    (hprovider : rt'.provider = m.provider) : Steps rt rt' a
  | aside {e : Event}
    (hcounts : ∀ key, rt'.desk.service.refcount key = rt.desk.service.refcount key)
    (hprovider : rt'.provider = rt.provider) : Steps rt rt' (.aside e)

/-- A context goes on with its call: the counts are as they were. -/
theorem service_call (hcall : call d q m = some rt') :
    rt'.desk.service = d.service ∧ rt'.provider = m.provider := by
  obtain ⟨contexts, hrun, -⟩ := runEvents_ended d q m.result
  unfold call at hcall
  rw [hrun] at hcall
  obtain rfl := Option.some.inj hcall
  exact ⟨rfl, rfl⟩

/-- A number that awaits nothing is of no call. -/
theorem Attended.idle (h : Attended rt)
    (hc : ∀ c, rt.desk.contexts.lookup q = some c → c.phase = .opened) :
    rt.provider.calls.lookup q = none := by
  apply Option.not_isSome_iff_eq_none.mp
  intro hsome
  obtain ⟨c, hlookup, hphase⟩ := (h q).mp hsome
  exact hphase (hc c hlookup)

theorem step_enter {tr : List Event} {key : Key} (hcounted : Counted tr rt.desk)
    (h : Attended rt) (hstep : rt.step (.enter q key) = some rt') :
    Steps rt rt' (.enter q key) ∧ Attended rt' := by
  obtain ⟨d, hd, hrest⟩ := Option.bind_eq_some_iff.mp hstep
  cases Desk.step_cases hd with
  | enter hnew =>
    have hfree := hcounted.free hnew
    have hcalls := h.idle (q := q) fun c hc => by
      rw [hfree] at hc
      cases hc
    have hservice := rt.desk.service_enter q key
    have hothers (q' : Nat) (hne : q' ≠ q) : (rt.provider.calls.lookup q').isSome = true ↔
        ∃ c, (rt.desk.enter q key).contexts.lookup q' = some c ∧ c.phase ≠ .opened := by
      rw [rt.desk.contexts_enter, Odict.lookup_set_ne hne]
      exact h q'
    by_cases hcount : rt.desk.service.refcount key = 0
    · have hself : (rt.desk.enter q key).contexts.lookup q = some ⟨key, .entering⟩ := by
        rw [rt.desk.contexts_enter, Odict.lookup_set_self, if_pos hcount]
      rw [hself] at hrest
      obtain ⟨hdesk, hprovider⟩ := service_call hrest
      exact ⟨.subscribe hcount (hdesk.trans hservice) hcalls hprovider,
        attended_call hothers ⟨_, hself, nofun⟩
          (Provider.replies_subscribe hcalls key.symbol key.market).1 hrest⟩
    · have hself : (rt.desk.enter q key).contexts.lookup q = some ⟨key, .opened⟩ := by
        rw [rt.desk.contexts_enter, Odict.lookup_set_self, if_neg hcount]
      rw [hself] at hrest
      obtain rfl := Option.some.inj hrest
      refine ⟨.join (Nat.pos_of_ne_zero hcount) hservice rfl, fun q' => ?_⟩
      by_cases hq : q' = q
      · show (rt.provider.calls.lookup q').isSome = true ↔
          ∃ c, (rt.desk.enter q key).contexts.lookup q' = some c ∧ _
        rw [hq, hcalls, hself]
        exact iff_of_false nofun fun ⟨c, hc, hphase⟩ => hphase (Option.some.inj hc ▸ rfl)
      · exact hothers q' hq

theorem step_leave {tr : List Event} (hcounted : Counted tr rt.desk) (h : Attended rt)
    (hstep : rt.step (.leave q) = some rt') : Steps rt rt' (.leave q) ∧ Attended rt' := by
  obtain ⟨d, hd, hrest⟩ := Option.bind_eq_some_iff.mp hstep
  cases Desk.step_cases hd with
  | @leave q key hc =>
    have hpos := hcounted.pos hc
    have hleft := hcounted.left hc
    have hcalls := h.idle (q := q) fun c' hc' => by
      rw [hc] at hc'
      rw [← Option.some.inj hc']
    have hservice := rt.desk.service_leave q key
    have hothers (q' : Nat) (hne : q' ≠ q) : (rt.provider.calls.lookup q').isSome = true ↔
        ∃ c, (rt.desk.leave q key).contexts.lookup q' = some c ∧ c.phase ≠ .opened := by
      rw [Desk.lookup_leave_ne hne]
      exact h q'
    by_cases hcount : rt.desk.service.refcount key = 1
    · rw [if_pos hcount] at hleft
      rw [hleft] at hrest
      obtain ⟨hdesk, hprovider⟩ := service_call hrest
      exact ⟨.unsubscribe hc hcount (hdesk.trans hservice) hcalls hprovider,
        attended_call hothers ⟨_, hleft, nofun⟩
          (Provider.replies_unsubscribe hcalls key.symbol) hrest⟩
    · rw [if_neg hcount] at hleft
      rw [hleft] at hrest
      obtain rfl := Option.some.inj hrest
      refine ⟨.part hc (by omega) hservice rfl, fun q' => ?_⟩
      by_cases hq : q' = q
      · show (rt.provider.calls.lookup q').isSome = true ↔
          ∃ c, (rt.desk.leave q key).contexts.lookup q' = some c ∧ _
        rw [hq, hcalls, hleft]
        exact iff_of_false nofun fun ⟨c, hc, _⟩ => nomatch hc
      · exact hothers q' hq

/-- A call goes on, or its caller is cancelled. -/
theorem step_call {act : Act} (hact : act.isResumption = true) (h : Attended rt)
    (hm : rt.provider.step act = some m) (hheld : (rt.provider.calls.lookup q).isSome = true)
    (hreplies : rt.provider.Replies q m) (hcall : call rt.desk q m = some rt') :
    Steps rt rt' a ∧ Attended rt' := by
  obtain ⟨hdesk, hprovider⟩ := service_call hcall
  exact ⟨.resume hact hm (fun key => by rw [hdesk]) hprovider,
    attended_call (fun q' _ => h q') ((h q).mp hheld) hreplies hcall⟩

theorem step_reader {r : Nat} {now : Time} {answer : Answer} (h : Attended rt)
    (hstep : rt.step (.reader r now answer) = some rt') :
    Steps rt rt' (.reader r now answer) ∧ Attended rt' := by
  obtain ⟨m, hm, hrest⟩ := Option.bind_eq_some_iff.mp hstep
  obtain ⟨d, hd, rfl⟩ := Option.map_eq_some_iff.mp hrest
  have hcalls : m.provider.calls = rt.provider.calls := by
    obtain ⟨t, -, ht⟩ := Option.bind_eq_some_iff.mp hm
    obtain ⟨-, -, -, -, -, hcalls, -⟩ := Provider.readerStep_spec ht
    exact hcalls
  -- a book is published, or nothing happens
  have hdesk : (∀ key, d.service.refcount key = rt.desk.service.refcount key) ∧
      d.contexts = rt.desk.contexts := by
    unfold onBook at hd
    split at hd
    · obtain rfl := Option.some.inj hd
      exact ⟨fun _ => rfl, rfl⟩
    · obtain rfl := Option.some.inj hd
      exact ⟨fun _ => rfl, rfl⟩
  refine ⟨.resume rfl hm hdesk.1 rfl, fun q => ?_⟩
  show (m.provider.calls.lookup q).isSome = true ↔ ∃ c, d.contexts.lookup q = some c ∧ _
  rw [hcalls, hdesk.2]
  exact h q

theorem step_aside {e : Event} (h : Attended rt) (hstep : rt.step (.aside e) = some rt') :
    Steps rt rt' (.aside e) ∧ Attended rt' := by
  rw [step] at hstep
  split at hstep
  · rename_i haside
    obtain ⟨d, hd, rfl⟩ := Option.map_eq_some_iff.mp hstep
    have hdesk : (∀ key, d.service.refcount key = rt.desk.service.refcount key) ∧
        d.contexts = rt.desk.contexts := by
      cases Desk.step_cases hd with
      | @get key now answer hanswer =>
        rcases rt.desk.service.get_cases key now with ⟨-, hsame⟩ | ⟨book, -, -, htouch⟩
        · rw [hsame]
          exact ⟨fun _ => rfl, rfl⟩
        · rw [htouch]
          exact ⟨fun _ => rfl, rfl⟩
      | read hc hqueue => exact ⟨fun _ => rfl, rfl⟩
      | error => exact ⟨fun _ => rfl, rfl⟩
      | _ => cases haside
    refine ⟨.aside hdesk.1 rfl, fun q => ?_⟩
    show (rt.provider.calls.lookup q).isSome = true ↔ ∃ c, d.contexts.lookup q = some c ∧ _
    rw [hdesk.2]
    exact h q
  · cases hstep

/-- A call that goes on is there. -/
theorem isSome_of_bind {p : Provider} {f : Call → Option Moved}
    (hm : (p.calls.lookup q).bind f = some m) : (p.calls.lookup q).isSome = true := by
  obtain ⟨call, hc, -⟩ := Option.bind_eq_some_iff.mp hm
  rw [hc]
  rfl

/-- What a step comes to, and that the calls are still those of the contexts. -/
theorem step_cases {tr : List Event} (hcounted : Counted tr rt.desk) (h : Attended rt)
    (hstep : rt.step a = some rt') : Steps rt rt' a ∧ Attended rt' := by
  cases a with
  | enter q key => exact step_enter hcounted h hstep
  | leave q => exact step_leave hcounted h hstep
  | answer q answer =>
    obtain ⟨m, hm, hcall⟩ := Option.bind_eq_some_iff.mp hstep
    exact step_call rfl h hm (isSome_of_bind hm) (Provider.replies_answer hm) hcall
  | wake q =>
    obtain ⟨m, hm, hcall⟩ := Option.bind_eq_some_iff.mp hstep
    exact step_call rfl h hm (isSome_of_bind hm) (Provider.replies_wake hm) hcall
  | cancel q =>
    obtain ⟨m, hm, hcall⟩ := Option.bind_eq_some_iff.mp hstep
    have hheld : (rt.provider.calls.lookup q).isSome = true := by
      obtain ⟨call, hc, -⟩ := Option.map_eq_some_iff.mp hm
      rw [hc]
      rfl
    exact step_call rfl h hm hheld (Provider.replies_cancel hm) hcall
  | reader r now answer => exact step_reader h hstep
  | aside e => exact step_aside h hstep

/-- The service's part of a step is a run of events. -/
theorem step_desk (hstep : rt.step a = some rt') :
    ∃ es, rt.desk.runEvents es = some rt'.desk := by
  have hone {e : Event} {d : Desk} (hd : rt.desk.step e = some d) :
      rt.desk.runEvents [e] = some d := Option.bind_eq_some_iff.mpr ⟨d, hd, rfl⟩
  have hcalled {d : Desk} {q : Nat} {m : Moved} (hcall : call d q m = some rt') :
      d.runEvents (d.ended q m.result) = some rt'.desk := by
    obtain ⟨d', hd', rfl⟩ := Option.map_eq_some_iff.mp hcall
    exact hd'
  have hafter {e : Event} {d : Desk} {q : Nat} {m : Moved} (hd : rt.desk.step e = some d)
      (hcall : call d q m = some rt') : ∃ es, rt.desk.runEvents es = some rt'.desk :=
    ⟨e :: d.ended q m.result, Option.bind_eq_some_iff.mpr ⟨d, hd, hcalled hcall⟩⟩
  cases a with
  | enter q key =>
    obtain ⟨d, hd, hrest⟩ := Option.bind_eq_some_iff.mp hstep
    split at hrest
    · exact hafter hd hrest
    · obtain rfl := Option.some.inj hrest
      exact ⟨_, hone hd⟩
  | leave q =>
    obtain ⟨d, hd, hrest⟩ := Option.bind_eq_some_iff.mp hstep
    split at hrest
    · exact hafter hd hrest
    · obtain rfl := Option.some.inj hrest
      exact ⟨_, hone hd⟩
  | reader r now answer =>
    obtain ⟨m, -, hrest⟩ := Option.bind_eq_some_iff.mp hstep
    obtain ⟨d, hd, rfl⟩ := Option.map_eq_some_iff.mp hrest
    exact ⟨_, hd⟩
  | aside e =>
    rw [step] at hstep
    split at hstep
    · obtain ⟨d, hd, rfl⟩ := Option.map_eq_some_iff.mp hstep
      exact ⟨_, hone hd⟩
    · cases hstep
  | _ =>
    obtain ⟨m, -, hcall⟩ := Option.bind_eq_some_iff.mp hstep
    exact ⟨_, hcalled hcall⟩

/-- A run of the runtime is one of the service. -/
theorem runs_desk (h : Runs c ok rt) : ∃ tr, OrderBooks.Runs c tr rt.desk := by
  induction h with
  | start => exact ⟨[], .start⟩
  | step _ _ hstep ih =>
    obtain ⟨tr, hrun⟩ := ih
    obtain ⟨es, hes⟩ := step_desk hstep
    exact ⟨tr ++ es, hrun.append hes⟩

theorem attended_run (h : Runs c ok rt) : Attended rt := by
  induction h with
  | start => exact fun q => iff_of_false Bool.false_ne_true fun ⟨_, hc, _⟩ => nomatch hc
  | step hrun _ hstep ih =>
    obtain ⟨tr, hdesk⟩ := runs_desk hrun
    exact (step_cases (counted_run hdesk) ih hstep).2

/-- A run of the runtime is one of the provider. -/
theorem runs_provider (h : Runs c ok rt) : Provider.Runs (fun _ _ => True) rt.provider := by
  induction h with
  | start => exact .start
  | @step rt rt' a hrun _ hstep ih =>
    obtain ⟨tr, hdesk⟩ := runs_desk hrun
    cases (step_cases (counted_run hdesk) (attended_run hrun) hstep).1 with
    | join _ _ hprovider => rw [hprovider]; exact ih
    | @subscribe q key _ _ hcalls hprovider =>
      rw [hprovider]
      apply ih.step (a := .subscribe q key.symbol key.market) trivial
      rw [Provider.step, hcalls]
      rfl
    | part _ _ _ hprovider => rw [hprovider]; exact ih
    | @unsubscribe q key _ _ _ hcalls hprovider =>
      rw [hprovider]
      apply ih.step (a := .unsubscribe q key.symbol) trivial
      rw [Provider.step, hcalls]
      rfl
    | resume _ hm _ hprovider =>
      rw [hprovider]
      exact ih.step trivial hm
    | aside _ hprovider => rw [hprovider]; exact ih

end Run

end Runtime

end ExecutionEngine.OrderBooks
