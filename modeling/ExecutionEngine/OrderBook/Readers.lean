/-
  When the symbols that the provider tracks have a reader.

  A reader is live while it is neither finished nor being cancelled. Two kinds of steps
  take the last live reader from symbols that are tracked (`Loses`): it ends by an
  exception that `_run` does not handle (one of its own is the delay after more attempts in
  a row than a float can count), or a `subscribe` comes while the reader is being
  cancelled, and takes it for one that goes on. Where no step is of these kinds there is
  a reader in every state, and each step of these kinds leaves none (`reader_run`).

  What else ends a reader does no harm (`Calm`): the loop ends when nothing is tracked,
  and only then, or to stop, is a reader cancelled. A call that awaits a reader awaits one
  that is being cancelled (`Sound`), so a cancellation handed on to it finds it so already.
-/
import ExecutionEngine.OrderBook.Provider

namespace ExecutionEngine.OrderBooks

/-- A reader that is neither finished nor being cancelled. -/
def ReaderTask.Live (t : ReaderTask) : Prop := t.cancelling = false ∧ t.state.outcome = none

namespace Provider

/-- A reader is live. -/
def HasReader (p : Provider) : Prop :=
  ∃ (r : Nat) (t : ReaderTask), p.tasks[r]? = some t ∧ t.Live

/-- Where symbols are tracked there is a reader, unless the provider is stopping. -/
def Fed (p : Provider) : Prop := p.stopping = false → p.subs ≠ [] → p.HasReader

/-- The steps that leave symbols without a reader: the only live reader ends by an exception, or a
    subscription comes while the reader is being cancelled and no other is live. -/
def Loses (p : Provider) : Act → Prop
  | .reader r now a => p.stopping = false ∧ p.subs ≠ [] ∧
      (∃ t, p.tasks[r]? = some t ∧ t.Live ∧ t.state.fatal now a = true) ∧
      ∀ (r' : Nat) (t : ReaderTask), p.tasks[r']? = some t → t.Live → r' = r
  | .subscribe _ _ _ => p.stopping = false ∧ p.readerDone = false ∧ ¬ p.HasReader
  | _ => False

/-- A reader that is not live, and will not be again. -/
def Dead (p : Provider) (r : Nat) : Prop := ∃ t, p.tasks[r]? = some t ∧ ¬ t.Live

/-- The reader is a task, and a call that awaits one has cancelled it. -/
structure Sound (p : Provider) : Prop where
  reader : ∀ r, p.reader = some r → r < p.tasks.length
  awaited : ∀ c r b, p.calls.lookup c = some ⟨.awaitingReader r, b⟩ → p.Dead r

/-! ## How a reader ends -/

section Ends

variable {p : Provider} {r : Nat} {s : Session} {now : Time} {state : ReaderState} {a : Answer}
  {x : (Provider × ReaderState) × Option Signal}

/-- The loop goes on as long as an attempt has a delay. -/
theorem loopHead_outcome (hstop : p.stopping = false) (hsubs : p.subs ≠ []) (attempt : Nat)
    (now : Time) : (p.loopHead attempt now).outcome.isSome = decide (lastAttempt ≤ attempt) := by
  unfold loopHead
  rw [if_neg (by simp [hstop, hsubs])]
  by_cases hlast : lastAttempt ≤ attempt
  · rw [if_pos hlast, decide_eq_true hlast]
    rfl
  · rw [if_neg hlast, decide_eq_false hlast]
    split <;> rfl

theorem endSession_outcome (hstop : p.stopping = false) (hsubs : p.subs ≠ []) (s : Session)
    (outcome : Option Fault) (now : Time) :
    (p.endSession s outcome now).1.outcome.isSome =
      ((outcome.any fun f => !f.retried) || s.exhausted now) := by
  unfold endSession
  cases outcome with
  | none => exact loopHead_outcome hstop hsubs _ now
  | some f =>
    dsimp only
    cases hretried : f.retried with
    | true =>
      rw [if_pos rfl, loopHead_outcome hstop hsubs, Option.any_some, hretried]
      rfl
    | false =>
      rw [if_neg Bool.false_ne_true, Option.any_some, hretried]
      rfl

/-- While symbols are tracked, a reader ends by exceptions only. -/
theorem resume_outcome (hstop : p.stopping = false) (hsubs : p.subs ≠ [])
    (h : p.resume r now state a = some x) : x.1.2.outcome.isSome = state.fatal now a := by
  cases resume_cases h with
  | next hfatal hgoes _ =>
    rw [hgoes, hfatal]
    rfl
  | begins =>
    rw [loopHead_outcome hstop hsubs]
    rfl
  | dies hfatal => exact hfatal.symm
  | ends s outcome hfatal => rw [endSession_outcome hstop hsubs, hfatal]
  | leaves s outcome hfatal => exact hfatal.symm
  | joins s =>
    rw [joinRooms_goes_on]
    rfl
  | joinsNext s i rest ids id =>
    rw [joinRooms_goes_on]
    rfl
  | skips s i rest ids f =>
    rw [joinRooms_goes_on]
    rfl
  | frames s f =>
    rw [(takeFrame_aside p s f).2]
    rfl

/-- A reader that has ended does not go on. -/
theorem resume_unfinished (h : p.resume r now state a = some x) : state.outcome = none := by
  cases state with
  | finished outcome => cases h
  | _ => rfl

end Ends

/-! ## Calls -/

/-- What every stretch of a call does, the start of a subscription apart: it takes no live reader
    from symbols, and awaits only readers that are not live. -/
structure Calm (p p' : Provider) : Prop where
  fed : p.Fed → p'.Fed
  dead : ∀ r, p.Dead r → p'.Dead r
  length : p'.tasks.length = p.tasks.length
  reader : p'.reader = p.reader ∨ p'.reader = none
  awaited : ∀ c r b, p'.calls.lookup c = some ⟨.awaitingReader r, b⟩ →
    (∃ b', p.calls.lookup c = some ⟨.awaitingReader r, b'⟩) ∨ p'.Dead r

section Calls

variable {p p' p'' : Provider} {c r : Nat} {a : Answer} {call : Call} {m : Moved}

theorem Calm.trans (h : Calm p p') (h' : Calm p' p'') : Calm p p'' where
  fed hp := h'.fed (h.fed hp)
  dead r hr := h'.dead r (h.dead r hr)
  length := h'.length.trans h.length
  reader := by
    rcases h'.reader with hreader | hreader
    · rw [hreader]
      exact h.reader
    · exact .inr hreader
  awaited c r b hc := by
    rcases h'.awaited c r b hc with ⟨b', hb'⟩ | hdead
    · rcases h.awaited c r b' hb' with hold | hdead
      · exact .inl hold
      · exact .inr (h'.dead r hdead)
    · exact .inr hdead

/-- A stretch that leaves the readers alone, and awaits none. -/
theorem Calm.of_tasks (htasks : p'.tasks = p.tasks) (hsubs : p.subs = [] → p'.subs = [])
    (hstop : p.stopping = true → p'.stopping = true)
    (hreader : p'.reader = p.reader ∨ p'.reader = none)
    (hcalls : ∀ c r b, p'.calls.lookup c = some ⟨.awaitingReader r, b⟩ →
      ∃ b', p.calls.lookup c = some ⟨.awaitingReader r, b'⟩) : Calm p p' where
  fed hp hstop' hsubs' := by
    have hgoing : p.stopping = false := by
      cases hs : p.stopping with
      | false => rfl
      | true =>
        rw [hstop hs] at hstop'
        cases hstop'
    obtain ⟨r, t, ht, hlive⟩ := hp hgoing fun hnil => hsubs' (hsubs hnil)
    exact ⟨r, t, by rw [htasks]; exact ht, hlive⟩
  dead r hr := by
    obtain ⟨t, ht, hlive⟩ := hr
    exact ⟨t, by rw [htasks]; exact ht, hlive⟩
  length := by rw [htasks]
  reader := hreader
  awaited c r b hc := .inl (hcalls c r b hc)

theorem Calm.refl (p : Provider) : Calm p p :=
  .of_tasks rfl id id (.inl rfl) fun _ _ b hc => ⟨b, hc⟩

/-- Rooms and the socket are nothing to the readers. -/
theorem Aside.calm (h : Aside p p') : Calm p p' :=
  .of_tasks h.tasks (fun hnil => h.subs.trans hnil) (fun hs => h.stopping.trans hs)
    (.inl h.reader) fun _ _ b hc => ⟨b, by rw [← h.calls]; exact hc⟩

theorem calm_hold {state : CallState} (hstate : ∀ r, state ≠ .awaitingReader r) (p : Provider)
    (c : Nat) : Calm p (p.hold c state) := by
  refine .of_tasks rfl id id (.inl rfl) fun c' r b hc => ⟨b, ?_⟩
  rw [hold, Odict.lookup_set] at hc
  split at hc
  · exact absurd (congrArg Call.state (Option.some.inj hc)) (hstate r)
  · exact hc

theorem calm_pop (p : Provider) (c : Nat) : Calm p { p with calls := Odict.pop c p.calls } := by
  refine .of_tasks rfl id id (.inl rfl) fun c' r b hc => ⟨b, ?_⟩
  rw [Odict.lookup_pop] at hc
  split at hc
  · cases hc
  · exact hc

/-- The caller of a call is marked as cancelled. -/
theorem calm_mark (hc : p.calls.lookup c = some call) :
    Calm p { p with calls := Odict.set c { call with pending := true } p.calls } := by
  refine .of_tasks rfl id id (.inl rfl) fun c' r b hc' => ?_
  rw [Odict.lookup_set] at hc'
  split at hc'
  · rename_i heq
    have hstate : call.state = .awaitingReader r := congrArg Call.state (Option.some.inj hc')
    rw [heq]
    exact ⟨call.pending, by rw [hc, ← hstate]⟩
  · exact ⟨b, hc'⟩

theorem calm_afterReader (p : Provider) (outcome : Option Fault) :
    Calm p (p.afterReader outcome).provider := by
  unfold afterReader
  split
  · exact .of_tasks rfl id id (.inr rfl) fun _ _ b hc => ⟨b, hc⟩
  · exact .of_tasks rfl id id (.inr rfl) fun _ _ b hc => ⟨b, hc⟩
  · exact .refl p

/-- What a cancelled reader is after that, and what the others are. -/
theorem cancelReader_tasks (p : Provider) (r r' : Nat) :
    (p.cancelReader r).tasks[r']? =
      if r' = r ∧ p.outcomeOf r = none then
        p.tasks[r']?.map fun t => { t with cancelling := true, pending := true }
      else p.tasks[r']? := by
  unfold cancelReader
  cases houtcome : p.outcomeOf r with
  | some outcome => simp
  | none =>
    simp only [Option.isSome_none, Bool.false_eq_true, if_false, and_true, List.getElem?_modify]
    by_cases h : r = r'
    · simp [h]
    · simp [h, Ne.symm h]

theorem cancelReader_dead (h : r < p.tasks.length) : (p.cancelReader r).Dead r := by
  unfold Dead
  rw [cancelReader_tasks, List.getElem?_eq_getElem h]
  split
  · exact ⟨_, rfl, fun hlive => Bool.false_ne_true hlive.1.symm⟩
  · rename_i hdone
    refine ⟨_, rfl, fun hlive => hdone ⟨rfl, ?_⟩⟩
    rw [outcomeOf, List.getElem?_eq_getElem h]
    exact hlive.2

/-- A reader is cancelled that is not live, or none is needed. -/
theorem calm_cancelReader (h : p.Dead r ∨ p.stopping = true ∨ p.subs = []) :
    Calm p (p.cancelReader r) where
  fed hp hstop hsubs := by
    have hframe : (p.cancelReader r).stopping = p.stopping ∧ (p.cancelReader r).subs = p.subs := by
      unfold cancelReader
      split <;> exact ⟨rfl, rfl⟩
    rw [hframe.1] at hstop
    rw [hframe.2] at hsubs
    rcases h with ⟨t, ht, hdead⟩ | hs | hnil
    · obtain ⟨r', t', ht', hlive⟩ := hp hstop hsubs
      have hne : r' ≠ r := by
        rintro rfl
        rw [ht] at ht'
        exact hdead (Option.some.inj ht' ▸ hlive)
      exact ⟨r', t', by rw [cancelReader_tasks, if_neg fun hr => hne hr.1]; exact ht', hlive⟩
    · rw [hstop] at hs
      cases hs
    · exact absurd hnil hsubs
  dead r' hr' := by
    obtain ⟨t, ht, hdead⟩ := hr'
    unfold Dead
    rw [cancelReader_tasks, ht]
    split
    · exact ⟨_, rfl, fun hlive => Bool.false_ne_true hlive.1.symm⟩
    · exact ⟨t, rfl, hdead⟩
  length := by
    unfold cancelReader
    split
    · rfl
    · exact List.length_modify ..
  reader := by
    unfold cancelReader
    split <;> exact .inl rfl
  awaited c r' b hc := by
    refine .inl ⟨b, ?_⟩
    unfold cancelReader at hc
    split at hc <;> exact hc

theorem calm_awaitReader (hr : r < p.tasks.length) (hidle : p.stopping = true ∨ p.subs = [])
    (c : Nat) : Calm p (p.awaitReader c r).provider := by
  unfold awaitReader
  split
  · exact calm_afterReader p _
  · have hcancel : Calm p (p.cancelReader r) := calm_cancelReader (.inr hidle)
    have hdead : (p.cancelReader r).Dead r := cancelReader_dead hr
    -- it awaits the one reader that it has cancelled
    refine ⟨fun hp => hcancel.fed hp, hcancel.dead, hcancel.length, hcancel.reader, ?_⟩
    intro c' r' b hc
    rw [hold, Odict.lookup_set] at hc
    split at hc
    · obtain rfl : r = r' := CallState.awaitingReader.inj (congrArg Call.state (Option.some.inj hc))
      exact .inr hdead
    · exact hcancel.awaited c' r' b hc

theorem calm_dropReader (h : Sound p) (c : Nat) : Calm p (p.dropReader c).provider := by
  unfold dropReader
  split
  · rename_i r hreader
    split
    · rename_i hnil
      exact calm_awaitReader (h.reader r hreader) (.inr hnil) c
    · exact .refl p
  · exact .refl p

theorem Sound.calm (h : Sound p) (hcalm : Calm p p') : Sound p' where
  reader r hr := by
    rw [hcalm.length]
    rcases hcalm.reader with hreader | hreader
    · exact h.reader r (hreader ▸ hr)
    · rw [hreader] at hr
      cases hr
  awaited c r b hc := by
    rcases hcalm.awaited c r b hc with ⟨b', hc'⟩ | hdead
    · exact hcalm.dead r (h.awaited c r b' hc')
    · exact hdead

theorem calm_unsubscribe (h : Sound p) (c : Nat) (symbol : String) :
    Calm p (p.unsubscribe c symbol).provider := by
  unfold unsubscribe
  split
  · exact calm_dropReader h c
  · have hpop : Calm p { p with subs := Odict.pop symbol p.subs } :=
      .of_tasks rfl (fun hnil => by rw [hnil]; rfl) id (.inl rfl) fun _ _ b hc => ⟨b, hc⟩
    dsimp only
    split
    · exact hpop.trans (calm_dropReader (h.calm hpop) c)
    · rename_i id hroom
      have hleft : Calm p
          { p with subs := Odict.pop symbol p.subs, byRoom := Odict.pop id p.byRoom } :=
        hpop.trans (Aside.calm ⟨rfl, rfl, rfl, rfl, rfl⟩)
      split
      · exact hleft.trans (calm_dropReader (h.calm hleft) c)
      · refine hleft.trans (calm_hold ?_ _ c)
        nofun

theorem calm_stop (h : Sound p) (c : Nat) : Calm p (p.stop c).provider := by
  have hstop : Calm p { p with stopping := true } :=
    .of_tasks rfl id (fun _ => rfl) (.inl rfl) fun _ _ b hc => ⟨b, hc⟩
  unfold stop
  dsimp only
  split
  · rename_i r hreader
    exact hstop.trans (calm_awaitReader ((h.calm hstop).reader r hreader) (.inl rfl) c)
  · exact hstop

theorem calm_joinFailed (p : Provider) (f : Fault) : Calm p (p.joinFailed f).provider := by
  unfold joinFailed
  split <;> exact .refl p

theorem calm_resumeCall (h : Sound p) {state : CallState}
    (hm : p.resumeCall c state a = some m) : Calm p m.provider := by
  unfold resumeCall at hm
  split at hm
  case h_1 i id =>
    obtain rfl := Option.some.inj hm
    have hroom : Calm p ((p.setRoom i id).enterRoom i id) := Aside.calm ⟨rfl, rfl, rfl, rfl, rfl⟩
    refine hroom.trans (calm_hold ?_ _ c)
    nofun
  case h_2 i f =>
    obtain rfl := Option.some.inj hm
    exact calm_joinFailed p f
  case h_3 =>
    obtain rfl := Option.some.inj hm
    exact .refl p
  case h_4 f =>
    obtain rfl := Option.some.inj hm
    exact calm_joinFailed p f
  case h_5 =>
    obtain rfl := Option.some.inj hm
    exact calm_dropReader h c
  case h_6 f =>
    obtain rfl := Option.some.inj hm
    split
    · exact calm_dropReader h c
    · exact .refl p
  case h_7 => cases hm

theorem calm_answerCall (h : Sound p) (hm : p.answerCall c call a = some m) :
    Calm p m.provider := by
  unfold answerCall at hm
  split at hm
  · have hpop := calm_pop p c
    exact hpop.trans (calm_resumeCall (h.calm hpop) hm)
  · cases hm

theorem calm_wakeCall (hm : p.wakeCall c call = some m) : Calm p m.provider := by
  unfold wakeCall at hm
  split at hm
  · obtain ⟨outcome, -, rfl⟩ := Option.map_eq_some_iff.mp hm
    exact (calm_pop p c).trans (calm_afterReader _ _)
  · cases hm

/-- A cancellation that is handed on finds the reader cancelled already. -/
theorem calm_cancelCall (h : Sound p) (hc : p.calls.lookup c = some call) :
    Calm p (p.cancelCall c call) := by
  unfold cancelCall
  split
  · rename_i r hstate
    split
    · exact calm_mark hc
    · apply calm_cancelReader
      refine .inl (h.awaited c r call.pending ?_)
      rw [hc, ← hstate]
  · exact calm_mark hc

end Calls

/-! ## Subscriptions -/

section Subscribe

variable {p : Provider} {c : Nat} {symbol : String} {market : Market}

/-- A symbol is tracked, and nothing else happens to the provider. -/
theorem track_spec (p : Provider) (symbol : String) (market : Market) :
    (p.track symbol market).1.subs ≠ [] ∧ (p.track symbol market).1.tasks = p.tasks ∧
      (p.track symbol market).1.reader = p.reader ∧
      (p.track symbol market).1.stopping = p.stopping ∧
      (p.track symbol market).1.calls = p.calls := by
  unfold track
  split
  · rename_i i hlookup
    refine ⟨fun hnil => ?_, rfl, rfl, rfl, rfl⟩
    rw [hnil] at hlookup
    cases hlookup
  · exact ⟨Odict.set_ne_nil _ _ _, rfl, rfl, rfl, rfl⟩

theorem readerDone_track : (p.track symbol market).1.readerDone = p.readerDone := by
  obtain ⟨-, htasks, hreader, -, -⟩ := track_spec p symbol market
  unfold readerDone outcomeOf
  rw [htasks, hreader]

/-- A new task is made where the reader is done, and a live join makes none. -/
theorem subscribe_spec (p : Provider) (c : Nat) (symbol : String) (market : Market) :
    (p.subscribe c symbol market).provider.stopping = p.stopping ∧
      (p.subscribe c symbol market).provider.subs ≠ [] ∧
      (p.subscribe c symbol market).provider.tasks =
        (if p.readerDone then p.tasks ++ [.fresh] else p.tasks) ∧
      (p.subscribe c symbol market).provider.reader =
        (if p.readerDone then some p.tasks.length else p.reader) ∧
      ∀ c' r b, (p.subscribe c symbol market).provider.calls.lookup c' =
        some ⟨.awaitingReader r, b⟩ → p.calls.lookup c' = some ⟨.awaitingReader r, b⟩ := by
  obtain ⟨hsubs, htasks, hreader, hstop, hcalls⟩ := track_spec p symbol market
  have hheld {state : CallState} (hstate : ∀ r, state ≠ .awaitingReader r) (c' r : Nat) (b : Bool)
      (hc : (Odict.set c { state } (p.track symbol market).1.calls).lookup c' =
        some ⟨.awaitingReader r, b⟩) : p.calls.lookup c' = some ⟨.awaitingReader r, b⟩ := by
    rw [Odict.lookup_set, hcalls] at hc
    split at hc
    · exact absurd (congrArg Call.state (Option.some.inj hc)) (hstate r)
    · exact hc
  unfold subscribe
  dsimp only
  rw [readerDone_track]
  split
  · refine ⟨hstop, hsubs, ?_, ?_, fun c' r b hc => hcalls ▸ hc⟩
    · exact congrArg (· ++ [ReaderTask.fresh]) htasks
    · exact congrArg (fun tasks : List ReaderTask => some tasks.length) htasks
  · split
    · exact ⟨hstop, hsubs, htasks, hreader, fun c' r b hc => hcalls ▸ hc⟩
    · split
      · exact ⟨hstop, hsubs, htasks, hreader, hheld nofun⟩
      · exact ⟨hstop, hsubs, htasks, hreader, hheld nofun⟩

theorem dead_append {r : Nat} (h : p.Dead r) (t : ReaderTask) :
    ∃ t', (p.tasks ++ [t])[r]? = some t' ∧ ¬ t'.Live := by
  obtain ⟨t', ht', hdead⟩ := h
  have hlt : r < p.tasks.length := (List.getElem?_eq_some_iff.mp ht').1
  exact ⟨t', by rw [List.getElem?_append_left hlt]; exact ht', hdead⟩

theorem Sound.subscribe (h : Sound p) (c : Nat) (symbol : String) (market : Market) :
    Sound (p.subscribe c symbol market).provider := by
  obtain ⟨-, -, htasks, hreader, hcalls⟩ := subscribe_spec p c symbol market
  refine ⟨fun r hr => ?_, fun c' r b hc => ?_⟩
  · rw [hreader] at hr
    rw [htasks]
    by_cases hdone : p.readerDone = true
    · rw [if_pos hdone] at hr ⊢
      obtain rfl := Option.some.inj hr
      rw [List.length_append, List.length_singleton]
      exact Nat.lt_succ_self _
    · rw [if_neg hdone] at hr ⊢
      exact h.reader r hr
  · have hdead := h.awaited c' r b (hcalls c' r b hc)
    unfold Dead
    rw [htasks]
    split
    · exact dead_append hdead _
    · exact hdead

/-- A subscription leaves its symbol without a reader exactly if it loses it. -/
theorem fed_subscribe : (p.subscribe c symbol market).provider.Fed ↔
    ¬ p.Loses (.subscribe c symbol market) := by
  obtain ⟨hstop, hsubs, htasks, -, -⟩ := subscribe_spec p c symbol market
  unfold Fed HasReader Loses
  rw [hstop, htasks]
  cases hdone : p.readerDone with
  | true =>
    refine iff_of_true (fun _ _ => ⟨p.tasks.length, .fresh, ?_, rfl, rfl⟩) fun h => ?_
    · rw [if_pos rfl, List.getElem?_append_right (Nat.le_refl _), Nat.sub_self]
      rfl
    · exact Bool.false_ne_true h.2.1.symm
  | false =>
    rw [if_neg Bool.false_ne_true]
    constructor
    · rintro h ⟨hgoing, -, hnone⟩
      exact hnone (h hgoing hsubs)
    · intro h hgoing _
      by_contra hnone
      exact h ⟨hgoing, rfl, hnone⟩

end Subscribe

/-! ## Readers -/

section Reader

variable {p : Provider} {r : Nat} {now : Time} {t : ReaderTask} {a : Answer} {m : Moved}

/-- The reader is at its next await, and the others are where they were. -/
theorem readerStep_spec (h : p.readerStep r now t a = some m) :
    ∃ state, m.provider.tasks = p.tasks.set r { t with state, pending := false } ∧
      m.provider.subs = p.subs ∧ m.provider.reader = p.reader ∧
      m.provider.stopping = p.stopping ∧ m.provider.calls = p.calls ∧ t.state.outcome = none ∧
      (p.stopping = false → p.subs ≠ [] → state.outcome.isSome = t.state.fatal now a) := by
  unfold readerStep at h
  split at h
  · obtain ⟨x, hx, rfl⟩ := Option.map_eq_some_iff.mp h
    have haside := resume_aside hx
    refine ⟨x.1.2, ?_, haside.subs, haside.reader, haside.stopping, haside.calls,
      resume_unfinished hx, fun hstop hsubs => resume_outcome hstop hsubs hx⟩
    show x.1.1.tasks.set r _ = _
    rw [haside.tasks]
  · cases h

theorem Sound.readerStep (h : Sound p) (ht : p.tasks[r]? = some t)
    (hm : p.readerStep r now t a = some m) : Sound m.provider := by
  obtain ⟨state, htasks, -, hreader, -, hcalls, hunfinished, -⟩ := readerStep_spec hm
  have hlt : r < p.tasks.length := (List.getElem?_eq_some_iff.mp ht).1
  refine ⟨fun r' hr' => ?_, fun c r' b hc => ?_⟩
  · rw [htasks, List.length_set]
    exact h.reader r' (hreader ▸ hr')
  · rw [hcalls] at hc
    obtain ⟨t', ht', hdead⟩ := h.awaited c r' b hc
    unfold Dead
    rw [htasks, List.getElem?_set]
    by_cases hr : r = r'
    · subst hr
      obtain rfl := Option.some.inj (ht.symm.trans ht')
      rw [if_pos rfl, if_pos hlt]
      exact ⟨_, rfl, fun hlive => hdead ⟨hlive.1, hunfinished⟩⟩
    · rw [if_neg hr]
      exact ⟨t', ht', hdead⟩

/-- A reader leaves the symbols without one exactly if it loses them. -/
theorem fed_readerStep (h : p.Fed) (ht : p.tasks[r]? = some t)
    (hm : p.readerStep r now t a = some m) :
    m.provider.Fed ↔ ¬ p.Loses (.reader r now a) := by
  obtain ⟨state, htasks, hsubs, -, hstop, -, hunfinished, houtcome⟩ := readerStep_spec hm
  have hlt : r < p.tasks.length := (List.getElem?_eq_some_iff.mp ht).1
  have hself : m.provider.tasks[r]? = some { t with state, pending := false } := by
    rw [htasks, List.getElem?_set_self hlt]
  have hother {r' : Nat} (hne : r' ≠ r) : m.provider.tasks[r']? = p.tasks[r']? := by
    rw [htasks, List.getElem?_set_ne (Ne.symm hne)]
  constructor
  · rintro hfed ⟨hs, hn, ⟨t', ht', hlive, hfatal⟩, honly⟩
    obtain rfl := Option.some.inj (ht.symm.trans ht')
    obtain ⟨r₁, t₁, ht₁, hlive₁⟩ := hfed (hstop.trans hs) (by rw [hsubs]; exact hn)
    by_cases hr : r₁ = r
    · rw [hr, hself] at ht₁
      obtain rfl := Option.some.inj ht₁
      have hended := houtcome hs hn
      rw [show state.outcome = none from hlive₁.2, hfatal] at hended
      exact Bool.false_ne_true hended
    · rw [hother hr] at ht₁
      exact hr (honly r₁ t₁ ht₁ hlive₁)
  · intro hkeeps hs hn
    rw [hstop] at hs
    rw [hsubs] at hn
    obtain ⟨r₁, t₁, ht₁, hlive₁⟩ := h hs hn
    by_cases hr : r₁ = r
    · rw [hr, ht] at ht₁
      obtain rfl := Option.some.inj ht₁
      cases hfatal : t.state.fatal now a with
      | false =>
        have hgoes := houtcome hs hn
        rw [hfatal] at hgoes
        refine ⟨r, _, hself, hlive₁.1, ?_⟩
        exact Option.isNone_iff_eq_none.mp (Option.isSome_eq_false_iff.mp hgoes)
      | true =>
        -- it ends, but it was not the only one
        by_contra hnone
        refine hkeeps ⟨hs, hn, ⟨t, ht, hlive₁, hfatal⟩, fun r' t' ht' hlive' => ?_⟩
        by_contra hne
        exact hnone ⟨r', t', by rw [hother hne]; exact ht', hlive'⟩
    · exact ⟨r₁, t₁, by rw [hother hr]; exact ht₁, hlive₁⟩

end Reader

/-! ## Runs -/

section Run

variable {p : Provider} {a : Act} {m : Moved} {ok : Provider → Act → Prop}

/-- Calls that have begun, and cancellations, do not lose a reader. -/
theorem calm_step (h : Sound p) (hstep : p.step a = some m)
    (hsubscribe : ∀ c symbol market, a ≠ .subscribe c symbol market)
    (hreader : ∀ r now answer, a ≠ .reader r now answer) : Calm p m.provider := by
  cases a with
  | subscribe c symbol market => exact absurd rfl (hsubscribe c symbol market)
  | reader r now answer => exact absurd rfl (hreader r now answer)
  | unsubscribe c symbol =>
    rw [step] at hstep
    split at hstep
    · cases hstep
    · obtain rfl := Option.some.inj hstep
      exact calm_unsubscribe h c symbol
  | stop c =>
    rw [step] at hstep
    split at hstep
    · cases hstep
    · obtain rfl := Option.some.inj hstep
      exact calm_stop h c
  | answer c answer =>
    obtain ⟨call, -, hm⟩ := Option.bind_eq_some_iff.mp hstep
    exact calm_answerCall h hm
  | wake c =>
    obtain ⟨call, -, hm⟩ := Option.bind_eq_some_iff.mp hstep
    exact calm_wakeCall hm
  | cancel c =>
    obtain ⟨call, hc, rfl⟩ := Option.map_eq_some_iff.mp hstep
    exact calm_cancelCall h hc

theorem Sound.step (h : Sound p) (hstep : p.step a = some m) : Sound m.provider := by
  cases a with
  | subscribe c symbol market =>
    rw [Provider.step] at hstep
    split at hstep
    · cases hstep
    · obtain rfl := Option.some.inj hstep
      exact h.subscribe c symbol market
  | reader r now answer =>
    obtain ⟨t, ht, hm⟩ := Option.bind_eq_some_iff.mp hstep
    exact h.readerStep ht hm
  | _ => exact h.calm (calm_step h hstep nofun nofun)

theorem fed_step (hsound : Sound p) (h : p.Fed) (hstep : p.step a = some m) :
    m.provider.Fed ↔ ¬ p.Loses a := by
  cases a with
  | subscribe c symbol market =>
    rw [step] at hstep
    split at hstep
    · cases hstep
    · obtain rfl := Option.some.inj hstep
      exact fed_subscribe
  | reader r now answer =>
    obtain ⟨t, ht, hm⟩ := Option.bind_eq_some_iff.mp hstep
    exact fed_readerStep h ht hm
  | _ => exact iff_of_true ((calm_step hsound hstep nofun nofun).fed h) id

theorem sound_run (h : Runs ok p) : Sound p := by
  induction h with
  | start => exact ⟨nofun, nofun⟩
  | step _ _ hstep ih => exact ih.step hstep

/-- Where no step loses the last reader, the symbols that are tracked have one; and a step that
    does leaves them without. -/
theorem reader_run (h : Runs (fun p a => ¬ p.Loses a) p) :
    p.Fed ∧ ∀ a m, p.step a = some m → (m.provider.Fed ↔ ¬ p.Loses a) := by
  have hfed : p.Fed := by
    induction h with
    | start => exact fun _ hsubs => absurd rfl hsubs
    | step hrun hok hstep ih => exact (fed_step (sound_run hrun) ih hstep).mpr hok
  exact ⟨hfed, fun a m hstep => fed_step (sound_run h) hfed hstep⟩

/-! ### Two runs -/

/-- A symbol has been subscribed, and its reader is about to ask for a ticket. -/
def ticketAsked : Provider where
  objects := [⟨"PTT", .set, none⟩]
  subs := [("PTT", 0)]
  tasks := [⟨.ticket ⟨1, 0⟩, false, false⟩]
  reader := some 0

theorem subscribed_has_reader : ticketAsked.Fed := by
  have hbegun : Runs (fun p a => ¬ p.Loses a) (Provider.subscribe {} 0 "PTT" .set).provider := by
    apply Runs.step (a := .subscribe 0 "PTT" .set) .start _ rfl
    exact fun h => absurd h.2.1 (by decide)
  have hasked : Runs (fun p a => ¬ p.Loses a) ticketAsked := by
    apply Runs.step (m := ⟨ticketAsked, none, none⟩) (a := .reader 0 0 .done) hbegun _ rfl
    rintro ⟨-, -, ⟨t, ht, -, hfatal⟩, -⟩
    obtain rfl := Option.some.inj ht
    exact Bool.false_ne_true hfatal
  exact (reader_run hasked).1

/-- The last symbol is dropped, and another one comes before its reader has ended. -/
def dyingReader : List Act :=
  [.subscribe 0 "PTT" .set, .reader 0 0 .done, .unsubscribe 1 "PTT", .subscribe 2 "SCB" .set,
    .reader 0 0 (.raised .cancelled), .wake 1]

/-- What is left: a symbol, no call, and no reader. -/
def starved : Provider where
  objects := [⟨"PTT", .set, none⟩, ⟨"SCB", .set, none⟩]
  subs := [("SCB", 1)]
  tasks := [⟨.finished (some .cancelled), true, false⟩]

theorem late_symbol_starves :
    Runs (fun _ _ => True) starved ∧ starved.calls = [] ∧ starved.stopping = false ∧
      starved.subs = [("SCB", 1)] ∧ ¬ starved.HasReader ∧ ¬ starved.Fed := by
  have hnone : ¬ starved.HasReader := by
    rintro ⟨r, t, ht, hlive⟩
    obtain rfl := List.mem_singleton.mp (List.mem_of_getElem? ht)
    exact Bool.false_ne_true hlive.1.symm
  have hacts : runActs dyingReader {} = some starved := rfl
  refine ⟨Runs.start.acts hacts, rfl, rfl, rfl, hnone, fun hfed => ?_⟩
  exact hnone (hfed rfl (List.cons_ne_nil _ _))

end Run

end Provider

end ExecutionEngine.OrderBooks
