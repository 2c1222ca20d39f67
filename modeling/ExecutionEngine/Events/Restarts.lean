/-
  Reconnecting to the order stream across restarts of the process.

  A fresh process has a fresh hub: it numbers from 1 again and its ring is empty. The
  cursor a client brings is a bare number, compared with whatever the ring of the
  current process holds. `Told` is what the client is owed; `reconnect_told` says
  exactly when it is, and `same_process_told` that only a restart can break it.
-/
import ExecutionEngine.Events.Delivery

namespace ExecutionEngine

namespace StreamArgs

variable {args : StreamArgs}

/-- An event that does not match seeds nothing; seeding only grows, and a larger seeded set
    matches at least as much. -/
theorem eventMatches_seeds (args : StreamArgs) {seeded seeded' : List String}
    (h : seeded ⊆ seeded') (e : OrderUpdateEvent) :
    ((args.eventMatches seeded e).1 = false → (args.eventMatches seeded e).2 = seeded) ∧
    ((args.eventMatches seeded e).1 = true → (args.eventMatches seeded' e).1 = true) ∧
    (args.eventMatches seeded e).2 ⊆ (args.eventMatches seeded' e).2 := by
  by_cases hcid : args.clientOrderId.any (fun cid => e.clientOrderId ≠ cid) = true
  · have hm (s : List String) : args.eventMatches s e = (false, s) := by
      simp only [eventMatches, if_pos hcid]
    rw [hm, hm]
    exact ⟨fun _ => rfl, fun hit => absurd hit Bool.false_ne_true, h⟩
  · cases hsid : args.strategyId with
    | none =>
      have hm (s : List String) : args.eventMatches s e = (true, s) := by
        simp only [eventMatches, if_neg hcid, hsid]
      rw [hm, hm]
      exact ⟨fun miss => absurd miss.symm Bool.false_ne_true, fun _ => rfl, h⟩
    | some sid =>
      have hm (s : List String) : args.eventMatches s e =
          if e.strategyId = some sid ∨ e.clientOrderId ∈ s then (true, e.clientOrderId :: s)
          else (false, s) := by
        simp only [eventMatches, if_neg hcid, hsid]
      rw [hm, hm]
      by_cases hs : e.strategyId = some sid ∨ e.clientOrderId ∈ seeded
      · have hs' : e.strategyId = some sid ∨ e.clientOrderId ∈ seeded' := hs.imp_right fun hc => h hc
        rw [if_pos hs, if_pos hs']
        exact ⟨fun miss => absurd miss.symm Bool.false_ne_true, fun _ => rfl, List.cons_subset_cons _ h⟩
      · rw [if_neg hs]
        refine ⟨fun _ => rfl, fun hit => absurd hit Bool.false_ne_true, ?_⟩
        split
        · exact List.Subset.trans h (List.subset_cons_self _ _)
        · exact h

theorem seeded_subset_pass (args : StreamArgs) (seeded : List String) (es : List OrderUpdateEvent) :
    seeded ⊆ (args.pass seeded es).2 := by
  induction es generalizing seeded with
  | nil => exact List.Subset.refl _
  | cons e es ih =>
    have hone : seeded ⊆ (args.eventMatches seeded e).2 := by
      unfold eventMatches
      split
      · exact List.Subset.refl _
      · split
        · exact List.Subset.refl _
        · split
          · exact List.subset_cons_self _ _
          · exact List.Subset.refl _
    exact List.Subset.trans hone (ih _)

/-- A larger seeded set lets at least as many events through. -/
theorem wanted_length_mono (args : StreamArgs) {seeded seeded' : List String}
    (h : seeded ⊆ seeded') (es : List OrderUpdateEvent) :
    (args.wanted seeded es).length ≤ (args.wanted seeded' es).length := by
  induction es generalizing seeded seeded' with
  | nil => exact Nat.le_refl _
  | cons e es ih =>
    obtain ⟨-, hhit, hsub⟩ := args.eventMatches_seeds h e
    have hle := ih hsub
    simp only [wanted, pass] at hle ⊢
    split
    · rw [if_pos (hhit (by assumption))]
      simpa using hle
    · split
      · simp only [List.length_cons]
        omega
      · exact hle

/-- A stretch none of which is wanted leaves the seeded set as it was. -/
theorem pass_of_wanted_nil {seeded : List String} {es : List OrderUpdateEvent}
    (h : args.wanted seeded es = []) : args.pass seeded es = ([], seeded) := by
  induction es generalizing seeded with
  | nil => rfl
  | cons e es ih =>
    obtain ⟨hmiss, -, -⟩ := args.eventMatches_seeds (List.Subset.refl seeded) e
    cases hhit : (args.eventMatches seeded e).1 with
    | true => simp [wanted, pass, hhit] at h
    | false =>
      have hkeep := hmiss hhit
      simp only [wanted, pass, hhit, hkeep, Bool.false_eq_true, if_false] at h ⊢
      rw [ih h]

/-- Leaving a stretch out goes unnoticed exactly if nothing of it is wanted. -/
theorem wanted_skip {seeded : List String} (skipped es : List OrderUpdateEvent) :
    args.wanted seeded es = args.wanted seeded (skipped ++ es) ↔ args.wanted seeded skipped = [] := by
  rw [wanted, wanted, args.pass_append]
  constructor
  · intro h
    have hle := args.wanted_length_mono (args.seeded_subset_pass seeded skipped) es
    have hlen := congrArg List.length h
    simp only [wanted, List.length_append] at hle hlen ⊢
    exact List.eq_nil_of_length_eq_zero (by omega)
  · intro h
    rw [pass_of_wanted_nil h, List.nil_append]

end StreamArgs

namespace Streaming

open EventHub

variable {args : StreamArgs} {id : Nat} {seeded : List String} {ring queue : Nat}
  {log missed : List OrderUpdateEvent} {H : EventHub}

/-- A reconnecting client that `missed` these events is told about every loss: whenever it has
    caught up it was sent the advisory before any event, or every matching event it missed and
    every one that came later. -/
def Told (args : StreamArgs) (id : Nat) (seeded : List String) (H : EventHub)
    (missed : List OrderUpdateEvent) : Prop :=
  ∀ later w, CalmRun args id (connect args id seeded H) later w → CaughtUp id w →
    (∃ first rest, w.frames = first ++ .resyncRequired args.afterSeq :: rest ∧ eventsOf first = []) ∨
    eventsOf w.frames = args.wanted seeded (missed ++ later)

/-- What was published since the client's last event, less what the ring still has above the
    cursor: nothing of it will be replayed. -/
def unserved (ring c : Nat) (log missed : List OrderUpdateEvent) : List OrderUpdateEvent :=
  missed.take (missed.length - (log.drop (max c (log.length - ring))).length)

/-- The replay being the last part of what was missed, the client is told exactly if the cursor
    has visibly fallen off or nothing before that part is wanted. -/
theorem told_iff_unserved (hring : 1 ≤ ring) (hist : HubHistory ring queue id log H) {c : Nat}
    (hc : 0 < c) (hcursor : args.afterSeq = c)
    (hsuffix : log.drop (max c (log.length - ring)) <:+ missed) :
    Told args id seeded H missed ↔
      (∃ x ∈ Ring.evicted ring log, c < x.seq) ∨ args.wanted seeded (unserved ring c log missed) = [] := by
  have hsize := hist.ringBufferSize
  obtain ⟨hreplay, hgap⟩ := replay_logged hist.logged (by rwa [hsize]) hc
  rw [hsize] at hreplay hgap
  have hconnect : Follows args id seeded log.length (H.replay c).2 (H.replay c).1
      (connect args id seeded H) := by
    rw [← hcursor]
    exact follows_connect hist.logged hist.absent
  have hmissed : missed = unserved ring c log missed ++ (H.replay c).1 := by
    obtain ⟨front, hfront⟩ := hsuffix
    rw [unserved, hreplay, ← hfront, List.length_append, Nat.add_sub_cancel, List.take_left]
  rw [← hgap]
  cases hg : (H.replay c).2 with
  | true =>
    refine iff_of_true (fun later w run hdone => .inl ?_) (.inl rfl)
    obtain ⟨⟨m, hstage⟩, -⟩ := hdone
    have hadvised := (run.follows hconnect).advised
    simp only [Advised, hstage, StreamStage.isAdvising, hg, Bool.false_eq_true, if_false,
      if_true] at hadvised
    obtain ⟨rest, hframes⟩ := List.head?_eq_some_iff.mp hadvised
    exact ⟨[], rest, hframes, rfl⟩
  | false =>
    -- Without a gap the advisory is never sent, and what arrives is the replay and the rest.
    have hsent {later : List OrderUpdateEvent} {w : Streaming}
        (run : CalmRun args id (connect args id seeded H) later w) (hdone : CaughtUp id w) :
        (∀ n, .resyncRequired n ∉ w.frames) ∧
        eventsOf w.frames = args.wanted seeded ((H.replay c).1 ++ later) := by
      refine ⟨?_, (run.follows hconnect).sent_all hdone⟩
      obtain ⟨⟨m, hstage⟩, -⟩ := hdone
      have hadvised := (run.follows hconnect).advised
      simpa only [Advised, hstage, StreamStage.isAdvising, hg, Bool.false_eq_true, if_false]
        using hadvised
    have hskip (later : List OrderUpdateEvent) :
        args.wanted seeded ((H.replay c).1 ++ later) = args.wanted seeded (missed ++ later) ↔
          args.wanted seeded (unserved ring c log missed) = [] := by
      have h := @StreamArgs.wanted_skip args seeded
        (unserved ring c log missed) ((H.replay c).1 ++ later)
      rwa [← List.append_assoc, ← hmissed] at h
    constructor
    · intro htold
      obtain ⟨w, run, hdone⟩ := hconnect.drain
      obtain ⟨hno, hframes⟩ := hsent run hdone
      rcases htold [] w run hdone with ⟨first, rest, hin, -⟩ | hall
      · exact absurd (by rw [hin]; simp) (hno args.afterSeq)
      · exact .inr ((hskip []).mp (hframes.symm.trans hall))
    · rintro (hfalse | hnone) later w run hdone
      · cases hfalse
      · exact .inr ((hsent run hdone).2.trans ((hskip later).mpr hnone))

/-- Where the client's last event is one of the current process, or an earlier one's, what the
    ring has above its number is the last part of what came after it. -/
theorem replay_suffix {dead : List (List OrderUpdateEvent)} {before : List OrderUpdateEvent}
    {e : OrderUpdateEvent} (hnum : Ring.Numbered OrderUpdateEvent.seq log)
    (hlast : (dead ++ [log]).flatten = before ++ e :: missed) (k : Nat) :
    log.drop (max e.seq k) <:+ missed := by
  have hcurrent {earlier : List OrderUpdateEvent} (hlog : log = earlier ++ e :: missed) :
      log.drop (max e.seq k) <:+ missed := by
    have hseq : e.seq = earlier.length + 1 := hnum earlier.length e (by simp [hlog])
    have hmissed : log.drop e.seq = missed := by
      rw [hseq, hlog, List.append_cons]
      exact List.drop_left' (by simp)
    rw [← hmissed, ← Nat.add_sub_cancel' (Nat.le_max_left e.seq k), ← List.drop_drop]
    exact List.drop_suffix _ _
  rw [List.flatten_append, List.flatten_singleton] at hlast
  rcases List.append_eq_append_iff.mp hlast with ⟨earlier, -, hlog⟩ | ⟨tail, -, htail⟩
  · exact hcurrent hlog
  · cases tail with
    | nil => exact hcurrent (htail.symm.trans (List.nil_append _).symm)
    | cons x tail =>
      obtain ⟨-, rfl⟩ := List.cons.inj htail
      exact (List.drop_suffix _ _).trans (List.suffix_append tail log)

/-- Only a restart can break it: a client whose last event is of the current process is told. -/
theorem same_process_told {earlier : List OrderUpdateEvent} {e : OrderUpdateEvent}
    (hring : 1 ≤ ring) (hist : HubHistory ring queue id log H) (hlog : log = earlier ++ e :: missed)
    (hcursor : args.afterSeq = e.seq) : Told args id seeded H missed := by
  have hnum := hist.logged.numbered
  have hseq : e.seq = earlier.length + 1 := hnum earlier.length e (by simp [hlog])
  have hflat : ([] ++ [log]).flatten = earlier ++ e :: missed := by simp [hlog]
  refine (told_iff_unserved hring hist (by omega) hcursor (replay_suffix hnum hflat _)).mpr ?_
  by_cases hlost : ∃ x ∈ Ring.evicted ring log, e.seq < x.seq
  · exact .inl hlost
  · have hreach := Ring.reaches_of_kept hnum hlost
    have hall : (log.drop (max e.seq (log.length - ring))).length = missed.length := by
      rw [Nat.max_eq_left hreach, hseq, List.length_drop, hlog, List.length_append,
        List.length_cons]
      omega
    refine .inr ?_
    rw [unserved, hall, Nat.sub_self, List.take_zero]
    rfl

/-- Across any number of restarts: a client that comes back with the number of the last event it
    received is told about every loss exactly if the ring shows that the cursor has fallen off,
    or nothing that matches was published since and will not be replayed. -/
theorem reconnect_told {dead : List (List OrderUpdateEvent)} {before : List OrderUpdateEvent}
    {e : OrderUpdateEvent}
    (hdead : ∀ l ∈ dead, ∃ ring queue id H, HubHistory ring queue id l H)
    (hring : 1 ≤ ring) (hist : HubHistory ring queue id log H)
    (hlast : (dead ++ [log]).flatten = before ++ e :: missed) (hcursor : args.afterSeq = e.seq) :
    Told args id seeded H missed ↔
      (∃ x ∈ Ring.evicted ring log, e.seq < x.seq) ∨
      args.wanted seeded (unserved ring e.seq log missed) = [] := by
  have hpublished : e ∈ (dead ++ [log]).flatten := by
    rw [hlast]
    simp
  have hpos : 0 < e.seq := by
    obtain ⟨l, hl, he⟩ := List.mem_flatten.mp hpublished
    rcases List.mem_append.mp hl with hl | hl
    · obtain ⟨ring', queue', id', H', hist'⟩ := hdead l hl
      exact (hist'.logged.numbered.place he).1
    · rw [List.mem_singleton.mp hl] at he
      exact (hist.logged.numbered.place he).1
  exact told_iff_unserved hring hist hpos hcursor (replay_suffix hist.logged.numbered hlast _)

/-- In the process that published its last event the client is told: the ring still has what it
    missed. -/
theorem sample_told : ∃ e x, sampleHub.ring = [e, x] ∧
    Told { afterSeq := e.seq } 0 [] sampleHub [x] := by
  have hist : HubHistory 2 8 0 _ sampleHub :=
    (HubHistory.new.publish { clientOrderId := "a", engineState := .pendingNew } 0).publish
      { clientOrderId := "b", engineState := .pendingNew } 1
  have hnone : ∀ l ∈ ([] : List (List OrderUpdateEvent)), ∃ ring queue id H, HubHistory ring queue id l H :=
    fun l hl => by cases hl
  refine ⟨_, _, rfl, ?_⟩
  have hlast (e x : OrderUpdateEvent) : ([] ++ [[e, x]]).flatten = [] ++ e :: [x] := rfl
  exact (reconnect_told hnone (by decide) hist (hlast _ _) rfl).mpr (.inr (by decide))

/-- A restart after two events, the second of which the client has not received: the fresh hub's
    ring is empty, so there is neither a replay nor an advisory. -/
theorem restart_not_told : ∃ (e x : OrderUpdateEvent) (H : EventHub),
    (∃ ring queue id H', HubHistory ring queue id [e, x] H') ∧ HubHistory 1024 256 0 [] H ∧
    ([[e, x]] ++ [[]]).flatten = [] ++ e :: [x] ∧
    ¬ Told { afterSeq := e.seq } 0 [] H [x] := by
  have hdead : HubHistory 2 8 0 _ sampleHub :=
    (HubHistory.new.publish { clientOrderId := "a", engineState := .pendingNew } 0).publish
      { clientOrderId := "b", engineState := .pendingNew } 1
  refine ⟨_, _, { ringBufferSize := 1024, subscriberQueueSize := 256 }, ⟨2, 8, 0, _, hdead⟩, .new,
    rfl, fun htold => ?_⟩
  have run : CalmRun { afterSeq := 1 } 0 (connect { afterSeq := 1 } 0 []
      { ringBufferSize := 1024, subscriberQueueSize := 256 }) ([] ++ []) _ :=
    CalmRun.refl.step (fun h => absurd rfl h) (.advance rfl)
  rcases htold _ _ run ⟨⟨0, rfl⟩, fun s hs => by cases hs; rfl⟩ with ⟨first, rest, hin, -⟩ | hall
  · cases first <;> cases hin
  · cases hall

end Streaming

end ExecutionEngine
