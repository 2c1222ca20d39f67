/-
  What the refcounts of the order-book service count.

  Along every run a key's refcount and the number of its queues are the contexts that
  are open on it or on their way in, and besides those every entry that has failed while
  it awaited the router (`Counted`, `counted_run`): such an entry has been counted, and
  it is outside the block that would count it back. Nothing ever gives that count back,
  so at rest the counts are exact if and only if no entry has failed (`refcounts_exact_iff`).
  The router follows the refcounts in every state.
-/
import ExecutionEngine.OrderBook.Service

namespace ExecutionEngine.OrderBooks

open BidOffer (OrderBook)

/-- Is this the failure of an entry on this key. -/
def Event.isFailure (key : Key) : Event → Bool
  | .failed _ k => k = key
  | _ => false

/-- The entries on a key that have failed. -/
def failures (key : Key) (tr : List Event) : Nat := tr.countP (Event.isFailure key)

/-- The contexts that are open on a key. -/
def openOn (contexts : List (Nat × Context)) (key : Key) : Nat :=
  contexts.countP fun x => x.2.key = key ∧ x.2.phase = .opened

/-- Those that are open or on their way in. -/
def heldOn (contexts : List (Nat × Context)) (key : Key) : Nat :=
  contexts.countP fun x => x.2.key = key ∧ x.2.phase ≠ .leaving

namespace Desk

/-- No call is in progress. -/
def AtRest (d : Desk) : Prop := ∀ x ∈ d.contexts, x.2.phase = .opened

/-- The counts are those of the open contexts, and the router holds the keys that have one. -/
def Exact (d : Desk) : Prop :=
  ∀ key, d.service.refcount key = openOn d.contexts key ∧
    (d.service.queuesOf key).length = openOn d.contexts key ∧
    ((d.router.subscriptions.lookup key).isSome = true ↔ 0 < d.service.refcount key)

instance (d : Desk) : Decidable d.AtRest :=
  inferInstanceAs (Decidable (∀ x ∈ d.contexts, x.2.phase = .opened))

theorem heldOn_rest {d : Desk} (h : d.AtRest) (key : Key) :
    heldOn d.contexts key = openOn d.contexts key := by
  apply List.countP_congr
  intro x hx
  rw [h x hx]
  simp

end Desk

/-- What is counted after these events. -/
structure Counted (tr : List Event) (d : Desk) : Prop where
  unique : Odict.Unique d.contexts
  known : ∀ q c, d.contexts.lookup q = some c → (d.service.queues.lookup q).isSome = true
  count : ∀ key, d.service.refcount key = heldOn d.contexts key + failures key tr
  queues : ∀ key, (d.service.queuesOf key).length = d.service.refcount key
  member : ∀ q c, d.contexts.lookup q = some c → c.phase ≠ .leaving →
    q ∈ d.service.queuesOf c.key
  routed : ∀ key, (d.router.subscriptions.lookup key).isSome = true ↔ 0 < d.service.refcount key

/-! ## One event -/

section Step

variable {tr : List Event} {d d' : Desk} {q : Nat} {key k : Key} {e : Event}

theorem failures_snoc (key : Key) (tr : List Event) (e : Event) :
    failures key (tr ++ [e]) = failures key tr + if e.isFailure key then 1 else 0 := by
  rw [failures, List.countP_append, List.countP_singleton]
  rfl

theorem failures_same (h : ∀ key, e.isFailure key = false) (key : Key) :
    failures key (tr ++ [e]) = failures key tr := by
  rw [failures_snoc, h, if_neg Bool.false_ne_true, Nat.add_zero]

section Contexts

variable {contexts : List (Nat × Context)} {c : Context}

/-- A context changes its phase. -/
theorem heldOn_set (h : contexts.lookup q = some c) (phase : Phase) (k : Key) :
    heldOn (Odict.set q ⟨c.key, phase⟩ contexts) k +
        (if c.key = k ∧ c.phase ≠ .leaving then 1 else 0) =
      heldOn contexts k + if c.key = k ∧ phase ≠ .leaving then 1 else 0 := by
  have hcount := Odict.countP_set h ⟨c.key, phase⟩ fun x => x.2.key = k ∧ x.2.phase ≠ .leaving
  simp only [decide_eq_true_eq] at hcount
  exact hcount

theorem heldOn_pop (hunique : Odict.Unique contexts) (h : contexts.lookup q = some c) (k : Key) :
    heldOn (Odict.pop q contexts) k + (if c.key = k ∧ c.phase ≠ .leaving then 1 else 0) =
      heldOn contexts k := by
  have hcount := Odict.countP_pop hunique h fun x => x.2.key = k ∧ x.2.phase ≠ .leaving
  simp only [decide_eq_true_eq] at hcount
  exact hcount

theorem heldOn_new {phase : Phase} (h : contexts.lookup q = none) (hphase : phase ≠ .leaving)
    (k : Key) :
    heldOn (Odict.set q ⟨key, phase⟩ contexts) k = heldOn contexts k + if key = k then 1 else 0 := by
  unfold heldOn
  rw [Odict.set_new h, List.countP_append, List.countP_singleton]
  simp only [hphase, ne_eq, not_false_eq_true, and_true, decide_eq_true_eq]

end Contexts

theorem routed_subscribe {r : ProviderRouter} (k : Key) :
    ((r.subscribe key).1.subscriptions.lookup k).isSome =
      (decide (k = key) || (r.subscriptions.lookup k).isSome) := by
  show ((Odict.set key (r.routeFor key.symbol) r.subscriptions).lookup k).isSome = _
  rw [Odict.lookup_set]
  by_cases h : k = key <;> simp [h]

theorem routed_unsubscribe {r : ProviderRouter} (k : Key) :
    ((r.unsubscribe key).1.subscriptions.lookup k).isSome =
      (decide (k ≠ key) && (r.subscriptions.lookup k).isSome) := by
  show ((Odict.pop key r.subscriptions).lookup k).isSome = _
  rw [Odict.lookup_pop]
  by_cases h : k = key <;> simp [h]

/-- A new queue is of no context. -/
theorem Counted.free (h : Counted tr d) (hnew : d.service.queues.lookup q = none) :
    d.contexts.lookup q = none := by
  cases hq : d.contexts.lookup q with
  | none => rfl
  | some c =>
    have hknown := h.known q c hq
    rw [hnew] at hknown
    cases hknown

theorem Counted.enter (h : Counted tr d) (hnew : d.service.queues.lookup q = none) (key : Key) :
    Counted (tr ++ [.enter q key]) (d.enter q key) := by
  have hfree := h.free hnew
  have hservice := d.service_enter q key
  -- either way the context is new, and not on its way out
  have hcontexts := d.contexts_enter q key
  generalize hentered : (if d.service.refcount key = 0 then Phase.entering else .opened) = phase
    at hcontexts
  have hphase : phase ≠ .leaving := by
    rw [← hentered]
    split <;> nofun
  have hcount (k : Key) : (d.enter q key).service.refcount k =
      d.service.refcount k + if key = k then 1 else 0 := by
    rw [hservice, OrderBookService.refcount_acquire]
    by_cases hk : k = key
    · rw [if_pos hk, if_pos hk.symm, hk]
    · rw [if_neg hk, if_neg (Ne.symm hk), Nat.add_zero]
  refine ⟨?_, ?_, ?_, ?_, ?_, ?_⟩
  · rw [hcontexts]
    exact Odict.unique_set h.unique _
  · intro p c hp
    rw [hservice]
    show ((Odict.set q [] d.service.queues).lookup p).isSome = true
    rw [hcontexts, Odict.lookup_set] at hp
    rw [Odict.lookup_set]
    by_cases hpq : p = q
    · rw [if_pos hpq]
      rfl
    · rw [if_neg hpq] at hp ⊢
      exact h.known p c hp
  · intro k
    rw [hcount, hcontexts, heldOn_new hfree hphase, h.count, failures_same fun _ => rfl]
    omega
  · intro k
    rw [hcount, hservice, OrderBookService.queuesOf_acquire]
    by_cases hk : k = key
    · rw [if_pos hk, if_pos hk.symm, List.length_append, List.length_singleton, h.queues, hk]
    · rw [if_neg hk, if_neg (Ne.symm hk), h.queues, Nat.add_zero]
  · intro p c hp hheld
    rw [hcontexts, Odict.lookup_set] at hp
    rw [hservice, OrderBookService.queuesOf_acquire]
    by_cases hpq : p = q
    · rw [if_pos hpq] at hp
      obtain rfl := Option.some.inj hp
      rw [if_pos rfl, hpq]
      exact List.mem_append_right _ (List.mem_singleton_self q)
    · rw [if_neg hpq] at hp
      have hmem := h.member p c hp hheld
      split
      · rename_i hkey
        exact List.mem_append_left _ (hkey ▸ hmem)
      · exact hmem
  · intro k
    rw [hcount]
    have hold := h.routed k
    unfold Desk.enter
    dsimp only
    split
    · rw [routed_subscribe]
      by_cases hk : k = key
      · simp [hk]
      · simp [hk, Ne.symm hk, hold]
    · rename_i hmore
      rw [OrderBookService.acquire_first] at hmore
      by_cases hk : key = k
      · rw [hk] at hmore
        simp only [hold, if_pos hk]
        omega
      · rw [if_neg hk]
        exact hold

/-- The events that leave the contexts, the counts and the router's entries as they are. -/
theorem Counted.keeps (h : Counted tr d) (he : ∀ key, e.isFailure key = false)
    (hcontexts : d'.contexts = d.contexts)
    (hcount : ∀ key, d'.service.refcount key = d.service.refcount key)
    (hqueues : ∀ key, d'.service.queuesOf key = d.service.queuesOf key)
    (hknown : ∀ q, (d.service.queues.lookup q).isSome = true →
      (d'.service.queues.lookup q).isSome = true)
    (hrouted : d'.router.subscriptions = d.router.subscriptions) : Counted (tr ++ [e]) d' where
  unique := by
    rw [hcontexts]
    exact h.unique
  known q c hq := by
    rw [hcontexts] at hq
    exact hknown q (h.known q c hq)
  count key := by rw [hcount, hcontexts, h.count, failures_same he]
  queues key := by rw [hqueues, hcount, h.queues]
  member q c hq hheld := by
    rw [hcontexts] at hq
    rw [hqueues]
    exact h.member q c hq hheld
  routed key := by rw [hrouted, hcount, h.routed]

/-- The events that do nothing but move one context on, from `c` to what `moved` says. -/
theorem Counted.moves (h : Counted tr d) {contexts : List (Nat × Context)} {c : Context}
    (hc : d.contexts.lookup q = some c) (hunique : Odict.Unique contexts)
    (hmoved : ∀ p c', contexts.lookup p = some c' →
      d.contexts.lookup p = some c' ∨ (p = q ∧ c'.key = c.key ∧ c.phase ≠ .leaving))
    (hcount : ∀ k, heldOn contexts k + failures k (tr ++ [e]) =
      heldOn d.contexts k + failures k tr) :
    Counted (tr ++ [e]) { d with contexts } where
  unique := hunique
  known p c' hp := by
    rcases hmoved p c' hp with hold | ⟨rfl, -, -⟩
    · exact h.known p c' hold
    · exact h.known p c hc
  count k := by rw [hcount, ← h.count]
  queues := h.queues
  member p c' hp hheld := by
    rcases hmoved p c' hp with hold | ⟨rfl, hkey, hin⟩
    · exact h.member p c' hold hheld
    · rw [hkey]
      exact h.member p c hc hin
  routed := h.routed

theorem Counted.subscribed (h : Counted tr d) (hc : d.contexts.lookup q = some ⟨key, .entering⟩) :
    Counted (tr ++ [.subscribed q])
      { d with contexts := Odict.set q ⟨key, .opened⟩ d.contexts } := by
  apply h.moves hc (Odict.unique_set h.unique _)
  · intro p c' hp
    rw [Odict.lookup_set] at hp
    split at hp
    · rename_i hpq
      obtain rfl := Option.some.inj hp
      exact .inr ⟨hpq, rfl, nofun⟩
    · exact .inl hp
  · intro k
    have hset := heldOn_set hc .opened k
    rw [failures_same fun _ => rfl]
    simp only [ne_eq, reduceCtorEq, not_false_eq_true, and_true] at hset
    omega

/-- A context that goes was on its way in or out; what it held is lost to the failures. -/
theorem Counted.gone (h : Counted tr d) {c : Context} (hc : d.contexts.lookup q = some c)
    (he : ∀ k, e.isFailure k = decide (c.key = k ∧ c.phase ≠ .leaving)) :
    Counted (tr ++ [e]) { d with contexts := Odict.pop q d.contexts } := by
  apply h.moves hc (Odict.unique_pop h.unique)
  · intro p c' hp
    rw [Odict.lookup_pop] at hp
    split at hp
    · cases hp
    · exact .inl hp
  · intro k
    have hpop := heldOn_pop h.unique hc k
    rw [failures_snoc, he]
    simp only [decide_eq_true_eq]
    omega

/-- Leaving takes one off the key, and nothing else. -/
theorem heldOn_leave (h : Odict.Unique d.contexts)
    (hc : d.contexts.lookup q = some ⟨key, .opened⟩) (k : Key) :
    heldOn (d.leave q key).contexts k + (if key = k then 1 else 0) = heldOn d.contexts k := by
  have hpop := heldOn_pop h hc k
  have hset := heldOn_set hc .leaving k
  simp only [ne_eq, reduceCtorEq, not_false_eq_true, and_true, not_true_eq_false, and_false,
    if_false, Nat.add_zero] at hpop hset
  unfold Desk.leave
  dsimp only
  split
  · split
    · exact hset
    · exact hpop
  · exact hpop

/-- What is there after a context has been left, and not leaving, was there before. -/
theorem lookup_leave {p : Nat} {c : Context} (hp : (d.leave q key).contexts.lookup p = some c) :
    (p = q ∧ c = ⟨key, .leaving⟩) ∨ (p ≠ q ∧ d.contexts.lookup p = some c) := by
  by_cases hpq : p = q
  · rw [hpq] at hp
    rcases d.lookup_leave_self q key with hnone | hleaving
    · rw [hnone] at hp
      cases hp
    · exact .inl ⟨hpq, Option.some.inj (hp.symm.trans hleaving)⟩
  · exact .inr ⟨hpq, (Desk.lookup_leave_ne hpq).symm.trans hp⟩

theorem unique_leave (h : Odict.Unique d.contexts) : Odict.Unique (d.leave q key).contexts := by
  unfold Desk.leave
  dsimp only
  split
  · dsimp only
    split
    · exact Odict.unique_set h _
    · exact Odict.unique_pop h
  · exact Odict.unique_pop h

/-- The context that is left has been counted. -/
theorem Counted.pos (h : Counted tr d) (hc : d.contexts.lookup q = some ⟨key, .opened⟩) :
    0 < d.service.refcount key := by
  rw [← h.queues]
  exact List.length_pos_of_mem (h.member q ⟨key, .opened⟩ hc nofun)

/-- The last context of a key awaits the router, which knows its provider. -/
theorem Counted.left (h : Counted tr d)
    (hc : d.contexts.lookup q = some ⟨key, .opened⟩) :
    (d.leave q key).contexts.lookup q =
      if d.service.refcount key = 1 then some ⟨key, .leaving⟩ else none := by
  have hpos := h.pos hc
  have hrouted := (h.routed key).mpr hpos
  unfold Desk.leave
  dsimp only
  split
  · rename_i hlast
    rw [OrderBookService.release_last] at hlast
    have hnamed : (d.router.unsubscribe key).2.isSome = true := hrouted
    rw [if_pos hnamed, if_pos (by omega)]
    exact Odict.lookup_set_self _ _ _
  · rename_i hmore
    rw [OrderBookService.release_last] at hmore
    rw [if_neg (by omega)]
    exact Odict.lookup_pop_self _ _

theorem Counted.leave (h : Counted tr d) (hc : d.contexts.lookup q = some ⟨key, .opened⟩) :
    Counted (tr ++ [.leave q]) (d.leave q key) := by
  have hmem : q ∈ d.service.queuesOf key := h.member q ⟨key, .opened⟩ hc nofun
  have hservice := d.service_leave q key
  have hpos := h.pos hc
  have hcount (k : Key) : (d.leave q key).service.refcount k + (if key = k then 1 else 0) =
      d.service.refcount k := by
    rw [hservice, OrderBookService.refcount_release]
    by_cases hk : k = key
    · rw [if_pos hk, if_pos hk.symm, hk]
      omega
    · rw [if_neg hk, if_neg (Ne.symm hk), Nat.add_zero]
  have hqueuesOf (k : Key) : (d.leave q key).service.queuesOf k =
      if k = key then (d.service.queuesOf key).erase q else d.service.queuesOf k := by
    rw [hservice]
    exact OrderBookService.queuesOf_release hmem (h.queues key)
  refine ⟨unique_leave h.unique, ?_, ?_, ?_, ?_, ?_⟩
  · intro p c hp
    rw [hservice, (d.service.release_keeps key q).2.1]
    rcases lookup_leave hp with ⟨rfl, -⟩ | ⟨-, hold⟩
    · exact h.known p _ hc
    · exact h.known p c hold
  · intro k
    have hheld := heldOn_leave h.unique hc k
    have hbefore := h.count k
    have hafter := hcount k
    rw [failures_same fun _ => rfl]
    omega
  · intro k
    have hafter := hcount k
    rw [hqueuesOf]
    by_cases hk : k = key
    · rw [if_pos hk.symm, hk] at hafter
      rw [if_pos hk, List.length_erase_of_mem hmem, h.queues, hk]
      omega
    · rw [if_neg (Ne.symm hk)] at hafter
      rw [if_neg hk, h.queues]
      omega
  · intro p c hp hheld
    rcases lookup_leave hp with ⟨-, rfl⟩ | ⟨hne, hold⟩
    · exact absurd rfl hheld
    · have hin := h.member p c hold hheld
      rw [hqueuesOf]
      split
      · rename_i hkey
        rw [hkey] at hin
        exact (List.mem_erase_of_ne hne).mpr hin
      · exact hin
  · intro k
    have hold := h.routed k
    unfold Desk.leave
    dsimp only
    split
    · rename_i hlast
      rw [OrderBookService.release_last] at hlast
      show ((d.router.unsubscribe key).1.subscriptions.lookup k).isSome = true ↔
        0 < (d.service.release key q).1.refcount k
      rw [routed_unsubscribe, OrderBookService.refcount_release]
      by_cases hk : k = key
      · rw [if_pos hk, decide_eq_false (not_not_intro hk), Bool.false_and]
        exact iff_of_false Bool.false_ne_true (by omega)
      · rw [if_neg hk, decide_eq_true hk, Bool.true_and]
        exact hold
    · rename_i hmore
      rw [OrderBookService.release_last] at hmore
      show (d.router.subscriptions.lookup k).isSome = true ↔
        0 < (d.service.release key q).1.refcount k
      rw [hold, OrderBookService.refcount_release]
      by_cases hk : k = key
      · rw [if_pos hk, hk]
        omega
      · rw [if_neg hk]

theorem Counted.publish (h : Counted tr d) (book : OrderBook) :
    Counted (tr ++ [.publish book]) { d with service := d.service.publish book } :=
  h.keeps (fun _ => rfl) rfl (fun _ => rfl) (fun _ => rfl)
    (fun _ hq => OrderBookService.isSome_offerAll _ hq) rfl

theorem Counted.get (h : Counted tr d) (key : Key) (now : Time) (answer : Option OrderBook) :
    Counted (tr ++ [.get key now answer]) { d with service := (d.service.get key now).2 } := by
  rcases d.service.get_cases key now with
    ⟨-, hsame⟩ | ⟨book, -, -, htouch⟩
  · rw [hsame]
    exact h.keeps (fun _ => rfl) rfl (fun _ => rfl) (fun _ => rfl) (fun _ hq => hq) rfl
  · rw [htouch]
    exact h.keeps (fun _ => rfl) rfl (fun _ => rfl) (fun _ => rfl) (fun _ hq => hq) rfl

theorem Counted.read (h : Counted tr d) (q : Nat) (book : OrderBook) (rest : List OrderBook) :
    Counted (tr ++ [.read q book]) { d with service := d.service.setQueue q rest } := by
  refine h.keeps (fun _ => rfl) rfl (fun _ => rfl) (fun _ => rfl) ?_ rfl
  intro p hp
  show ((Odict.set q rest d.service.queues).lookup p).isSome = true
  rw [Odict.lookup_set]
  split
  · rfl
  · exact hp

theorem Counted.step (h : Counted tr d) (hstep : d.step e = some d') :
    Counted (tr ++ [e]) d' := by
  cases Desk.step_cases hstep with
  | enter hnew => exact h.enter hnew _
  | subscribed hc => exact h.subscribed hc
  | failed hc => exact h.gone hc fun k => by simp [Event.isFailure]
  | leave hc => exact h.leave hc
  | released hc => exact h.gone hc fun k => by simp [Event.isFailure]
  | publish => exact h.publish _
  | get hanswer => exact h.get _ _ _
  | read hc hqueue => exact h.read _ _ _
  | error =>
    exact h.keeps (fun _ => rfl) rfl (fun _ => rfl) (fun _ => rfl) (fun _ hq => hq)
      (d.router.onError_keeps _ _).1

end Step

/-! ## Whole runs -/

theorem counted_run {c : Setup} {tr : List Event} {d : Desk} (h : Runs c tr d) : Counted tr d := by
  induction h with
  | start =>
    exact ⟨Odict.unique_nil, nofun, fun _ => rfl, fun _ => rfl, nofun,
      fun _ => iff_of_false Bool.false_ne_true (Nat.lt_irrefl 0)⟩
  | step _ hstep ih => exact ih.step hstep

/-- No failure on any key is no failure at all. -/
theorem failures_zero {tr : List Event} :
    (∀ key, failures key tr = 0) ↔ ∀ q key, Event.failed q key ∉ tr := by
  constructor
  · intro h q key hmem
    have hzero := h key
    rw [failures, List.countP_eq_zero] at hzero
    exact hzero _ hmem (decide_eq_true rfl)
  · intro h key
    rw [failures, List.countP_eq_zero]
    intro e he hfailure
    unfold Event.isFailure at hfailure
    split at hfailure
    · exact h _ _ he
    · cases hfailure

/-- At rest the refcounts and the queues are the contexts that are open, and the router holds the
    keys with one, if and only if no entry has failed at the router. -/
theorem refcounts_exact_iff {c : Setup} {tr : List Event} {d : Desk} (h : Runs c tr d)
    (hrest : d.AtRest) : d.Exact ↔ ∀ q key, Event.failed q key ∉ tr := by
  have hcounted := counted_run h
  rw [← failures_zero]
  constructor
  · intro hexact key
    have hcount := hcounted.count key
    rw [(hexact key).1, Desk.heldOn_rest hrest] at hcount
    omega
  · intro hzero key
    have hcount := hcounted.count key
    rw [hzero, Nat.add_zero, Desk.heldOn_rest hrest] at hcount
    exact ⟨hcount, (hcounted.queues key).trans hcount, hcounted.routed key⟩

/-! ### Two runs -/

/-- A runtime with one provider. -/
def oneProvider : Setup where
  maxSymbols := 2
  maxAgeSeconds := 5
  subscriberQueueSize := 2
  providers := [.liberator]
  primary := .liberator
  primary_configured := List.mem_singleton_self _
  errorThreshold := 3
  windowSeconds := 60000000

def ptt : Key := ⟨"PTT", .set⟩

/-- Two readers of one symbol, the first of which leaves. -/
def sharedFeed : List Event := [.enter 0 ptt, .subscribed 0, .enter 1 ptt, .leave 0]

def sharedDesk : Desk := (oneProvider.desk.runEvents sharedFeed).getD oneProvider.desk

theorem sharedFeed_runs : Runs oneProvider sharedFeed sharedDesk := runs_of_runEvents rfl

theorem shared_feed_exact : sharedDesk.Exact :=
  (refcounts_exact_iff sharedFeed_runs (by decide)).mpr fun q key h => by
    simp [sharedFeed] at h

/-- The only reader of a symbol is cancelled while the provider looks the symbol up. -/
def cancelledEntry : List Event := [.enter 0 ptt, .failed 0 ptt]

def cancelledDesk : Desk := (oneProvider.desk.runEvents cancelledEntry).getD oneProvider.desk

/-- It has stayed counted, its queue is still offered every book, and the feed is held open, with
    no context left to give any of it back. -/
theorem cancelled_entry_leaks :
    Runs oneProvider cancelledEntry cancelledDesk ∧ cancelledDesk.AtRest ∧
      cancelledDesk.contexts = [] ∧ cancelledDesk.service.refcount ptt = 1 ∧
      cancelledDesk.service.queuesOf ptt = [0] ∧
      (cancelledDesk.router.subscriptions.lookup ptt).isSome = true ∧ ¬cancelledDesk.Exact := by
  refine ⟨runs_of_runEvents rfl, by decide, rfl, rfl, rfl, rfl, fun hexact => ?_⟩
  have hcount := (hexact ptt).1
  contradiction

end ExecutionEngine.OrderBooks
