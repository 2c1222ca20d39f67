/-
  What the book cache of the order-book service holds and what its subscribers read.

  The cache is the last `max_symbols` keys that were touched, in the order of their last
  touch, with the last book published of each: a publish is a touch, and so is a `get`
  that returned a book (`Lru.Holds`). A `get` that found a stale book is none. Every
  subscriber has read, and has in its queue, what `Mailbox.Delivers` allows of the books
  published for its key since it came. Both hold along every run (`cache_run`), whatever
  the clock says and whoever comes or goes in between.
-/
import ExecutionEngine.OrderBook.Refcounts

namespace ExecutionEngine.OrderBooks

open BidOffer (OrderBook)

/-! ## What has happened -/

/-- The key that an event touches. -/
def Event.touch : Event → Option Key
  | .publish book => some (keyOf book)
  | .get key _ (some _) => some key
  | _ => none

/-- The book that an event publishes for this key. -/
def Event.bookOf (key : Key) : Event → Option OrderBook
  | .publish book => if keyOf book = key then some book else none
  | _ => none

/-- The book that an event reads off this queue. -/
def Event.taken (q : Nat) : Event → Option OrderBook
  | .read p book => if p = q then some book else none
  | _ => none

/-- Is this the entry with this queue. -/
def Event.enters (q : Nat) : Event → Bool
  | .enter p _ => p = q
  | _ => false

def touches (tr : List Event) : List Key := tr.filterMap Event.touch

def published (key : Key) (tr : List Event) : List OrderBook := tr.filterMap (Event.bookOf key)

/-- What the subscriber of this queue has read. -/
def booksRead (q : Nat) (tr : List Event) : List OrderBook := tr.filterMap (Event.taken q)

/-- The events since a queue was made. -/
def since (q : Nat) : List Event → List Event
  | [] => []
  | e :: tr => if e.enters q then tr else since q tr

/-- The writes of the cache, each under its key. -/
def Event.write : Event → Option (Key × OrderBook)
  | .publish book => some (keyOf book, book)
  | _ => none

def writes (tr : List Event) : List (Key × OrderBook) := tr.filterMap Event.write

section Traces

variable {tr : List Event} {q : Nat} {key : Key}

theorem filterMap_snoc {α : Type} (f : Event → Option α) (tr : List Event) (e : Event) :
    (tr ++ [e]).filterMap f = tr.filterMap f ++ (f e).toList := by
  rw [List.filterMap_append]
  cases hf : f e <;> simp [hf]

theorem since_snoc (q : Nat) (tr : List Event) (e : Event) :
    since q (tr ++ [e]) = if tr.any (Event.enters q) then since q tr ++ [e] else [] := by
  induction tr with
  | nil =>
    show (if e.enters q then [] else []) = []
    split <;> rfl
  | cons e₀ tr ih =>
    rw [List.cons_append, since, since, ih, List.any_cons]
    by_cases h : e₀.enters q = true
    · rw [if_pos h, if_pos h, h, Bool.true_or, if_pos rfl]
    · rw [if_neg h, if_neg h, Bool.eq_false_of_not_eq_true h, Bool.false_or]

/-- What is published for a key since a queue was made. -/
theorem published_since (h : tr.any (Event.enters q) = true) (key : Key) (e : Event) :
    published key (since q (tr ++ [e])) =
      published key (since q tr) ++ (e.bookOf key).toList := by
  rw [since_snoc, if_pos h, published, filterMap_snoc]
  rfl

theorem writes_of (key : Key) (tr : List Event) :
    (writes tr).filter (fun w => w.1 = key) = (published key tr).map fun book => (key, book) := by
  induction tr with
  | nil => rfl
  | cons e tr ih =>
    rw [writes, published, List.filterMap_cons, List.filterMap_cons]
    cases e with
    | publish book =>
      dsimp only [Event.bookOf, Event.write]
      by_cases h : keyOf book = key
      · rw [List.filter_cons_of_pos (by simpa using h), if_pos h, List.map_cons, h]
        exact congrArg _ ih
      · rw [List.filter_cons_of_neg (by simpa using h), if_neg h]
        exact ih
    | _ => exact ih

end Traces

section Step

variable {c : Setup} {tr : List Event} {d d' : Desk} {q : Nat} {key : Key} {e : Event}

/-! ## The cache -/

/-- What the cache holds after these events. -/
structure Stored (c : Setup) (tr : List Event) (d : Desk) : Prop where
  size : d.service.maxSymbols = c.maxSymbols
  cache : Lru.Holds c.maxSymbols (touches tr) (writes tr) d.service.cache

/-- The events that leave the cache as it is. -/
theorem Stored.keeps (h : Stored c tr d) (htouch : e.touch = none) (hwrite : e.write = none)
    (hsize : d'.service.maxSymbols = d.service.maxSymbols)
    (hcache : d'.service.cache = d.service.cache) : Stored c (tr ++ [e]) d' where
  size := hsize.trans h.size
  cache := by
    rw [hcache, touches, writes, filterMap_snoc, filterMap_snoc, htouch, hwrite]
    simp only [Option.toList_none, List.append_nil]
    exact h.cache

theorem Stored.publish (h : Stored c tr d) (book : OrderBook) :
    Stored c (tr ++ [.publish book]) { d with service := d.service.publish book } where
  size := h.size
  cache := by
    have hwritten := h.cache.write (keyOf book) book
    rw [touches, writes, filterMap_snoc, filterMap_snoc]
    rw [← h.size] at hwritten ⊢
    exact hwritten

/-- A read that returns a book is a touch, and another is none. -/
theorem Stored.get (h : Stored c tr d) (key : Key) (now : Time) :
    Stored c (tr ++ [.get key now (d.service.get key now).1])
      { d with service := (d.service.get key now).2 } := by
  rcases d.service.get_cases key now with ⟨hnone, hsame⟩ | ⟨book, hmem, hsome, htouch⟩
  · rw [hnone, hsame]
    exact h.keeps rfl rfl rfl rfl
  · rw [hsome, htouch]
    refine ⟨h.size, ?_⟩
    rw [touches, writes, filterMap_snoc, filterMap_snoc]
    simp only [Event.touch, Event.write, Option.toList_some, Option.toList_none, List.append_nil]
    exact h.cache.touch hmem

theorem Stored.step (h : Stored c tr d) (hstep : d.step e = some d') :
    Stored c (tr ++ [e]) d' := by
  cases Desk.step_cases hstep with
  | @enter q key hnew =>
    have hservice := d.service_enter q key
    exact h.keeps rfl rfl (by rw [hservice]; rfl) (by rw [hservice]; rfl)
  | @leave q key hc =>
    have hservice := d.service_leave q key
    obtain ⟨hcache, -, hsize⟩ := d.service.release_keeps key q
    exact h.keeps rfl rfl (by rw [hservice, hsize]) (by rw [hservice, hcache])
  | publish => exact h.publish _
  | get hanswer =>
    subst hanswer
    exact h.get _ _
  | _ => exact h.keeps rfl rfl rfl rfl

/-! ## The queues -/

/-- What the queues hold after these events. -/
structure Queued (tr : List Event) (d : Desk) : Prop where
  made : ∀ q, tr.any (Event.enters q) = (d.service.queues.lookup q).isSome
  unread : ∀ q, d.service.queues.lookup q = none → booksRead q tr = []
  nodup : ∀ key, (d.service.queuesOf key).Nodup
  listed : ∀ key, ∀ q ∈ d.service.queuesOf key, (d.service.queues.lookup q).isSome = true
  apart : ∀ key key' q, q ∈ d.service.queuesOf key → q ∈ d.service.queuesOf key' → key = key'
  delivers : ∀ key, ∀ q ∈ d.service.queuesOf key,
    Mailbox.Delivers (published key (since q tr)) (booksRead q tr) (d.service.queue q)

theorem any_snoc (p : Event → Bool) (tr : List Event) (e : Event) :
    (tr ++ [e]).any p = (tr.any p || p e) := by
  rw [List.any_append, List.any_cons, List.any_nil, Bool.or_false]

/-- A queue that is listed has been made. -/
theorem Queued.entered (h : Queued tr d) (hq : q ∈ d.service.queuesOf key) :
    tr.any (Event.enters q) = true := (h.made q).trans (h.listed key q hq)

/-- The events that leave the queues as they are. -/
theorem Queued.keeps (h : Queued tr d) (henters : ∀ q, e.enters q = false)
    (htaken : ∀ q, e.taken q = none) (hbook : ∀ key, e.bookOf key = none)
    (hqueues : d'.service.queues = d.service.queues)
    (hsub : ∀ key, (d'.service.queuesOf key).Sublist (d.service.queuesOf key)) :
    Queued (tr ++ [e]) d' where
  made q := by rw [any_snoc, henters, Bool.or_false, hqueues, h.made]
  unread q hq := by
    rw [hqueues] at hq
    rw [booksRead, filterMap_snoc, htaken, Option.toList_none, List.append_nil]
    exact h.unread q hq
  nodup key := (h.nodup key).sublist (hsub key)
  listed key q hq := by
    rw [hqueues]
    exact h.listed key q ((hsub key).subset hq)
  apart key key' q hq hq' := h.apart key key' q ((hsub key).subset hq) ((hsub key').subset hq')
  delivers key q hq := by
    have hold := (hsub key).subset hq
    rw [published_since (h.entered hold), hbook, booksRead, filterMap_snoc, htaken,
      Option.toList_none, List.append_nil, List.append_nil, OrderBookService.queue, hqueues]
    exact h.delivers key q hold

theorem Queued.enter (h : Queued tr d) (hnew : d.service.queues.lookup q = none) (key : Key) :
    Queued (tr ++ [.enter q key]) (d.enter q key) := by
  have hqueues (p : Nat) : (d.enter q key).service.queues.lookup p =
      if p = q then some [] else d.service.queues.lookup p := by
    rw [d.service_enter]
    exact Odict.lookup_set q p [] d.service.queues
  have hqueuesOf (k : Key) : (d.enter q key).service.queuesOf k =
      if k = key then d.service.queuesOf key ++ [q] else d.service.queuesOf k := by
    rw [d.service_enter, OrderBookService.queuesOf_acquire]
  -- no key has listed the new queue
  have hunlisted (k : Key) : q ∉ d.service.queuesOf k := by
    intro hq
    have hsome := h.listed k q hq
    rw [hnew] at hsome
    cases hsome
  have hlisted (k : Key) (p : Nat) : p ∈ (d.enter q key).service.queuesOf k ↔
      p ∈ d.service.queuesOf k ∨ (p = q ∧ k = key) := by
    rw [hqueuesOf]
    by_cases hk : k = key
    · simp [hk]
    · simp [hk]
  have hread (p : Nat) : booksRead p (tr ++ [.enter q key]) = booksRead p tr := by
    rw [booksRead, filterMap_snoc]
    exact List.append_nil _
  refine ⟨?_, ?_, ?_, ?_, ?_, ?_⟩
  · intro p
    rw [any_snoc, hqueues, h.made]
    by_cases hp : p = q
    · simp [hp, Event.enters]
    · simp [hp, Ne.symm hp, Event.enters]
  · intro p hp
    rw [hqueues] at hp
    rw [hread]
    split at hp
    · cases hp
    · exact h.unread p hp
  · intro k
    rw [hqueuesOf]
    split
    · apply List.nodup_append.mpr
      refine ⟨h.nodup key, List.nodup_singleton q, fun p hp p' hp' heq => ?_⟩
      rw [heq, List.mem_singleton.mp hp'] at hp
      exact hunlisted key hp
    · exact h.nodup k
  · intro k p hp
    rw [hqueues]
    split
    · rfl
    · rename_i hne
      rcases (hlisted k p).mp hp with hold | ⟨heq, -⟩
      · exact h.listed k p hold
      · exact absurd heq hne
  · intro k k' p hp hp'
    rcases (hlisted k p).mp hp with hold | ⟨rfl, rfl⟩
    · rcases (hlisted k' p).mp hp' with hold' | ⟨rfl, -⟩
      · exact h.apart k k' p hold hold'
      · exact absurd hold (hunlisted k)
    · rcases (hlisted k' p).mp hp' with hold' | ⟨-, rfl⟩
      · exact absurd hold' (hunlisted k')
      · rfl
  · intro k p hp
    rw [hread, OrderBookService.queue, hqueues]
    rcases (hlisted k p).mp hp with hold | ⟨rfl, rfl⟩
    · have hne : p ≠ q := by
        intro heq
        rw [heq] at hold
        exact hunlisted k hold
      rw [published_since (h.entered hold), if_neg hne]
      simp only [Event.bookOf, Option.toList_none, List.append_nil]
      exact h.delivers k p hold
    · have hfresh : tr.any (Event.enters p) = false := by
        rw [h.made, hnew]
        rfl
      rw [since_snoc, hfresh, h.unread p hnew, if_pos rfl]
      exact Mailbox.delivers_nil

theorem Queued.publish (h : Queued tr d) (book : OrderBook) :
    Queued (tr ++ [.publish book]) { d with service := d.service.publish book } := by
  have hqueues (p : Nat) : (d.service.publish book).queues.lookup p =
      if p ∈ d.service.queuesOf (keyOf book) then
        some (Mailbox.offer d.service.subscriberQueueSize (d.service.queue p) book)
      else d.service.queues.lookup p :=
    OrderBookService.lookup_offerAll (h.nodup (keyOf book)) d.service.queues
  have hread (p : Nat) : booksRead p (tr ++ [.publish book]) = booksRead p tr := by
    rw [booksRead, filterMap_snoc]
    exact List.append_nil _
  have hsome (p : Nat) : ((d.service.publish book).queues.lookup p).isSome =
      (d.service.queues.lookup p).isSome := by
    rw [hqueues]
    split
    · rename_i hp
      exact (h.listed _ p hp).symm
    · rfl
  refine ⟨?_, ?_, h.nodup, ?_, h.apart, ?_⟩
  · intro p
    show _ = ((d.service.publish book).queues.lookup p).isSome
    rw [any_snoc, hsome, h.made]
    exact Bool.or_false _
  · intro p hp
    have hold : (d.service.queues.lookup p).isSome = false := by
      rw [← hsome]
      exact Option.isSome_eq_false_iff.mpr (Option.isNone_iff_eq_none.mpr hp)
    rw [hread]
    exact h.unread p (Option.isNone_iff_eq_none.mp (Option.isSome_eq_false_iff.mp hold))
  · intro k p hp
    exact (hsome p).trans (h.listed k p hp)
  · intro k p hp
    have hold := h.delivers k p hp
    have hentered : tr.any (Event.enters p) = true := h.entered hp
    show Mailbox.Delivers _ _ (((d.service.publish book).queues.lookup p).getD [])
    rw [published_since hentered, hread, hqueues]
    by_cases hk : keyOf book = k
    · have hlisted : p ∈ d.service.queuesOf (keyOf book) := by
        rw [hk]
        exact hp
      rw [if_pos hlisted, Event.bookOf, if_pos hk]
      exact hold.offer _ book
    · have hunlisted : p ∉ d.service.queuesOf (keyOf book) := fun hq => hk (h.apart _ _ p hq hp)
      rw [if_neg hunlisted, Event.bookOf, if_neg hk, Option.toList_none, List.append_nil]
      exact hold

theorem Queued.read {book : OrderBook} {rest : List OrderBook} (h : Queued tr d)
    (hqueue : d.service.queue q = book :: rest) :
    Queued (tr ++ [.read q book]) { d with service := d.service.setQueue q rest } := by
  have hqueues (p : Nat) : (d.service.setQueue q rest).queues.lookup p =
      if p = q then some rest else d.service.queues.lookup p :=
    Odict.lookup_set q p rest d.service.queues
  have hq : (d.service.queues.lookup q).isSome = true := by
    rw [OrderBookService.queue] at hqueue
    cases hlookup : d.service.queues.lookup q with
    | none =>
      rw [hlookup] at hqueue
      cases hqueue
    | some books => rfl
  have hread (p : Nat) : booksRead p (tr ++ [.read q book]) =
      if p = q then booksRead p tr ++ [book] else booksRead p tr := by
    rw [booksRead, filterMap_snoc, Event.taken]
    by_cases hp : p = q
    · rw [if_pos hp, if_pos hp.symm]
      rfl
    · rw [if_neg hp, if_neg (Ne.symm hp)]
      exact List.append_nil _
  refine ⟨?_, ?_, h.nodup, ?_, h.apart, ?_⟩
  · intro p
    show _ = ((d.service.setQueue q rest).queues.lookup p).isSome
    rw [any_snoc, hqueues, h.made]
    by_cases hp : p = q
    · rw [if_pos hp, hp, hq]
      rfl
    · rw [if_neg hp]
      exact Bool.or_false _
  · intro p hp
    have hp' : (d.service.setQueue q rest).queues.lookup p = none := hp
    rw [hqueues] at hp'
    rw [hread]
    split at hp'
    · cases hp'
    · rename_i hne
      rw [if_neg hne]
      exact h.unread p hp'
  · intro k p hp
    show ((d.service.setQueue q rest).queues.lookup p).isSome = true
    rw [hqueues]
    split
    · rfl
    · exact h.listed k p hp
  · intro k p hp
    have hold := h.delivers k p hp
    show Mailbox.Delivers _ _ (((d.service.setQueue q rest).queues.lookup p).getD [])
    rw [published_since (h.entered hp), hread, hqueues]
    simp only [Event.bookOf, Option.toList_none, List.append_nil]
    by_cases hpq : p = q
    · rw [if_pos hpq, if_pos hpq]
      rw [hpq, hqueue] at hold
      rw [hpq]
      exact hold.take
    · rw [if_neg hpq, if_neg hpq]
      exact hold

/-- The queues that a key has left after a context was left are among those it had. -/
theorem queuesOf_leave (h : Counted tr d) (hc : d.contexts.lookup q = some ⟨key, .opened⟩)
    (k : Key) : ((d.leave q key).service.queuesOf k).Sublist (d.service.queuesOf k) := by
  have hmem : q ∈ d.service.queuesOf key := h.member q ⟨key, .opened⟩ hc nofun
  rw [d.service_leave, OrderBookService.queuesOf_release hmem (h.queues key)]
  split
  · rename_i hk
    rw [hk]
    exact List.erase_sublist
  · exact List.Sublist.refl _

theorem Queued.step (h : Queued tr d) (hcounted : Counted tr d) (hstep : d.step e = some d') :
    Queued (tr ++ [e]) d' := by
  cases Desk.step_cases hstep with
  | enter hnew => exact h.enter hnew _
  | @leave q key hc =>
    refine h.keeps (fun _ => rfl) (fun _ => rfl) (fun _ => rfl) ?_ (queuesOf_leave hcounted hc)
    rw [d.service_leave, (d.service.release_keeps key q).2.1]
  | publish => exact h.publish _
  | read hc hqueue => exact h.read hqueue
  | @get key now answer hanswer =>
    rcases d.service.get_cases key now with ⟨-, hsame⟩ | ⟨book, -, -, htouch⟩
    · rw [hsame]
      exact h.keeps (fun _ => rfl) (fun _ => rfl) (fun _ => rfl) rfl fun _ => .refl _
    · rw [htouch]
      exact h.keeps (fun _ => rfl) (fun _ => rfl) (fun _ => rfl) rfl fun _ => .refl _
  | _ => exact h.keeps (fun _ => rfl) (fun _ => rfl) (fun _ => rfl) rfl fun _ => .refl _

end Step

/-! ## Whole runs -/

section Run

variable {c : Setup} {tr : List Event} {d : Desk}

theorem stored_run (h : Runs c tr d) : Stored c tr d := by
  induction h with
  | start => exact ⟨rfl, Lru.holds_nil _⟩
  | step _ hstep ih => exact ih.step hstep

theorem queued_run (h : Runs c tr d) : Queued tr d := by
  induction h with
  | start => exact ⟨fun _ => rfl, fun _ _ => rfl, fun _ => List.nodup_nil, nofun, nofun, nofun⟩
  | step hrun hstep ih => exact ih.step (counted_run hrun) hstep

/-- The cache is the keys touched last, as many as it may hold, each with the last book published
    of it; and a subscriber gets the books of its key in order, the newest one for certain. -/
theorem cache_run (h : Runs c tr d) :
    d.service.cache.map Prod.fst = Ring.window c.maxSymbols (touches tr).dedup ∧
      d.service.cache.length = min c.maxSymbols (touches tr).dedup.length ∧
      (∀ key book, (key, book) ∈ d.service.cache → (published key tr).getLast? = some book) ∧
      ∀ q key phase, d.contexts.lookup q = some ⟨key, phase⟩ → phase ≠ .leaving →
        Mailbox.Delivers (published key (since q tr)) (booksRead q tr) (d.service.queue q) := by
  have hstored := (stored_run h).cache
  refine ⟨hstored.keys, hstored.length, ?_, ?_⟩
  · intro key book hmem
    have hlast := hstored.values (key, book) hmem
    rw [writes_of, List.getLast?_map, Option.map_eq_some_iff] at hlast
    obtain ⟨last, hlast, heq⟩ := hlast
    rw [hlast, (Prod.mk.inj heq).2]
  · intro q key phase hc hphase
    exact (queued_run h).delivers key q ((counted_run h).member q ⟨key, phase⟩ hc hphase)

end Run

/-! ### A run -/

/-- An empty book. -/
def bareBook (symbol : String) (sequence : Int) (receivedAt : Time) : OrderBook where
  symbol
  market := .set
  bidLevels := []
  askLevels := []
  sequence
  receivedAt

/-- Three symbols for a cache of two: the second one is read while it is fresh, the first one when
    it no longer is, and the subscriber of the first one lags by a book. -/
def threeSymbols : List Event :=
  [.enter 0 ptt, .subscribed 0, .publish (bareBook "PTT" 1 0), .publish (bareBook "PTT" 2 0),
    .read 0 (bareBook "PTT" 1 0), .publish (bareBook "SCB" 1 1000000),
    .get ⟨"SCB", .set⟩ 2000000 (some (bareBook "SCB" 1 1000000)), .get ptt 6000000 none,
    .publish (bareBook "PTT" 3 6000000), .publish (bareBook "PTT" 4 6000000),
    .publish (bareBook "KTB" 1 6000000)]

def threeDesk : Desk := (oneProvider.desk.runEvents threeSymbols).getD oneProvider.desk

theorem threeSymbols_runs : Runs oneProvider threeSymbols threeDesk :=
  runs_getD (by decide +kernel)

theorem recent_books_kept :
    threeDesk.service.cache.map Prod.fst = [ptt, ⟨"KTB", .set⟩] ∧
      booksRead 0 threeSymbols = [bareBook "PTT" 1 0] ∧
      threeDesk.service.queue 0 = [bareBook "PTT" 3 6000000, bareBook "PTT" 4 6000000] ∧
      Mailbox.Delivers (published ptt (since 0 threeSymbols)) (booksRead 0 threeSymbols)
        (threeDesk.service.queue 0) := by
  obtain ⟨hkeys, -, -, hdelivers⟩ := cache_run threeSymbols_runs
  refine ⟨hkeys.trans (by decide +kernel), rfl, by decide +kernel, ?_⟩
  exact hdelivers 0 ptt .opened (by decide +kernel) nofun

end ExecutionEngine.OrderBooks
