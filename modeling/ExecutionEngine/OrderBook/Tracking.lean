/-
  What the provider tracks, against what the service has subscribed.

  The service counts by symbol and market, and the provider tracks by symbol. The two
  agree as long as the provider has let go of a symbol on one market before the symbol is
  subscribed on another (`Unmixed`): then it tracks the keys that are counted, what it
  emits for a tracked symbol has the market it is tracked for, and a key that is released
  ends the feed of no other (`feeds_follow_counts`). Two markets of one symbol that are
  counted at the same time cannot both be tracked (`mixed_diverges`).
-/
import ExecutionEngine.OrderBook.Held
import ExecutionEngine.OrderBook.Runtime

namespace ExecutionEngine.OrderBooks

namespace Runtime

/-- The provider tracks the keys that are counted, each symbol on one market. -/
structure Corresponds (rt : Runtime) : Prop where
  tracks : ∀ key, 0 < rt.desk.service.refcount key ↔ rt.provider.Tracks key
  subs : ∀ symbol i, rt.provider.subs.lookup symbol = some i →
    ∃ key, rt.provider.keyAt i = some key ∧ key.symbol = symbol

/-- What a reader emits for a symbol that is tracked has the market it is tracked for. -/
def Labels (rt : Runtime) : Prop :=
  ∀ r now a m book, rt.provider.step (.reader r now a) = some m → m.signal = some (.book book) →
    ∀ key, rt.provider.Tracks key → key.symbol = book.symbol → book.market = key.market

/-- A key is first subscribed when the provider holds nothing for its symbol on another market. -/
def Unmixed (rt : Runtime) : RuntimeAct → Prop
  | .enter _ key => rt.desk.service.refcount key = 0 → rt.provider.Clear key
  | _ => True

section Run

variable {c : Setup} {rt rt' : Runtime} {a : RuntimeAct} {q : Nat} {key k : Key}

theorem Corresponds.step (hcond : rt.Unmixed a) (hsteps : Steps rt rt' a)
    (h : rt.Corresponds) (hagrees : rt.provider.Agrees) :
    rt'.Corresponds ∧ rt'.provider.Agrees := by
  have hkeep (htracks : ∀ key, 0 < rt'.desk.service.refcount key ↔ rt'.provider.Tracks key)
      (hagrees' : rt'.provider.Agrees) : rt'.Corresponds ∧ rt'.provider.Agrees :=
    ⟨⟨htracks, hagrees'.subs⟩, hagrees'⟩
  cases hsteps with
  | @join q key hcount hservice hprovider =>
    rw [hprovider] at hkeep ⊢
    refine hkeep (fun k => ?_) hagrees
    rw [hservice, OrderBookService.refcount_acquire, ← h.tracks k]
    by_cases hk : k = key
    · rw [if_pos hk, hk]
      omega
    · rw [if_neg hk]
  | @subscribe q key hcount hservice _ hprovider =>
    have hclear := hcond hcount
    have hnot : ¬ rt.provider.Tracks key := by
      rw [← h.tracks]
      omega
    rw [hprovider] at hkeep ⊢
    refine hkeep (fun k => ?_) (hagrees.subscribe hclear hnot q)
    rw [hservice, OrderBookService.refcount_acquire,
      Provider.tracks_subscribe hagrees hclear hnot, ← h.tracks k]
    by_cases hk : k = key
    · rw [if_pos hk]
      exact iff_of_true (Nat.succ_pos _) (.inr hk)
    · rw [if_neg hk, or_iff_left hk]
  | @part q key hc hcount hservice hprovider =>
    rw [hprovider] at hkeep ⊢
    refine hkeep (fun k => ?_) hagrees
    rw [hservice, OrderBookService.refcount_release, ← h.tracks k]
    by_cases hk : k = key
    · rw [if_pos hk, hk]
      omega
    · rw [if_neg hk]
  | @unsubscribe q key hc hcount hservice _ hprovider =>
    obtain ⟨hwithin, hsubs⟩ := Provider.unsubscribe_within rt.provider q key.symbol
    have htracked : rt.provider.Tracks key := by
      rw [← h.tracks]
      omega
    rw [hprovider] at hkeep ⊢
    refine hkeep (fun k => ?_) (hagrees.within hwithin fun s i hs => ?_)
    · rw [hservice, OrderBookService.refcount_release, Provider.tracks_unsubscribe, ← h.tracks k]
      by_cases hk : k = key
      · rw [if_pos hk, hk]
        exact iff_of_false (by omega) fun hne => hne.2 rfl
      · rw [if_neg hk]
        refine (and_iff_left_of_imp fun hpos hsymbol => hk ?_).symm
        exact htracked.unique ((h.tracks k).mp hpos) hsymbol
    · rw [hsubs] at hs
      split at hs
      · cases hs
      · exact hs
  | resume hact hm hcounts hprovider =>
    obtain ⟨hwithin, hsubs⟩ := Provider.step_within hact hm
    rw [hprovider] at hkeep ⊢
    refine hkeep (fun k => ?_) (hagrees.within hwithin fun s i hs => hsubs ▸ hs)
    rw [hcounts, Provider.tracks_within hwithin hsubs, h.tracks]
  | aside hcounts hprovider =>
    rw [hprovider] at hkeep ⊢
    exact hkeep (fun k => by rw [hcounts, h.tracks]) hagrees

theorem corresponds_run (h : Runs c Unmixed rt) : rt.Corresponds ∧ rt.provider.Agrees := by
  induction h with
  | start =>
    refine ⟨⟨fun key => iff_of_false (Nat.lt_irrefl 0) ?_, nofun⟩, ⟨?_, nofun⟩⟩
    · rintro ⟨i, hi, -⟩
      cases hi
    · rintro i key - hkey
      cases hkey
  | step hrun hok hstep ih =>
    obtain ⟨tr, hdesk⟩ := runs_desk hrun
    obtain ⟨hsteps, -⟩ := step_cases (counted_run hdesk) (attended_run hrun) hstep
    exact ih.1.step hok hsteps ih.2

/-- A book has the label of something that is held, and so the market of what is tracked. -/
theorem labels_of_agrees (h : rt.provider.Agrees) : rt.Labels := by
  intro r now a m book hm hsignal key htracks hsymbol
  obtain ⟨t, ht, hm⟩ := Option.bind_eq_some_iff.mp hm
  obtain ⟨-, -, hlabel⟩ := Provider.readerStep_within ht hm
  obtain ⟨i, hi, hkey⟩ := hlabel book hsignal
  obtain ⟨j, hj, htracked⟩ := htracks.held
  have hsame : keyOf book = key := h.markets j key hj htracked i (keyOf book) hi hkey hsymbol.symm
  rw [← hsame]
  rfl

/-- Where no symbol is subscribed while the provider holds it for another market, the provider
    tracks what the service counts, labels what it emits for it so, and a release ends the feed of
    its own key only. -/
theorem feeds_follow_counts (h : Runs c Unmixed rt) : rt.Corresponds ∧ rt.Labels ∧
    ∀ q key rt', rt.desk.contexts.lookup q = some ⟨key, .opened⟩ → rt.step (.leave q) = some rt' →
      ∀ k, k ≠ key → 0 < rt.desk.service.refcount k → rt'.provider.Tracks k := by
  obtain ⟨hcorresponds, hagrees⟩ := corresponds_run h
  refine ⟨hcorresponds, labels_of_agrees hagrees, fun q key rt' hc hstep k hk hpos => ?_⟩
  obtain ⟨hcorresponds', -⟩ := corresponds_run (.step (a := .leave q) h trivial hstep)
  rw [← hcorresponds'.tracks]
  obtain ⟨tr, hdesk⟩ := runs_desk h
  have hsame {key' : Key} (hc' : rt.desk.contexts.lookup q = some ⟨key', .opened⟩) : key' = key :=
    congrArg Context.key (Option.some.inj (hc'.symm.trans hc))
  cases (step_cases (counted_run hdesk) (attended_run h) hstep).1 with
  | part hc' _ hservice _ =>
    rw [hservice, OrderBookService.refcount_release, if_neg (hsame hc' ▸ hk)]
    exact hpos
  | unsubscribe hc' _ hservice _ _ =>
    rw [hservice, OrderBookService.refcount_release, if_neg (hsame hc' ▸ hk)]
    exact hpos
  | resume hact hm hcounts _ =>
    rw [hcounts]
    exact hpos

/-- Two markets of a symbol that are counted are not both tracked. -/
theorem mixed_diverges (hpos : 0 < rt.desk.service.refcount key)
    (hpos' : 0 < rt.desk.service.refcount k) (hsymbol : k.symbol = key.symbol) (hne : k ≠ key) :
    ¬ rt.Corresponds := fun h =>
  hne (((h.tracks key).mp hpos).unique ((h.tracks k).mp hpos') hsymbol)

/-! ### Two runs -/

def scb : Key := ⟨"SCB", .set⟩

/-- The same symbol on the other market. -/
def pttTfex : Key := ⟨"PTT", .tfex⟩

/-- After the first subscription of a symbol. -/
def firstSubscribed : Runtime :=
  ((step ⟨oneProvider.desk, {}⟩ (.enter 0 ptt))).getD ⟨oneProvider.desk, {}⟩

/-- And of another one. -/
def twoSubscribed : Runtime := (firstSubscribed.step (.enter 1 scb)).getD ⟨oneProvider.desk, {}⟩

/-- The reader connects and joins the rooms of the two symbols; then the first is released. -/
def joinThenLeave : List RuntimeAct :=
  List.replicate 11 (.reader 0 0 .done) ++
    [.reader 0 0 (.room 5), .reader 0 0 (.room 6), .reader 0 0 .done, .leave 0, .answer 0 .done]

def oneReleased : Runtime := (twoSubscribed.runActs joinThenLeave).getD ⟨oneProvider.desk, {}⟩

/-- It is subscribed on the other market, and joins its room there. -/
def subscribedAgain : Runtime :=
  (oneReleased.step (.enter 2 pttTfex)).getD ⟨oneProvider.desk, {}⟩

def rejoined : Runtime :=
  (subscribedAgain.runActs [.answer 2 (.room 9), .answer 2 .done]).getD ⟨oneProvider.desk, {}⟩

/-- Of a symbol that goes from one market to the other, and of one that stays. -/
theorem two_symbols_tracked : Runs oneProvider Unmixed rejoined ∧
    rejoined.desk.contexts = [(1, ⟨scb, .opened⟩), (2, ⟨pttTfex, .opened⟩)] ∧
    rejoined.Corresponds ∧ rejoined.Labels := by
  have hclear {rt : Runtime} {q : Nat} {key : Key} (h : rt.provider.Clear key) :
      rt.Unmixed (.enter q key) := fun _ => h
  have hfirst : Runs oneProvider Unmixed firstSubscribed :=
    Runs.step (a := .enter 0 ptt) .start (hclear (by decide)) rfl
  have htwo : Runs oneProvider Unmixed twoSubscribed :=
    Runs.step (a := .enter 1 scb) hfirst (hclear (by decide)) rfl
  have hreleased : Runs oneProvider Unmixed oneReleased :=
    htwo.acts joinThenLeave (by simp [joinThenLeave, Unmixed]) rfl
  have hagain : Runs oneProvider Unmixed subscribedAgain :=
    Runs.step (a := .enter 2 pttTfex) hreleased (hclear (by decide)) rfl
  have hrun : Runs oneProvider Unmixed rejoined :=
    hagain.acts [.answer 2 (.room 9), .answer 2 .done] (by simp [Unmixed]) rfl
  exact ⟨hrun, rfl, (feeds_follow_counts hrun).1, (feeds_follow_counts hrun).2.1⟩

/-- A symbol is subscribed on both markets, and released on the first. -/
def mixedMarkets : List RuntimeAct :=
  [.enter 0 ptt, .reader 0 0 .done, .enter 1 pttTfex, .leave 0, .reader 0 0 (.raised .cancelled),
    .wake 0]

def mixedRuntime : Runtime := (runActs mixedMarkets ⟨oneProvider.desk, {}⟩).getD ⟨oneProvider.desk, {}⟩

/-- The subscriber of the second market has lost its feed, and the reader. -/
theorem release_ends_other_market : Runs oneProvider (fun _ _ => True) mixedRuntime ∧
    mixedRuntime.desk.contexts = [(1, ⟨pttTfex, .opened⟩)] ∧
    mixedRuntime.desk.service.refcount pttTfex = 1 ∧ mixedRuntime.provider.subs = [] ∧
    mixedRuntime.provider.reader = none ∧ ¬ mixedRuntime.Corresponds := by
  have hacts : runActs mixedMarkets ⟨oneProvider.desk, {}⟩ = some mixedRuntime := rfl
  have hrun := Runs.start.acts mixedMarkets (fun _ _ _ => trivial) hacts
  refine ⟨hrun, rfl, rfl, rfl, rfl, fun h => ?_⟩
  have hpos : 0 < mixedRuntime.desk.service.refcount pttTfex := Nat.lt_succ_self 0
  obtain ⟨i, hi, -⟩ := (h.tracks pttTfex).mp hpos
  cases hi

end Run

end Runtime

end ExecutionEngine.OrderBooks
