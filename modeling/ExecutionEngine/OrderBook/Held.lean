/-
  What the provider holds on to, and what it tracks.

  Besides what it tracks these are the subscriptions that rooms lead to, and those that a
  reader or a live join has yet to join (`Held`); all of them can label a book. Nothing
  but a subscription makes the provider hold more (`Within`), so the markets of what it
  holds go on to agree (`Agrees`), and what is tracked changes by the calls alone
  (`tracks_subscribe`, `tracks_unsubscribe`).
-/
import ExecutionEngine.OrderBook.Service
import ExecutionEngine.OrderBook.Readers

namespace ExecutionEngine.OrderBooks

open BidOffer (OrderBook)
open Provider (Act)

/-! ## What the provider holds -/

/-- The subscription that a live join is for. -/
def CallState.held : CallState → List Nat
  | .resolving i => [i]
  | _ => []

namespace Provider

/-- The key of a subscription. -/
def keyAt (p : Provider) (i : Nat) : Option Key := p.objects[i]?.map fun sub => ⟨sub.symbol, sub.market⟩

/-- The subscription is tracked, or a room leads to it, or it is yet to be joined. -/
def Held (p : Provider) (i : Nat) : Prop :=
  i ∈ p.subs.map Prod.snd ∨ i ∈ p.byRoom.map Prod.snd ∨
    (∃ t ∈ p.tasks, i ∈ t.state.held) ∨ ∃ x ∈ p.calls, i ∈ x.2.state.held

instance (p : Provider) (i : Nat) : Decidable (p.Held i) :=
  inferInstanceAs (Decidable (_ ∨ _ ∨ _ ∨ _))

/-- The provider tracks a symbol, on this market. -/
def Tracks (p : Provider) (key : Key) : Prop :=
  ∃ i, p.subs.lookup key.symbol = some i ∧ p.keyAt i = some key

/-- Nothing that the provider holds is for this symbol on another market. -/
def Clear (p : Provider) (key : Key) : Prop :=
  ∀ i k, p.Held i → p.keyAt i = some k → k.symbol = key.symbol → k = key

/-- Only the objects there are have to be looked at. -/
theorem clear_iff (p : Provider) (key : Key) :
    (∀ i < p.objects.length, p.Held i → ∀ k ∈ p.keyAt i, k.symbol = key.symbol → k = key) ↔
      p.Clear key := by
  refine ⟨fun h i k hi hk => ?_, fun h i _ hi k hk => h i k hi hk⟩
  obtain ⟨sub, hsub, -⟩ := Option.map_eq_some_iff.mp hk
  obtain ⟨hlt, -⟩ := List.getElem?_eq_some_iff.mp hsub
  exact h i hlt hi k hk

instance (p : Provider) (key : Key) : Decidable (p.Clear key) :=
  decidable_of_iff _ (clear_iff p key)

/-- The keys of what the provider holds are of one market for each symbol, and what is tracked is
    under its own symbol. -/
structure Agrees (p : Provider) : Prop where
  markets : ∀ i key, p.Held i → p.keyAt i = some key → p.Clear key
  subs : ∀ symbol i, p.subs.lookup symbol = some i → ∃ key, p.keyAt i = some key ∧ key.symbol = symbol

/-- Nothing is held that was not, and nothing is for another key. -/
structure Within (p p' : Provider) : Prop where
  keys : ∀ i, p'.keyAt i = p.keyAt i
  subs : ∀ i ∈ p'.subs.map Prod.snd, p.Held i
  rooms : ∀ i ∈ p'.byRoom.map Prod.snd, p.Held i
  tasks : ∀ t ∈ p'.tasks, ∀ i ∈ t.state.held, p.Held i
  calls : ∀ x ∈ p'.calls, ∀ i ∈ x.2.state.held, p.Held i

section Within

variable {p₀ p : Provider} {i c r : Nat} {id : Int} {state : ReaderState} {t : ReaderTask}
  {a : Answer} {x : (Provider × ReaderState) × Option Signal} {now : Time}

theorem Within.held (h : Within p₀ p) (hi : p.Held i) : p₀.Held i := by
  rcases hi with hs | hr | ⟨t, ht, hi⟩ | ⟨x, hx, hi⟩
  · exact h.subs i hs
  · exact h.rooms i hr
  · exact h.tasks t ht i hi
  · exact h.calls x hx i hi

theorem Within.refl (p : Provider) : Within p p where
  keys _ := rfl
  subs _ hs := .inl hs
  rooms _ hr := .inr (.inl hr)
  tasks t ht _ hi := .inr (.inr (.inl ⟨t, ht, hi⟩))
  calls x hx _ hi := .inr (.inr (.inr ⟨x, hx, hi⟩))

theorem Within.enterRoom (h : Within p₀ p) (hi : p₀.Held i) (id : Int) :
    Within p₀ (p.enterRoom i id) := by
  refine { h with rooms := fun j hj => ?_ }
  rcases Odict.mem_values_set hj with rfl | hold
  · exact hi
  · exact h.rooms j hold

theorem keyAt_setRoom (p : Provider) (i : Nat) (id : Int) (j : Nat) :
    (p.setRoom i id).keyAt j = p.keyAt j := by
  rw [keyAt, keyAt, setRoom, List.getElem?_modify, Option.map_eq_map, Option.map_map]
  congr 1
  funext sub
  by_cases h : i = j
  · rw [Function.comp_apply, if_pos h]
  · rw [Function.comp_apply, if_neg h]

theorem Within.setRoom (h : Within p₀ p) (i : Nat) (id : Int) : Within p₀ (p.setRoom i id) :=
  { h with keys := fun j => (keyAt_setRoom p i id j).trans (h.keys j) }

theorem Within.hold {state : CallState} (h : Within p₀ p) (hstate : ∀ i ∈ state.held, p₀.Held i)
    (c : Nat) : Within p₀ (p.hold c state) := by
  refine { h with calls := fun x hx => ?_ }
  rcases Odict.mem_set hx with rfl | hold
  · exact hstate
  · exact h.calls x hold

theorem Within.popCall (h : Within p₀ p) (c : Nat) :
    Within p₀ { p with calls := Odict.pop c p.calls } :=
  { h with calls := fun x hx => h.calls x (List.mem_of_mem_filter hx) }

theorem Within.settle (h : Within p₀ p) (hstate : ∀ i ∈ state.held, p₀.Held i) (r : Nat)
    (t : ReaderTask) : Within p₀ (p.settle r t state) := by
  refine { h with tasks := fun t' ht' => ?_ }
  rcases List.mem_or_eq_of_mem_set ht' with hold | rfl
  · exact h.tasks t' hold
  · exact hstate

/-- A reader that is cancelled holds on to what it held. -/
theorem Within.cancelReader (h : Within p₀ p) (r : Nat) : Within p₀ (p.cancelReader r) := by
  have htasks : ∀ t' ∈ (p.cancelReader r).tasks, ∀ i ∈ t'.state.held, p₀.Held i := by
    intro t' ht'
    obtain ⟨r', hr'⟩ := List.mem_iff_getElem?.mp ht'
    rw [cancelReader_tasks] at hr'
    split at hr'
    · obtain ⟨t, ht, rfl⟩ := Option.map_eq_some_iff.mp hr'
      exact h.tasks t (List.mem_of_getElem? ht)
    · exact h.tasks t' (List.mem_of_getElem? hr')
  unfold Provider.cancelReader at htasks ⊢
  split
  · exact h
  · rename_i hdone
    rw [if_neg hdone] at htasks
    exact { h with tasks := htasks }

/-- The loop over the rooms maps what it was given, and holds on to the rest. -/
theorem Within.joinRooms {rest : List Nat} (h : Within p₀ p) (hrest : ∀ i ∈ rest, p₀.Held i)
    (s : Session) (ids : List Int) :
    Within p₀ (Provider.joinRooms s rest ids p).1 ∧
      ∀ i ∈ (Provider.joinRooms s rest ids p).2.held, p₀.Held i := by
  induction rest generalizing ids p with
  | nil =>
    refine ⟨h, fun i hi => ?_⟩
    rw [Provider.joinRooms] at hi
    dsimp only at hi
    split at hi <;> cases hi
  | cons i rest ih =>
    have hi := hrest i List.mem_cons_self
    have htail : ∀ j ∈ rest, p₀.Held j := fun j hj => hrest j (List.mem_cons_of_mem _ hj)
    unfold Provider.joinRooms
    split
    · exact ih (h.enterRoom hi _) htail _
    · exact ⟨h, hrest⟩

/-! ## Readers -/

/-- A book is labelled by a subscription that is held. -/
def Labelled (p : Provider) (book : OrderBook) : Prop :=
  ∃ i, p.Held i ∧ p.keyAt i = some (keyOf book)

theorem labelled_handleFrame {receivedAt : Time} {payload : Dict} {book : OrderBook}
    (h : BidOffer.handleFrame p.label receivedAt payload = .ok (some book)) : p.Labelled book := by
  unfold BidOffer.handleFrame at h
  cases hparsed : BidOffer.parseBidOfferPayload payload with
  | error e =>
    rw [hparsed] at h
    cases h
  | ok parsed =>
    rw [hparsed] at h
    obtain ⟨found, -, hbook⟩ := Option.bind_eq_some_iff.mp (Except.ok.inj h)
    obtain ⟨⟨symbol, market⟩, hlabel, hbook⟩ := Option.bind_eq_some_iff.mp hbook
    obtain ⟨i, hroom, hsub⟩ := Option.bind_eq_some_iff.mp hlabel
    obtain ⟨sub, hi, hlabels⟩ := Option.map_eq_some_iff.mp hsub
    dsimp only at hbook
    split at hbook
    · cases hbook
    · obtain rfl := Option.some.inj hbook
      refine ⟨i, .inr (.inl (List.mem_map_of_mem (Odict.mem_of_lookup hroom))), ?_⟩
      rw [keyAt, hi, Option.map_some, keyOf, (Prod.mk.inj hlabels).1, (Prod.mk.inj hlabels).2]

theorem takeFrame_within (p : Provider) (s : Session) (f : Frame) :
    Within p (p.takeFrame s f).1.1 ∧ (p.takeFrame s f).1.2.held = [] ∧
      ∀ book, (p.takeFrame s f).2 = some (.book book) → p.Labelled book := by
  unfold takeFrame
  split
  · exact ⟨.refl p, rfl, nofun⟩
  · exact ⟨.refl p, rfl, nofun⟩
  · split
    · rename_i receivedAt payload book hframe
      refine ⟨.refl p, rfl, fun book' hbook' => ?_⟩
      obtain ⟨found, hfound, heq⟩ := Option.map_eq_some_iff.mp hbook'
      obtain rfl := Signal.book.inj heq
      rw [hfound] at hframe
      exact labelled_handleFrame hframe
    · exact ⟨{ Within.refl p with }, rfl, nofun⟩

theorem loopHead_held (p : Provider) (attempt : Nat) (now : Time) :
    (p.loopHead attempt now).held = [] := by
  unfold loopHead
  split
  · rfl
  · split
    · rfl
    · split <;> rfl

theorem endSession_held (p : Provider) (s : Session) (outcome : Option Fault) (now : Time) :
    (p.endSession s outcome now).1.held = [] ∧
      ∀ book, (p.endSession s outcome now).2 ≠ some (.book book) := by
  unfold endSession
  split
  · exact ⟨loopHead_held p _ _, nofun⟩
  · split
    · exact ⟨loopHead_held p _ _, nofun⟩
    · exact ⟨rfl, nofun⟩

/-- A stretch of a reader maps what it holds, and labels by what is held. -/
theorem resume_within (hstate : ∀ i ∈ state.held, p.Held i)
    (h : p.resume r now state a = some x) :
    Within p x.1.1 ∧ (∀ i ∈ x.1.2.held, p.Held i) ∧
      ∀ book, x.2 = some (.book book) → p.Labelled book := by
  have hnone {state : ReaderState} (hheld : state.held = []) : ∀ i ∈ state.held, p.Held i := by
    rw [hheld]
    exact fun _ hi => absurd hi List.not_mem_nil
  cases resume_cases h with
  | next _ _ hheld => exact ⟨.refl p, hnone hheld, nofun⟩
  | begins => exact ⟨.refl p, hnone (loopHead_held p 0 now), nofun⟩
  | dies _ => exact ⟨.refl p, hnone rfl, nofun⟩
  | ends s outcome _ =>
    obtain ⟨hheld, hbook⟩ := endSession_held p s outcome now
    exact ⟨.refl p, hnone hheld, fun book hsignal => absurd hsignal (hbook book)⟩
  | leaves s outcome _ => exact ⟨{ Within.refl p with }, hnone rfl, nofun⟩
  | joins s =>
    -- the rooms are cleared, and what is tracked is to be joined
    have hempty : Within p { p with ws := some r, byRoom := [] } :=
      { Within.refl p with rooms := fun _ hi => absurd hi List.not_mem_nil }
    obtain ⟨hwithin, hheld⟩ := hempty.joinRooms (fun i hi => .inl hi) s []
    exact ⟨hwithin, hheld, nofun⟩
  | joinsNext s i rest ids id =>
    have hi : p.Held i := hstate i List.mem_cons_self
    have hroom := ((Within.refl p).setRoom i id).enterRoom hi id
    obtain ⟨hwithin, hheld⟩ :=
      hroom.joinRooms (fun j hj => hstate j (List.mem_cons_of_mem i hj)) s (ids ++ [id])
    exact ⟨hwithin, hheld, nofun⟩
  | skips s i rest ids f =>
    obtain ⟨hwithin, hheld⟩ := (Within.refl p).joinRooms
      (fun j hj => hstate j (List.mem_cons_of_mem i hj)) s ids
    exact ⟨hwithin, hheld, nofun⟩
  | frames s f =>
    obtain ⟨hwithin, hheld, hlabel⟩ := takeFrame_within p s f
    exact ⟨hwithin, hnone hheld, hlabel⟩

theorem readerStep_within {m : Moved} (ht : p.tasks[r]? = some t)
    (h : p.readerStep r now t a = some m) :
    Within p m.provider ∧ m.provider.subs = p.subs ∧
      ∀ book, m.signal = some (.book book) → p.Labelled book := by
  obtain ⟨-, -, hsubs, -⟩ := readerStep_spec h
  unfold readerStep at h
  split at h
  · obtain ⟨x, hx, rfl⟩ := Option.map_eq_some_iff.mp h
    have hheld : ∀ i ∈ t.state.held, p.Held i := fun i hi =>
      .inr (.inr (.inl ⟨t, List.mem_of_getElem? ht, hi⟩))
    obtain ⟨hwithin, hstate, hlabel⟩ := resume_within hheld hx
    exact ⟨hwithin.settle hstate r t, hsubs, hlabel⟩
  · cases h

end Within

/-! ## Calls -/

section Calls

variable {p₀ p : Provider} {c r : Nat} {a : Answer} {call : Call} {m : Moved} {key k : Key}

theorem afterReader_within (h : Within p₀ p) (outcome : Option Fault) :
    Within p₀ (p.afterReader outcome).provider ∧
      (p.afterReader outcome).provider.subs = p.subs := by
  unfold afterReader
  split
  · exact ⟨{ h with }, rfl⟩
  · exact ⟨{ h with }, rfl⟩
  · exact ⟨h, rfl⟩

theorem subs_cancelReader (p : Provider) (r : Nat) : (p.cancelReader r).subs = p.subs := by
  unfold cancelReader
  split <;> rfl

theorem awaitReader_within (h : Within p₀ p) (c r : Nat) :
    Within p₀ (p.awaitReader c r).provider ∧ (p.awaitReader c r).provider.subs = p.subs := by
  unfold awaitReader
  split
  · exact afterReader_within h _
  · exact ⟨(h.cancelReader r).hold (by nofun) c, subs_cancelReader p r⟩

theorem dropReader_within (h : Within p₀ p) (c : Nat) :
    Within p₀ (p.dropReader c).provider ∧ (p.dropReader c).provider.subs = p.subs := by
  unfold dropReader
  split
  · split
    · exact awaitReader_within h c _
    · exact ⟨h, rfl⟩
  · exact ⟨h, rfl⟩

theorem joinFailed_within (h : Within p₀ p) (f : Fault) :
    Within p₀ (p.joinFailed f).provider ∧ (p.joinFailed f).provider.subs = p.subs := by
  unfold joinFailed
  split <;> exact ⟨h, rfl⟩

theorem resumeCall_within {state : CallState} (h : Within p₀ p)
    (hstate : ∀ i ∈ state.held, p₀.Held i) (hm : p.resumeCall c state a = some m) :
    Within p₀ m.provider ∧ m.provider.subs = p.subs := by
  unfold resumeCall at hm
  split at hm
  case h_1 i id =>
    obtain rfl := Option.some.inj hm
    have hi : p₀.Held i := hstate i List.mem_cons_self
    exact ⟨((h.setRoom i id).enterRoom hi id).hold (by nofun) c, rfl⟩
  case h_2 i f =>
    obtain rfl := Option.some.inj hm
    exact joinFailed_within h f
  case h_3 =>
    obtain rfl := Option.some.inj hm
    exact ⟨h, rfl⟩
  case h_4 f =>
    obtain rfl := Option.some.inj hm
    exact joinFailed_within h f
  case h_5 =>
    obtain rfl := Option.some.inj hm
    exact dropReader_within h c
  case h_6 f =>
    obtain rfl := Option.some.inj hm
    split
    · exact dropReader_within h c
    · exact ⟨h, rfl⟩
  case h_7 => cases hm

theorem answerCall_within (hc : p.calls.lookup c = some call)
    (hm : p.answerCall c call a = some m) :
    Within p m.provider ∧ m.provider.subs = p.subs := by
  unfold answerCall at hm
  split at hm
  · have hheld : ∀ i ∈ call.state.held, p.Held i := fun i hi =>
      .inr (.inr (.inr ⟨(c, call), Odict.mem_of_lookup hc, hi⟩))
    obtain ⟨hwithin, hsubs⟩ := resumeCall_within ((Within.refl p).popCall c) hheld hm
    exact ⟨hwithin, hsubs⟩
  · cases hm

theorem wakeCall_within (hm : p.wakeCall c call = some m) :
    Within p m.provider ∧ m.provider.subs = p.subs := by
  unfold wakeCall at hm
  split at hm
  · obtain ⟨outcome, -, rfl⟩ := Option.map_eq_some_iff.mp hm
    exact afterReader_within ((Within.refl p).popCall c) _
  · cases hm

theorem cancelCall_within (hc : p.calls.lookup c = some call) :
    Within p (p.cancelCall c call) ∧ (p.cancelCall c call).subs = p.subs := by
  have hmark : Within p { p with calls := Odict.set c { call with pending := true } p.calls } := by
    refine { Within.refl p with calls := fun x hx => ?_ }
    rcases Odict.mem_set hx with rfl | hold
    · exact fun i hi => .inr (.inr (.inr ⟨(c, call), Odict.mem_of_lookup hc, hi⟩))
    · exact (Within.refl p).calls x hold
  unfold cancelCall
  split
  · split
    · exact ⟨hmark, rfl⟩
    · exact ⟨(Within.refl p).cancelReader _, subs_cancelReader p _⟩
  · exact ⟨hmark, rfl⟩

theorem unsubscribe_within (p : Provider) (c : Nat) (symbol : String) :
    Within p (p.unsubscribe c symbol).provider ∧
      ∀ s, (p.unsubscribe c symbol).provider.subs.lookup s =
        if s = symbol then none else p.subs.lookup s := by
  have hsub : Within p { p with subs := Odict.pop symbol p.subs } :=
    { Within.refl p with subs := fun i hi => .inl (Odict.mem_values_pop hi) }
  unfold unsubscribe
  split
  · rename_i hfree
    obtain ⟨hwithin, hsubs⟩ := dropReader_within (Within.refl p) c
    refine ⟨hwithin, fun s => ?_⟩
    rw [hsubs]
    split
    · rename_i hs
      rw [hs, hfree]
    · rfl
  · dsimp only
    split
    · obtain ⟨hwithin, hsubs⟩ := dropReader_within hsub c
      exact ⟨hwithin, fun s => by rw [hsubs, Odict.lookup_pop]⟩
    · rename_i id hroom
      have hleft : Within p
          { p with subs := Odict.pop symbol p.subs, byRoom := Odict.pop id p.byRoom } :=
        { hsub with rooms := fun i hi => .inr (.inl (Odict.mem_values_pop hi)) }
      split
      · obtain ⟨hwithin, hsubs⟩ := dropReader_within hleft c
        exact ⟨hwithin, fun s => by rw [hsubs, Odict.lookup_pop]⟩
      · exact ⟨hleft.hold (by nofun) c, fun s => Odict.lookup_pop symbol s p.subs⟩

/-- The subscription of a symbol is held, and with it nothing else is. -/
theorem subscribe_within (p : Provider) (c : Nat) (symbol : String) (market : Market) :
    Within (p.track symbol market).1 (p.subscribe c symbol market).provider ∧
      (p.subscribe c symbol market).provider.subs = (p.track symbol market).1.subs := by
  have hi : (p.track symbol market).1.Held (p.track symbol market).2 := by
    refine .inl ?_
    unfold track
    split
    · rename_i i hlookup
      exact List.mem_map_of_mem (Odict.mem_of_lookup hlookup)
    · exact List.mem_map_of_mem (Odict.mem_of_lookup (Odict.lookup_set_self _ _ _))
  unfold subscribe
  dsimp only
  generalize p.track symbol market = tracked at hi ⊢
  split
  · refine ⟨{ Within.refl tracked.1 with tasks := fun t ht => ?_ }, rfl⟩
    rcases List.mem_append.mp ht with hold | hnew
    · exact (Within.refl tracked.1).tasks t hold
    · rw [List.mem_singleton.mp hnew]
      exact fun _ hi => absurd hi List.not_mem_nil
  · split
    · exact ⟨.refl _, rfl⟩
    · split
      · refine ⟨(Within.refl _).hold (fun i hmem => ?_) c, rfl⟩
        rw [List.mem_singleton.mp hmem]
        exact hi
      · exact ⟨((Within.refl _).enterRoom hi _).hold (by nofun) c, rfl⟩

/-- A subscription that is made is the last of the objects. -/
theorem keyAt_track (hfree : p.subs.lookup key.symbol = none) (i : Nat) :
    (p.track key.symbol key.market).1.keyAt i =
      if i = p.objects.length then some key else p.keyAt i := by
  unfold track
  rw [hfree]
  dsimp only [keyAt]
  by_cases h : i = p.objects.length
  · rw [if_pos h, h, List.getElem?_append_right (Nat.le_refl _), Nat.sub_self]
    rfl
  · rw [if_neg h]
    by_cases hlt : i < p.objects.length
    · rw [List.getElem?_append_left hlt]
    · have hout : (p.objects ++ [Subscription.mk key.symbol key.market none]).length ≤ i := by
        rw [List.length_append, List.length_singleton]
        omega
      rw [List.getElem?_eq_none hout, List.getElem?_eq_none (by omega)]

theorem held_track (hfree : p.subs.lookup key.symbol = none) {i : Nat}
    (hi : (p.track key.symbol key.market).1.Held i) : p.Held i ∨ i = p.objects.length := by
  unfold track at hi
  rw [hfree] at hi
  rcases hi with hs | hrest
  · rcases Odict.mem_values_set hs with hnew | hold
    · exact .inr hnew
    · exact .inl (.inl hold)
  · exact .inl (.inr hrest)

theorem subs_track (hfree : p.subs.lookup key.symbol = none) (s : String) :
    (p.track key.symbol key.market).1.subs.lookup s =
      if s = key.symbol then some p.objects.length else p.subs.lookup s := by
  unfold track
  rw [hfree]
  exact Odict.lookup_set _ _ _ _

/-! ## What is tracked -/

/-- Where nothing new is held the markets agree as before, whatever is dropped. -/
theorem Agrees.within {p' : Provider} (h : Agrees p) (hwithin : Within p p')
    (hsubs : ∀ s i, p'.subs.lookup s = some i → p.subs.lookup s = some i) : Agrees p' where
  markets i key hi hkey j k hj hk hsymbol := by
    rw [hwithin.keys] at hkey hk
    exact h.markets i key (hwithin.held hi) hkey j k (hwithin.held hj) hk hsymbol
  subs s i hs := by
    obtain ⟨key, hkey, hsymbol⟩ := h.subs s i (hsubs s i hs)
    exact ⟨key, (hwithin.keys i).trans hkey, hsymbol⟩

theorem tracks_within {p' : Provider} (hwithin : Within p p') (hsubs : p'.subs = p.subs)
    (key : Key) : p'.Tracks key ↔ p.Tracks key := by
  unfold Tracks
  rw [hsubs]
  exact exists_congr fun i => and_congr_right fun _ => by rw [hwithin.keys]

/-- What is tracked is held. -/
theorem Tracks.held (h : p.Tracks key) : ∃ i, p.Held i ∧ p.keyAt i = some key := by
  obtain ⟨i, hi, hkey⟩ := h
  exact ⟨i, .inl (List.mem_map_of_mem (Odict.mem_of_lookup hi)), hkey⟩

/-- A symbol that is tracked on no market the provider holds it for is not tracked. -/
theorem untracked (h : Agrees p) (hclear : p.Clear key) (hnot : ¬ p.Tracks key) :
    p.subs.lookup key.symbol = none := by
  cases hlookup : p.subs.lookup key.symbol with
  | none => rfl
  | some i =>
    obtain ⟨k, hk, hsymbol⟩ := h.subs key.symbol i hlookup
    have hheld : p.Held i := .inl (List.mem_map_of_mem (Odict.mem_of_lookup hlookup))
    obtain rfl := hclear i k hheld hk hsymbol
    exact absurd ⟨i, hlookup, hk⟩ hnot

theorem Agrees.subscribe (h : Agrees p) (hclear : p.Clear key) (hnot : ¬ p.Tracks key) (c : Nat) :
    Agrees (p.subscribe c key.symbol key.market).provider := by
  have hfree := untracked h hclear hnot
  obtain ⟨hwithin, hsubs⟩ := subscribe_within p c key.symbol key.market
  refine Agrees.within ⟨?_, ?_⟩ hwithin fun s i hs => hsubs ▸ hs
  · -- the new subscription is for this key, and what else there is has no other market
    have hkeys {i : Nat} {k : Key} (hi : (p.track key.symbol key.market).1.Held i)
        (hk : (p.track key.symbol key.market).1.keyAt i = some k) :
        k = key ∨ (p.Held i ∧ p.keyAt i = some k) := by
      rw [keyAt_track hfree] at hk
      split at hk
      · exact .inl (Option.some.inj hk).symm
      · rename_i hne
        exact .inr ⟨(held_track hfree hi).resolve_right hne, hk⟩
    intro i k hi hk j k' hj hk' hsymbol
    rcases hkeys hi hk with rfl | ⟨hiold, hkold⟩
    · rcases hkeys hj hk' with rfl | ⟨hjold, hkold'⟩
      · rfl
      · exact hclear j k' hjold hkold' hsymbol
    · rcases hkeys hj hk' with rfl | ⟨hjold, hkold'⟩
      · exact (hclear i k hiold hkold hsymbol.symm).symm
      · exact h.markets i k hiold hkold j k' hjold hkold' hsymbol
  · intro s i hs
    rw [subs_track hfree] at hs
    rw [keyAt_track hfree]
    split at hs
    · rename_i heq
      obtain rfl := Option.some.inj hs
      exact ⟨key, if_pos rfl, heq.symm⟩
    · obtain ⟨k, hk, hsymbol⟩ := h.subs s i hs
      split
      · rename_i heq
        have hlt : i < p.objects.length := by
          obtain ⟨sub, hsub, -⟩ := Option.map_eq_some_iff.mp hk
          exact (List.getElem?_eq_some_iff.mp hsub).1
        omega
      · exact ⟨k, hk, hsymbol⟩

theorem tracks_subscribe (h : Agrees p) (hclear : p.Clear key) (hnot : ¬ p.Tracks key) (c : Nat)
    (k : Key) : (p.subscribe c key.symbol key.market).provider.Tracks k ↔ p.Tracks k ∨ k = key := by
  have hfree := untracked h hclear hnot
  obtain ⟨hwithin, hsubs⟩ := subscribe_within p c key.symbol key.market
  rw [tracks_within hwithin hsubs]
  unfold Tracks
  rw [subs_track hfree]
  constructor
  · rintro ⟨i, hi, hk⟩
    rw [keyAt_track hfree] at hk
    split at hi
    · obtain rfl := Option.some.inj hi
      rw [if_pos rfl] at hk
      exact .inr (Option.some.inj hk).symm
    · split at hk
      · exact .inr (Option.some.inj hk).symm
      · exact .inl ⟨i, hi, hk⟩
  · rintro (⟨i, hi, hk⟩ | rfl)
    · have hne : k.symbol ≠ key.symbol := by
        intro heq
        rw [heq, hfree] at hi
        cases hi
      have hlt : i < p.objects.length := by
        obtain ⟨sub, hsub, -⟩ := Option.map_eq_some_iff.mp hk
        exact (List.getElem?_eq_some_iff.mp hsub).1
      refine ⟨i, by rw [if_neg hne]; exact hi, ?_⟩
      rw [keyAt_track hfree, if_neg (by omega)]
      exact hk
    · refine ⟨p.objects.length, if_pos rfl, ?_⟩
      rw [keyAt_track hfree, if_pos rfl]

theorem tracks_unsubscribe (p : Provider) (c : Nat) (symbol : String) (k : Key) :
    (p.unsubscribe c symbol).provider.Tracks k ↔ p.Tracks k ∧ k.symbol ≠ symbol := by
  obtain ⟨hwithin, hsubs⟩ := unsubscribe_within p c symbol
  unfold Tracks
  constructor
  · rintro ⟨i, hi, hk⟩
    rw [hsubs] at hi
    rw [hwithin.keys] at hk
    split at hi
    · cases hi
    · rename_i hne
      exact ⟨⟨i, hi, hk⟩, hne⟩
  · rintro ⟨⟨i, hi, hk⟩, hne⟩
    refine ⟨i, ?_, (hwithin.keys i).trans hk⟩
    rw [hsubs, if_neg hne]
    exact hi

/-- A step that begins no call holds nothing new, and tracks what was tracked. -/
theorem step_within {act : Act} (hact : act.isResumption = true)
    (hm : p.step act = some m) : Within p m.provider ∧ m.provider.subs = p.subs := by
  cases act with
  | answer c a =>
    obtain ⟨call, hc, hm⟩ := Option.bind_eq_some_iff.mp hm
    exact answerCall_within hc hm
  | wake c =>
    obtain ⟨call, -, hm⟩ := Option.bind_eq_some_iff.mp hm
    exact wakeCall_within hm
  | cancel c =>
    obtain ⟨call, hc, rfl⟩ := Option.map_eq_some_iff.mp hm
    exact cancelCall_within hc
  | reader r now a =>
    obtain ⟨t, ht, hm⟩ := Option.bind_eq_some_iff.mp hm
    obtain ⟨hwithin, hsubs, -⟩ := readerStep_within ht hm
    exact ⟨hwithin, hsubs⟩
  | _ => cases hact

/-- A symbol is tracked on one market. -/
theorem Tracks.unique (h : p.Tracks key) (h' : p.Tracks k) (hsymbol : k.symbol = key.symbol) :
    k = key := by
  obtain ⟨i, hi, hkey⟩ := h
  obtain ⟨j, hj, hk⟩ := h'
  rw [hsymbol, hi] at hj
  obtain rfl := Option.some.inj hj
  exact Option.some.inj (hk.symm.trans hkey)

end Calls

end Provider

end ExecutionEngine.OrderBooks
