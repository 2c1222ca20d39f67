/-
  The strategy of an event, and the filter on it.

  An event is attributed to a strategy by the call that publishes it, or by the hub's map
  of the last 4096 orders that were registered. A subscriber that asks for a strategy
  reads the ids of its orders first and subscribes later; its filter lets an event
  through if the order's id was read, or once an event about the order was attributed.

  `Ran` is a run of the writers with what they have announced. `Signed` is its invariant:
  the map is the window of the last registrations, and an event is attributed exactly if
  what was announced so far attributes it (`Attributes`). `passes_iff` is then a
  statement about what the writers did.
-/
import ExecutionEngine.Events.Delivery
import ExecutionEngine.Events.Publication

namespace ExecutionEngine

/-! ## The map -/

namespace EventHub

/-- The cap keeps the newest. -/
theorem evictStrategies_eq (l : List (String × String)) :
    evictStrategies l = Ring.window strategyMapCap l := by
  induction l with
  | nil => rfl
  | cons x rest ih =>
    rw [evictStrategies, Ring.window, List.length_cons]
    split
    · rename_i hfull
      have hdrop : rest.length + 1 - strategyMapCap = rest.length - strategyMapCap + 1 := by omega
      rw [ih, hdrop, List.drop_succ_cons]
      rfl
    · rename_i hroom
      have hdrop : rest.length + 1 - strategyMapCap = 0 := by omega
      rw [hdrop, List.drop_zero]

/-- A new id goes to the end of the map, and the oldest goes. -/
theorem registerStrategy_map {H : EventHub} {regs : List (String × String)} {cid sid : String}
    (hmap : H.strategyByCid = Ring.window strategyMapCap regs)
    (hnew : cid ∉ regs.map Prod.fst) :
    (H.registerStrategy cid sid).strategyByCid =
      Ring.window strategyMapCap (regs ++ [(cid, sid)]) := by
  have hkeep : (H.strategyByCid.filter fun x => x.1 ≠ cid) = H.strategyByCid := by
    refine List.filter_eq_self.mpr fun x hx => ?_
    rw [hmap] at hx
    have hmem : x.1 ∈ regs.map Prod.fst := List.mem_map_of_mem (List.mem_of_mem_drop hx)
    rw [decide_eq_true_eq]
    rintro rfl
    exact hnew hmem
  show evictStrategies ((H.strategyByCid.filter fun x => x.1 ≠ cid) ++ [(cid, sid)]) = _
  rw [hkeep, evictStrategies_eq, hmap]
  exact (Ring.push_eq_window _ _ _).symm.trans (Ring.push_window _ _ _)

/-- A map that has an id once answers with its entry. -/
theorem lookup_iff {regs : List (String × String)} {cid sid : String}
    (hdistinct : (regs.map Prod.fst).Nodup) :
    (regs.find? fun x => x.1 = cid).map Prod.snd = some sid ↔ (cid, sid) ∈ regs := by
  induction regs with
  | nil => simp
  | cons x rest ih =>
    rw [List.map_cons, List.nodup_cons] at hdistinct
    by_cases hx : x.1 = cid
    · rw [List.find?_cons_of_pos (by simpa using hx), Option.map_some, Option.some.injEq,
        List.mem_cons]
      constructor
      · rintro rfl
        exact .inl (by rw [← hx])
      · rintro (heq | hmem)
        · rw [← heq]
        · rw [hx] at hdistinct
          exact absurd (List.mem_map_of_mem hmem) hdistinct.1
    · rw [List.find?_cons_of_neg (by simpa using hx), ih hdistinct.2, List.mem_cons]
      refine ⟨.inr, ?_⟩
      rintro (heq | hmem)
      · exact absurd (congrArg Prod.fst heq).symm hx
      · exact hmem

end EventHub

/-! ## What was announced -/

/-- The registrations among the announcements. -/
def registered (said : List Announcement) : List (String × String) :=
  said.filterMap fun a => a.attribution.map fun sid => (a.publication.clientOrderId, sid)

/-- The last of the announcements is attributed to a strategy: the call says so, or it says
    nothing and the order is one of the last that were registered. -/
def Attributes (sid : String) (said : List Announcement) : Prop :=
  ∃ a, said.getLast? = some a ∧
    (a.publication.strategyId = some sid ∨
      a.publication.strategyId = none ∧
        (a.publication.clientOrderId, sid) ∈
          Ring.window EventHub.strategyMapCap (registered said))

namespace Writers

variable {ι : Type}

def Move.said : Move ι → List Announcement
  | .publish _ _ a _ => [a]
  | _ => []

/-- A run of the writers, and what they have announced in it. -/
inductive Ran [DecidableEq ι] (E : Env) (cid : String) (w₀ : Writers ι) :
    List Announcement → Writers ι → Prop where
  | refl : Ran E cid w₀ [] w₀
  | step {said : List Announcement} {w w' : Writers ι} {m : Move ι} (run : Ran E cid w₀ said w)
    (h : Step E cid w m w') : Ran E cid w₀ (said ++ m.said) w'

/-- Every announcement so far, those still to be published last. -/
def announcements (said : List Announcement) (w : Writers ι) : List Announcement :=
  said ++ w.pending.map Prod.snd

/-- What a run keeps of the attributions. -/
structure Signed (said : List Announcement) (w : Writers ι) : Prop where
  map : w.hub.strategyByCid = Ring.window EventHub.strategyMapCap (registered said)
  distinct : ((registered (announcements said w)).map Prod.fst).Nodup
  known : ∀ x ∈ registered (announcements said w), (w.db.find x.1).isSome = true
  length : w.published.length = said.length
  events : ∀ k e, w.published[k]? = some e → ∀ sid,
    e.strategyId = some sid ↔ Attributes sid (said.take (k + 1))
  logged : EventHub.Logged w.published w.hub

variable {E : Env} {cid : String} {said : List Announcement} {w w' : Writers ι}

theorem registered_append (xs ys : List Announcement) :
    registered (xs ++ ys) = registered xs ++ registered ys := List.filterMap_append

theorem registered_snoc (said : List Announcement) (a : Announcement) :
    registered (said ++ [a]) =
      registered said ++
        (a.attribution.map fun sid => (a.publication.clientOrderId, sid)).toList := by
  rw [registered_append]
  cases h : a.attribution <;> simp [registered, h]

theorem signed_new {db : Db} {ring queue : Nat} :
    Signed (ι := ι) [] { db, hub := { ringBufferSize := ring, subscriberQueueSize := queue } } where
  map := (Ring.window_nil _).symm
  distinct := List.nodup_nil
  known := fun _ hx => (List.not_mem_nil hx).elim
  length := rfl
  events := fun k e h => by simp at h
  logged := EventHub.logged_new ring queue

/-- Only an insert is attributed, and its order is new. -/
theorem announcement_attribution {c : WriteCall} {db db' : Db} {r : Except Exn c.statement.Res}
    {a : Announcement} {sid : String} (h : (sem E).step db (.store c.statement) r db')
    (ha : c.announcement db r = some a) (hsid : a.attribution = some sid) :
    db.find a.publication.clientOrderId = none ∧
    (db'.find a.publication.clientOrderId).isSome = true := by
  cases r with
  | error e =>
    cases c <;> cases ha
  | ok v =>
    cases c with
    | insertOrder o strategyId =>
      cases ha
      obtain ⟨hnone, t, e, he, -⟩ := step_insert_ok h
      exact ⟨hnone, Option.isSome_iff_exists.mpr ⟨e, he⟩⟩
    | applyFill cid fid price qty ts total =>
      simp only [WriteCall.announcement] at ha
      split at ha
      · cases ha
      · cases ha
        cases hsid
    | _ =>
      cases ha
      cases hsid

theorem Signed.commit [DecidableEq ι] {i : ι} {c : WriteCall} {r : Except Exn c.statement.Res}
    {db' : Db} {committed : List OrderState} {guarding : ι → Option (OrderRow × OrderState)}
    (h : Signed said w) (hstep : (sem E).step w.db (.store c.statement) r db') :
    Signed said
      { w with
        db := db'
        guarding := guarding
        pending := w.pending ++ ((c.announcement w.db r).map fun a => (i, a)).toList
        committed := committed } := by
  obtain ⟨map, distinct, known, length, events, logged⟩ := h
  have hstill (x : String × String) (hx : x ∈ registered (announcements said w)) :
      (db'.find x.1).isSome = true := step_find_isSome hstep (known x hx)
  cases ha : c.announcement w.db r with
  | none =>
    have hsame : announcements said
        { w with db := db', guarding := guarding, pending := w.pending ++ [], committed := committed } =
        announcements said w := by simp only [announcements, List.append_nil]
    exact ⟨map, by rwa [Option.map_none, Option.toList_none, hsame],
      by rwa [Option.map_none, Option.toList_none, hsame], length, events, logged⟩
  | some a =>
    have hmore : announcements said
        { w with db := db', guarding := guarding, pending := w.pending ++ [(i, a)],
                 committed := committed } = announcements said w ++ [a] := by
      simp only [announcements, List.map_append, List.map_singleton, List.append_assoc]
    rw [Option.map_some, Option.toList_some]
    cases hattr : a.attribution with
    | none =>
      have hregs : registered (announcements said w ++ [a]) = registered (announcements said w) := by
        rw [registered_snoc, hattr, Option.map_none, Option.toList_none, List.append_nil]
      exact ⟨map, by rwa [hmore, hregs], by rwa [hmore, hregs], length, events, logged⟩
    | some sid =>
      have hregs : registered (announcements said w ++ [a]) =
          registered (announcements said w) ++ [(a.publication.clientOrderId, sid)] := by
        rw [registered_snoc, hattr, Option.map_some, Option.toList_some]
      obtain ⟨hnew, hthere⟩ := announcement_attribution hstep ha hattr
      refine ⟨map, ?_, ?_, length, events, logged⟩
      · rw [hmore, hregs, List.map_append, List.nodup_append]
        refine ⟨distinct, List.nodup_singleton _, ?_⟩
        rintro x hx y hy rfl
        obtain ⟨z, hz, rfl⟩ := List.mem_map.mp hx
        have hsome := known z hz
        rw [List.map_singleton, List.mem_singleton] at hy
        rw [hy, hnew] at hsome
        cases hsome
      · rw [hmore, hregs]
        intro x hx
        rcases List.mem_append.mp hx with hx | hx
        · exact hstill x hx
        · rw [List.mem_singleton.mp hx]
          exact hthere

/-- What the hub registers of an announcement. -/
theorem announced_map {H : EventHub} {a : Announcement} {now : Time}
    (hmap : H.strategyByCid = Ring.window EventHub.strategyMapCap (registered said))
    (hdistinct : ((registered (said ++ [a])).map Prod.fst).Nodup) :
    (H.announce a now).strategyByCid =
      Ring.window EventHub.strategyMapCap (registered (said ++ [a])) := by
  show (a.attribution.elim H fun sid =>
    H.registerStrategy a.publication.clientOrderId sid).strategyByCid = _
  cases hattr : a.attribution with
  | none =>
    rw [registered_snoc, hattr, Option.map_none, Option.toList_none, List.append_nil]
    exact hmap
  | some sid =>
    rw [registered_snoc, hattr, Option.map_some, Option.toList_some] at hdistinct ⊢
    rw [List.map_append, List.nodup_append] at hdistinct
    refine EventHub.registerStrategy_map hmap fun hmem => ?_
    exact hdistinct.2.2 _ hmem _ (List.mem_singleton_self _) rfl

/-- What the hub makes of an announcement. -/
theorem announced_strategy {H : EventHub} {a : Announcement} {now : Time} {sid : String}
    (hmap : H.strategyByCid = Ring.window EventHub.strategyMapCap (registered said))
    (hdistinct : ((registered (said ++ [a])).map Prod.fst).Nodup) :
    (H.announced a now).strategyId = some sid ↔ Attributes sid (said ++ [a]) := by
  have hafter : (H.announce a now).strategyByCid = _ := announced_map hmap hdistinct
  have hwindow : ((Ring.window EventHub.strategyMapCap (registered (said ++ [a]))).map
      Prod.fst).Nodup :=
    hdistinct.sublist ((List.drop_sublist _ _).map _)
  have hresolve : (H.announced a now).strategyId = a.publication.strategyId.or
      (((Ring.window EventHub.strategyMapCap (registered (said ++ [a]))).find? fun x =>
        x.1 = a.publication.clientOrderId).map Prod.snd) := by
    rw [← hafter]
    rfl
  rw [hresolve, Attributes, List.getLast?_concat]
  cases hcall : a.publication.strategyId with
  | some own =>
    rw [Option.some_or]
    constructor
    · exact fun h => ⟨a, rfl, .inl (hcall.trans h)⟩
    · rintro ⟨b, hb, hown | ⟨hnone, -⟩⟩
      · obtain rfl := Option.some.inj hb
        exact hcall.symm.trans hown
      · obtain rfl := Option.some.inj hb
        rw [hcall] at hnone
        cases hnone
  | none =>
    rw [Option.none_or, EventHub.lookup_iff hwindow]
    constructor
    · exact fun h => ⟨a, rfl, .inr ⟨hcall, h⟩⟩
    · rintro ⟨b, hb, hown | ⟨-, hmem⟩⟩
      · obtain rfl := Option.some.inj hb
        rw [hcall] at hown
        cases hown
      · obtain rfl := Option.some.inj hb
        exact hmem

theorem Signed.publish {earlier later : List (ι × Announcement)} {i : ι} {a : Announcement}
    {now : Time} (h : Signed said w) (hp : w.pending = earlier ++ (i, a) :: later) :
    Signed (said ++ [a])
      { w with
        hub := w.hub.announce a now
        pending := earlier ++ later
        published := w.published ++ [w.hub.announced a now] } := by
  obtain ⟨map, distinct, known, length, events, logged⟩ := h
  have hperm : (registered (announcements said w)).Perm
      (registered (said ++ [a] ++ (earlier ++ later).map Prod.snd)) := by
    simp only [announcements, hp, registered_append, List.map_append, List.map_cons,
      List.append_assoc]
    have hcons (xs : List Announcement) : registered (a :: xs) = registered [a] ++ registered xs :=
      registered_append [a] xs
    refine List.Perm.append_left _ ?_
    rw [hcons, ← List.append_assoc, ← List.append_assoc]
    exact List.perm_append_comm.append_right _
  have hdistinct : ((registered (said ++ [a] ++ (earlier ++ later).map Prod.snd)).map
      Prod.fst).Nodup := (hperm.map Prod.fst).nodup_iff.mp distinct
  have hsaid : ((registered (said ++ [a])).map Prod.fst).Nodup := by
    rw [registered_append (said ++ [a]), List.map_append] at hdistinct
    exact hdistinct.sublist (List.sublist_append_left _ _)
  refine ⟨announced_map map hsaid, hdistinct, ?_, ?_, ?_, announce_logged logged a now⟩
  · exact fun x hx => known x (hperm.mem_iff.mpr hx)
  · rw [List.length_append, List.length_append, length]
    rfl
  · intro k e hk sid
    rcases Nat.lt_or_ge k said.length with hlt | hge
    · rw [List.getElem?_append_left (by omega)] at hk
      rw [List.take_append_of_le_length (by omega)]
      exact events k e hk sid
    · have hlast : k = w.published.length := by
        have := (List.getElem?_eq_some_iff.mp hk).1
        rw [List.length_append, List.length_singleton] at this
        omega
      subst hlast
      rw [List.getElem?_concat_length] at hk
      obtain rfl := Option.some.inj hk
      have hall : (said ++ [a]).take (w.published.length + 1) = said ++ [a] := by
        rw [List.take_of_length_le]
        rw [List.length_append, List.length_singleton, length]
      rw [hall]
      exact announced_strategy map hsaid

theorem Signed.step [DecidableEq ι] {m : Move ι} (h : Signed said w) (hs : Step E cid w m w') :
    Signed (said ++ m.said) w' := by
  cases hs with
  | read =>
    show Signed (said ++ []) _
    rw [List.append_nil]
    exact ⟨h.map, h.distinct, h.known, h.length, h.events, h.logged⟩
  | commit hfree hready hstep =>
    show Signed (said ++ []) _
    rw [List.append_nil]
    exact h.commit hstep
  | publish hp => exact h.publish hp

theorem Ran.signed [DecidableEq ι] {w₀ : Writers ι} {before : List Announcement}
    (h : Signed before w₀) (run : Ran E cid w₀ said w) : Signed (before ++ said) w := by
  induction run with
  | refl =>
    rw [List.append_nil]
    exact h
  | step _ hs ih =>
    rw [← List.append_assoc]
    exact ih.step hs

end Writers

/-! ## The filter on a strategy -/

/-- `fetch_client_order_ids_for_strategy`. -/
def Db.fetchClientOrderIdsForStrategy (db : Db) (strategyId : String) : List String :=
  (db.entries.filter fun e => e.row.strategyId = some strategyId).map fun e => e.row.clientOrderId

theorem Db.mem_fetchClientOrderIds {db : Db} {strategyId cid : String} :
    cid ∈ db.fetchClientOrderIdsForStrategy strategyId ↔
      ∃ e, db.find cid = some e ∧ e.row.strategyId = some strategyId := by
  simp only [fetchClientOrderIdsForStrategy, List.mem_map, List.mem_filter, decide_eq_true_eq]
  constructor
  · rintro ⟨e, ⟨hmem, hsid⟩, rfl⟩
    exact ⟨e, find_of_mem hmem, hsid⟩
  · rintro ⟨e, he, hsid⟩
    exact ⟨e, ⟨mem_of_find he, hsid⟩, find_key he⟩

namespace StreamArgs

/-- A subscriber that asks for a strategy. -/
def forStrategy (strategyId : String) (afterSeq : Int) : StreamArgs where
  afterSeq := afterSeq
  strategyId := some strategyId

/-- The filter lets `e` through once it has dealt with the events `heard`. -/
def lets (args : StreamArgs) (seeded : List String) (heard : List OrderUpdateEvent)
    (e : OrderUpdateEvent) : Bool :=
  (args.eventMatches (args.pass seeded heard).2 e).1

variable {sid : String} {c : Int}

theorem eventMatches_strategy (seeded : List String) (e : OrderUpdateEvent) :
    (forStrategy sid c).eventMatches seeded e =
      if e.strategyId = some sid ∨ e.clientOrderId ∈ seeded then (true, e.clientOrderId :: seeded)
      else (false, seeded) := rfl

/-- The seeded set grows by the orders of the events that are attributed. -/
theorem mem_seeded (seeded : List String) (heard : List OrderUpdateEvent) (cid : String) :
    cid ∈ ((forStrategy sid c).pass seeded heard).2 ↔
      cid ∈ seeded ∨ ∃ e ∈ heard, e.clientOrderId = cid ∧ e.strategyId = some sid := by
  induction heard generalizing seeded with
  | nil => simp [pass]
  | cons e es ih =>
    have hpass : ((forStrategy sid c).pass seeded (e :: es)).2 =
        ((forStrategy sid c).pass ((forStrategy sid c).eventMatches seeded e).2 es).2 := rfl
    rw [hpass, ih, eventMatches_strategy]
    split
    · rename_i hhit
      simp only [List.mem_cons]
      grind
    · rename_i hmiss
      simp only [List.mem_cons]
      grind

theorem lets_iff (seeded : List String) (heard : List OrderUpdateEvent) (e : OrderUpdateEvent) :
    (forStrategy sid c).lets seeded heard e = true ↔
      e.clientOrderId ∈ seeded ∨
      ∃ x ∈ heard ++ [e], x.clientOrderId = e.clientOrderId ∧ x.strategyId = some sid := by
  rw [lets, eventMatches_strategy]
  have hseeded : e.clientOrderId ∈ ((forStrategy sid c).pass seeded heard).2 ↔ _ :=
    mem_seeded seeded heard e.clientOrderId
  split
  · rename_i hhit
    rw [hseeded] at hhit
    simp only [List.mem_append, List.mem_singleton]
    grind
  · rename_i hmiss
    rw [hseeded] at hmiss
    simp only [List.mem_append, List.mem_singleton]
    grind

/-- The filter over a stretch keeps some of its events. -/
theorem pass_subset (args : StreamArgs) (seeded : List String) (es : List OrderUpdateEvent) :
    (args.pass seeded es).1 ⊆ es := by
  induction es generalizing seeded with
  | nil => exact List.Subset.refl []
  | cons e es ih =>
    intro x hx
    simp only [pass] at hx
    split at hx
    · rcases List.mem_cons.mp hx with rfl | hx
      · exact List.mem_cons_self
      · exact List.mem_cons_of_mem _ (ih _ hx)
    · exact List.mem_cons_of_mem _ (ih _ hx)

/-- What the filter says at an event decides whether it is among the wanted. -/
theorem mem_wanted (args : StreamArgs) (seeded : List String) {xs ys : List OrderUpdateEvent}
    {e : OrderUpdateEvent} (hxs : e ∉ xs) (hys : e ∉ ys) :
    e ∈ args.wanted seeded (xs ++ e :: ys) ↔ args.lets seeded xs e = true := by
  rw [wanted, pass_append, List.mem_append, pass, lets]
  have hbefore : e ∉ (args.pass seeded xs).1 := fun h => hxs (args.pass_subset seeded xs h)
  have hafter (s : List String) : e ∉ (args.pass s ys).1 := fun h => hys (args.pass_subset s ys h)
  dsimp only
  split
  · rename_i hhit
    exact iff_of_true (.inr List.mem_cons_self) hhit
  · rename_i hmiss
    refine iff_of_false ?_ hmiss
    rintro (h | h)
    · exact hbefore h
    · exact hafter _ h

end StreamArgs

namespace EventHub

variable {H : EventHub} {log : List OrderUpdateEvent}

/-- A replay serves what was published. -/
theorem mem_replay (hl : Logged log H) {c : Int} {e : OrderUpdateEvent}
    (he : e ∈ (H.replay c).1) : e ∈ log := by
  unfold replay at he
  split at he
  · cases he
  · have hring : e ∈ H.ring := (List.mem_filter.mp he).1
    rw [hl.ring] at hring
    exact List.mem_of_mem_drop hring

end EventHub

/-- A subscriber that has caught up, with no overflow on the way, was sent an event exactly if its
    filter lets the event through after the replay and what was published before it. -/
theorem Streaming.sent_iff_lets {args : StreamArgs} {id : Nat} {seeded : List String}
    {H : EventHub} {log earlier rest : List OrderUpdateEvent} {e : OrderUpdateEvent}
    {st : Streaming} (hl : EventHub.Logged log H) (hnew : H.subscription id = none)
    (run : CalmRun args id (connect args id seeded H) (earlier ++ e :: rest) st)
    (hdone : CaughtUp id st) :
    e ∈ eventsOf st.frames ↔ args.lets seeded ((H.replay args.afterSeq).1 ++ earlier) e = true := by
  have hlogged := run.logged ⟨hl.ring, hl.next, hl.numbered⟩
  have hincreasing := hlogged.numbered.increasing
  rw [← List.append_assoc, List.pairwise_append] at hincreasing
  obtain ⟨-, hrest, hfirst⟩ := hincreasing
  rw [((run.follows (follows_connect hl hnew)).sent_all hdone), ← List.append_assoc]
  refine args.mem_wanted seeded (fun hmem => ?_) fun hmem => ?_
  · have hin : e ∈ log ++ earlier := by
      rcases List.mem_append.mp hmem with h | h
      · exact List.mem_append_left _ (EventHub.mem_replay hl h)
      · exact List.mem_append_right _ h
    exact lt_irrefl _ (hfirst e hin e List.mem_cons_self)
  · exact lt_irrefl _ ((List.pairwise_cons.mp hrest).1 e hmem)

namespace Writers

variable {ι : Type} {E : Env} {cid : String} {said : List Announcement} {w : Writers ι}

/-- An event is attributed exactly if what was announced up to it attributes it. -/
theorem Signed.strategy_iff (h : Signed said w) {e : OrderUpdateEvent} (he : e ∈ w.published)
    (sid : String) : e.strategyId = some sid ↔ Attributes sid (said.take e.seq) := by
  obtain ⟨hpos, -, hplace⟩ := h.logged.numbered.place he
  have hevent := h.events _ e hplace sid
  rwa [Nat.sub_add_cancel hpos] at hevent

/-- A subscriber reads the ids of a strategy's orders in `w₁` and subscribes in `w₂`. Of the events
    published since, its filter lets `e` through exactly if the order was committed under the
    strategy before the ids were read, or an event about it that the subscriber was replayed or
    has been published since, up to `e` itself, was attributed: its call carries the strategy, or
    the order was one of the last 4096 to be registered. -/
theorem passes_iff_attributed [DecidableEq ι] {db : Db} {ring queue : Nat}
    {said₁ said₂ said₃ : List Announcement} {w₁ w₂ w₃ : Writers ι}
    (run₁ : Ran E cid { db, hub := { ringBufferSize := ring, subscriberQueueSize := queue } }
      said₁ w₁)
    (run₂ : Ran E cid w₁ said₂ w₂) (run₃ : Ran E cid w₂ said₃ w₃)
    {earlier rest : List OrderUpdateEvent} {e : OrderUpdateEvent}
    (hlater : w₃.published = w₂.published ++ (earlier ++ e :: rest)) (sid : String) (c : Int) :
    (StreamArgs.forStrategy sid c).lets (w₁.db.fetchClientOrderIdsForStrategy sid)
        ((w₂.hub.replay c).1 ++ earlier) e = true ↔
      (∃ x, w₁.db.find e.clientOrderId = some x ∧ x.row.strategyId = some sid) ∨
      ∃ x ∈ (w₂.hub.replay c).1 ++ earlier ++ [e], x.clientOrderId = e.clientOrderId ∧
        Attributes sid ((said₁ ++ said₂ ++ said₃).take x.seq) := by
  have hsigned₂ := run₂.signed (run₁.signed signed_new)
  have hsigned₃ := run₃.signed hsigned₂
  rw [StreamArgs.lets_iff, Db.mem_fetchClientOrderIds]
  refine or_congr_right (exists_congr fun x => and_congr_right fun hx => and_congr_right fun _ => ?_)
  have hpublished : x ∈ w₃.published := by
    rw [hlater]
    simp only [List.mem_append, List.mem_cons, List.not_mem_nil, or_false] at hx ⊢
    rcases hx with (hreplay | hearlier) | rfl
    · exact .inl (EventHub.mem_replay hsigned₂.logged hreplay)
    · exact .inr (.inl hearlier)
    · exact .inr (.inr (.inl rfl))
  rw [hsigned₃.strategy_iff hpublished, List.nil_append]

/-! ## An order that rests while others come in -/

/-- Writer `i` makes a call and publishes it before anyone else moves. -/
def called [DecidableEq ι] (cid : String) (w : Writers ι) (i : ι) (c : WriteCall) (t : Time) :
    Writers ι := (w.commitAt cid i c t).publishAt 0 t

section Calls

variable [DecidableEq ι] {i : ι} {c : WriteCall} {t : Time} {a : Announcement}

/-- What such a call leaves. -/
theorem called_spec (cid : String) (i : ι) (hquiet : w.pending = [])
    (ha : c.announcement w.db (c.statement.apply w.db t).1 = some a) :
    (w.called cid i c t).db = (c.statement.apply w.db t).2 ∧
    (w.called cid i c t).pending = [] ∧
    (w.called cid i c t).guarding = Function.update w.guarding i none ∧
    (w.called cid i c t).published = w.published ++ [w.hub.announced a t] := by
  have hpending : (w.commitAt cid i c t).pending[0]? = some (i, a) := by
    simp [commitAt, hquiet, ha]
  have hrest : (w.commitAt cid i c t).pending.eraseIdx 0 = [] := by simp [commitAt, hquiet, ha]
  rw [called, publishAt, hpending, Option.elim_some, hrest]
  exact ⟨rfl, rfl, rfl, rfl⟩

theorem Ran.call {w₀ : Writers ι} (run : Ran E cid w₀ said w) (hquiet : w.pending = [])
    (hready : w.Ready i c) (ha : c.announcement w.db (c.statement.apply w.db t).1 = some a) :
    Ran E cid w₀ (said ++ [a]) (w.called cid i c t) := by
  have hfree : w.Free i := by
    rw [Free, hquiet]
    exact fun x hx => (List.not_mem_nil hx).elim
  have hpending : (w.commitAt cid i c t).pending[0]? = some (i, a) := by
    simp [commitAt, hquiet, ha]
  have hsaid : said ++ [a] = said ++ Move.said (.commit i c (c.statement.apply w.db t).1
      (c.statement.apply w.db t).2) ++
      Move.said (.publish ((w.commitAt cid i c t).pending.take 0) i a t) :=
    congrArg (· ++ [a]) (List.append_nil said).symm
  rw [hsaid]
  exact (run.step (commitAt_step t hfree hready)).step (publishAt_step hpending t)

end Calls

/-- The sample order of strategy "S" is inserted. -/
def bornWriters : Writers Bool :=
  noWriters.called cidA true (.insertOrder (sampleOrderA .sim) (some "S")) 0

def bornAnnouncement : Announcement where
  attribution := some "S"
  publication := { clientOrderId := cidA, engineState := .pendingNew, strategyId := some "S" }

theorem born_ran : Ran plainEnv cidA noWriters [bornAnnouncement] bornWriters :=
  Ran.refl.call rfl rfl rfl

/-- It is acked. -/
def ackAnnouncement : Announcement where
  publication := { clientOrderId := cidA, engineState := .new, brokerOrderId := some "V1" }

theorem born_acked : ∃ w e, Ran plainEnv cidA bornWriters [ackAnnouncement] w ∧
    w.published = bornWriters.published ++ ([] ++ e :: []) ∧ e.clientOrderId = cidA ∧
    (StreamArgs.forStrategy "S" 0).lets (noWriters.db.fetchClientOrderIdsForStrategy "S")
      ((bornWriters.hub.replay 0).1 ++ []) e = true := by
  have run : Ran plainEnv cidA bornWriters ([] ++ [ackAnnouncement])
      (bornWriters.called cidA true (.ackOrder cidA "V1") 0) := Ran.refl.call rfl rfl rfl
  refine ⟨_, _, run, rfl, rfl, ?_⟩
  have none_ran : Ran plainEnv cidA noWriters [] noWriters := .refl
  refine (passes_iff_attributed none_ran born_ran run rfl "S" 0).mpr ?_
  refine .inr ⟨_, List.mem_singleton_self _, rfl, ackAnnouncement, rfl, .inr ⟨rfl, ?_⟩⟩
  decide +kernel

/-- The last three digits of an id. -/
def lastDigits (n : Nat) : List Char :=
  [Nat.digitChar (n / 256 % 16), Nat.digitChar (n / 16 % 16), Nat.digitChar (n % 16)]

def restingCid (n : Nat) : String :=
  String.ofList ("bbbbbbbb-0000-4000-8000-000000000".toList ++ lastDigits n)

theorem restingCid_toList (n : Nat) : (restingCid n).toList =
    "bbbbbbbb-0000-4000-8000-000000000".toList ++ lastDigits n := String.toList_ofList

theorem restingCid_isUuid4 (n : Nat) : isUuid4 (restingCid n) = true := by
  obtain ⟨hx, xu, xm, xl, xr⟩ := hexDigit_spec (n / 256 % 16) (Nat.mod_lt _ (by decide))
  obtain ⟨hy, yu, ym, yl, yr⟩ := hexDigit_spec (n / 16 % 16) (Nat.mod_lt _ (by decide))
  obtain ⟨hz, zu, zm, zl, zr⟩ := hexDigit_spec (n % 16) (Nat.mod_lt _ (by decide))
  have hlist := restingCid_toList n
  unfold lastDigits at hlist
  generalize Nat.digitChar (n / 256 % 16) = x at *
  generalize Nat.digitChar (n / 16 % 16) = y at *
  generalize Nat.digitChar (n % 16) = z at *
  have hu : 'u' ∉ (restingCid n).toList := by
    rw [hlist]
    simp [xu.symm, yu.symm, zu.symm]
  refine isUuid4_of_digits ("bbbbbbbb000040008000000000000".toList ++ [x, y, z]) hu ?_ ?_
    (by simp) ?_ rfl (show '8' ∈ ['8', '9', 'a', 'b', 'A', 'B'] by decide)
  · rw [hlist]
    simp [isBrace, xl, xr, yl, yr, zl, zr]
  · rw [hlist]
    simp [xm, ym, zm]
  · simp [hx, hy, hz]
    decide

theorem restingCid_inj {n m : Nat} (hn : n < 4096) (hm : m < 4096)
    (h : restingCid n = restingCid m) : n = m := by
  have hdigit : ∀ a < 16, ∀ b < 16, Nat.digitChar a = Nat.digitChar b → a = b := by decide
  have hlist := congrArg String.toList h
  rw [restingCid_toList, restingCid_toList, List.append_cancel_left_eq] at hlist
  simp only [lastDigits, List.cons.injEq, and_true] at hlist
  have h₁ := hdigit _ (Nat.mod_lt _ (by decide)) _ (Nat.mod_lt _ (by decide)) hlist.1
  have h₂ := hdigit _ (Nat.mod_lt _ (by decide)) _ (Nat.mod_lt _ (by decide)) hlist.2.1
  have h₃ := hdigit _ (Nat.mod_lt _ (by decide)) _ (Nat.mod_lt _ (by decide)) hlist.2.2
  omega

theorem restingCid_ne (n : Nat) : restingCid n ≠ cidA := by
  intro h
  have hb : (restingCid n).toList.head? = some 'b' := by
    rw [restingCid_toList]
    rfl
  have ha : cidA.toList.head? = some 'a' := rfl
  rw [h, ha] at hb
  cases hb

theorem sampleFields_check {cid : String} (h : isUuid4 cid = true) :
    (sampleFields cid .sim).check = .ok () := by
  have hid : (sampleFields cid .sim).clientOrderId = cid := rfl
  rw [OrderFields.check, hid, h]
  rfl

def restingOrder (n : Nat) : NormalizedOrder :=
  ⟨sampleFields (restingCid n) .sim, sampleFields_check (restingCid_isUuid4 n)⟩

def restingAnnouncement (n : Nat) : Announcement where
  attribution := some "T"
  publication :=
    { clientOrderId := restingCid n, engineState := .pendingNew, strategyId := some "T" }

/-- A sample order under a new id is inserted, and leaves the others alone. -/
theorem insert_sample {db : Db} {cid : String} (hnone : db.find cid = none) (t : Time) :
    (db.insertOrder (sampleFields cid .sim) (some "T") t).1 = .ok () ∧
    ∀ c, c ≠ cid → (db.insertOrder (sampleFields cid .sim) (some "T") t).2.find c = db.find c := by
  have hfit : Db.columnsFit (Db.newRow (sampleFields cid .sim) (some "T") t) = true := rfl
  have hchecks : Db.columnChecks (Db.newRow (sampleFields cid .sim) (some "T") t) = true := rfl
  have hnew : db.find (Db.newRow (sampleFields cid .sim) (some "T") t).clientOrderId = none := hnone
  simp only [Db.insertOrder, hfit, Bool.not_true, Bool.false_eq_true, if_false, dif_pos hchecks,
    dif_pos hnew]
  exact ⟨trivial, fun c hc => (Db.find_append hnew c).trans (if_neg hc)⟩

/-- The next `n` orders are of strategy "T". -/
theorem resting_ran (n : Nat) (hn : n ≤ 4096) : ∃ w : Writers Bool,
    Ran plainEnv cidA bornWriters ((List.range n).map restingAnnouncement) w ∧ w.pending = [] ∧
    w.guarding = (fun _ => none) ∧ w.db.find cidA = bornWriters.db.find cidA ∧
    (∀ m, n ≤ m → m < 4096 → w.db.find (restingCid m) = none) ∧
    ∃ es, w.published = bornWriters.published ++ es ∧ ∀ e ∈ es, e.clientOrderId ≠ cidA := by
  induction n with
  | zero =>
    refine ⟨bornWriters, .refl, rfl, ?_, rfl, fun m _ hm => ?_, [], (List.append_nil _).symm, ?_⟩
    · funext i
      cases i <;> rfl
    · have hone : bornWriters.db.entries.map (fun e => e.row.clientOrderId) = [cidA] := by
        decide +kernel
      rw [Db.find_none, hone, List.mem_singleton]
      exact restingCid_ne m
    · exact fun e he => (List.not_mem_nil he).elim
  | succ n ih =>
    obtain ⟨w, run, hpending, hguarding, hborn, hnone, es, hes, hothers⟩ := ih (by omega)
    have hnew := hnone n le_rfl hn
    obtain ⟨hok, hkeep⟩ := insert_sample hnew 0
    have hsaid : (WriteCall.insertOrder (restingOrder n) (some "T")).announcement w.db
        ((WriteCall.insertOrder (restingOrder n) (some "T")).statement.apply w.db 0).1 =
        some (restingAnnouncement n) := by
      show WriteCall.announcement w.db (.insertOrder (restingOrder n) (some "T"))
        (w.db.insertOrder (sampleFields (restingCid n) .sim) (some "T") 0).1 = _
      rw [hok]
      rfl
    have hready : w.Ready true (.insertOrder (restingOrder n) (some "T")) := by
      show w.guarding true = none
      rw [hguarding]
    obtain ⟨hdb, hpending', hguarding', hpublished⟩ :=
      called_spec cidA true hpending hsaid
    refine ⟨_, List.range_succ ▸ List.map_append ▸ run.call hpending hready hsaid, hpending', ?_,
      ?_, ?_, ?_⟩
    · rw [hguarding', hguarding]
      funext i
      cases i <;> rfl
    · rw [hdb]
      exact (hkeep cidA (restingCid_ne n).symm).trans hborn
    · intro m hm hlt
      rw [hdb]
      refine (hkeep _ fun heq => ?_).trans (hnone m (by omega) hlt)
      have := restingCid_inj hlt hn heq
      omega
    · refine ⟨es ++ [w.hub.announced (restingAnnouncement n) 0], ?_, ?_⟩
      · rw [hpublished, hes, List.append_assoc]
      · intro e he
        rcases List.mem_append.mp he with he | he
        · exact hothers e he
        · rw [List.mem_singleton.mp he]
          exact restingCid_ne n

/-- Once they have been registered the map has none of the others. -/
theorem resting_window : Ring.window EventHub.strategyMapCap
    (registered ([bornAnnouncement] ++ ((List.range 4096).map restingAnnouncement ++
      [ackAnnouncement]))) = (List.range 4096).map fun n => (restingCid n, "T") := by
  have hresting : registered ((List.range 4096).map restingAnnouncement) =
      (List.range 4096).map fun n => (restingCid n, "T") := by
    rw [registered, List.filterMap_map, ← List.filterMap_eq_map]
    rfl
  have hack : registered [ackAnnouncement] = [] := rfl
  have hborn : registered [bornAnnouncement] = [(cidA, "S")] := rfl
  rw [registered_append, registered_append, hresting, hack, hborn, List.append_nil, Ring.window,
    List.length_append, List.length_map, List.length_range]
  rfl

/-- An order of strategy "S" is inserted after the ids were read and before the subscription; once
    4096 orders of another strategy have come in, its ack does not pass the filter. -/
theorem evicted_order_filtered : ∃ (said : List Announcement) (w : Writers Bool)
    (earlier : List OrderUpdateEvent) (e : OrderUpdateEvent),
    Ran plainEnv cidA noWriters [bornAnnouncement] bornWriters ∧
    Ran plainEnv cidA bornWriters said w ∧
    w.published = bornWriters.published ++ (earlier ++ e :: []) ∧
    (∃ x, w.db.find e.clientOrderId = some x ∧ x.row.strategyId = some "S") ∧
    (StreamArgs.forStrategy "S" 0).lets (noWriters.db.fetchClientOrderIdsForStrategy "S")
      ((bornWriters.hub.replay 0).1 ++ earlier) e = false := by
  obtain ⟨w, run, hpending, hguarding, hborn, -, es, hes, hothers⟩ := resting_ran 4096 le_rfl
  obtain ⟨x, hx, hstatus, hsid⟩ : ∃ x, w.db.find cidA = some x ∧ x.row.status = .pendingNew ∧
      x.row.strategyId = some "S" := by
    rw [hborn]
    exact ⟨⟨Db.newRow (sampleFields cidA .sim) (some "S") 0, [], by decide, List.nodup_nil⟩,
      by decide +kernel, rfl, rfl⟩
  have happly : w.db.ackOrder cidA "V1" = (.ok (),
      w.db.set { x with row := { x.row with status := .new, brokerOrderId := some "V1" } }) := by
    rw [Db.ackOrder, hx]
    exact if_pos hstatus
  have hsaid : (WriteCall.ackOrder cidA "V1").announcement w.db
      ((WriteCall.ackOrder cidA "V1").statement.apply w.db 0).1 = some ackAnnouncement := by
    show WriteCall.announcement w.db (.ackOrder cidA "V1") (w.db.ackOrder cidA "V1").1 = _
    rw [happly]
    rfl
  have hready : w.Ready true (.ackOrder cidA "V1") := by
    show w.guarding true = none
    rw [hguarding]
  have run' := run.call (t := 0) hpending hready hsaid
  obtain ⟨hdb, -, -, hpublished⟩ := called_spec cidA true hpending hsaid
  have hsigned := run.signed (born_ran.signed signed_new)
  have hsigned' := run'.signed (born_ran.signed signed_new)
  refine ⟨_, _, es, w.hub.announced ackAnnouncement 0, born_ran, run', ?_, ?_, ?_⟩
  · rw [hpublished, hes, List.append_assoc]
  · rw [hdb]
    show ∃ y, (w.db.ackOrder cidA "V1").2.find cidA = some y ∧ y.row.strategyId = some "S"
    rw [happly]
    have hkey := Db.find_key hx
    have hx' : w.db.find x.row.clientOrderId = some x := by rwa [hkey]
    refine ⟨{ x with row := { x.row with status := .new, brokerOrderId := some "V1" } }, ?_, hsid⟩
    rw [← hkey]
    exact Db.find_set_self hx'
  · rw [Bool.eq_false_iff, ne_eq, StreamArgs.lets_iff]
    rintro (hseed | ⟨y, hy, hcid, hstrategy⟩)
    · exact List.not_mem_nil hseed
    · have hy : y ∈ es ++ [w.hub.announced ackAnnouncement 0] := hy
      rcases List.mem_append.mp hy with hy | hy
      · exact hothers y hy hcid
      · rw [List.mem_singleton.mp hy, announced_strategy hsigned.map ?_] at hstrategy
        · obtain ⟨a, ha, hcall | ⟨-, hmem⟩⟩ := hstrategy
          · rw [List.getLast?_concat] at ha
            obtain rfl := Option.some.inj ha
            cases hcall
          · rw [List.nil_append, List.append_assoc, resting_window] at hmem
            obtain ⟨n, -, hn⟩ := List.mem_map.mp hmem
            have hother : "T" = "S" := congrArg Prod.snd hn
            exact absurd hother (by decide)
        · have hdistinct := hsigned'.distinct
          rw [announcements, registered_append, List.map_append] at hdistinct
          rw [List.append_assoc]
          exact hdistinct.sublist (List.sublist_append_left _ _)

end Writers

end ExecutionEngine
