/-
  A fill delivered a second time.

  `apply_fill` drops a fill whose id is recorded, but it computes the status again and
  writes it. `redelivery_settled`: from any delivery on, whatever has happened to the
  order since, the same delivery is without effect exactly while the order is where
  that computation leads. From every other status it raises, or moves the order.
-/
import ExecutionEngine.Core.Plans

namespace ExecutionEngine

open Async StateMachine

/-- Any steps of the engine, whoever takes them. -/
def Evolves (E : Env) : Db → Db → Prop :=
  Relation.ReflTransGen fun db db' => ∃ op r, (sem E).step db op r db'

namespace Redelivery

/-- A fill of this id is recorded. -/
def Named (e : Entry) (fid : String) : Prop := ∃ g ∈ e.fills, g.brokerFillId = fid

section Persistence

variable {E : Env} {db db' : Db} {cid fid : String} {e : Entry}

theorem change_named {o : StoreOp} {e e' : Entry} (h : Change o e e') (hn : Named e fid) :
    Named e' fid := by
  cases h with
  | ack | status | reason => exact hn
  | replace _ _ _ _ hfills => rwa [Named, hfills]
  | fill => exact addFill_named.mpr (.inl hn)

/-- Recorded fills stay. -/
theorem step_named {op : EngineOp} {r : Except Exn op.Res} (h : (sem E).step db op r db')
    (he : db.find cid = some e) (hn : Named e fid) :
    ∃ e', db'.find cid = some e' ∧ Named e' fid := by
  rcases step_find h cid with heq | ⟨_, _, _, _, _, _, hnone, _⟩ | ⟨_, e₁, e', _, hc, _, he₁, hf⟩
  · exact ⟨e, heq.trans he, hn⟩
  · rw [hnone] at he
    cases he
  · rw [he] at he₁
    obtain rfl := Option.some.inj he₁
    exact ⟨e', hf, change_named hc hn⟩

theorem evolves_named (h : Evolves E db db') (he : db.find cid = some e) (hn : Named e fid) :
    ∃ e', db'.find cid = some e' ∧ Named e' fid := by
  induction h with
  | refl => exact ⟨e, he, hn⟩
  | tail _ hs ih =>
    obtain ⟨e₁, he₁, hn₁⟩ := ih
    obtain ⟨op, r, hstep⟩ := hs
    exact step_named hstep he₁ hn₁

end Persistence

section Delivery

variable {db db' : Db} {cid fid : String} {e : Entry} {price : Decimal} {qty : Int} {ts : Time}
  {total : Int}

/-- A delivery that was accepted passed the CHECKs and is recorded. -/
theorem applyFill_accepted {s : OrderState}
    (h : db.applyFill cid fid price qty ts total = (.ok s, db')) :
    0 < qty ∧ Reconcile.Storable price qty ∧ ∃ e', db'.find cid = some e' ∧ Named e' fid := by
  have hchecks : 0 < qty ∧ Reconcile.Storable price qty := by
    revert h
    unfold Db.applyFill
    cases db.find cid with
    | none =>
      intro h
      cases (Prod.mk.inj h).1
    | some e =>
      dsimp only
      split
      · rename_i hq
        split
        · rename_i hc
          simp only [Bool.and_eq_true, decide_eq_true_eq] at hc
          exact fun _ => ⟨hq, hc.1.1, hc.1.2, hc.2⟩
        · intro h
          cases (Prod.mk.inj h).1
      · intro h
        cases (Prod.mk.inj h).1
  refine ⟨hchecks.1, hchecks.2, ?_⟩
  rcases Db.applyFill_cases db cid fid price qty ts total with
    ⟨e, f, he, rfl, -, rfl, rfl, -, hc⟩ | ⟨x, hc⟩
  · rw [hc] at h
    obtain rfl := (Prod.mk.inj h).2
    refine ⟨_, Reconcile.find_set_entry he ?_, addFill_named.mpr (.inr rfl)⟩
    rw [withStatus_key, addFill_row]
  · rw [hc] at h
    cases (Prod.mk.inj h).1

/-- Under an id that is recorded, only the status is left to decide. -/
theorem applyFill_again (he : db.find cid = some e) (hn : Named e fid) (hq : 0 < qty)
    (hs : Reconcile.Storable price qty) (ts : Time) (total : Int) :
    db.applyFill cid fid price qty ts total =
      if isLegal e.row.status (Db.fillTarget e total) then
        (.ok (Db.fillTarget e total), db.set (Db.withStatus e (Db.fillTarget e total)))
      else (.error (.rejected .illegalTransition "orders_guard" cid), db) := by
  obtain ⟨g, hg, hname⟩ := hn
  obtain ⟨hpos, hfits, hlt⟩ := hs
  have hold : Db.addFill e ⟨fid, price.numeric, qty, ts, hq⟩ = e := addFill_old hg hname
  simp only [Db.applyFill, he, hq, hpos, hfits, hlt, hold, dif_pos, decide_true, Bool.and_self,
    if_true]

/-- The delivery returns, and leaves the fills and the status of the order as they are. -/
def NoEffect (db : Db) (cid fid : String) (price : Decimal) (qty : Int) (ts : Time) (total : Int) :
    Prop :=
  ∃ s db', db.applyFill cid fid price qty ts total = (.ok s, db') ∧
    ∀ e, db.find cid = some e → ∃ e', db'.find cid = some e' ∧ e'.fills = e.fills ∧
      e'.row.status = e.row.status

/-- The status is the one the fills of the order call for. -/
def Settled (e : Entry) (total : Int) : Prop :=
  e.row.status = .filled ∧ total ≤ e.filled ∨ e.row.status = .partiallyFilled ∧ e.filled < total

theorem settled_iff {total : Int} : Settled e total ↔ Db.fillTarget e total = e.row.status := by
  unfold Settled Db.fillTarget
  split
  · rename_i hle
    constructor
    · rintro (⟨hs, -⟩ | ⟨-, hlt⟩)
      · exact hs.symm
      · omega
    · exact fun hs => .inl ⟨hs.symm, hle⟩
  · rename_i hlt
    constructor
    · rintro (⟨-, hle⟩ | ⟨hs, -⟩)
      · omega
      · exact hs.symm
    · exact fun hs => .inr ⟨hs.symm, by omega⟩

theorem noEffect_iff (he : db.find cid = some e) (hn : Named e fid) (hq : 0 < qty)
    (hs : Reconcile.Storable price qty) (ts : Time) (total : Int) :
    NoEffect db cid fid price qty ts total ↔ Settled e total := by
  rw [settled_iff, NoEffect, applyFill_again he hn hq hs]
  have hset : (db.set (Db.withStatus e (Db.fillTarget e total))).find cid =
      some (Db.withStatus e (Db.fillTarget e total)) := Reconcile.find_set_entry he rfl
  constructor
  · rintro ⟨s, db', happ, hsame⟩
    split at happ
    · obtain ⟨-, rfl⟩ := Prod.mk.inj happ
      obtain ⟨e', he', -, hst⟩ := hsame e he
      rw [hset] at he'
      rw [← hst, ← Option.some.inj he', withStatus_status]
    · cases (Prod.mk.inj happ).1
  · intro hst
    have hl : isLegal e.row.status (Db.fillTarget e total) = true := by simp [isLegal, hst]
    rw [if_pos hl]
    refine ⟨_, _, rfl, fun e₁ he₁ => ?_⟩
    rw [he] at he₁
    obtain rfl := Option.some.inj he₁
    exact ⟨_, hset, rfl, hst⟩

/-- Once a fill was accepted, in every state the order comes to, the same delivery is without
    effect if and only if the order is FILLED with its total reached or PARTIALLY_FILLED below it. -/
theorem redelivery_settled {E : Env} {db₀ db₁ : Db} {s₀ : OrderState}
    (h₀ : db₀.applyFill cid fid price qty ts total = (.ok s₀, db₁)) (hrun : Evolves E db₁ db)
    (he : db.find cid = some e) (ts' : Time) :
    NoEffect db cid fid price qty ts' total ↔ Settled e total := by
  obtain ⟨hq, hs, e₁, he₁, hn₁⟩ := applyFill_accepted h₀
  obtain ⟨e₂, he₂, hn⟩ := evolves_named hrun he₁ hn₁
  rw [he] at he₂
  obtain rfl := Option.some.inj he₂
  exact noEffect_iff he hn hq hs ts' total

end Delivery

/-! ## A cancel between the two deliveries -/

section Sample

open Reconcile (sampleStore)

/-- The sample order at rest, and with 40 units filled. -/
def restingStore : Db := ((sampleStore .sim).ackOrder cidA "V1").2

def filledStore : Db := (restingStore.applyFill cidA "F1" ⟨10, 0⟩ 40 0 100).2

/-- Delivered twice in a row. -/
theorem redelivered_at_once : NoEffect filledStore cidA "F1" ⟨10, 0⟩ 40 5 100 := by
  have hfind : ∃ e, filledStore.find cidA = some e ∧ e.row.status = .partiallyFilled ∧
      e.filled = 40 := ⟨_, rfl, rfl, rfl⟩
  have hfirst : restingStore.applyFill cidA "F1" ⟨10, 0⟩ 40 0 100 =
      (.ok .partiallyFilled, filledStore) := rfl
  obtain ⟨e, he, hst, hfilled⟩ := hfind
  have hrun : Evolves plainEnv filledStore filledStore := .refl
  exact (redelivery_settled hfirst hrun he 5).mpr (.inr ⟨hst, by omega⟩)

theorem evolves_resting : Evolves plainEnv Db.empty restingStore :=
  .tail (.single ⟨.store (.insertOrder (sampleOrderA .sim) none), _, .inl ⟨0, rfl⟩⟩)
    ⟨.store (.ackOrder cidA "V1"), _, .inl ⟨0, rfl⟩⟩

theorem evolves_writeStatus (db : Db) (cid : String) (s : OrderState) :
    Evolves plainEnv db (db.writeStatus cid s).2 :=
  .single ⟨.store (.writeStatus cid s), (db.writeStatus cid s).1, .inl ⟨0, rfl⟩⟩

def cancellingFilled : Db := (filledStore.writeStatus cidA .pendingCancel).2

def cancelledFilled : Db := (cancellingFilled.writeStatus cidA .cancelled).2

/-- Delivered again while the cancel is under way, and after it: both times the guard raises. -/
theorem redelivered_after_cancel :
    Evolves plainEnv Db.empty restingStore ∧
    restingStore.applyFill cidA "F1" ⟨10, 0⟩ 40 0 100 = (.ok .partiallyFilled, filledStore) ∧
    Evolves plainEnv filledStore cancellingFilled ∧
    Evolves plainEnv cancellingFilled cancelledFilled ∧
    ¬ NoEffect cancellingFilled cidA "F1" ⟨10, 0⟩ 40 5 100 ∧
    ¬ NoEffect cancelledFilled cidA "F1" ⟨10, 0⟩ 40 5 100 := by
  refine ⟨evolves_resting, rfl, evolves_writeStatus .., evolves_writeStatus .., ?_, ?_⟩
  · rintro ⟨s, db', h, -⟩
    cases (Prod.mk.inj h).1
  · rintro ⟨s, db', h, -⟩
    cases (Prod.mk.inj h).1

end Sample

end Redelivery

end ExecutionEngine
