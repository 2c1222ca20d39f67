/-
  `apply_fill` statement by statement, under READ COMMITTED.

  `Db.applyFill` is the transaction on its own. Here the statements of any number
  of such transactions on one order interleave: the insert, the SUM, the read of
  the status, the update and the commit. A statement sees what is committed when
  it starts, and the writes of its own transaction. An update waits for the row
  lock and keeps it to the end; the guard then compares with the committed
  status. The insert only shares the key of the order and waits for nobody,
  since the names are distinct.

  Alone, the statements do what `Db.applyFill` does (`alone_applyFill`). Which
  state a transaction aims at is settled at its SUM, and nobody comes back to
  that, so the flip to FILLED is missed exactly if no SUM saw enough
  (`filled_iff_sum_reaches`).
-/
import Mathlib.Algebra.BigOperators.Group.Finset.Piecewise
import Mathlib.Algebra.Order.BigOperators.Group.Finset
import Mathlib.Data.Fintype.Basic
import ExecutionEngine.Db.Fills

namespace ExecutionEngine

namespace Transactions

open StateMachine

/-! ## The statements -/

/-- The arguments of one `apply_fill`. -/
structure FillArgs where
  brokerFillId : String
  price : Decimal
  quantity : Int
  execTs : Time

/-- The row of `_INSERT_FILL`, if it passes the CHECKs of the table. -/
def FillArgs.row (a : FillArgs) : Option FillRow :=
  if hq : 0 < a.quantity then
    if a.price.numeric.isPos && a.price.fitsNumeric && a.quantity < 2 ^ 63 then
      some ⟨a.brokerFillId, a.price.numeric, a.quantity, a.execTs, hq⟩
    else none
  else none

/-- Calls for one order under distinct names. -/
structure Calls (ι : Type) where
  args : ι → FillArgs
  total : Int
  distinct : Function.Injective fun i => (args i).brokerFillId

inductive Statement where
  | insert | sum | select | update | commit
  deriving DecidableEq, Repr

/-- How far a transaction is, with what it knows: its row, the state it aims at, and what it has
    written to the order. -/
inductive Stage where
  | begun
  | inserted (f : FillRow)
  | summed (f : FillRow) (target : OrderState)
  | updating (f : FillRow) (target : OrderState)
  | closing (f : FillRow) (written : Option OrderState)
  | committed
  | aborted
  deriving DecidableEq

/-- The committed order, who holds the lock of its row, and the transactions. -/
structure Sys (ι : Type) where
  entry : Entry
  lock : Option ι
  stage : ι → Stage

/-- All transactions are open and have done nothing. -/
def start {ι : Type} (e : Entry) : Sys ι := ⟨e, none, fun _ => .begun⟩

variable {ι : Type} [DecidableEq ι]

/-- Transaction `i` gets to a stage; nothing is committed. -/
def Sys.move (s : Sys ι) (i : ι) (st : Stage) : Sys ι :=
  { s with stage := Function.update s.stage i st }

/-- The order with the writes of a transaction. -/
def settled (e : Entry) (f : FillRow) : Option OrderState → Entry
  | some t => Db.withStatus (Db.addFill e f) t
  | none => Db.addFill e f

def Sys.commit (s : Sys ι) (i : ι) (f : FillRow) (written : Option OrderState) : Sys ι where
  entry := settled s.entry f written
  lock := if s.lock = some i then none else s.lock
  stage := Function.update s.stage i .committed

/-- The next statement of transaction `i`; `none` if it is not its turn, or it waits for the lock.
    What the transaction sees of the fills is `addFill` to the committed ones: a row that the
    insert dropped is there already. -/
def step (C : Calls ι) (s : Sys ι) (i : ι) (st : Statement) : Option (Sys ι) :=
  match st, s.stage i with
  | .insert, .begun =>
    match (C.args i).row with
    | some f => some (s.move i (.inserted f))
    | none => some (s.move i .aborted)
  | .sum, .inserted f =>
    some (s.move i (.summed f (Db.fillTarget (Db.addFill s.entry f) C.total)))
  | .select, .summed f target =>
    if s.entry.row.status = target then some (s.move i (.closing f none))
    else some (s.move i (.updating f target))
  | .update, .updating f target =>
    if s.lock = none then
      if isLegal s.entry.row.status target then
        some { s.move i (.closing f (some target)) with lock := some i }
      else some (s.move i .aborted)
    else none
  | .commit, .closing f written => some (s.commit i f written)
  | _, _ => none

/-- A schedule of statements, each at its turn. -/
def run (C : Calls ι) (s : Sys ι) : List (ι × Statement) → Option (Sys ι)
  | [] => some s
  | x :: xs => (step C s x.1 x.2).bind fun s' => run C s' xs

theorem run_snoc {C : Calls ι} {s s' : Sys ι} {xs : List (ι × Statement)} {x : ι × Statement}
    (h : run C s (xs ++ [x]) = some s') :
    ∃ s₁, run C s xs = some s₁ ∧ step C s₁ x.1 x.2 = some s' := by
  induction xs generalizing s with
  | nil =>
    obtain ⟨s₁, h₁, h₂⟩ := Option.bind_eq_some_iff.mp h
    exact ⟨s, rfl, h₁.trans h₂⟩
  | cons y ys ih =>
    obtain ⟨s₁, h₁, h₂⟩ := Option.bind_eq_some_iff.mp h
    obtain ⟨s₂, h₃, h₄⟩ := ih h₂
    exact ⟨s₂, Option.bind_eq_some_iff.mpr ⟨s₁, h₁, h₃⟩, h₄⟩

/-- What one statement can do. -/
inductive Moved (C : Calls ι) (s : Sys ι) (i : ι) : Statement → Sys ι → Prop where
  | insert {f : FillRow} (hs : s.stage i = .begun) (hf : (C.args i).row = some f) :
    Moved C s i .insert (s.move i (.inserted f))
  | refused (hs : s.stage i = .begun) : Moved C s i .insert (s.move i .aborted)
  | sum {f : FillRow} (hs : s.stage i = .inserted f) :
    Moved C s i .sum (s.move i (.summed f (Db.fillTarget (Db.addFill s.entry f) C.total)))
  | same {f : FillRow} {t : OrderState} (hs : s.stage i = .summed f t)
      (ht : s.entry.row.status = t) : Moved C s i .select (s.move i (.closing f none))
  | differs {f : FillRow} {t : OrderState} (hs : s.stage i = .summed f t) :
    Moved C s i .select (s.move i (.updating f t))
  | update {f : FillRow} {t : OrderState} (hs : s.stage i = .updating f t) (hlock : s.lock = none)
      (hl : isLegal s.entry.row.status t = true) :
    Moved C s i .update { s.move i (.closing f (some t)) with lock := some i }
  | guarded {f : FillRow} {t : OrderState} (hs : s.stage i = .updating f t) :
    Moved C s i .update (s.move i .aborted)
  | commit {f : FillRow} {w : Option OrderState} (hs : s.stage i = .closing f w) :
    Moved C s i .commit (s.commit i f w)

theorem step_moved {C : Calls ι} {s s' : Sys ι} {i : ι} {st : Statement}
    (h : step C s i st = some s') : Moved C s i st s' := by
  unfold step at h
  split at h
  · rename_i hs
    split at h
    · rename_i hf
      exact Option.some.inj h ▸ .insert hs hf
    · exact Option.some.inj h ▸ .refused hs
  · rename_i hs
    exact Option.some.inj h ▸ .sum hs
  · rename_i hs
    split at h
    · rename_i ht
      exact Option.some.inj h ▸ .same hs ht
    · exact Option.some.inj h ▸ .differs hs
  · rename_i hs
    split at h
    · rename_i hlock
      split at h
      · rename_i hl
        exact Option.some.inj h ▸ .update hs hlock hl
      · exact Option.some.inj h ▸ .guarded hs
    · cases h
  · rename_i hs
    exact Option.some.inj h ▸ .commit hs
  · cases h

/-- What every statement keeps, every schedule keeps. -/
theorem run_keeps {C : Calls ι} {I : Sys ι → Prop} {s s' : Sys ι} {xs : List (ι × Statement)}
    (hstep : ∀ s i st s', I s → Moved C s i st s' → I s') (h₀ : I s)
    (h : run C s xs = some s') : I s' := by
  induction xs generalizing s with
  | nil => exact Option.some.inj h ▸ h₀
  | cons x xs ih =>
    obtain ⟨s₁, h₁, h₂⟩ := Option.bind_eq_some_iff.mp h
    exact ih (hstep s x.1 x.2 s₁ h₀ (step_moved h₁)) h₂

/-! ## On its own -/

omit [DecidableEq ι] in
@[simp] theorem settled_status (e : Entry) (f : FillRow) (w : Option OrderState) :
    (settled e f w).row.status = w.getD e.row.status := by
  cases w <;> simp [settled]

omit [DecidableEq ι] in
@[simp] theorem settled_fills (e : Entry) (f : FillRow) (w : Option OrderState) :
    (settled e f w).fills = (Db.addFill e f).fills := by
  cases w <;> rfl

/-- A transaction that nobody interrupts does what `apply_fill` does as one step. -/
theorem alone_applyFill {C : Calls ι} {s : Sys ι} {i : ι} {db db' : Db} {cid : String}
    {r : Except Exn OrderState} (hfind : db.find cid = some s.entry) (hlock : s.lock = none)
    (hbegun : s.stage i = .begun)
    (h : db.applyFill cid (C.args i).brokerFillId (C.args i).price (C.args i).quantity
      (C.args i).execTs C.total = (r, db')) :
    ∃ l s', (∀ x ∈ l, x.1 = i) ∧ run C s l = some s' ∧ db'.find cid = some s'.entry ∧
      ((∃ t, r = .ok t) ∧ s'.stage i = .committed ∨
        (∃ er, r = .error er) ∧ s'.stage i = .aborted) := by
  have hkey := Db.find_key hfind
  have haborts {er : Exn} {l : List (ι × Statement)} (hl : ∀ x ∈ l, x.1 = i)
      (hrun : run C s l = some (s.move i .aborted)) (h : (Except.error er, db) = (r, db')) :
      ∃ l s', (∀ x ∈ l, x.1 = i) ∧ run C s l = some s' ∧ db'.find cid = some s'.entry ∧
        ((∃ t, r = .ok t) ∧ s'.stage i = .committed ∨
          (∃ er, r = .error er) ∧ s'.stage i = .aborted) := by
    obtain ⟨rfl, rfl⟩ := Prod.mk.inj h
    exact ⟨l, _, hl, hrun, hfind, .inr ⟨⟨er, rfl⟩, by simp [Sys.move]⟩⟩
  unfold Db.applyFill at h
  rw [hfind] at h
  dsimp only at h
  split at h
  · rename_i hq
    split at h
    · rename_i hp
      have hrow : (C.args i).row = some ⟨(C.args i).brokerFillId, (C.args i).price.numeric,
          (C.args i).quantity, (C.args i).execTs, hq⟩ := by
        rw [FillArgs.row, dif_pos hq, if_pos hp]
      generalize (⟨(C.args i).brokerFillId, (C.args i).price.numeric, (C.args i).quantity,
        (C.args i).execTs, hq⟩ : FillRow) = f at hrow h
      generalize ht : Db.fillTarget (Db.addFill s.entry f) C.total = t at h
      have hfound : (db.set (Db.withStatus (Db.addFill s.entry f) t)).find cid =
          some (Db.withStatus (Db.addFill s.entry f) t) := by
        rw [Db.find_set (x := s.entry) (by simpa [hkey] using hfind)]
        simp [hkey]
      by_cases hsame : s.entry.row.status = t
      · -- the status is right already and no update is sent
        rw [if_pos (by simp [isLegal, hsame])] at h
        obtain ⟨rfl, rfl⟩ := Prod.mk.inj h
        refine ⟨[(i, .insert), (i, .sum), (i, .select), (i, .commit)], s.commit i f none,
          by simp, ?_, ?_, .inl ⟨⟨t, rfl⟩, ?_⟩⟩
        · simp [run, step, hbegun, hrow, Sys.move, Sys.commit, ht, hsame]
        · rw [hfound, withStatus_self (by simpa using hsame)]
          rfl
        · simp [Sys.commit]
      · split at h
        · rename_i hl
          obtain ⟨rfl, rfl⟩ := Prod.mk.inj h
          refine ⟨[(i, .insert), (i, .sum), (i, .select), (i, .update), (i, .commit)],
            s.commit i f (some t), by simp, ?_, ?_, .inl ⟨⟨t, rfl⟩, ?_⟩⟩
          · simp [run, step, hbegun, hrow, Sys.move, Sys.commit, ht, hsame, hlock, hl]
          · rw [hfound]
            rfl
          · simp [Sys.commit]
        · rename_i hl
          refine haborts (l := [(i, .insert), (i, .sum), (i, .select), (i, .update)]) (by simp) ?_ h
          simp [run, step, hbegun, hrow, Sys.move, ht, hsame, hlock, hl]
    · rename_i hp
      have hrow : (C.args i).row = none := by
        rw [FillArgs.row, dif_pos hq, if_neg hp]
      refine haborts (l := [(i, .insert)]) (by simp) ?_ h
      simp [run, step, hbegun, hrow]
  · rename_i hq
    have hrow : (C.args i).row = none := by
      rw [FillArgs.row, dif_neg hq]
    refine haborts (l := [(i, .insert)]) (by simp) ?_ h
    simp [run, step, hbegun, hrow]

/-! ## FILLED is never early and never taken back -/

/-- The row of an open transaction. -/
def Stage.row : Stage → Option FillRow
  | .inserted f => some f
  | .summed f _ => some f
  | .updating f _ => some f
  | .closing f _ => some f
  | _ => none

/-- Its row and the state it is going to write. -/
def Stage.aim : Stage → Option (FillRow × OrderState)
  | .summed f t => some (f, t)
  | .updating f t => some (f, t)
  | .closing f (some t) => some (f, t)
  | _ => none

theorem Stage.row_of_aim {st : Stage} {f : FillRow} {t : OrderState} (h : st.aim = some (f, t)) :
    st.row = some f := by
  unfold Stage.aim at h
  split at h
  all_goals cases h
  all_goals rfl

/-- What holds between any two statements. -/
structure Inv (C : Calls ι) (s : Sys ι) : Prop where
  rows : ∀ i f, (s.stage i).row = some f → (C.args i).row = some f
  lock : ∀ i f t, s.stage i = .closing f (some t) →
    s.lock = some i ∧ isLegal s.entry.row.status t = true
  aims : ∀ i f, (s.stage i).aim = some (f, .filled) → C.total ≤ (Db.addFill s.entry f).filled
  filled : s.entry.row.status = .filled → C.total ≤ s.entry.filled

theorem row_name {a : FillArgs} {f : FillRow} (h : a.row = some f) :
    f.brokerFillId = a.brokerFillId := by
  unfold FillArgs.row at h
  split at h
  · split at h
    · exact Option.some.inj h ▸ rfl
    · cases h
  · cases h

omit [DecidableEq ι] in
theorem inv_start {C : Calls ι} {e : Entry} (h : e.row.status = .filled → C.total ≤ e.filled) :
    Inv C (start e) where
  rows _ _ h := nomatch h
  lock _ _ _ h := nomatch h
  aims _ _ h := nomatch h
  filled := h

/-- One transaction goes on and nothing is committed. -/
theorem Inv.move {C : Calls ι} {s : Sys ι} {i : ι} {st : Stage} (h : Inv C s)
    (hrow : ∀ f, st.row = some f → (C.args i).row = some f)
    (hlock : ∀ f t, st ≠ .closing f (some t))
    (haim : ∀ f, st.aim = some (f, .filled) → C.total ≤ (Db.addFill s.entry f).filled) :
    Inv C (s.move i st) where
  rows j f hj := by
    by_cases hji : j = i
    · subst hji
      exact hrow f (by simpa [Sys.move] using hj)
    · exact h.rows j f (by simpa [Sys.move, hji] using hj)
  lock j f t hj := by
    by_cases hji : j = i
    · subst hji
      exact absurd (by simpa [Sys.move] using hj) (hlock f t)
    · exact h.lock j f t (by simpa [Sys.move, hji] using hj)
  aims j f hj := by
    by_cases hji : j = i
    · subst hji
      exact haim f (by simpa [Sys.move] using hj)
    · exact h.aims j f (by simpa [Sys.move, hji] using hj)
  filled := h.filled

theorem Inv.update {C : Calls ι} {s : Sys ι} {i : ι} {f : FillRow} {t : OrderState} (h : Inv C s)
    (hs : s.stage i = .updating f t) (hlock : s.lock = none)
    (hl : isLegal s.entry.row.status t = true) :
    Inv C { s.move i (.closing f (some t)) with lock := some i } where
  rows j g hj := by
    by_cases hji : j = i
    · subst hji
      exact h.rows j g (by simpa [Sys.move, hs, Stage.row] using hj)
    · exact h.rows j g (by simpa [Sys.move, hji] using hj)
  lock j g u hj := by
    by_cases hji : j = i
    · subst hji
      have heq : f = g ∧ t = u := by simpa [Sys.move] using hj
      exact ⟨rfl, heq.2 ▸ hl⟩
    · have hheld := (h.lock j g u (by simpa [Sys.move, hji] using hj)).1
      rw [hlock] at hheld
      cases hheld
  aims j g hj := by
    by_cases hji : j = i
    · subst hji
      exact h.aims j g (by simpa [Sys.move, hs, Stage.aim] using hj)
    · exact h.aims j g (by simpa [Sys.move, hji] using hj)
  filled := h.filled

theorem Inv.commit {C : Calls ι} {s : Sys ι} {i : ι} {f : FillRow} {w : Option OrderState}
    (h : Inv C s) (hs : s.stage i = .closing f w) : Inv C (s.commit i f w) where
  rows j g hj := by
    by_cases hji : j = i
    · subst hji
      simp [Sys.commit, Stage.row] at hj
    · exact h.rows j g (by simpa [Sys.commit, hji] using hj)
  lock j g u hj := by
    by_cases hji : j = i
    · subst hji
      simp [Sys.commit] at hj
    · -- another one holds the lock, so this one has written no status
      obtain ⟨hheld, hl⟩ := h.lock j g u (by simpa [Sys.commit, hji] using hj)
      cases w with
      | some t =>
        have hmine := (h.lock i f t hs).1
        rw [hheld] at hmine
        exact absurd (Option.some.inj hmine) hji
      | none => simp [Sys.commit, hheld, hji, hl]
  aims j g hj := by
    by_cases hji : j = i
    · subst hji
      simp [Sys.commit, Stage.aim] at hj
    · have hj' : (s.stage j).aim = some (g, .filled) := by simpa [Sys.commit, hji] using hj
      have hne : f.brokerFillId ≠ g.brokerFillId := by
        rw [row_name (h.rows i f (by rw [hs]; rfl)), row_name (h.rows j g (Stage.row_of_aim hj'))]
        exact fun heq => hji (C.distinct heq).symm
      have hmono := (h.aims j g hj').trans (addFill_mono hne)
      cases w with
      | none => exact hmono
      | some t =>
        simp only [Sys.commit, settled, addFill_withStatus, withStatus_filled]
        exact hmono
  filled hfilled := by
    have hsum : (s.commit i f w).entry.filled = (Db.addFill s.entry f).filled := by
      rw [Entry.filled, Entry.filled]
      simp [Sys.commit]
    rw [hsum]
    cases w with
    | none => exact (h.filled (by simpa [Sys.commit] using hfilled)).trans (filled_le_addFill _ _)
    | some t =>
      have ht : t = .filled := by simpa [Sys.commit] using hfilled
      exact h.aims i f (by rw [hs, ht]; rfl)

theorem Inv.moved {C : Calls ι} {s s' : Sys ι} {i : ι} {st : Statement} (h : Inv C s)
    (hm : Moved C s i st s') : Inv C s' := by
  cases hm with
  | insert hs hf =>
    refine h.move (fun g hg => ?_) (fun _ _ => Stage.noConfusion) (fun _ hg => nomatch hg)
    exact Option.some.inj hg ▸ hf
  | refused | guarded =>
    exact h.move (fun _ hg => nomatch hg) (fun _ _ => Stage.noConfusion) (fun _ hg => nomatch hg)
  | @sum f hs =>
    refine h.move (fun g hg => h.rows i g (by rw [hs]; exact hg)) (fun _ _ => Stage.noConfusion) ?_
    intro g hg
    obtain ⟨rfl, ht⟩ := Prod.mk.inj (Option.some.inj hg)
    unfold Db.fillTarget at ht
    split at ht
    · assumption
    · cases ht
  | same hs ht =>
    exact h.move (fun g hg => h.rows i g (by rw [hs]; exact hg)) (fun _ _ => by simp)
      (fun _ hg => nomatch hg)
  | differs hs =>
    exact h.move (fun g hg => h.rows i g (by rw [hs]; exact hg)) (fun _ _ => Stage.noConfusion)
      fun g hg => h.aims i g (by rw [hs]; exact hg)
  | update hs hlock hl => exact h.update hs hlock hl
  | commit hs => exact h.commit hs

/-- A FILLED order stays FILLED. -/
theorem Inv.filled_stays {C : Calls ι} {s s' : Sys ι} {i : ι} {st : Statement} (h : Inv C s)
    (hm : Moved C s i st s') (hf : s.entry.row.status = .filled) :
    s'.entry.row.status = .filled := by
  cases hm with
  | @commit f w hs =>
    cases w with
    | none => simpa [Sys.commit] using hf
    | some t =>
      obtain ⟨-, hl⟩ := h.lock i f t hs
      rw [hf] at hl
      simpa [Sys.commit] using (isLegal_of_terminal rfl hl).symm
  | _ => exact hf

/-! ## The SUM decides -/

/-- Some SUM sees enough: the fills committed before it, with the one of its own transaction. -/
def SumReaches (C : Calls ι) (e : Entry) (xs : List (ι × Statement)) : Prop :=
  ∃ a i b s f, xs = a ++ (i, .sum) :: b ∧ run C (start e) a = some s ∧
    s.stage i = .inserted f ∧ C.total ≤ (Db.addFill s.entry f).filled

theorem SumReaches.append {C : Calls ι} {e : Entry} {xs : List (ι × Statement)}
    (h : SumReaches C e xs) (ys : List (ι × Statement)) : SumReaches C e (xs ++ ys) := by
  obtain ⟨a, i, b, s, f, rfl, hrest⟩ := h
  exact ⟨a, i, b ++ ys, s, f, by simp, hrest⟩

/-- The last statement of a schedule: it is the SUM that sees enough, or an earlier one was. -/
theorem SumReaches.last {C : Calls ι} {e : Entry} {xs : List (ι × Statement)} {x : ι × Statement}
    {s : Sys ι} (h : SumReaches C e (xs ++ [x])) (hrun : run C (start e) xs = some s) :
    SumReaches C e xs ∨ x.2 = .sum ∧ ∃ f, s.stage x.1 = .inserted f ∧
      C.total ≤ (Db.addFill s.entry f).filled := by
  obtain ⟨a, i, b, s₁, f, heq, hrun₁, hs, hle⟩ := h
  rcases List.eq_nil_or_concat b with rfl | ⟨b', y, rfl⟩
  · obtain ⟨rfl, hx⟩ := List.append_inj' heq rfl
    obtain rfl := (List.cons.inj hx).1
    rw [hrun] at hrun₁
    obtain rfl := Option.some.inj hrun₁
    exact .inr ⟨rfl, f, hs, hle⟩
  · have heq' : xs ++ [x] = (a ++ (i, .sum) :: b') ++ [y] := by
      rw [heq]
      simp
    obtain ⟨rfl, -⟩ := List.append_inj' heq' rfl
    exact .inl ⟨a, i, b', s₁, f, rfl, hrun₁, hs, hle⟩

/-- The order is FILLED, or a transaction is going to write that. -/
def Going (s : Sys ι) : Prop :=
  s.entry.row.status = .filled ∨ ∃ i f, (s.stage i).aim = some (f, .filled)

/-- Nothing happens to the transactions that are not at work. -/
theorem Moved.others {C : Calls ι} {s s' : Sys ι} {i j : ι} {st : Statement}
    (h : Moved C s i st s') (hj : j ≠ i) : s'.stage j = s.stage j := by
  cases h with
  | _ => simp [Sys.move, Sys.commit, hj]

theorem Moved.aborted {C : Calls ι} {s s' : Sys ι} {i j : ι} {st : Statement}
    (h : Moved C s i st s') (hj : s.stage j = .aborted) : s'.stage j = .aborted := by
  by_cases hji : j = i
  · subst hji
    cases h with
    | insert hs | refused hs | sum hs | same hs | differs hs | update hs | guarded hs
    | commit hs =>
      rw [hs] at hj
      cases hj
  · rw [h.others hji, hj]

/-- A transaction on its way to FILLED gets there, or the guard stops it. -/
theorem Going.moved {C : Calls ι} {s s' : Sys ι} {i : ι} {st : Statement} (h : Going s)
    (hinv : Inv C s) (hm : Moved C s i st s') : Going s' ∨ ∃ j, s'.stage j = .aborted := by
  rcases h with hf | ⟨j, f, haim⟩
  · exact .inl (.inl (hinv.filled_stays hm hf))
  by_cases hji : j = i
  · subst hji
    cases hm with
    | insert hs | refused hs | sum hs =>
      rw [hs] at haim
      cases haim
    | same hs ht =>
      rw [hs] at haim
      obtain ⟨-, rfl⟩ := Prod.mk.inj (Option.some.inj haim)
      exact .inl (.inl ht)
    | differs hs | update hs =>
      rw [hs] at haim
      exact .inl (.inr ⟨j, f, by simpa [Sys.move, Stage.aim] using haim⟩)
    | guarded hs => exact .inr ⟨j, by simp [Sys.move]⟩
    | @commit g w hs =>
      rw [hs] at haim
      cases w with
      | none => cases haim
      | some t =>
        obtain ⟨-, rfl⟩ := Prod.mk.inj (Option.some.inj haim)
        exact .inl (.inl (by simp [Sys.commit]))
  · exact .inl (.inr ⟨j, f, by rw [hm.others hji, haim]⟩)

/-- Only a SUM that sees enough sets out for FILLED. -/
theorem Going.source {C : Calls ι} {s s' : Sys ι} {i : ι} {st : Statement} (h : Going s')
    (hm : Moved C s i st s') :
    Going s ∨ st = .sum ∧ ∃ f, s.stage i = .inserted f ∧
      C.total ≤ (Db.addFill s.entry f).filled := by
  rcases h with hf | ⟨j, f, haim⟩
  · cases hm with
    | @commit g w hs =>
      cases w with
      | none => exact .inl (.inl (by simpa [Sys.commit] using hf))
      | some t =>
        have ht : t = .filled := by simpa [Sys.commit] using hf
        exact .inl (.inr ⟨i, g, by rw [hs, ht]; rfl⟩)
    | _ => exact .inl (.inl hf)
  by_cases hji : j = i
  · subst hji
    cases hm with
    | @sum g hs =>
      have htarget : Db.fillTarget (Db.addFill s.entry g) C.total = .filled := by
        simp only [Sys.move, Function.update_self, Stage.aim] at haim
        exact (Prod.mk.inj (Option.some.inj haim)).2
      refine .inr ⟨rfl, g, hs, ?_⟩
      unfold Db.fillTarget at htarget
      split at htarget
      · assumption
      · cases htarget
    | differs hs | update hs =>
      exact .inl (.inr ⟨j, f, by simpa [Sys.move, Stage.aim, hs] using haim⟩)
    | insert | refused | same | guarded | commit => simp [Sys.move, Sys.commit, Stage.aim] at haim
  · rw [hm.others hji] at haim
    exact .inl (.inr ⟨j, f, haim⟩)

section Run

variable {C : Calls ι} {e : Entry} {xs : List (ι × Statement)} {s : Sys ι}

theorem run_inv (h₀ : e.row.status = .filled → C.total ≤ e.filled)
    (h : run C (start e) xs = some s) : Inv C s :=
  run_keeps (fun _ _ _ _ hI hm => hI.moved hm) (inv_start h₀) h

/-- After a SUM that sees enough the order is going to be FILLED, if nobody is stopped. -/
theorem going_of_sum_reaches (h₀ : e.row.status = .filled → C.total ≤ e.filled)
    (h : run C (start e) xs = some s) (hsum : SumReaches C e xs) :
    Going s ∨ ∃ j, s.stage j = .aborted := by
  induction xs using List.reverseRecOn generalizing s with
  | nil =>
    obtain ⟨a, i, b, s₁, f, heq, -⟩ := hsum
    simp at heq
  | append_singleton xs x ih =>
    obtain ⟨s₁, hrun, hstep⟩ := run_snoc h
    have hm := step_moved hstep
    rcases hsum.last hrun with hbefore | ⟨hx, f, hs, hle⟩
    · rcases ih hrun hbefore with hgoing | ⟨j, hj⟩
      · exact hgoing.moved (run_inv h₀ hrun) hm
      · exact .inr ⟨j, hm.aborted hj⟩
    · rw [hx] at hstep
      simp only [step, hs] at hstep
      refine .inl (.inr ⟨x.1, f, ?_⟩)
      rw [← Option.some.inj hstep]
      simp [Sys.move, Stage.aim, Db.fillTarget, hle]

/-- An order that is FILLED was so at the start, or some SUM saw enough. -/
theorem sum_reaches_of_going (h : run C (start e) xs = some s) (hgoing : Going s) :
    e.row.status = .filled ∨ SumReaches C e xs := by
  induction xs using List.reverseRecOn generalizing s with
  | nil =>
    obtain rfl := Option.some.inj h
    rcases hgoing with hf | ⟨i, f, haim⟩
    · exact .inl hf
    · cases haim
  | append_singleton xs x ih =>
    obtain ⟨s₁, hrun, hstep⟩ := run_snoc h
    rcases hgoing.source (step_moved hstep) with hbefore | ⟨hx, f, hs, hle⟩
    · exact (ih hrun hbefore).imp_right fun hsum => hsum.append [x]
    · exact .inr ⟨xs, x.1, [], s₁, f, by rw [← hx], hrun, hs, hle⟩

end Run

/-! ## What is recorded -/

/-- What a call adds to the order: nothing if its name is taken. -/
def Calls.added (C : Calls ι) (e : Entry) (i : ι) : Int :=
  match (C.args i).row with
  | some f => if f.brokerFillId ∈ e.fills.map FillRow.brokerFillId then 0 else f.quantity
  | none => 0

/-- The committed part of the calls. -/
def committedSum [Fintype ι] (C : Calls ι) (e : Entry) (s : Sys ι) : Int :=
  ∑ i, if s.stage i = .committed then C.added e i else 0

/-- The committed fills are those at the start and those of the committed calls. -/
structure Counted [Fintype ι] (C : Calls ι) (e : Entry) (s : Sys ι) : Prop where
  names : ∀ i, (∃ g ∈ s.entry.fills, g.brokerFillId = (C.args i).brokerFillId) ↔
    (∃ g ∈ e.fills, g.brokerFillId = (C.args i).brokerFillId) ∨ s.stage i = .committed
  sum : s.entry.filled = e.filled + committedSum C e s

omit [DecidableEq ι] in
theorem counted_start [Fintype ι] (C : Calls ι) (e : Entry) : Counted C e (start e) where
  names _ := by simp [start]
  sum := by simp [start, committedSum]

/-- Before the commit nothing changes for the others. -/
theorem Moved.uncommitted {C : Calls ι} {s s' : Sys ι} {i : ι} {st : Statement}
    (h : Moved C s i st s') (hst : st ≠ .commit) :
    s'.entry = s.entry ∧ ∀ j, s'.stage j = .committed ↔ s.stage j = .committed := by
  have hmove {st' : Stage} (hs : s.stage i ≠ .committed) (hs' : st' ≠ .committed) (j : ι) :
      Function.update s.stage i st' j = .committed ↔ s.stage j = .committed := by
    by_cases hji : j = i
    · subst hji
      simp [hs, hs']
    · simp [hji]
  cases h with
  | insert hs | refused hs | sum hs | same hs | differs hs | update hs | guarded hs =>
    exact ⟨rfl, hmove (by simp [hs]) (by simp)⟩
  | commit => exact absurd rfl hst

theorem Counted.commit [Fintype ι] {C : Calls ι} {e : Entry} {s : Sys ι} {i : ι} {f : FillRow}
    {w : Option OrderState} (h : Counted C e s) (hrow : (C.args i).row = some f)
    (hs : s.stage i = .closing f w) : Counted C e (s.commit i f w) where
  names j := by
    have hname := row_name hrow
    have hfills : (s.commit i f w).entry.fills = (Db.addFill s.entry f).fills := settled_fills ..
    rw [hfills, addFill_named, h.names j, hname, or_assoc]
    refine or_congr_right ?_
    by_cases hji : j = i
    · subst hji
      simp [Sys.commit]
    · have hne : (C.args i).brokerFillId ≠ (C.args j).brokerFillId :=
        fun heq => hji (C.distinct heq).symm
      simp [Sys.commit, hji, hne]
  sum := by
    have hsum : (s.commit i f w).entry.filled = (Db.addFill s.entry f).filled := by
      rw [Entry.filled, Entry.filled]
      simp [Sys.commit]
    have hadd : committedSum C e (s.commit i f w) = committedSum C e s + C.added e i := by
      have hterm : ∀ j, (if (s.commit i f w).stage j = .committed then C.added e j else 0) =
          (if s.stage j = .committed then C.added e j else 0) +
            if j = i then C.added e j else 0 := by
        intro j
        by_cases hji : j = i
        · subst hji
          simp [Sys.commit, hs]
        · simp [Sys.commit, hji]
      rw [committedSum, committedSum, Finset.sum_congr rfl fun j _ => hterm j,
        Finset.sum_add_distrib, Finset.sum_ite_eq', if_pos (Finset.mem_univ i)]
    have hadded : C.added e i =
        if f.brokerFillId ∈ e.fills.map FillRow.brokerFillId then 0 else f.quantity := by
      simp [Calls.added, hrow]
    have hnames := h.names i
    rw [← row_name hrow, hs] at hnames
    rw [hsum, hadd, hadded]
    by_cases hold : ∃ g ∈ s.entry.fills, g.brokerFillId = f.brokerFillId
    · have hmem : f.brokerFillId ∈ e.fills.map FillRow.brokerFillId :=
        List.mem_map.mpr ((hnames.mp hold).resolve_right Stage.noConfusion)
      obtain ⟨g, hg, hg'⟩ := hold
      rw [addFill_old hg hg', if_pos hmem, h.sum]
      omega
    · have hmem : f.brokerFillId ∉ e.fills.map FillRow.brokerFillId :=
        fun hmem => hold (hnames.mpr (.inl (List.mem_map.mp hmem)))
      push Not at hold
      rw [(addFill_new hold).2, if_neg hmem, h.sum]
      omega

theorem Counted.moved [Fintype ι] {C : Calls ι} {e : Entry} {s s' : Sys ι} {i : ι}
    {st : Statement} (h : Counted C e s) (hinv : Inv C s) (hm : Moved C s i st s') :
    Counted C e s' := by
  by_cases hst : st = .commit
  · subst hst
    cases hm with
    | @commit f w hs => exact h.commit (hinv.rows i f (by rw [hs]; rfl)) hs
  · obtain ⟨hentry, hsame⟩ := hm.uncommitted hst
    exact ⟨fun j => by rw [hentry, hsame j]; exact h.names j,
      by simp only [committedSum, hentry, hsame]; exact h.sum⟩

/-- Once every transaction has committed, the status says FILLED exactly for a filled order if and
    only if the fills together do not reach the total, did so at the start, or some transaction took
    its SUM when those committed and its own did. -/
theorem filled_iff_sum_reaches [Fintype ι] {C : Calls ι} {e : Entry} {xs : List (ι × Statement)}
    {s : Sys ι} (hstart : e.row.status = .filled ↔ C.total ≤ e.filled)
    (h : run C (start e) xs = some s) (hall : ∀ i, s.stage i = .committed) :
    (s.entry.row.status = .filled ↔ C.total ≤ s.entry.filled) ↔
      e.filled + ∑ i, C.added e i < C.total ∨ C.total ≤ e.filled ∨ SumReaches C e xs := by
  have hinv := run_inv hstart.mp h
  have hcounted : Inv C s ∧ Counted C e s :=
    run_keeps (I := fun s => Inv C s ∧ Counted C e s)
      (fun _ _ _ _ hI hm => ⟨hI.1.moved hm, hI.2.moved hI.1 hm⟩)
      ⟨inv_start hstart.mp, counted_start C e⟩ h
  have hsum : s.entry.filled = e.filled + ∑ i, C.added e i := by
    rw [hcounted.2.sum, committedSum]
    simp [hall]
  have hend : s.entry.row.status = .filled ↔ Going s := by
    refine ⟨.inl, fun hgoing => hgoing.resolve_right ?_⟩
    rintro ⟨i, f, haim⟩
    rw [hall i] at haim
    cases haim
  have hnone : ¬ ∃ j, s.stage j = .aborted := by
    rintro ⟨j, hj⟩
    rw [hall j] at hj
    cases hj
  constructor
  · intro hiff
    by_cases hle : C.total ≤ s.entry.filled
    · rcases sum_reaches_of_going h (hend.mp (hiff.mpr hle)) with hf | hreach
      · exact .inr (.inl (hstart.mp hf))
      · exact .inr (.inr hreach)
    · exact .inl (by omega)
  · intro hcond
    refine ⟨hinv.filled, fun hle => ?_⟩
    rcases hcond with hlt | hle₀ | hreach
    · omega
    · refine (run_keeps (I := fun s => Inv C s ∧ s.entry.row.status = .filled) ?_
        ⟨inv_start hstart.mp, hstart.mpr hle₀⟩ h).2
      exact fun _ _ _ _ hI hm => ⟨hI.1.moved hm, hI.1.filled_stays hm hI.2⟩
    · exact hend.mpr ((going_of_sum_reaches hstart.mp h hreach).resolve_right hnone)

/-! ## Two fills -/

/-- Fills of 60 and 40 for an order of 100. -/
def twoFills : Calls Bool where
  args b := ⟨if b then "F2" else "F1", ⟨10, 0⟩, if b then 40 else 60, 0⟩
  total := 100
  distinct := by decide

/-- The order, NEW at the venue. -/
def newEntry : Entry where
  row :=
    { clientOrderId := "aaaaaaaa-0000-4000-8000-00000000000a", broker := .liberator,
      brokerOrderId := some "V1", account := "12345672", symbol := "PTT", market := .set,
      side := .buy, orderType := .limit, price := some ⟨10, 0⟩, stopPrice := none, quantity := 100,
      displayQty := none, tif := .day, positionEffect := none, status := .new,
      rejectReason := none, strategyId := none, createdAt := 0 }
  fills := []
  quantity_pos := by decide
  uq := List.nodup_nil

/-- Both take their SUM before either commits. -/
def crossed : List (Bool × Statement) :=
  [(false, .insert), (true, .insert), (false, .sum), (true, .sum), (false, .select),
    (true, .select), (false, .update), (false, .commit), (true, .update), (true, .commit)]

/-- The second begins once the first has committed. -/
def oneByOne : List (Bool × Statement) :=
  [(false, .insert), (false, .sum), (false, .select), (false, .update), (false, .commit),
    (true, .insert), (true, .sum), (true, .select), (true, .update), (true, .commit)]

/-- One by one, the second SUM sees both fills. -/
theorem oneByOne_sum_reaches :
    ∃ s, run twoFills (start newEntry) oneByOne = some s ∧ s.entry.row.status = .filled ∧
      s.entry.filled = 100 ∧ SumReaches twoFills newEntry oneByOne := by
  have h : (run twoFills (start newEntry) oneByOne).any (fun s =>
      decide (∀ i, s.stage i = .committed) && decide (s.entry.filled = 100) &&
        decide (s.entry.row.status = .filled)) = true := by decide +kernel
  obtain ⟨s, hs, h⟩ := (Option.any_eq_true _ _).mp h
  simp only [Bool.and_eq_true, decide_eq_true_eq] at h
  obtain ⟨⟨hall, hsum⟩, hfilled⟩ := h
  have hcond := (filled_iff_sum_reaches (by decide +kernel) hs hall).mp
    (iff_of_true hfilled (by rw [hsum]; decide))
  refine ⟨s, hs, hfilled, hsum, ?_⟩
  exact (hcond.resolve_left (by decide +kernel)).resolve_left (by decide +kernel)

/-- Crossed, each SUM misses the other fill, and 100 of 100 are PARTIALLY_FILLED for good. -/
theorem crossed_not_filled :
    ∃ s, run twoFills (start newEntry) crossed = some s ∧ (∀ i, s.stage i = .committed) ∧
      s.entry.filled = 100 ∧ twoFills.total = 100 ∧ s.entry.row.status = .partiallyFilled := by
  have h : (run twoFills (start newEntry) crossed).any (fun s =>
      decide (∀ i, s.stage i = .committed) && decide (s.entry.filled = 100) &&
        decide (s.entry.row.status = .partiallyFilled)) = true := by decide +kernel
  obtain ⟨s, hs, h⟩ := (Option.any_eq_true _ _).mp h
  simp only [Bool.and_eq_true, decide_eq_true_eq] at h
  exact ⟨s, hs, h.1.1, h.1.2, rfl, h.2⟩

end Transactions

end ExecutionEngine
