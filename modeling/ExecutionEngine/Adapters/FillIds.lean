/-
  The texts of fill ids.

  A reconciled fill is named by the venue's number and its cumulative counter, a
  simulated one by the order and a running index. The counter can be read back
  from the text (`fillId_inj`), and a simulated id is never one of a counter that
  is not negative (`simFillId_fillId`).
-/
import ExecutionEngine.Adapters.Reconcile
import ExecutionEngine.Adapters.Sim

namespace ExecutionEngine

open Reconcile SimAdapter

/-! ## Decimal texts -/

theorem isDigit_of_mem_repr {n : Nat} {c : Char} (h : c ∈ (Nat.repr n).toList) :
    c.isDigit = true := by
  rw [Nat.repr, String.toList_ofList] at h
  exact Nat.isDigit_of_mem_toDigits (by decide) (by decide) h

theorem repr_inj {m n : Nat} (h : Nat.repr m = Nat.repr n) : m = n := by
  have hdigits : Nat.toDigits 10 m = Nat.toDigits 10 n := by
    have hlist := congrArg String.toList h
    rwa [Nat.repr, Nat.repr, String.toList_ofList, String.toList_ofList] at hlist
  simpa using congrArg (fun ds => Nat.ofDigitChars 10 ds 0) hdigits

theorem minus_not_mem_repr (n : Nat) : '-' ∉ (Nat.repr n).toList :=
  fun h => absurd (isDigit_of_mem_repr h) (by decide)

theorem toString_int_inj {a b : Int} (h : toString a = toString b) : a = b := by
  change Int.repr a = Int.repr b at h
  cases a with
  | ofNat m =>
    cases b with
    | ofNat n => exact congrArg Int.ofNat (repr_inj h)
    | negSucc n =>
      have hmem : '-' ∈ (Nat.repr m).toList := by
        change Nat.repr m = "-" ++ Nat.repr (n + 1) at h
        rw [h, String.toList_append]
        exact List.mem_append_left _ (by decide)
      exact absurd hmem (minus_not_mem_repr m)
  | negSucc m =>
    cases b with
    | ofNat n =>
      have hmem : '-' ∈ (Nat.repr n).toList := by
        change "-" ++ Nat.repr (m + 1) = Nat.repr n at h
        rw [← h, String.toList_append]
        exact List.mem_append_left _ (by decide)
      exact absurd hmem (minus_not_mem_repr n)
    | negSucc n =>
      change "-" ++ Nat.repr (m + 1) = "-" ++ Nat.repr (n + 1) at h
      have hlist := congrArg String.toList h
      rw [String.toList_append, String.toList_append] at hlist
      have hrepr := String.toList_inj.mp (List.append_cancel_left hlist)
      have hmn := repr_inj hrepr
      rw [Nat.succ_injective hmn]

theorem colon_not_mem_toString (m : Int) : ':' ∉ (toString m).toList := by
  intro h
  change ':' ∈ (Int.repr m).toList at h
  cases m with
  | ofNat n => exact absurd (isDigit_of_mem_repr h) (by decide)
  | negSucc n =>
    change ':' ∈ ("-" ++ Nat.repr (n + 1)).toList at h
    rw [String.toList_append, List.mem_append] at h
    rcases h with h | h
    · exact absurd h (by decide)
    · exact absurd (isDigit_of_mem_repr h) (by decide)

/-! ## Fill ids -/

/-- A list that ends in `b` and then a run of `p`: the run is what can be taken from its end. -/
theorem takeWhile_reverse {p : Char → Bool} {as bs : List Char} {b : Char}
    (hbs : ∀ c ∈ bs, p c = true) (hb : p b = false) :
    (as ++ b :: bs).reverse.takeWhile p = bs.reverse ∧
      (as ++ b :: bs).reverse.dropWhile p = b :: as.reverse := by
  have hrev : (as ++ b :: bs).reverse = bs.reverse ++ (b :: as.reverse) := by simp
  have hall : ∀ c ∈ bs.reverse, p c = true := fun c hc => hbs c (List.mem_reverse.mp hc)
  rw [hrev, List.takeWhile_append_of_pos hall, List.dropWhile_append_of_pos hall]
  simp [hb]

theorem fillId_toList (no : String) (m : Int) :
    (fillId no m).toList = no.toList ++ ':' :: (toString m).toList := by
  rw [fillId, String.toList_append, String.toList_append, List.append_assoc]
  rfl

/-- The counter of a fill id is determined by its text. -/
theorem fillId_inj {no no' : String} {m m' : Int} (h : fillId no m = fillId no' m') : m = m' := by
  have hstop (m : Int) : ∀ c ∈ (toString m).toList, (c ≠ ':' : Bool) = true := by
    intro c hc
    simp only [decide_eq_true_eq]
    rintro rfl
    exact colon_not_mem_toString m hc
  have hlist := congrArg String.toList h
  rw [fillId_toList, fillId_toList] at hlist
  have hrun := congrArg (fun l => l.reverse.takeWhile fun c => (c ≠ ':' : Bool)) hlist
  rw [(takeWhile_reverse (hstop m) (by decide)).1, (takeWhile_reverse (hstop m') (by decide)).1]
    at hrun
  exact toString_int_inj (String.toList_inj.mp (List.reverse_injective hrun))

/-- A simulated fill id can only be the id of a negative counter. -/
theorem simFillId_fillId {cid no : String} {i : Nat} {m : Int}
    (h : simFillId cid i = fillId no m) : m < 0 := by
  cases m with
  | negSucc n => exact Int.negSucc_lt_zero n
  | ofNat n =>
    -- both texts end in digits, behind different marks
    have hsim : (simFillId cid i).toList =
        ("SIMF-" ++ cidPrefix cid).toList ++ '-' :: (Nat.repr i).toList := by
      rw [simFillId, String.toList_append, String.toList_append, List.append_assoc]
      rfl
    have hlist := congrArg String.toList h
    rw [hsim, fillId_toList] at hlist
    have hrest := congrArg (fun l => l.reverse.dropWhile Char.isDigit) hlist
    change _ = ((no.toList ++ ':' :: (Nat.repr n).toList).reverse.dropWhile _) at hrest
    rw [(takeWhile_reverse (fun _ => isDigit_of_mem_repr) (by decide)).2,
      (takeWhile_reverse (fun _ => isDigit_of_mem_repr) (by decide)).2] at hrest
    cases (List.cons.inj hrest).1

end ExecutionEngine
