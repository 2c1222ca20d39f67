/-
  A bounded cache that evicts the least recently touched key. Nothing here names an
  engine.

  The cache is a list of pairs, the most recently touched last. `put` writes a value and
  moves its key to the end, and does for a touch without a write as well; `evict` drops
  from the front until the bound is met. `Holds` is what the cache stands for: the keys
  are the last `cap` of all that were ever touched, in the order of their last touch, and
  the value of each is the last one written. Writing (`Holds.write`) and touching what is
  there (`Holds.touch`) keep it.

  A key outside the cache is touched by a write only, so the cache need not remember the
  keys it has dropped: `window_moved` says that it makes no difference.
-/
import Mathlib.Data.List.Dedup
import ExecutionEngine.Feed.Ring
import ExecutionEngine.Containers.Odict

namespace Lru

variable {κ β : Type} [DecidableEq κ]

/-- `cache[k] = v; cache.move_to_end(k)`. -/
def put (k : κ) (v : β) (cache : List (κ × β)) : List (κ × β) := Odict.pop k cache ++ [(k, v)]

/-- `while len(cache) > cap: cache.popitem(last=False)`. -/
def evict (cap : Nat) : List (κ × β) → List (κ × β)
  | [] => []
  | x :: rest => if cap < (x :: rest).length then evict cap rest else x :: rest

/-- The keys in the order of their last touch, after one more touch. -/
def moved (k : κ) (recency : List κ) : List κ := recency.filter (· ≠ k) ++ [k]

omit [DecidableEq κ] in
theorem evict_eq (cap : Nat) (cache : List (κ × β)) : evict cap cache = Ring.window cap cache := by
  induction cache with
  | nil => rw [evict, Ring.window_nil]
  | cons x rest ih =>
    rw [evict, ih, Ring.window, Ring.window]
    by_cases h : cap < (x :: rest).length
    · have hdrop : (x :: rest).length - cap = rest.length - cap + 1 := by
        rw [List.length_cons] at h ⊢
        omega
      rw [if_pos h, hdrop, List.drop_succ_cons]
    · have hdrop : (x :: rest).length - cap = 0 := by omega
      rw [if_neg h, hdrop, List.drop_zero]

theorem keys_put (k : κ) (v : β) (cache : List (κ × β)) :
    (put k v cache).map Prod.fst = moved k (cache.map Prod.fst) := by
  rw [put, moved, List.map_append, Odict.pop, List.filter_map]
  rfl

/-- The last touch of a key is where its only occurrence is. -/
theorem dedup_snoc (touches : List κ) (k : κ) : (touches ++ [k]).dedup = moved k touches.dedup := by
  unfold moved
  induction touches with
  | nil => rfl
  | cons j touches ih =>
    rw [List.cons_append, List.dedup_cons, List.dedup_cons, ih]
    by_cases hk : j = k
    · subst hk
      rw [if_pos (List.mem_append_right _ (List.mem_singleton_self j))]
      split
      · rfl
      · rw [List.filter_cons_of_neg (by simp)]
    · have hmem : j ∈ touches ++ [k] ↔ j ∈ touches := by simp [hk]
      by_cases hj : j ∈ touches
      · rw [if_pos hj, if_pos (hmem.mpr hj)]
      · rw [if_neg hj, if_neg (mt hmem.mp hj), List.filter_cons_of_pos (by simpa using hk),
          List.cons_append]

/-- What fell out of the window makes no difference to what is in it after the next touch. -/
theorem window_moved {recency : List κ} (hnodup : recency.Nodup) (cap : Nat) (k : κ) :
    Ring.window cap (moved k (Ring.window cap recency)) = Ring.window cap (moved k recency) := by
  have hsplit : recency = recency.take (recency.length - cap) ++ Ring.window cap recency :=
    (List.take_append_drop _ _).symm
  have hlen : (Ring.window cap recency).length = recency.length - (recency.length - cap) :=
    List.length_drop
  generalize recency.take (recency.length - cap) = front at hsplit
  generalize Ring.window cap recency = back at hsplit hlen ⊢
  -- at most one key of the window goes
  have hone : back.length ≤ (back.filter (· ≠ k)).length + 1 := by
    have hcount := List.length_eq_length_filter_add (l := back) (· ≠ k)
    have hk : (back.filter fun j => !decide (j ≠ k)).length ≤ 1 := by
      rw [hsplit] at hnodup
      have hle := List.nodup_iff_count_le_one.mp (List.nodup_append.mp hnodup).2.1 k
      rw [List.count_eq_length_filter] at hle
      refine Nat.le_trans (Nat.le_of_eq ?_) hle
      congr 1
      exact List.filter_congr fun j _ => by by_cases h : j = k <;> simp [h]
    omega
  have hfront : front.length + back.length = recency.length := by
    rw [hsplit, List.length_append]
  unfold moved
  rw [hsplit, List.filter_append, List.append_assoc]
  generalize hkept : back.filter (· ≠ k) ++ [k] = kept
  have hkeptlen : kept.length = (back.filter (· ≠ k)).length + 1 := by
    rw [← hkept, List.length_append, List.length_singleton]
  by_cases hroom : front = []
  · rw [hroom]
    rfl
  · have hpos := List.length_pos_iff.mpr hroom
    have hfull : cap ≤ kept.length := by omega
    unfold Ring.window
    have hdrop : (front.filter (· ≠ k) ++ kept).length - cap =
        (front.filter (· ≠ k)).length + (kept.length - cap) := by
      rw [List.length_append]
      omega
    rw [hdrop, ← List.drop_drop, List.drop_left]

/-! ## What the cache stands for -/

/-- These keys have been touched, oldest first, and these values written. -/
structure Holds (cap : Nat) (touches : List κ) (writes cache : List (κ × β)) : Prop where
  keys : cache.map Prod.fst = Ring.window cap touches.dedup
  values : ∀ p ∈ cache, (writes.filter fun w => w.1 = p.1).getLast? = some p

section Steps

variable {cap : Nat} {touches : List κ} {writes cache : List (κ × β)} {k : κ} {v : β}

theorem holds_nil (cap : Nat) : Holds cap ([] : List κ) ([] : List (κ × β)) [] :=
  ⟨(Ring.window_nil cap).symm, fun _ h => absurd h List.not_mem_nil⟩

theorem Holds.nodup (h : Holds cap touches writes cache) : (cache.map Prod.fst).Nodup := by
  rw [h.keys]
  exact (List.nodup_dedup touches).sublist (List.drop_sublist _ _)

/-- The cache is as large as it may be, or has every key. -/
theorem Holds.length (h : Holds cap touches writes cache) :
    cache.length = min cap touches.dedup.length := by
  have hlen := congrArg List.length h.keys
  rw [List.length_map, Ring.window, List.length_drop] at hlen
  omega

theorem Holds.keys_moved (h : Holds cap touches writes cache) (k : κ) (v : β) :
    (evict cap (put k v cache)).map Prod.fst = Ring.window cap (touches ++ [k]).dedup := by
  have hlen : (put k v cache).length = ((put k v cache).map Prod.fst).length :=
    (List.length_map _).symm
  rw [evict_eq, Ring.window, List.map_drop, hlen, keys_put, h.keys, dedup_snoc]
  exact window_moved (List.nodup_dedup touches) cap k

theorem mem_put {p : κ × β} : p ∈ put k v cache ↔ (p ∈ cache ∧ p.1 ≠ k) ∨ p = (k, v) := by
  rw [put, List.mem_append, Odict.pop, List.mem_filter, decide_eq_true_iff, List.mem_singleton]

/-- A key is written, and touched by that. -/
theorem Holds.write (h : Holds cap touches writes cache) (k : κ) (v : β) :
    Holds cap (touches ++ [k]) (writes ++ [(k, v)]) (evict cap (put k v cache)) where
  keys := h.keys_moved k v
  values p hp := by
    rw [evict_eq] at hp
    rw [List.filter_append]
    rcases mem_put.mp ((List.drop_sublist _ _).subset hp) with ⟨hold, hne⟩ | rfl
    · rw [List.filter_cons_of_neg (by simpa using hne.symm), List.filter_nil, List.append_nil]
      exact h.values p hold
    · rw [List.filter_cons_of_pos (by simp), List.filter_nil, List.getLast?_concat]

/-- A key that is there is touched. -/
theorem Holds.touch (h : Holds cap touches writes cache) (hmem : (k, v) ∈ cache) :
    Holds cap (touches ++ [k]) writes (put k v cache) where
  keys := by
    have hroom : cache.length ≤ cap := by
      have := h.length
      omega
    have hlen : (put k v cache).length ≤ cap := by
      have hless : (Odict.pop k cache).length < cache.length :=
        List.length_filter_lt_length_iff_exists.mpr ⟨(k, v), hmem, by simp⟩
      rw [put, List.length_append, List.length_singleton]
      omega
    have hkeys := h.keys_moved k v
    rwa [evict_eq, Ring.window, Nat.sub_eq_zero_of_le hlen, List.drop_zero] at hkeys
  values p hp := by
    rcases mem_put.mp hp with ⟨hold, -⟩ | rfl
    · exact h.values p hold
    · exact h.values (k, v) hmem

end Steps

end Lru
