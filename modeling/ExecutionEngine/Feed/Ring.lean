/-
  A bounded window over a numbered log. Nothing here names an engine.

  `push` is the append of a ring of `cap` places, and the ring always holds the last
  `cap` entries of everything pushed (`push_window`). In a log that is numbered from 1
  an entry's number says how many came before it, so what a reader who has seen the
  entries up to `c` still finds in the ring is a suffix of the log (`replay_window`),
  and the first number left in the ring tells whether it missed any (`lost_iff`).
-/
import Mathlib.Data.List.Basic

namespace Ring

variable {α : Type}

/-- Append to a ring of `cap` places, the oldest entry falling off a full one. -/
def push (cap : Nat) (ring : List α) (a : α) : List α :=
  (ring ++ [a]).drop (ring.length + 1 - cap)

/-- The last `cap` entries of a log. -/
def window (cap : Nat) (log : List α) : List α := log.drop (log.length - cap)

/-- What has fallen off. -/
def evicted (cap : Nat) (log : List α) : List α := log.take (log.length - cap)

@[simp] theorem window_nil (cap : Nat) : window cap ([] : List α) = [] := by simp [window]

/-- Pushing keeps the last `cap` entries of everything pushed. -/
theorem push_window (cap : Nat) (log : List α) (a : α) :
    push cap (window cap log) a = window cap (log ++ [a]) := by
  have hlen : (window cap log).length = log.length - (log.length - cap) := List.length_drop
  have hsnoc : window cap log ++ [a] = (log ++ [a]).drop (log.length - cap) := by
    rw [List.drop_append_of_le_length (Nat.sub_le ..)]
    rfl
  have hdrop : log.length - cap + ((window cap log).length + 1 - cap) =
      (log ++ [a]).length - cap := by
    rw [hlen, List.length_append, List.length_singleton]
    omega
  rw [push, hsnoc, List.drop_drop, hdrop]
  rfl

/-- A ring is the window of what it has and the new entry. -/
theorem push_eq_window (cap : Nat) (ring : List α) (a : α) :
    push cap ring a = window cap (ring ++ [a]) := by
  rw [push, window, List.length_append, List.length_singleton]

/-! ## Numbered logs -/

variable {seq : α → Nat}

/-- The entries are numbered 1, 2, 3 and so on. -/
def Numbered (seq : α → Nat) (log : List α) : Prop :=
  ∀ n a, log[n]? = some a → seq a = n + 1

theorem numbered_nil : Numbered seq ([] : List α) := fun n a h => by simp at h

theorem Numbered.snoc {log : List α} {a : α} (h : Numbered seq log)
    (ha : seq a = log.length + 1) : Numbered seq (log ++ [a]) := by
  intro n b hb
  rcases Nat.lt_trichotomy n log.length with hn | rfl | hn
  · rw [List.getElem?_append_left hn] at hb
    exact h n b hb
  · rw [List.getElem?_concat_length] at hb
    obtain rfl := Option.some.inj hb
    exact ha
  · rw [List.getElem?_eq_none (by simp; omega)] at hb
    cases hb

/-- The entry's number and its place. -/
theorem Numbered.place {log : List α} (h : Numbered seq log) {a : α} (ha : a ∈ log) :
    1 ≤ seq a ∧ seq a ≤ log.length ∧ log[seq a - 1]? = some a := by
  obtain ⟨n, hn, rfl⟩ := List.mem_iff_getElem.mp ha
  have hseq := h n log[n] (List.getElem?_eq_getElem hn)
  rw [hseq]
  exact ⟨by omega, by omega, List.getElem?_eq_getElem hn⟩

/-- The entries come in the order of their numbers. -/
theorem Numbered.increasing {log : List α} (h : Numbered seq log) :
    log.Pairwise fun a b => seq a < seq b := by
  rw [List.pairwise_iff_getElem]
  intro i j hi hj hij
  rw [h i _ (List.getElem?_eq_getElem hi), h j _ (List.getElem?_eq_getElem hj)]
  omega

/-- The entries numbered above `c` are those behind the first `c`. -/
theorem Numbered.above {log : List α} (h : Numbered seq log) (c k : Nat) :
    (log.drop k).filter (fun a => c < seq a) = log.drop (max c k) := by
  have hsplit : log.drop k = (log.drop k).take (c - k) ++ log.drop (max c k) := by
    conv_lhs => rw [← List.take_append_drop (c - k) (log.drop k)]
    rw [List.drop_drop]
    congr 2
    omega
  rw [hsplit, List.filter_append]
  have hlow : ((log.drop k).take (c - k)).filter (fun a => c < seq a) = [] := by
    refine List.filter_eq_nil_iff.mpr fun a ha => ?_
    obtain ⟨n, hn, rfl⟩ := List.mem_iff_getElem.mp ha
    have hlen : n < c - k := by
      rw [List.length_take] at hn
      omega
    have hseq := h (k + n) ((log.drop k).take (c - k))[n] (by
      rw [← List.getElem?_drop, ← List.getElem?_take_of_lt hlen]
      exact List.getElem?_eq_getElem hn)
    simp only [decide_eq_true_eq]
    omega
  have hhigh : (log.drop (max c k)).filter (fun a => c < seq a) = log.drop (max c k) := by
    refine List.filter_eq_self.mpr fun a ha => ?_
    obtain ⟨n, hn, rfl⟩ := List.mem_iff_getElem.mp ha
    have hseq := h (max c k + n) (log.drop (max c k))[n] (by
      rw [← List.getElem?_drop]
      exact List.getElem?_eq_getElem hn)
    exact decide_eq_true (by omega)
  rw [hlow, hhigh, List.nil_append]

/-- The entries numbered `c` at most are the first `c`. -/
theorem Numbered.below {log : List α} (h : Numbered seq log) (c k : Nat) :
    (log.drop k).filter (fun a => seq a ≤ c) = (log.take c).drop k := by
  have hsplit : log.drop k = (log.take c).drop k ++ log.drop (max c k) := by
    conv_lhs => rw [← List.take_append_drop c log]
    rw [List.drop_append, List.length_take, List.drop_drop]
    congr 1
    by_cases hc : c ≤ log.length
    · rw [Nat.min_eq_left hc]
      congr 1
      omega
    · rw [List.drop_eq_nil_of_le (by omega), List.drop_eq_nil_of_le (by omega)]
  have hlow : ((log.take c).drop k).filter (fun a => seq a ≤ c) = (log.take c).drop k := by
    refine List.filter_eq_self.mpr fun a ha => ?_
    obtain ⟨n, hn, rfl⟩ := List.mem_take_iff_getElem.mp (List.mem_of_mem_drop ha)
    have hseq := h n log[n] (List.getElem?_eq_getElem (by omega))
    exact decide_eq_true (by omega)
  have hhigh : (log.drop (max c k)).filter (fun a => seq a ≤ c) = [] := by
    refine List.filter_eq_nil_iff.mpr fun a ha => ?_
    obtain ⟨n, hn, rfl⟩ := List.mem_iff_getElem.mp ha
    have hseq := h (max c k + n) (log.drop (max c k))[n] (by
      rw [← List.getElem?_drop]
      exact List.getElem?_eq_getElem hn)
    simp only [decide_eq_true_eq]
    omega
  conv_lhs => rw [hsplit]
  rw [List.filter_append, hlow, hhigh, List.append_nil]

/-- A reader who has the first of the entries that it wants has all of them up to the last that
    it has. -/
theorem Numbered.upto {log : List α} (h : Numbered seq log) {wants : α → Bool} {k : Nat}
    {as : List α} (has : as <+: (log.drop k).filter wants) {a : α} (hlast : as.getLast? = some a) :
    as = ((log.take (seq a)).drop k).filter wants := by
  obtain ⟨bs, hbs⟩ := has
  have hsorted : (as ++ bs).Pairwise fun x y => seq x < seq y := by
    rw [hbs]
    exact h.increasing.sublist (List.filter_sublist.trans (List.drop_sublist k log))
  obtain ⟨as', rfl⟩ := List.getLast?_eq_some_iff.mp hlast
  obtain ⟨hfront, -, hcross⟩ := List.pairwise_append.mp hsorted
  have hkeep : (as' ++ [a]).filter (fun x => seq x ≤ seq a) = as' ++ [a] := by
    refine List.filter_eq_self.mpr fun x hx => decide_eq_true ?_
    rcases List.mem_append.mp hx with hx | hx
    · exact Nat.le_of_lt ((List.pairwise_append.mp hfront).2.2 x hx a (List.mem_singleton.mpr rfl))
    · exact Nat.le_of_eq (by rw [List.mem_singleton.mp hx])
  have hdrop : bs.filter (fun x => seq x ≤ seq a) = [] := by
    refine List.filter_eq_nil_iff.mpr fun x hx => ?_
    have hlt := hcross a (List.mem_append_right _ (List.mem_singleton.mpr rfl)) x hx
    simpa using hlt
  rw [← h.below, List.filter_filter]
  calc as' ++ [a] = (as' ++ [a] ++ bs).filter (fun x => seq x ≤ seq a) := by
        rw [List.filter_append, hkeep, hdrop, List.append_nil]
    _ = _ := by
        rw [hbs, List.filter_filter]
        exact List.filter_congr fun x _ => Bool.and_comm _ _

/-- What the ring still has above `c`: a suffix of the log. -/
theorem replay_window {log : List α} (h : Numbered seq log) (cap c : Nat) :
    (window cap log).filter (fun a => c < seq a) = log.drop (max c (log.length - cap)) :=
  h.above c _

/-- If nothing above `c` has fallen off, the ring reaches back to `c`. -/
theorem reaches_of_kept {log : List α} (h : Numbered seq log) {cap c : Nat}
    (hkept : ¬ ∃ a ∈ evicted cap log, c < seq a) : log.length - cap ≤ c := by
  by_contra hfar
  have hlt : log.length - cap - 1 < log.length := by omega
  have hseq := h _ _ (List.getElem?_eq_getElem hlt)
  refine hkept ⟨log[log.length - cap - 1], ?_, by omega⟩
  exact List.mem_take_iff_getElem.mpr ⟨log.length - cap - 1, by omega, rfl⟩

/-- Something above `c` has fallen off exactly if the oldest entry left says so. -/
theorem lost_iff {log : List α} (h : Numbered seq log) {cap c : Nat} (hcap : 1 ≤ cap) :
    (∃ a ∈ evicted cap log, c < seq a) ↔ ∃ a, (window cap log).head? = some a ∧ c + 1 < seq a := by
  have hplace (n : Nat) (hn : n < log.length) : seq log[n] = n + 1 :=
    h n _ (List.getElem?_eq_getElem hn)
  constructor
  · rintro ⟨a, ha, hc⟩
    obtain ⟨n, hn, rfl⟩ := List.mem_iff_getElem.mp ha
    rw [evicted, List.length_take] at hn
    have hfirst : log.length - cap < log.length := by omega
    refine ⟨log[log.length - cap], ?_, ?_⟩
    · rw [window, List.head?_drop, List.getElem?_eq_getElem hfirst]
    · rw [hplace _ hfirst]
      simp only [evicted, List.getElem_take] at hc
      rw [hplace n (by omega)] at hc
      omega
  · rintro ⟨a, ha, hc⟩
    rw [window, List.head?_drop] at ha
    have hseq := h _ a ha
    have hin : log.length - cap < log.length := by
      by_contra hout
      rw [List.getElem?_eq_none (by omega)] at ha
      cases ha
    refine ⟨log[log.length - cap - 1], ?_, ?_⟩
    · rw [evicted, List.mem_take_iff_getElem]
      exact ⟨log.length - cap - 1, by omega, rfl⟩
    · rw [hplace _ (by omega)]
      omega

end Ring
