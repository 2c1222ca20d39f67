/-
  A bounded queue that drops its oldest entry for a new one. Nothing here names an engine.

  `Delivers` is what a reader can rely on: what is queued is the end of what was offered,
  what was read before it was offered before it, and the newest offer is among the two
  (`Delivers.offer`, `Delivers.take`).
-/
import Mathlib.Data.List.Infix

namespace Mailbox

variable {α : Type}

/-- `put_nowait`, after the oldest entry of a full queue is dropped; `size` 0 is no bound. -/
def offer (size : Nat) (queue : List α) (a : α) : List α :=
  if 0 < size ∧ size ≤ queue.length then queue.tail ++ [a] else queue ++ [a]

/-- What was offered, what was read of it, and what is queued. -/
structure Delivers (offered taken queue : List α) : Prop where
  suffix : queue <:+ offered
  sublist : (taken ++ queue).Sublist offered
  newest : (taken ++ queue).getLast? = offered.getLast?

variable {offered taken queue : List α} {a : α}

theorem delivers_nil : Delivers ([] : List α) [] [] := ⟨List.suffix_rfl, List.Sublist.refl _, rfl⟩

/-- What an offer queues is the new entry behind an end of what was queued. -/
theorem exists_offer (size : Nat) (queue : List α) (a : α) :
    ∃ kept, kept <:+ queue ∧ offer size queue a = kept ++ [a] := by
  unfold offer
  split
  · exact ⟨queue.tail, List.tail_suffix queue, rfl⟩
  · exact ⟨queue, List.suffix_rfl, rfl⟩

theorem Delivers.offer (h : Delivers offered taken queue) (size : Nat) (a : α) :
    Delivers (offered ++ [a]) taken (Mailbox.offer size queue a) := by
  obtain ⟨kept, hkept, hoffer⟩ := exists_offer size queue a
  rw [hoffer]
  refine ⟨?_, ?_, ?_⟩
  · obtain ⟨front, hfront⟩ := hkept.trans h.suffix
    exact ⟨front, by rw [← List.append_assoc, hfront]⟩
  · rw [← List.append_assoc]
    exact ((hkept.sublist.append_left taken).trans h.sublist).append (List.Sublist.refl _)
  · rw [← List.append_assoc, List.getLast?_concat, List.getLast?_concat]

theorem Delivers.take (h : Delivers offered taken (a :: queue)) :
    Delivers offered (taken ++ [a]) queue := by
  have hsame : taken ++ [a] ++ queue = taken ++ a :: queue := by
    rw [List.append_assoc, List.singleton_append]
  refine ⟨(List.suffix_cons a queue).trans h.suffix, ?_, ?_⟩
  · rw [hsame]
    exact h.sublist
  · rw [hsame]
    exact h.newest

end Mailbox
