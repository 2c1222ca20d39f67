/-
  A program over one signature as a program over another. Nothing here names an engine.

  `translate` renames the operations; the answers come back the other way. It commutes with the
  ways of putting programs together, so a program that is written over a finer signature can be
  compared with the one it refines.
-/
import ExecutionEngine.Async.Prog

namespace Async

/-- Operations renamed, with what their answers and exceptions stand for. -/
structure Renaming (S S' : Sig) where
  op : S.Op → S'.Op
  answer : ∀ o, S'.Answer (op o) → S.Answer o
  exn : S.Exn → S'.Exn

namespace Prog

variable {S S' : Sig} {α β : Type}

def translate (R : Renaming S S') : Prog S α → Prog S' α
  | ret a => ret a
  | raise e => raise (R.exn e)
  | stuck => stuck
  | call o k => call (R.op o) fun r => (k (R.answer o r)).translate R

variable {R : Renaming S S'}

theorem translate_bind (p : Prog S α) (f : α → Prog S β) :
    (p.bind f).translate R = (p.translate R).bind fun a => (f a).translate R := by
  induction p with
  | ret a => rfl
  | raise e => rfl
  | stuck => rfl
  | call o k ih => exact congrArg (call (R.op o)) (funext fun r => ih (R.answer o r))

theorem translate_tryFinally (p : Prog S α) (f : Prog S Unit) :
    (p.tryFinally f).translate R = (p.translate R).tryFinally (f.translate R) := by
  induction p with
  | ret a => exact translate_bind f _
  | raise e => exact translate_bind f _
  | stuck => rfl
  | call o k ih => exact congrArg (call (R.op o)) (funext fun r => ih (R.answer o r))

end Prog

/-- The footprint goes along. -/
theorem Uses.translate {S S' : Sig} {α : Type} {R : Renaming S S'} {F : S.Op → Prop}
    {F' : S'.Op → Prop} {p : Prog S α} (h : Uses F p) (hF : ∀ o, F o → F' (R.op o)) : Uses F' (p.translate R) := by
  induction p with
  | ret a => trivial
  | raise e => trivial
  | stuck => trivial
  | call o k ih => exact ⟨hF o h.1, fun r => ih (R.answer o r) (h.2 _)⟩

end Async
