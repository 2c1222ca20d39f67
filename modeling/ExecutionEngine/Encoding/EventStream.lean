/-
  `text/event-stream`, as a client reads it. Nothing here names an engine.

  A text is read line by line; a blank line dispatches the message that has been gathered, with
  the id that the stream has named last. A line that has not ended is not read, so a stream that
  breaks off anywhere has dispatched the messages that were complete (`read_prefix`), and the
  `lastEventId` it leaves is the one of the last of them.
-/
import Mathlib.Data.List.Basic

namespace EventStream

structure Message where
  type : List Char
  data : List Char
  lastEventId : List Char
  deriving DecidableEq, Repr

/-- The buffers of a reader, and what it has dispatched. -/
structure Reader where
  data : List Char := []
  type : List Char := []
  idBuffer : List Char
  lastEventId : List Char
  messages : List Message := []
  deriving DecidableEq, Repr

/-- The lines that have ended: at a line feed, a carriage return, or both. -/
def linesFrom (line : List Char) : List Char → List (List Char)
  | [] => []
  | '\n' :: cs => line :: linesFrom [] cs
  | '\r' :: '\n' :: cs => line :: linesFrom [] cs
  | '\r' :: cs => line :: linesFrom [] cs
  | c :: cs => linesFrom (line ++ [c]) cs

/-- The name and the value of a line; one blank after the colon is dropped. -/
def fieldOf (line : List Char) : List Char × List Char :=
  (line.takeWhile (· ≠ ':'),
    match line.dropWhile (· ≠ ':') with
    | ':' :: ' ' :: value => value
    | _ :: value => value
    | [] => [])

namespace Reader

/-- A reader at the head of a stream, with the id of the last event it has seen. -/
def start (lastEventId : List Char) : Reader := { idBuffer := lastEventId, lastEventId }

/-- A blank line: without data there is no message. -/
def dispatch (r : Reader) : Reader :=
  if r.data = [] then { r with lastEventId := r.idBuffer, type := [] }
  else
    { r with
      lastEventId := r.idBuffer
      data := []
      type := []
      messages := r.messages ++
        [⟨if r.type = [] then ['m', 'e', 's', 's', 'a', 'g', 'e'] else r.type, r.data.dropLast,
          r.idBuffer⟩] }

def field (r : Reader) (name value : List Char) : Reader :=
  if name = ['e', 'v', 'e', 'n', 't'] then { r with type := value }
  else if name = ['d', 'a', 't', 'a'] then { r with data := r.data ++ value ++ ['\n'] }
  else if name = ['i', 'd'] then if Char.ofNat 0 ∈ value then r else { r with idBuffer := value }
  else r

/-- One line; a line that begins with a colon is a comment. -/
def line (r : Reader) (l : List Char) : Reader :=
  if l = [] then r.dispatch
  else if l.head? = some ':' then r
  else r.field (fieldOf l).1 (fieldOf l).2

def lines (r : Reader) (ls : List (List Char)) : Reader := ls.foldl line r

/-- Between two messages. -/
def Idle (r : Reader) : Prop := r.data = [] ∧ r.type = []

end Reader

/-- What a client makes of the text it has received. -/
def read (lastEventId text : List Char) : Reader :=
  (Reader.start lastEventId).lines (linesFrom [] text)

/-! ## Lines -/

/-- No line ends in it. -/
def Unbroken (l : List Char) : Prop := ∀ c ∈ l, c ≠ '\n' ∧ c ≠ '\r'

theorem linesFrom_unbroken {l : List Char} (h : Unbroken l) (pre cs : List Char) :
    linesFrom pre (l ++ cs) = linesFrom (pre ++ l) cs := by
  induction l generalizing pre with
  | nil => rw [List.nil_append, List.append_nil]
  | cons c l ih =>
    obtain ⟨hc, hl⟩ := List.forall_mem_cons.mp h
    have hstep : linesFrom pre (c :: (l ++ cs)) = linesFrom (pre ++ [c]) (l ++ cs) := by
      rw [linesFrom]
      · exact hc.1
      · exact fun _ he => absurd he hc.2
      · exact hc.2
    rw [List.cons_append, hstep, ih hl, List.append_assoc, List.singleton_append]

/-- A line that has ended is read, and then the rest. -/
theorem linesFrom_line {l : List Char} (h : Unbroken l) (cs : List Char) :
    linesFrom [] (l ++ '\n' :: cs) = l :: linesFrom [] cs := by
  rw [linesFrom_unbroken h, List.nil_append, linesFrom]

/-- A carriage return ends the line, whatever follows. -/
theorem linesFrom_return (pre cs : List Char) : [pre] <+: linesFrom pre ('\r' :: cs) := by
  match cs with
  | [] => exact List.prefix_rfl
  | c :: cs =>
    by_cases hc : c = '\n'
    · rw [hc, linesFrom]
      exact (List.prefix_cons_inj pre).mpr List.nil_prefix
    · rw [linesFrom]
      · exact (List.prefix_cons_inj pre).mpr List.nil_prefix
      · rintro _ he
        exact hc (List.cons.inj he).1

/-- Of a text that breaks off the lines that have ended are read. -/
theorem linesFrom_prefix (pre cs ds : List Char) :
    linesFrom pre cs <+: linesFrom pre (cs ++ ds) := by
  fun_induction linesFrom pre cs with
  | case1 => exact List.nil_prefix
  | case2 pre cs ih =>
    rw [List.cons_append, linesFrom]
    exact (List.prefix_cons_inj pre).mpr ih
  | case3 pre cs ih =>
    rw [List.cons_append, List.cons_append, linesFrom]
    exact (List.prefix_cons_inj pre).mpr ih
  | case4 pre cs hcs ih =>
    match cs, hcs, ih with
    | [], _, _ => exact linesFrom_return pre ds
    | c :: cs, hcs, ih =>
      rw [List.cons_append, linesFrom]
      · exact (List.prefix_cons_inj pre).mpr ih
      · intro rest he
        exact hcs cs (by rw [(List.cons.inj he).1])
  | case5 pre c cs hn hrn hr ih =>
    rw [List.cons_append, linesFrom]
    · exact ih
    · exact hn
    · exact fun _ he => absurd he hr
    · exact hr

/-! ## Messages -/

namespace Reader

/-- What has been dispatched stays. -/
theorem line_messages (r : Reader) (l : List Char) : r.messages <+: (r.line l).messages := by
  unfold line
  split
  · unfold dispatch
    split
    · exact List.prefix_rfl
    · exact List.prefix_append _ _
  split
  · exact List.prefix_rfl
  · unfold field
    repeat' split
    all_goals exact List.prefix_rfl

theorem lines_messages (r : Reader) (ls : List (List Char)) :
    r.messages <+: (r.lines ls).messages := by
  induction ls generalizing r with
  | nil => exact List.prefix_rfl
  | cons l ls ih => exact (r.line_messages l).trans (ih (r.line l))

theorem lines_append (r : Reader) (ls ms : List (List Char)) :
    r.lines (ls ++ ms) = (r.lines ls).lines ms := List.foldl_append

end Reader

/-- A stream that breaks off has dispatched the first messages of the whole. -/
theorem read_prefix (id cs ds : List Char) :
    (read id cs).messages <+: (read id (cs ++ ds)).messages := by
  obtain ⟨ls, hls⟩ := linesFrom_prefix [] cs ds
  unfold read
  rw [← hls, Reader.lines_append]
  exact Reader.lines_messages _ _

/-- Lines that end each are read one by one. -/
theorem linesFrom_lines {ls : List (List Char)} (h : ∀ l ∈ ls, Unbroken l) (cs : List Char) :
    linesFrom [] (ls.flatMap (fun l => l ++ ['\n']) ++ cs) = ls ++ linesFrom [] cs := by
  induction ls with
  | nil => rfl
  | cons l ls ih =>
    obtain ⟨hl, hls⟩ := List.forall_mem_cons.mp h
    have htext : (l :: ls).flatMap (fun l => l ++ ['\n']) ++ cs =
        l ++ '\n' :: (ls.flatMap (fun l => l ++ ['\n']) ++ cs) := by simp
    rw [htext, linesFrom_line hl, ih hls, List.cons_append]

/-- Lines that end each, and a blank one after them. -/
def unlines (ls : List (List Char)) : List Char := ls.flatMap (fun l => l ++ ['\n']) ++ ['\n']

theorem linesFrom_unlines {ls : List (List Char)} (h : ∀ l ∈ ls, Unbroken l) (cs : List Char) :
    linesFrom [] (unlines ls ++ cs) = ls ++ [] :: linesFrom [] cs := by
  rw [unlines, List.append_assoc, linesFrom_lines h]
  exact congrArg _ (linesFrom_line (l := []) (fun _ hc => by cases hc) cs)

namespace Reader

/-- Only a blank line dispatches. -/
theorem lines_unblank {r : Reader} {ls : List (List Char)} (h : [] ∉ ls) :
    (r.lines ls).messages = r.messages ∧ (r.lines ls).lastEventId = r.lastEventId := by
  induction ls generalizing r with
  | nil => exact ⟨rfl, rfl⟩
  | cons l ls ih =>
    rw [List.mem_cons, not_or] at h
    have hline : (r.line l).messages = r.messages ∧ (r.line l).lastEventId = r.lastEventId := by
      unfold line
      rw [if_neg (Ne.symm h.1)]
      split
      · exact ⟨rfl, rfl⟩
      · unfold field
        repeat' split
        all_goals exact ⟨rfl, rfl⟩
    obtain ⟨hm, hid⟩ := ih (r := r.line l) h.2
    exact ⟨hm.trans hline.1, hid.trans hline.2⟩

end Reader

theorem fieldOf_named {name : List Char} (h : ':' ∉ name) (value : List Char) :
    fieldOf (name ++ ':' :: ' ' :: value) = (name, value) := by
  have hname : ∀ c ∈ name, (decide (c ≠ ':')) = true := fun c hc =>
    decide_eq_true fun hcolon => h (hcolon ▸ hc)
  rw [fieldOf, List.takeWhile_append_of_pos hname, List.dropWhile_append_of_pos hname]
  simp

/-- A line that names its field. -/
theorem Reader.line_named (r : Reader) {name : List Char} (hcolon : ':' ∉ name) (hname : name ≠ [])
    (value : List Char) : r.line (name ++ ':' :: ' ' :: value) = r.field name value := by
  obtain ⟨c, name, rfl⟩ := List.exists_cons_of_ne_nil hname
  have hc : c ≠ ':' := fun he => hcolon (he ▸ List.mem_cons_self)
  rw [line, if_neg (by simp), if_neg (by simpa using hc), fieldOf_named hcolon]

namespace Reader

variable {r : Reader}

theorem line_id (r : Reader) {id : List Char} (h : Char.ofNat 0 ∉ id) :
    r.line (['i', 'd'] ++ ':' :: ' ' :: id) = { r with idBuffer := id } := by
  rw [r.line_named (by decide) (by decide), field, if_neg (by decide), if_neg (by decide),
    if_pos rfl, if_neg h]

/-- A block with a type and one line of data is a message. -/
theorem lines_message (h : r.Idle) {type : List Char} (htype : type ≠ []) (data : List Char) :
    r.lines [['e', 'v', 'e', 'n', 't'] ++ ':' :: ' ' :: type,
        ['d', 'a', 't', 'a'] ++ ':' :: ' ' :: data, []] =
      { r with
        lastEventId := r.idBuffer
        messages := r.messages ++ [⟨type, data, r.idBuffer⟩] } := by
  obtain ⟨data₀, type₀, idBuffer, lastEventId, messages⟩ := r
  obtain ⟨rfl, rfl⟩ : data₀ = [] ∧ type₀ = [] := h
  simp only [lines, List.foldl_cons, List.foldl_nil]
  rw [line_named _ (by decide) (by decide), line_named _ (by decide) (by decide), field, if_pos rfl,
    field, if_neg (by decide), if_pos rfl, line, if_pos rfl, dispatch, if_neg (by simp)]
  simp [htype]

/-- A comment dispatches nothing. -/
theorem lines_comment (h : r.Idle) (cs : List Char) :
    r.lines [':' :: cs, []] = { r with lastEventId := r.idBuffer } := by
  obtain ⟨data₀, type₀, idBuffer, lastEventId, messages⟩ := r
  obtain ⟨rfl, rfl⟩ : data₀ = [] ∧ type₀ = [] := h
  simp [lines, line, dispatch]

end Reader

/-- Where a stream of blocks breaks off: in a block, or after one. -/
theorem prefix_block {α : Type} {L ls rest : List α} {b : α} (h : L <+: ls ++ b :: rest) :
    L <+: ls ∨ ∃ M, L = ls ++ b :: M ∧ M <+: rest := by
  rcases List.prefix_or_prefix_of_prefix h (List.prefix_append ls (b :: rest)) with h' | ⟨M, rfl⟩
  · exact .inl h'
  · have hM := (List.prefix_append_right_inj ls).mp h
    cases M with
    | nil => exact .inl ⟨[], by rw [List.append_nil, List.append_nil]⟩
    | cons c M =>
      obtain ⟨rfl, hrest⟩ := List.cons_prefix_cons.mp hM
      exact .inr ⟨M, rfl, hrest⟩

end EventStream
