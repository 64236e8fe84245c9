import Mathlib.Data.List.Basic
import Mathlib.Data.String.Basic

/-!
# Event streams

How a receiver of `text/event-stream` reads a decoded text: lines end at CR, LF or CRLF,
a line names a field or is a comment, and a blank line dispatches the event collected so
far, if it has data. An event the text ends in the middle of is dropped.
-/
namespace Skein

/-- A dispatched event; without a name of its own its type is `message`. -/
structure StreamEvent where
  lastEventId : List Char
  type : List Char
  data : List Char
  deriving DecidableEq, Repr

namespace EventStream

/-- The lines of a text whose current line starts with `line`, reversed. -/
def linesFrom (line : List Char) : List Char → List (List Char)
  | [] => []
  | '\r' :: '\n' :: rest => line.reverse :: linesFrom [] rest
  | '\r' :: rest => line.reverse :: linesFrom [] rest
  | '\n' :: rest => line.reverse :: linesFrom [] rest
  | c :: rest => linesFrom (c :: line) rest

/-- The buffers of the event being collected. -/
structure Buffers where
  id : List Char := []
  type : List Char := []
  data : List Char := []
  deriving DecidableEq, Repr

/-- A field of the event being collected. -/
def setField (b : Buffers) (name value : List Char) : Buffers :=
  if name = ['e', 'v', 'e', 'n', 't'] then { b with type := value }
  else if name = ['d', 'a', 't', 'a'] then { b with data := b.data ++ value ++ ['\n'] }
  else if name = ['i', 'd'] then if value.contains (Char.ofNat 0) then b else { b with id := value }
  else b

/-- A line that is not blank. One space after the colon is not part of the value. -/
def processLine (b : Buffers) (line : List Char) : Buffers :=
  let name := line.takeWhile (· ≠ ':')
  match line.dropWhile (· ≠ ':') with
  | ':' :: ' ' :: value => if name = [] then b else setField b name value
  | ':' :: value => if name = [] then b else setField b name value
  | _ => setField b name []

/-- A blank line. -/
def dispatch (b : Buffers) : Option StreamEvent × Buffers :=
  if b.data = [] then (none, { b with type := [] })
  else
    let type := if b.type = [] then ['m', 'e', 's', 's', 'a', 'g', 'e'] else b.type
    (some ⟨b.id, type, b.data.dropLast⟩, { id := b.id })

def decodeLines (b : Buffers) : List (List Char) → List StreamEvent
  | [] => []
  | [] :: rest => (dispatch b).1.toList ++ decodeLines (dispatch b).2 rest
  | line :: rest => decodeLines (processLine b line) rest

/-- The events of what is left of a text at the start of a line. -/
def decodeFrom (b : Buffers) (text : List Char) : List StreamEvent :=
  decodeLines b (linesFrom [] text)

def decode (text : List Char) : List StreamEvent := decodeFrom {} text

/-- No line ends inside `text`. -/
def OneLine (text : List Char) : Prop := ∀ c ∈ text, c ≠ '\n' ∧ c ≠ '\r'

theorem OneLine.append {s t : List Char} (hs : OneLine s) (ht : OneLine t) :
    OneLine (s ++ t) := by
  intro c hc
  rcases List.mem_append.mp hc with h | h
  · exact hs c h
  · exact ht c h

theorem linesFrom_append {l : List Char} (h : OneLine l) (line rest : List Char) :
    linesFrom line (l ++ '\n' :: rest) = (line.reverse ++ l) :: linesFrom [] rest := by
  induction l generalizing line with
  | nil => simp [linesFrom]
  | cons c l ih =>
    obtain ⟨hline, hreturn⟩ := h c List.mem_cons_self
    have hl : OneLine l := fun d hd => h d (List.mem_cons_of_mem c hd)
    have hstep : linesFrom line (c :: (l ++ '\n' :: rest)) =
        linesFrom (c :: line) (l ++ '\n' :: rest) := by
      rw [linesFrom.eq_def]
      split <;> simp_all
    rw [List.cons_append, hstep, ih hl]
    simp

theorem decodeFrom_line (b : Buffers) {l : List Char} (h : OneLine l) (hne : l ≠ [])
    (rest : List Char) :
    decodeFrom b (l ++ '\n' :: rest) = decodeFrom (processLine b l) rest := by
  unfold decodeFrom
  rw [linesFrom_append h]
  cases l with
  | nil => exact absurd rfl hne
  | cons c l => rfl

theorem decodeFrom_blank (b : Buffers) (rest : List Char) :
    decodeFrom b ('\n' :: rest) = (dispatch b).1.toList ++ decodeFrom (dispatch b).2 rest := by
  simp [decodeFrom, linesFrom, decodeLines]

theorem decodeFrom_nil (b : Buffers) : decodeFrom b [] = [] := rfl

/-- A comment line, and the blank line after it, leave the next event as it was. -/
theorem decodeFrom_comment {b : Buffers} (hdata : b.data = []) (htype : b.type = [])
    {comment : List Char} (h : OneLine comment) (rest : List Char) :
    decodeFrom b (':' :: comment ++ '\n' :: '\n' :: rest) = decodeFrom b rest := by
  have hcomment : OneLine (':' :: comment) := by
    intro c hc
    rcases List.mem_cons.mp hc with rfl | hc
    · decide
    · exact h c hc
  have hline : processLine b (':' :: comment) = b := by
    unfold processLine
    simp only [ne_eq, not_true_eq_false, decide_false, List.takeWhile_cons_of_neg,
      List.dropWhile_cons_of_neg, Bool.false_eq_true, not_false_eq_true, if_true]
    split <;> simp_all
  rw [decodeFrom_line b hcomment (by simp), hline, decodeFrom_blank]
  obtain ⟨id, type, data⟩ := b
  subst hdata htype
  simp [dispatch]

end EventStream
end Skein
