import CmTrace.Batch.Framing
import CmTrace.Parser.Host

/-!
# A record held open while its lines are read

The state shared by the parsers whose records span lines: the rows so far, and
the record that later lines may still extend.
-/

namespace CmTrace
namespace Parser

open Log

structure PendingEntry where
  entry : LogEntry
  startLine : Nat

structure RecordState where
  entries : List LogEntry := []
  parseErrors : Nat := 0
  nextId : Nat := 0
  pending : Option PendingEntry := none

def RecordState.flushPending (st : RecordState) : RecordState :=
  match st.pending with
  | some pending =>
    { st with
      entries := st.entries ++
        [{ pending.entry with id := st.nextId, lineNumber := pending.startLine }]
      nextId  := st.nextId + 1
      pending := none }
  | none => st

def appendMessage (entry : LogEntry) (line : Text) : LogEntry :=
  { entry with
    message := (if entry.message = [] then [] else entry.message ++ ['\n']) ++ line }

/-- The loop over the lines of a log, numbered from `n`. -/
def readLines (readLine : RecordState → Nat → Text → RecordState) :
    RecordState → Nat → List Text → RecordState
  | st, _, [] => st
  | st, n, line :: lines => readLines readLine (readLine st n line) (n + 1) lines

def RecordState.held (st : RecordState) : Option (Nat × LogEntry × Bool) :=
  st.pending.map fun pending => (pending.startLine, pending.entry, false)

def failures (rows : List (Nat × LogEntry × Bool)) : Nat := rows.countP fun kr => kr.2.2

section

variable {β : Type} {view : LogEntry → β} (hview : ∀ entry id, view (entry.withId id) = view entry)
include hview

theorem flushPending_spec (st : RecordState) :
    st.flushPending.entries.map view = st.entries.map view ++ shown Prod.fst view st.held.toList ∧
      st.flushPending.parseErrors = st.parseErrors + failures st.held.toList ∧
      st.flushPending.held = none := by
  rw [RecordState.flushPending, RecordState.held]
  cases hp : st.pending with
  | none => simp [shown, failures, RecordState.held, hp]
  | some pending =>
    have hrow := hview (pending.entry.atLine pending.startLine) st.nextId
    refine ⟨?_, rfl, rfl⟩
    simp only [List.map_append, List.map_cons, List.map_nil, Option.map_some, Option.toList_some,
      shown]
    exact congrArg (fun row => st.entries.map view ++ [row]) hrow

/-- A loop whose every step settles the records of a grammar settles those of
all its lines. -/
theorem readLines_rows {g : Framing.Grammar Text (LogEntry × Bool)}
    {readLine : RecordState → Nat → Text → RecordState}
    (hstep : ∀ st n line,
      (readLine st n line).entries.map view =
          st.entries.map view ++ shown Prod.fst view (g.step st.held n line).1 ∧
        (readLine st n line).held = (g.step st.held n line).2)
    (lines : List Text) (st : RecordState) (n : Nat) :
    (readLines readLine st n lines).flushPending.entries.map view =
      st.entries.map view ++ shown Prod.fst view (g.rows st.held n lines) := by
  induction lines generalizing st n with
  | nil => exact (flushPending_spec hview st).1
  | cons line lines ih =>
    obtain ⟨hentries, hheld⟩ := hstep st n line
    rw [readLines, ih, hentries, hheld, Framing.Grammar.rows, shown_append, List.append_assoc]

end

end Parser
end CmTrace
