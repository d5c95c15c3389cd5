import CmTrace.Batch.Carried
import CmTrace.Parser.Host

/-!
# One row a line, read with a context

The loop shared by the parsers that turn each line into at most one row and
carry a context from line to line.
-/

namespace CmTrace
namespace Parser

open Text Log Carried

/-- A reader of lines: the row, with whether it counts as an error, and the
context for the next line. -/
abbrev LineReader (C : Type) := Reader Text C (LogEntry × Bool)

structure LineState (C : Type) where
  entries : List LogEntry := []
  parseErrors : Nat := 0
  nextId : Nat := 0
  context : C

namespace LineState

variable {C : Type}

def push (st : LineState C) (lineNumber : Nat) (entry : LogEntry) (failed : Bool) : LineState C :=
  { st with
    entries     := st.entries ++ [{ entry with id := st.nextId, lineNumber := lineNumber }]
    parseErrors := st.parseErrors + if failed then 1 else 0
    nextId      := st.nextId + 1 }

def readLine (rd : LineReader C) (st : LineState C) (lineNumber : Nat) (line : Text) :
    LineState C :=
  let read := rd.read st.context line
  let st := { st with context := read.2 }
  match read.1 with
  | some (entry, failed) => st.push lineNumber entry failed
  | none => st

def readLines (rd : LineReader C) : LineState C → Nat → List Text → LineState C
  | st, _, [] => st
  | st, n, line :: lines => (st.readLine rd n line).readLines rd (n + 1) lines

end LineState

def parseWith {C : Type} (rd : LineReader C) (lines : List Text) : List LogEntry × Nat :=
  let st := ({ context := rd.initial } : LineState C).readLines rd 1 lines
  (st.entries, st.parseErrors)

section

variable {C β : Type} {view : LogEntry → β}
  (hview : ∀ entry id, view (entry.withId id) = view entry) (rd : LineReader C)
include hview

theorem readLines_spec (lines : List Text) (st : LineState C) (n : Nat) :
    (st.readLines rd n lines).entries.map view =
        st.entries.map view ++ shown Prod.fst view (numbered n (rd.outs st.context lines)) ∧
      (st.readLines rd n lines).parseErrors =
        st.parseErrors + (rd.outs st.context lines).countP fun out => out.any Prod.snd := by
  induction lines generalizing st n with
  | nil => exact ⟨(List.append_nil _).symm, rfl⟩
  | cons line lines ih =>
    obtain ⟨hrest, herrors⟩ := ih (st.readLine rd n line) (n + 1)
    rw [LineState.readLines, hrest, herrors, Reader.outs]
    simp only [LineState.readLine]
    cases hr : (rd.read st.context line).1 with
    | none => exact ⟨rfl, rfl⟩
    | some out =>
      obtain ⟨entry, failed⟩ := out
      have hrow := hview (entry.atLine n) st.nextId
      simp only [LineState.push]
      refine ⟨?_, ?_⟩
      · rw [numbered, List.map_append, List.append_assoc]
        exact congrArg (fun row => st.entries.map view ++ (row :: _)) hrow
      · rw [List.countP_cons]
        cases failed
        · simp
        · simp
          omega

theorem parseWith_spec (lines : List Text) :
    (parseWith rd lines).1.map view =
        shown Prod.fst view (numbered 1 (rd.outs rd.initial lines)) ∧
      (parseWith rd lines).2 = (rd.outs rd.initial lines).countP fun out => out.any Prod.snd := by
  obtain ⟨hrows, herrors⟩ := readLines_spec hview rd lines { context := rd.initial } 1
  exact ⟨hrows.trans (List.nil_append _), herrors.trans (Nat.zero_add _)⟩

end

/-- What a row says: the columns that are compared between a followed file and
the whole one. -/
def rowColumns (entry : LogEntry) : LogEntry :=
  { lineNumber       := entry.lineNumber
    message          := entry.message
    component        := entry.component
    timestamp        := entry.timestamp
    timestampDisplay := entry.timestampDisplay
    severity         := entry.severity
    httpMethod       := entry.httpMethod
    uriStem          := entry.uriStem
    uriQuery         := entry.uriQuery
    statusCode       := entry.statusCode
    subStatus        := entry.subStatus
    timeTakenMs      := entry.timeTakenMs
    clientIp         := entry.clientIp
    serverIp         := entry.serverIp
    userAgent        := entry.userAgent
    serverPort       := entry.serverPort
    username         := entry.username
    win32Status      := entry.win32Status
    sectionName      := entry.sectionName
    sectionColor     := entry.sectionColor }

theorem rowColumns_withId (entry : LogEntry) (id : Nat) :
    rowColumns (entry.withId id) = rowColumns entry := rfl

def rowContent (out : LogEntry × Bool) : LogEntry := rowColumns (out.1.atLine 0)

end Parser
end CmTrace
