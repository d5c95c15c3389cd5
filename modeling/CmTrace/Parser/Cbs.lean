import CmTrace.Parser.Pending

/-!
# Servicing logs

A header line begins a record and every line after it that is neither blank nor
dated belongs to it.  A dated line that is no header is a row of its own.
-/

namespace CmTrace
namespace Parser
namespace Cbs

open Text Log Time
open Regex (chain oneOf word many plus times between dot space)

section

variable (host : Host)

/-- `YYYY-MM-DD HH:MM:SS,` with each number read by `number`. -/
def clockRe (number : Nat → Nat → Regex) : List Regex :=
  [.begin, number 1 4, word ['-'], number 2 2, word ['-'], number 3 2, plus space, number 4 2,
    word [':'], number 5 2, word [':'], number 6 2, word [',']]

def cbsPrefixRe : Regex := chain (clockRe fun _ width => times width host.decimalNumber)

def letter : Regex := .char isAsciiAlphabetic

def componentRe : Regex :=
  .seq letter (between 1 31 (.char fun c => isAsciiAlphanumeric c || "_.-".toList.contains c))

def headerRe (level : Regex) : Regex :=
  chain (clockRe (fun group width => .group group (times width host.decimalNumber)) ++
    [plus space, .group 7 level, plus space, .group 8 componentRe, plus space, .group 9 (many dot),
      .stop])

def cbsHeaderRe : Regex :=
  headerRe host (oneOf (["Info", "Warning", "Error", "Perf", "Verbose", "Debug"].map fun level =>
    word level.toList))

def cbsRelaxedHeaderRe : Regex :=
  headerRe host (.seq letter
    (between 1 31 (.char fun c => isAsciiAlphanumeric c || "_-".toList.contains c)))

def severityFromLevel (level message : Text) : Severity :=
  if level = "Error".toList then .error
  else if level = "Warning".toList then .warning
  else if ["Info", "Perf", "Verbose", "Debug"].any fun known => level == known.toList then .info
  else detectSeverityFromText message

def buildEntryFromCaps (caps : Regex.Match) (filePath : Text) : Option LogEntry := do
  let year ← (caps.group 1).bind parseI32
  let month ← (caps.group 2).bind parseU32
  let day ← (caps.group 3).bind parseU32
  let hour ← (caps.group 4).bind parseU32
  let minute ← (caps.group 5).bind parseU32
  let second ← (caps.group 6).bind parseU32
  let level ← caps.group 7
  let component ← caps.group 8
  let message := (caps.group 9).getD []
  let timestamp := ((NaiveDate.fromYmd year month day).bind fun date =>
    date.andHms hour minute second).bind host.localWallClockMillis
  return {
    message          := trimEnd message
    component        := some component
    timestamp        := timestamp
    timestampDisplay := some (paddedInt 4 year ++ '-' :: padded 2 month ++ '-' :: padded 2 day ++
      ' ' :: padded 2 hour ++ ':' :: padded 2 minute ++ ':' :: padded 2 second ++ ".000".toList)
    severity         := severityFromLevel level message
    format           := .timestamped
    filePath         := filePath }

def parseHeader (line filePath : Text) : Option LogEntry :=
  match (cbsHeaderRe host).captures line with
  | some caps => buildEntryFromCaps host caps filePath
  | none =>
    ((cbsRelaxedHeaderRe host).captures line).bind fun caps => buildEntryFromCaps host caps filePath

end

def fallbackEntry (id lineNumber : Nat) (line filePath : Text) : LogEntry :=
  { id         := id
    lineNumber := lineNumber
    message    := trimEnd line
    severity   := detectSeverityFromText line
    format     := .timestamped
    filePath   := filePath }

def pushFallback (filePath : Text) (st : RecordState) (lineNumber : Nat) (line : Text) :
    RecordState :=
  { st with
    entries     := st.entries ++ [fallbackEntry st.nextId lineNumber line filePath]
    parseErrors := st.parseErrors + 1
    nextId      := st.nextId + 1 }

def readLine (host : Host) (filePath : Text) (st : RecordState) (lineNumber : Nat) (line : Text) :
    RecordState :=
  match parseHeader host line filePath with
  | some entry =>
    { st.flushPending with pending := some { entry := entry, startLine := lineNumber } }
  | none =>
    if (cbsPrefixRe host).isMatch line then pushFallback filePath st.flushPending lineNumber line
    else
      let trimmedEnd := trimEnd line
      if trimmedEnd = [] then st
      else
        match st.pending with
        | some pending =>
          { st with pending := some { pending with entry := appendMessage pending.entry trimmedEnd } }
        | none => pushFallback filePath st lineNumber trimmedEnd

def parseLines (host : Host) (filePath : Text) (lines : List Text) : List LogEntry × Nat :=
  let st := (readLines (readLine host filePath) {} 1 lines).flushPending
  (st.entries, st.parseErrors)

example : (parseLines .ascii [] ["2024-01-15 08:00:00, Info                  CBS    Starting".toList,
    "  detail".toList, "2024-01-15 08:00:00, nothing".toList]).1.map LogEntry.message =
      ["Starting\n  detail".toList, "2024-01-15 08:00:00, nothing".toList] := by
  decide +kernel

/-! ## The records of a log

The loop above settles the records of `grammar`, each with whether it counts as
an error. -/

def grammar (host : Host) (filePath : Text) : Framing.Grammar Text (LogEntry × Bool) :=
  { role   := fun line =>
      match parseHeader host line filePath with
      | some entry => .opens (entry, false)
      | none =>
        if (cbsPrefixRe host).isMatch line then .alone (fallbackEntry 0 0 line filePath, true)
        else if trimEnd line = [] then .blank
        else .body
    extend := fun r line => (appendMessage r.1 (trimEnd line), r.2)
    orphan := fun line => some (fallbackEntry 0 0 (trimEnd line) filePath, true) }

section Refinement

variable {β : Type} {view : LogEntry → β} (hview : ∀ entry id, view (entry.withId id) = view entry)
  (host : Host) (filePath : Text)

include hview

theorem pushFallback_spec (st : RecordState) (n : Nat) (line : Text) :
    (pushFallback filePath st n line).entries.map view =
        st.entries.map view ++
          shown Prod.fst view [(n, fallbackEntry 0 0 line filePath, true)] ∧
      (pushFallback filePath st n line).parseErrors = st.parseErrors + 1 ∧
      (pushFallback filePath st n line).held = st.held := by
  have hrow := hview ((fallbackEntry 0 0 line filePath).atLine n) st.nextId
  refine ⟨?_, rfl, rfl⟩
  simp only [pushFallback, List.map_append, List.map_cons, List.map_nil, shown]
  exact congrArg (fun row => st.entries.map view ++ [row]) hrow

theorem readLine_step (st : RecordState) (n : Nat) (line : Text) :
    let st' := readLine host filePath st n line
    let step := (grammar host filePath).step st.held n line
    st'.entries.map view = st.entries.map view ++ shown Prod.fst view step.1 ∧
      st'.held = step.2 ∧ st'.parseErrors = st.parseErrors + failures step.1 := by
  obtain ⟨hentries, herrors, hheld⟩ := flushPending_spec hview st
  intro st' step
  simp only [st', step, readLine, Framing.Grammar.step, grammar]
  cases parseHeader host line filePath with
  | some entry => exact ⟨hentries, rfl, herrors⟩
  | none =>
    by_cases hp : (cbsPrefixRe host).isMatch line = true
    · obtain ⟨hpushed, hpushederrors, hpushedheld⟩ :=
        pushFallback_spec hview filePath st.flushPending n line
      simp only [hp, if_true]
      refine ⟨?_, hpushedheld.trans hheld, ?_⟩
      · rw [hpushed, hentries, List.append_assoc, shown_append]
      · rw [hpushederrors, herrors, failures, failures, List.countP_append]
        rfl
    · simp only [hp, if_false, Bool.false_eq_true]
      by_cases hb : trimEnd line = []
      · simp [hb, failures]
      · simp only [hb, if_false]
        cases hpending : st.pending with
        | some pending => simp [RecordState.held, hpending, failures]
        | none =>
          obtain ⟨hpushed, hpushederrors, hpushedheld⟩ :=
            pushFallback_spec hview filePath st n (trimEnd line)
          have hnone : st.held = none := by rw [RecordState.held, hpending]; rfl
          rw [hnone] at hpushedheld ⊢
          exact ⟨hpushed, hpushedheld, hpushederrors⟩

theorem parseLines_rows (lines : List Text) :
    (parseLines host filePath lines).1.map view =
      shown Prod.fst view ((grammar host filePath).rows none 1 lines) := by
  have hrows := readLines_rows hview (fun st n line =>
    have h := readLine_step hview host filePath st n line
    ⟨h.1, h.2.1⟩) lines {} 1
  exact hrows.trans (List.nil_append _)

end Refinement

theorem readLines_errors (host : Host) (filePath : Text) (lines : List Text) (st : RecordState)
    (n : Nat) :
    (readLines (readLine host filePath) st n lines).flushPending.parseErrors =
      st.parseErrors + failures ((grammar host filePath).rows st.held n lines) := by
  -- the errors do not depend on the view the rows are seen through
  have hview : ∀ (entry : LogEntry) id,
      Function.const LogEntry () (entry.withId id) = Function.const LogEntry () entry :=
    fun _ _ => rfl
  induction lines generalizing st n with
  | nil => exact (flushPending_spec hview st).2.1
  | cons line lines ih =>
    obtain ⟨_, hheld, herrors⟩ := readLine_step hview host filePath st n line
    rw [readLines, ih, herrors, hheld, Framing.Grammar.rows, failures, failures, failures,
      List.countP_append, Nat.add_assoc]

theorem parseLines_errors (host : Host) (filePath : Text) (lines : List Text) :
    (parseLines host filePath lines).2 = failures ((grammar host filePath).rows none 1 lines) :=
  (readLines_errors host filePath lines {} 1).trans (Nat.zero_add _)

end Cbs
end Parser
end CmTrace
