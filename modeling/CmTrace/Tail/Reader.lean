import CmTrace.Log.Entry
import CmTrace.Text.Lines

/-!
# Following a file line by line

The reader of the selections whose rows are read a physical line at a time:
appended text is joined to the fragment of a line kept from the last read, the
lines it completes are parsed on their own, and their rows are numbered on from
the lines already read.  Line numbers are natural numbers: the program's are
32 bits wide and no file it reads has so many lines.
-/

namespace CmTrace
namespace Tail

open Text Log

/-- Rows of some lines, numbered from one, and the count of errors among them. -/
abbrev LineParser := List Text → List LogEntry × Nat

structure TailBatch where
  entries : List LogEntry := []
  parseErrors : Nat := 0
  /-- The last line the batch read. -/
  observedThroughLine : Option Nat := none
  deriving DecidableEq

namespace TailBatch

def append (a b : TailBatch) : TailBatch :=
  { entries             := a.entries ++ b.entries
    parseErrors         := a.parseErrors + b.parseErrors
    observedThroughLine := Option.merge max a.observedThroughLine b.observedThroughLine }

end TailBatch

structure TailReader where
  /-- Text of a line that has not ended. -/
  pendingFragment : Text := []
  nextId : Nat
  nextLine : Nat

/-- The lines of a text that have ended; what has not is kept as the fragment. -/
def collectCompleteLines (text pendingFragment : Text) : List Text × Text :=
  let endsWithNewline := decide (text.getLast? = some '\n')
  if !endsWithNewline && !(lines text).isEmpty then
    ((lines text).dropLast, pendingFragment ++ (lines text).getLastD [])
  else (lines text, pendingFragment)

def rebase (n : Nat) (entry : LogEntry) : LogEntry :=
  { entry with lineNumber := n + (entry.lineNumber - 1) }

namespace TailReader

def assignPhysicalEntryIdentity (reader : TailReader) (entries : List LogEntry)
    (physicalLines : Nat) : List LogEntry × TailReader :=
  (entries.mapIdx fun i entry => (rebase reader.nextLine entry).withId (reader.nextId + i),
    { reader with
      nextId   := reader.nextId + entries.length
      nextLine := reader.nextLine + physicalLines })

/-- One read: `newText` was appended since the last. -/
def readNewEntries (parseLines : LineParser) (reader : TailReader) (newText : Text) :
    TailBatch × TailReader :=
  let fullText := reader.pendingFragment ++ newText
  let collected := collectCompleteLines fullText []
  let reader := { reader with pendingFragment := collected.2 }
  if collected.1 = [] then ({}, reader)
  else
    let parsed := parseLines collected.1
    let assigned := reader.assignPhysicalEntryIdentity parsed.1 collected.1.length
    ({ entries             := assigned.1
       parseErrors         := parsed.2
       observedThroughLine := (some (assigned.2.nextLine - 1)).filter (0 < ·) }, assigned.2)

/-- Successive reads, one for each appended chunk. -/
def readAll (parseLines : LineParser) : TailReader → List Text → TailBatch
  | _, [] => {}
  | reader, chunk :: chunks =>
    (reader.readNewEntries parseLines chunk).1.append
      ((reader.readNewEntries parseLines chunk).2.readAll parseLines chunks)

end TailReader

theorem collectCompleteLines_eq (text pendingFragment : Text) :
    collectCompleteLines text pendingFragment =
      (completeLines text, pendingFragment ++ lastLine text) := by
  have hends := getLast?_newline_iff text
  rw [collectCompleteLines]
  by_cases hnil : text = []
  · subst hnil
    simp [lines, completeLines, lastLine, terminated]
  · by_cases hl : lastLine text = []
    · rw [hl, List.append_nil, if_neg (by simp [(hends hnil).mpr hl]),
        lines_of_complete (show Complete text from hl)]
    · have hlines : lines text = completeLines text ++ [lastLine text] := by
        rw [lines, if_neg hl]
      have hno : ¬ text.getLast? = some '\n' := fun h => hl ((hends hnil).mp h)
      rw [hlines, if_pos (by simp [hno]), List.dropLast_concat]
      simp

/-- The lines each read completes, after a fragment. -/
def batchesFrom : Text → List Text → List (List Text)
  | _, [] => []
  | fragment, chunk :: chunks =>
    completeLines (fragment ++ chunk) :: batchesFrom (lastLine (fragment ++ chunk)) chunks

theorem batchesFrom_flatten (chunks : List Text) (fragment : Text) (h : '\n' ∉ fragment) :
    (batchesFrom fragment chunks).flatten = completeLines (fragment ++ chunks.flatten) := by
  induction chunks generalizing fragment with
  | nil =>
    rw [List.flatten_nil, List.append_nil, completeLines, terminated_of_not_mem h]
    rfl
  | cons chunk chunks ih =>
    rw [batchesFrom, List.flatten_cons, ih _ (not_mem_lastLine _), List.flatten_cons,
      ← List.append_assoc, completeLines_append (fragment ++ chunk)]

/-- The rows of batches, the first of which begins at line `n`. -/
def batchEntries (parseLines : LineParser) : Nat → List (List Text) → List LogEntry
  | _, [] => []
  | n, batch :: batches =>
    (parseLines batch).1.map (rebase n) ++ batchEntries parseLines (n + batch.length) batches

def batchErrors (parseLines : LineParser) (batches : List (List Text)) : Nat :=
  (batches.map fun batch => (parseLines batch).2).sum

/-- Rows numbered from one, placed in the file: a batch that begins at line
`n + 1` has the rows that are numbered from there. -/
theorem rebase_shown {R β : Type} {view : LogEntry → β} {entry : R → LogEntry}
    (move : Nat → β → β) (hmove : ∀ n row, view (rebase n row) = move n (view row))
    {entries : List LogEntry} {rows : List (Nat × R)}
    (h : entries.map view = shown entry view (rows.map fun kr => (kr.1 + 1, kr.2))) (n : Nat) :
    (entries.map (rebase (n + 1))).map view =
      shown entry view (rows.map fun kr => (kr.1 + (n + 1), kr.2)) := by
  have hmoved : (entries.map (rebase (n + 1))).map view = (entries.map view).map (move (n + 1)) := by
    rw [List.map_map, List.map_map]
    exact List.map_congr_left fun row _ => hmove (n + 1) row
  rw [hmoved, h, shown, shown, List.map_map, List.map_map, List.map_map]
  refine List.map_congr_left fun kr _ => ?_
  simp only [Function.comp_apply]
  rw [← hmove]
  refine congrArg view ?_
  simp only [rebase, LogEntry.atLine, LogEntry.mk.injEq, true_and, and_true]
  omega

/-! ## Reading in terms of batches

Rows are compared through a view that does not see their ids, which are
assigned as rows are published. -/

section Viewed

variable {β : Type} {view : LogEntry → β} (hview : ∀ entry id, view (entry.withId id) = view entry)
  {parseLines : LineParser} (hnil : parseLines [] = ([], 0))

include hview in
theorem assigned_view (reader : TailReader) (entries : List LogEntry) (count : Nat) :
    (reader.assignPhysicalEntryIdentity entries count).1.map view =
      (entries.map (rebase reader.nextLine)).map view := by
  rw [TailReader.assignPhysicalEntryIdentity]
  refine List.ext_getElem? fun i => ?_
  simp only [List.getElem?_map, List.getElem?_mapIdx, Option.map_map]
  refine congrArg (Option.map · entries[i]?) (funext fun entry => ?_)
  exact hview (rebase reader.nextLine entry) (reader.nextId + i)

include hview hnil

theorem readNewEntries_spec (reader : TailReader) (chunk : Text) :
    let batch := completeLines (reader.pendingFragment ++ chunk)
    let read := reader.readNewEntries parseLines chunk
    read.1.entries.map view = ((parseLines batch).1.map (rebase reader.nextLine)).map view ∧
      read.1.parseErrors = (parseLines batch).2 ∧
      read.2.pendingFragment = lastLine (reader.pendingFragment ++ chunk) ∧
      read.2.nextLine = reader.nextLine + batch.length := by
  intro batch read
  have hcollect := collectCompleteLines_eq (reader.pendingFragment ++ chunk) []
  by_cases hb : batch = []
  · have hread : read = ({}, { reader with
        pendingFragment := lastLine (reader.pendingFragment ++ chunk) }) := by
      simp only [read, TailReader.readNewEntries, hcollect]
      exact if_pos hb
    rw [hread, hb, hnil]
    exact ⟨rfl, rfl, rfl, rfl⟩
  · have hread : read.1.entries = (reader.assignPhysicalEntryIdentity (parseLines batch).1
        batch.length).1 ∧ read.1.parseErrors = (parseLines batch).2 ∧
        read.2.pendingFragment = lastLine (reader.pendingFragment ++ chunk) ∧
        read.2.nextLine = reader.nextLine + batch.length := by
      simp only [read, TailReader.readNewEntries, hcollect]
      rw [if_neg (show ¬ completeLines (reader.pendingFragment ++ chunk) = [] from hb)]
      exact ⟨rfl, rfl, rfl, rfl⟩
    obtain ⟨hentries, herrors, hfragment, hline⟩ := hread
    exact ⟨by rw [hentries, assigned_view hview], herrors, hfragment, hline⟩

theorem readAll_view (chunks : List Text) (reader : TailReader) :
    (reader.readAll parseLines chunks).entries.map view =
        (batchEntries parseLines reader.nextLine
          (batchesFrom reader.pendingFragment chunks)).map view ∧
      (reader.readAll parseLines chunks).parseErrors =
        batchErrors parseLines (batchesFrom reader.pendingFragment chunks) := by
  induction chunks generalizing reader with
  | nil => exact ⟨rfl, rfl⟩
  | cons chunk chunks ih =>
    obtain ⟨hentries, herrors, hfragment, hline⟩ := readNewEntries_spec hview hnil reader chunk
    obtain ⟨hrest, hresterrors⟩ := ih (reader.readNewEntries parseLines chunk).2
    rw [hfragment, hline] at hrest
    rw [hfragment] at hresterrors
    rw [TailReader.readAll, TailBatch.append, batchesFrom]
    refine ⟨?_, ?_⟩
    · rw [List.map_append, hentries, hrest, batchEntries, List.map_append]
    · simp only [batchErrors, List.map_cons, List.sum_cons] at hresterrors ⊢
      rw [herrors, hresterrors]

end Viewed

/-! ## A followed file -/

/-- A file of complete lines, opened and then appended to. -/
structure Tailing where
  opened : Text
  chunks : List Text
  opened_complete : Complete opened
  appended_complete : Complete chunks.flatten

namespace Tailing

def whole (t : Tailing) : Text := t.opened ++ t.chunks.flatten

def batches (t : Tailing) : List (List Text) := batchesFrom [] t.chunks

/-- The reader as the client starts it after opening the file. -/
def reader (t : Tailing) (entries : List LogEntry) : TailReader :=
  { nextId   := (entries.getLast?.map fun entry => entry.id + 1).getD 0
    nextLine := (lines t.opened).length + 1 }

/-- What the viewer has: the rows and errors of the opened file, then those of
every read. -/
def viewed (parseLines : LineParser) (t : Tailing) : List LogEntry × Nat :=
  let opened := parseLines (lines t.opened)
  let tail := (t.reader opened.1).readAll parseLines t.chunks
  (opened.1 ++ tail.entries, opened.2 + tail.parseErrors)

theorem lines_whole (t : Tailing) : lines t.whole = lines t.opened ++ t.batches.flatten := by
  rw [whole, lines_append t.opened_complete, lines_of_complete t.appended_complete, batches,
    batchesFrom_flatten t.chunks [] List.not_mem_nil, List.nil_append]

theorem viewed_view {β : Type} {view : LogEntry → β}
    (hview : ∀ entry id, view (entry.withId id) = view entry)
    {parseLines : LineParser} (hnil : parseLines [] = ([], 0)) (t : Tailing) :
    (t.viewed parseLines).1.map view =
        ((parseLines (lines t.opened)).1 ++
          batchEntries parseLines ((lines t.opened).length + 1) t.batches).map view ∧
      (t.viewed parseLines).2 =
        (parseLines (lines t.opened)).2 + batchErrors parseLines t.batches := by
  obtain ⟨hentries, herrors⟩ := readAll_view hview hnil t.chunks
    (t.reader (parseLines (lines t.opened)).1)
  rw [viewed]
  exact ⟨by rw [List.map_append, hentries, List.map_append]; rfl, by rw [herrors]; rfl⟩

end Tailing

end Tail
end CmTrace
