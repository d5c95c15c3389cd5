import CmTrace.Js.Text
import CmTrace.Watcher.Source
import CmTrace.Collections.Sorted

/-!
# The entries of the viewer

Rows as the viewer keeps them and what an amendment from the tail does to one: it
is applied when it begins where the message ends, in the text and in the file.
-/

namespace CmTrace
namespace LogStore

open Std Collections Js

open Watcher (ErrorCodeSpan)

structure LogEntry where
  id : Int
  filePath : JsString
  lineNumber : Nat
  timestamp : Option Int
  message : JsString
  errorCodeSpans : List ErrorCodeSpan
  deriving DecidableEq

/-- The text appended to a row, as it comes from the tail. -/
structure TailEntryAmendment where
  entryId : Int
  entryLineNumber : Nat
  continuationStartLine : Nat
  continuationEndLine : Nat
  messageUtf16Start : Nat
  messageSuffix : JsString
  errorCodeSpans : List ErrorCodeSpan
  deriving DecidableEq

def newline : UInt16 := unit '\n'

def splitLength (s : JsString) : Nat := s.count newline + 1

def spanFits (amendment : TailEntryAmendment) (span : ErrorCodeSpan) : Bool :=
  decide (amendment.messageUtf16Start ≤ span.start ∧ span.start < span.stop ∧
    span.stop ≤ amendment.messageUtf16Start + amendment.messageSuffix.length)

def canApplyTailAmendment (entry : LogEntry) (amendment : TailEntryAmendment) : Bool :=
  let expectedContinuationStartLine := entry.lineNumber + splitLength entry.message
  if amendment.messageSuffix.length = 0 ∨ amendment.messageSuffix.head? ≠ some newline ∨
      amendment.entryLineNumber ≠ entry.lineNumber ∨
      amendment.continuationStartLine ≠ expectedContinuationStartLine ∨
      amendment.continuationEndLine < amendment.continuationStartLine ∨
      entry.message.length ≠ amendment.messageUtf16Start then false
  else
    let physicalLineCount := amendment.continuationEndLine - amendment.continuationStartLine + 1
    let suffixLineCount := splitLength amendment.messageSuffix - 1
    decide (suffixLineCount = physicalLineCount) && amendment.errorCodeSpans.all (spanFits amendment)

def applyTailAmendment (entry : LogEntry) (amendment : TailEntryAmendment) : LogEntry :=
  { entry with
    message        := entry.message ++ amendment.messageSuffix
    errorCodeSpans := entry.errorCodeSpans ++ amendment.errorCodeSpans }

/-- The first entry of a list that takes an amendment, amended. -/
def amendFirst (takes : LogEntry → Bool) (amendment : TailEntryAmendment) :
    List LogEntry → List LogEntry
  | [] => []
  | entry :: entries =>
    if takes entry then applyTailAmendment entry amendment :: entries
    else entry :: amendFirst takes amendment entries

/-! ## What an amendment is taken for -/

/-- What an entry says when it takes an amendment. -/
structure Takes (entry : LogEntry) (amendment : TailEntryAmendment) : Prop where
  begins : amendment.messageSuffix.head? = some newline
  sameLine : amendment.entryLineNumber = entry.lineNumber
  startLine : amendment.continuationStartLine = entry.lineNumber + splitLength entry.message
  endLine : amendment.continuationEndLine + 1 =
    amendment.continuationStartLine + amendment.messageSuffix.count newline
  start : amendment.messageUtf16Start = entry.message.length
  spans : ∀ span ∈ amendment.errorCodeSpans, amendment.messageUtf16Start ≤ span.start ∧
    span.start < span.stop ∧
    span.stop ≤ amendment.messageUtf16Start + amendment.messageSuffix.length

theorem count_newline_pos {s : JsString} (h : s.head? = some newline) : 0 < s.count newline := by
  cases s with
  | nil => cases h
  | cons u s =>
    obtain rfl := Option.some_inj.mp h
    rw [List.count_cons_self]
    exact Nat.succ_pos _

structure AggregateSourceFile where
  filePath : JsString
  totalLines : Nat
  deriving DecidableEq

structure LogState where
  entries : List LogEntry := []
  selectedId : Option Int := none
  aggregateFiles : List AggregateSourceFile := []
  totalLines : Nat := 0
  findMatchIds : List Int := []
  findCurrentIndex : Option Nat := none
  deriving DecidableEq

/-! ## The order of the view -/

abbrev intOrder : Int → Int → Ordering := compare

abbrev natOrder : Nat → Nat → Ordering := compare

/-- The place of a file in the list, the last if it is there more than once. -/
def lastIdxOf {A : Type} [DecidableEq A] (a : A) (xs : List A) : Option Nat :=
  (xs.reverse.findIdx? (· = a)).map fun i => xs.length - 1 - i

def maxSafeInteger : Nat := 2 ^ 53 - 1

def buildAggregateFileOrder (files : List AggregateSourceFile) (filePath : JsString) : Nat :=
  (lastIdxOf filePath (files.map (·.filePath))).getD maxSafeInteger

section Order

variable (localeCompare : JsString → JsString → Ordering)

/-- By time, an entry without one last, then by file, line and text. -/
def compareMergedLogEntries (fileOrder : JsString → Nat) : LogEntry → LogEntry → Ordering :=
  compareLex (orderOn (someFirst intOrder) (·.timestamp)) <|
  compareLex (orderOn natOrder fun entry => fileOrder entry.filePath) <|
  compareLex (orderOn natOrder (·.lineNumber)) (orderOn localeCompare (·.message))

instance (fileOrder : JsString → Nat) [TransCmp localeCompare] :
    TransCmp (compareMergedLogEntries localeCompare fileOrder) := by
  unfold compareMergedLogEntries
  infer_instance

end Order

/-! ## Find -/

/-- Where in the matches the find goes on: at the selected entry, or else at the
next match after it. -/
def findIndex (entries : List LogEntry) (matchIds : List Int) (selectedId : Option Int) : Option Nat :=
  if matchIds = [] then none
  else match selectedId with
    | none => some 0
    | some selected =>
      match matchIds.findIdx? (· = selected) with
      | some index => some index
      | none =>
        match entries.findIdx? (fun entry => entry.id = selected) with
        | none => some 0
        | some at_ =>
          some ((matchIds.findIdx? fun id =>
            (lastIdxOf id (entries.map (·.id))).any fun index => decide (at_ < index)).getD 0)

/-- The matches of a find and the selection it leaves; `find` tells the entries that
match, and there is none when the query is blank or is no regular expression. -/
def recomputeAndSetMatches (find : Option (LogEntry → Bool)) (state : LogState) : LogState :=
  match find with
  | none => { state with findMatchIds := [], findCurrentIndex := none }
  | some matcher =>
    let matchIds := (state.entries.filter matcher).map (·.id)
    let newIndex := findIndex state.entries matchIds state.selectedId
    { state with
      findMatchIds     := matchIds
      findCurrentIndex := newIndex
      selectedId       := (newIndex.bind (matchIds[·]?)).or state.selectedId }

/-! ## Operations -/

def nextId (entries : List LogEntry) : Int :=
  entries.foldl (fun maxId entry => max maxId entry.id) (-1) + 1

def withIds (filePath : JsString) (first : Int) (entries : List LogEntry) : List LogEntry :=
  entries.mapIdx fun index entry => { entry with filePath := filePath, id := first + index }

def highestLine (entries : List LogEntry) : Nat :=
  entries.foldl (fun maximum entry => max maximum entry.lineNumber) 0

def countLines (files : List AggregateSourceFile) : Nat := (files.map (·.totalLines)).sum

def setFileLines (filePath : JsString) (lines : Nat → Nat) (files : List AggregateSourceFile) :
    List AggregateSourceFile :=
  files.map fun file =>
    if file.filePath = filePath then { file with totalLines := lines file.totalLines } else file

section Operations

variable (localeCompare : JsString → JsString → Ordering) (find : Option (LogEntry → Bool))

/-- Whether a file is one of the view; the first files come before their list. -/
def isListed (state : LogState) (filePath : JsString) : Bool :=
  state.aggregateFiles = [] || state.aggregateFiles.any fun file => file.filePath = filePath

def mergeEntries (state : LogState) (entries : List LogEntry) : List LogEntry :=
  sortBy (compareMergedLogEntries localeCompare (buildAggregateFileOrder state.aggregateFiles)) entries

def appendAggregateEntries (filePath : JsString) (newEntries : List LogEntry) (state : LogState) :
    LogState :=
  recomputeAndSetMatches find <|
    if !isListed state filePath then state
    else
      let entriesWithIds := withIds filePath (nextId state.entries) newEntries
      let aggregateFiles :=
        setFileLines filePath (fun lines => max lines (highestLine newEntries)) state.aggregateFiles
      { state with
        entries        := mergeEntries localeCompare state (state.entries ++ entriesWithIds)
        aggregateFiles := aggregateFiles
        totalLines     := if aggregateFiles ≠ [] then countLines aggregateFiles
          else state.totalLines + entriesWithIds.length }

/-- Whether an amendment of a file is for an entry. -/
def takesAmendment (filePath : JsString) (amendment : TailEntryAmendment) (entry : LogEntry) : Bool :=
  decide (entry.filePath = filePath) && canApplyTailAmendment entry amendment

def amendAggregateEntry (filePath : JsString) (amendment : TailEntryAmendment) (state : LogState) :
    LogState :=
  if !state.entries.any (takesAmendment filePath amendment) then state
  else
    let isTrackedFile := state.aggregateFiles.any fun file => file.filePath = filePath
    let aggregateFiles :=
      setFileLines filePath (fun lines => max lines amendment.continuationEndLine)
        state.aggregateFiles
    recomputeAndSetMatches find
      { state with
        entries        := amendFirst (takesAmendment filePath amendment) amendment state.entries
        aggregateFiles := if isTrackedFile then aggregateFiles else state.aggregateFiles
        totalLines     := if isTrackedFile then countLines aggregateFiles
          else max state.totalLines amendment.continuationEndLine }

def resetAggregateEntries (filePath : JsString) (newEntries : List LogEntry) (state : LogState) :
    LogState :=
  let remaining := state.entries.filter fun entry => entry.filePath ≠ filePath
  let entriesWithIds := withIds filePath (nextId remaining) newEntries
  let entries := mergeEntries localeCompare state (remaining ++ entriesWithIds)
  let aggregateFiles := setFileLines filePath (fun _ => highestLine newEntries) state.aggregateFiles
  recomputeAndSetMatches find
    { state with
      entries        := entries
      aggregateFiles := aggregateFiles
      totalLines     := if aggregateFiles ≠ [] then countLines aggregateFiles else entries.length
      selectedId     := state.selectedId.filter fun id => entries.any fun entry => entry.id = id }

inductive AggregateOp where
  | append (filePath : JsString) (entries : List LogEntry)
  | amend (filePath : JsString) (amendment : TailEntryAmendment)
  | reset (filePath : JsString) (entries : List LogEntry)

def AggregateOp.filePath : AggregateOp → JsString
  | append filePath _ => filePath
  | amend filePath _  => filePath
  | reset filePath _  => filePath

def LogState.step (state : LogState) : AggregateOp → LogState
  | .append filePath entries  => appendAggregateEntries localeCompare find filePath entries state
  | .amend filePath amendment => amendAggregateEntry find filePath amendment state
  | .reset filePath entries   => resetAggregateEntries localeCompare find filePath entries state

def LogState.run (state : LogState) (ops : List AggregateOp) : LogState :=
  ops.foldl (LogState.step localeCompare find) state

end Operations

end LogStore
end CmTrace
