import CmTrace.Parser.Ccm
import CmTrace.Text.Lines
import CmTrace.Text.Settled

/-!
# Configuration manager records

A content is searched for records, which may go over several lines; the lines
between them are plain rows.  Offsets count characters.
-/

namespace CmTrace
namespace Parser
namespace Ccm

open Text Log Time
open Regex (chain word many plus between opt space anyBut asciiDigit)

def ccmRecordOpener : Text := "<![LOG[".toList

/-- Digits, with an optional signed run of digits. -/
def timeTailRe : Regex :=
  .seq (plus asciiDigit) (opt (.seq (.char fun c => c == '+' || c == '-') (plus asciiDigit)))

def fileRe : Regex :=
  chain [plus space, word "file=\"".toList, .group 13 (many (anyBut '"')), word ['"']]

/-- What follows the message: the close of the message and the attributes.  The
groups are hour, minute, second, time tail, month, day, year, component, context,
type, thread and file, from 2 on. -/
def ccmAttributes : Regex :=
  chain [word "]LOG]!><time=\"".toList, .group 2 (between 1 2 asciiDigit), word [':'],
    .group 3 (between 1 2 asciiDigit), word [':'], .group 4 (between 1 2 asciiDigit), word ['.'],
    .group 5 timeTailRe, word ['"'], plus space, word "date=\"".toList,
    .group 6 (between 1 2 asciiDigit), word ['-'], .group 7 (between 1 2 asciiDigit), word ['-'],
    .group 8 (between 4 4 asciiDigit), word ['"'], plus space, word "component=\"".toList,
    .group 9 (many (anyBut '"')), word ['"'], plus space, word "context=\"".toList,
    .group 10 (many (anyBut '"')), word ['"'], plus space, word "type=\"".toList,
    opt (.group 11 asciiDigit), word ['"'], plus space, word "thread=\"".toList,
    opt (.group 12 (plus asciiDigit)), word ['"'], opt fileRe, word ['>']]

def ccmRe : Regex := .opened ccmRecordOpener 1 ccmAttributes

inductive CcmTimestampParseState where
  | normalizedUtc
  | offsetMissing
  | offsetInvalid
  | timestampMissing
  deriving DecidableEq, Repr

structure CcmTimestampParse where
  originalDisplay : Option Text := none
  offsetMinutes : Option Int := none
  utcMillis : Option Int := none
  orderingState : CcmTimestampParseState := .timestampMissing
  deriving DecidableEq, Repr

structure CcmParsed where
  message : Text
  component : Option Text
  timestamp : Option Int
  timestampDisplay : Option Text
  severity : Severity
  thread : Nat
  threadDisplay : Option Text
  sourceFile : Option Text
  timezoneOffset : Int
  context : Option Text
  timestampParse : CcmTimestampParse

structure CcmLogicalRecord where
  entry : LogEntry
  context : Option Text := none
  lineStart : Nat
  lineEnd : Nat
  timestamp : CcmTimestampParse := {}

/-- The fraction of a second and the signed offset after it. -/
def splitCcmTimeTail (value : Text) : Text × Option Text :=
  match value.findIdx? fun c => c == '+' || c == '-' with
  | some index => (value.take index, some (value.drop index))
  | none => (value, none)

def normalizedUtcMillis (naive : NaiveDateTime) (offsetMinutes : Int) : Option Int :=
  if (offsetMinutes * 60).natAbs < 86400 then some (naive.utcMillis - offsetMinutes * 60000) else none

def parseCaptures (name : Nat → Option Text) : Option CcmParsed := do
  let msg ← name 1
  let hText ← name 2
  let mText ← name 3
  let sText ← name 4
  let h ← parseU32 hText
  let m ← parseU32 mText
  let s ← parseU32 sText
  let timeTail ← name 5
  let (msText, timezoneText) := splitCcmTimeTail timeTail
  let ms ← truncateSubsecondToMillis msText
  let parsedTimezone := timezoneText.bind parseI32
  let monText ← name 6
  let dayText ← name 7
  let yrText ← name 8
  let mon ← parseU32 monText
  let day ← parseU32 dayText
  let yr ← parseI32 yrText
  let thr := ((name 12).bind parseU32).getD 0
  let reading := buildTimestamp mon day yr h m s ms parsedTimezone
  let naive := (NaiveDate.fromYmd yr mon day).bind fun date => date.andHmsMilli h m s ms
  let normalizedTimestamp := if timezoneText.isSome then
      naive.bind fun value => parsedTimezone.bind fun offset => normalizedUtcMillis value offset
    else none
  let orderingState : CcmTimestampParseState :=
    if naive.isNone then .timestampMissing
    else if timezoneText.isNone then .offsetMissing
    else if normalizedTimestamp.isSome then .normalizedUtc
    else .offsetInvalid
  return {
    message          := msg
    component        := name 9
    timestamp        := reading.1
    timestampDisplay := reading.2
    severity         := severityFromTypeField ((name 11).bind parseU32) msg
    thread           := thr
    threadDisplay    := some (formatThreadDisplay thr)
    sourceFile       := name 13
    timezoneOffset   := parsedTimezone.getD 0
    context          := name 10
    timestampParse   :=
      { originalDisplay := some (monText ++ '-' :: dayText ++ '-' :: yrText ++ ' ' :: hText ++
          ':' :: mText ++ ':' :: sText ++ '.' :: msText)
        offsetMinutes   := if timezoneText.isSome then parsedTimezone else none
        utcMillis       := normalizedTimestamp
        orderingState   := orderingState } }

def CcmParsed.intoLogicalRecord (parsed : CcmParsed) (id lineStart lineEnd : Nat)
    (filePath : Text) : CcmLogicalRecord :=
  { entry     :=
      { id               := id
        lineNumber       := lineStart
        message          := parsed.message
        component        := parsed.component
        timestamp        := parsed.timestamp
        timestampDisplay := parsed.timestampDisplay
        severity         := parsed.severity
        thread           := some parsed.thread
        threadDisplay    := parsed.threadDisplay
        sourceFile       := parsed.sourceFile
        format           := .ccm
        filePath         := filePath
        timezoneOffset   := some parsed.timezoneOffset }
    context   := parsed.context
    lineStart := lineStart
    lineEnd   := lineEnd
    timestamp := parsed.timestampParse }

def plainEntry (id lineNumber : Nat) (message filePath : Text) : LogEntry :=
  { id         := id
    lineNumber := lineNumber
    message    := message
    severity   := detectSeverityFromText message
    format     := .plain
    filePath   := filePath }

/-! ## The scan -/

inductive CcmScanMode where
  | publicProjection
  | sccmEvidence
  deriving DecidableEq, Repr

structure CcmScan where
  records : List CcmLogicalRecord
  errors : Nat
  recordLimitExceeded : Bool

structure CcmScanBuild where
  records : List CcmLogicalRecord := []
  errors : Nat := 0
  idCounter : Nat := 0
  recordLimit : Option Nat
  recordLimitExceeded : Bool := false

namespace CcmScanBuild

def recordLimitReached (build : CcmScanBuild) : Bool × CcmScanBuild :=
  if build.recordLimit.any fun limit => limit ≤ build.records.length then
    (true, { build with recordLimitExceeded := true })
  else (false, build)

def finish (build : CcmScanBuild) : CcmScan :=
  { records             := build.records
    errors              := build.errors
    recordLimitExceeded := build.recordLimitExceeded }

end CcmScanBuild

def buildLineStarts (content : Text) : List Nat :=
  0 :: content.zipIdx.filterMap fun (c, index) => if c = '\n' then some (index + 1) else none

/-- The count of the starts up to an offset, which is what a search among the sorted
starts gives. -/
def lineNumberForOffset (lineStarts : List Nat) (offset : Nat) : Nat :=
  lineStarts.countP (· ≤ offset)

/-- Where in a message a line begins with the opener of a record; the newest. -/
def newestNestedOpener (message : Text) : Option Nat :=
  (List.range message.length).reverse.find? fun offset =>
    ccmRecordOpener.isPrefixOf (message.drop offset) &&
      ((message.take offset).getLast?.any fun previous => previous == '\n' || previous == '\r')

/-- The pieces of a text that end in a line feed, with it, and what is left. -/
def splitInclusive (s : Text) : List Text :=
  (terminated s).1.map (· ++ ['\n']) ++ if lastLine s = [] then [] else [lastLine s]

/-- Pieces of a segment as plain rows, blank ones left out. -/
def pushPlainPieces (lineStarts : List Nat) (filePath : Text) :
    Nat → List Text → CcmScanBuild → CcmScanBuild
  | _, [], build => build
  | offset, piece :: pieces, build =>
    let line := piece.rdropWhile fun c => c == '\r' || c == '\n'
    let trimmed := trim line
    if trimmed = [] then pushPlainPieces lineStarts filePath (offset + piece.length) pieces build
    else
      let limited := build.recordLimitReached
      if limited.1 then limited.2
      else
        let lineNumber := lineNumberForOffset lineStarts offset
        pushPlainPieces lineStarts filePath (offset + piece.length) pieces
          { build with
            records   := build.records ++ [{
              entry     := plainEntry build.idCounter lineNumber trimmed filePath
              lineStart := lineNumber
              lineEnd   := lineNumber }]
            idCounter := build.idCounter + 1
            errors    := build.errors + 1 }

def pushUnmatchedPlain (segment : Text) (baseOffset : Nat) (lineStarts : List Nat)
    (filePath : Text) (build : CcmScanBuild) : CcmScanBuild :=
  pushPlainPieces lineStarts filePath baseOffset (splitInclusive segment) build

/-- Where the search has come: the offset, the text after it, and whether a record
was matched. -/
structure CcmCursor where
  offset : Nat
  rest : Text
  matchedAny : Bool := false

/-- The records of a content, and where the search ends unless the limit ends it. -/
def scanRecords (mode : CcmScanMode) (lineStarts : List Nat) (filePath : Text) :
    Nat → CcmCursor → CcmScanBuild → CcmScanBuild × Option CcmCursor
  | 0, cursor, build => (build, some cursor)
  | fuel + 1, cursor, build => match ccmRe.locate cursor.rest with
    | none => (build, some cursor)
    | some (gap, caps) =>
      let start := cursor.offset + gap.length
      let stop := start + caps.taken.length
      let next : CcmCursor := { offset := stop, rest := caps.rest, matchedAny := true }
      if (newestNestedOpener ((caps.group 1).getD [])).isSome && mode == .sccmEvidence then
        scanRecords mode lineStarts filePath fuel next
          (pushUnmatchedPlain (gap ++ caps.taken) cursor.offset lineStarts filePath build)
      else
        let build := pushUnmatchedPlain gap cursor.offset lineStarts filePath build
        match parseCaptures caps.group with
        | some parsed =>
          let limited := build.recordLimitReached
          if limited.1 then (limited.2, none)
          else
            scanRecords mode lineStarts filePath fuel next
              { build with
                records   := build.records ++ [parsed.intoLogicalRecord build.idCounter
                  (lineNumberForOffset lineStarts start) (lineNumberForOffset lineStarts (stop - 1))
                  filePath]
                idCounter := build.idCounter + 1 }
        | none =>
          scanRecords mode lineStarts filePath fuel next
            (pushUnmatchedPlain caps.taken start lineStarts filePath build)

def parseLine (line : Text) : Option CcmParsed :=
  (ccmRe.captures line).bind fun caps => parseCaptures caps.group

/-- Lines read one by one; blank ones are left out. -/
def parseLinesFrom (filePath : Text) : Nat → Nat → List Text → List LogEntry × Nat
  | _, _, [] => ([], 0)
  | id, lineNumber, line :: lines =>
    if isBlank line then parseLinesFrom filePath id (lineNumber + 1) lines
    else
      let rest := parseLinesFrom filePath (id + 1) (lineNumber + 1) lines
      match parseLine line with
      | some parsed =>
        ((parsed.intoLogicalRecord id lineNumber lineNumber filePath).entry :: rest.1, rest.2)
      | none => (plainEntry id lineNumber line filePath :: rest.1, rest.2 + 1)

def parseLines (lines : List Text) (filePath : Text) : List LogEntry × Nat :=
  parseLinesFrom filePath 0 1 lines

def scanCcmContent (content filePath : Text) (mode : CcmScanMode) (recordLimit : Option Nat) :
    CcmScan :=
  let lineStarts := buildLineStarts content
  match scanRecords mode lineStarts filePath content.length { offset := 0, rest := content }
      { recordLimit := recordLimit } with
  | (build, none) => build.finish
  | (build, some cursor) =>
    let build := pushUnmatchedPlain cursor.rest cursor.offset lineStarts filePath build
    if cursor.matchedAny || recordLimit.isSome then build.finish
    else
      let parsed := parseLines (lines content) filePath
      { records             := parsed.1.map fun entry =>
          { entry := entry, lineStart := entry.lineNumber, lineEnd := entry.lineNumber }
        errors              := parsed.2
        recordLimitExceeded := build.recordLimitExceeded }

def parseContentMultiline (content filePath : Text) : List LogEntry × Nat :=
  let scan := scanCcmContent content filePath .publicProjection none
  (scan.records.map fun record => record.entry, scan.errors)

/-- Lines of a selection without a specialization. -/
def parseLinesJoined (filePath : Text) (lines : List Text) : List LogEntry × Nat :=
  parseContentMultiline (join ['\n'] lines) filePath

end Ccm
end Parser
end CmTrace
