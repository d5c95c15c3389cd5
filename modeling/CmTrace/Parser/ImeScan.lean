import CmTrace.Parser.Ime

/-!
# Readings of the management extension log

The scan for records, the fragments between them and the reading line by line, each up to
a number of entries.
-/

namespace CmTrace
namespace Parser
namespace Ime

open Text Log Time Ccm

structure ImeLine where
  lineNumber : Nat
  timestamp : Option Text := none
  timestampUtc : Option Text := none
  message : Text
  component : Option Text := none
  thread : Option Nat := none
  timezoneOffset : Option Int := none
  deriving DecidableEq, Repr

structure ParsedImeRecord where
  line : ImeLine
  timestampMillis : Option Int := none
  timestampDisplay : Option Text := none
  severity : Severity := .info
  threadDisplay : Option Text := none
  sourceFile : Option Text := none
  format : LogFormat := .plain
  isFragment : Bool := true
  deriving DecidableEq, Repr

structure ParsedImeChunk where
  entries : List ParsedImeRecord := []
  parseErrors : Nat := 0
  deriving DecidableEq, Repr

/-! ## Records -/

/-- A record; its message is group 1, its attributes are group 2. -/
def imeRecordRe : Regex :=
  .chain [.word recordStart, .group 1 (.lazyMany .anyChar), .word attrsStart,
    .group 2 (.many (.alt (.char fun c => c != '"' && c != '>')
      (.chain [.word ['"'], .many (.anyBut '"'), .word ['"']]))), .word ['>']]

section

variable (host : ImeHost)

def parseRecord (caps : Regex.Match) (lineNumber : Nat) : Option ParsedImeRecord := do
  let message ← caps.group 1
  let attrs := parseAttributes (← caps.group 2)
  let fields := parseTimestampFields host attrs.date attrs.time
  pure {
    line := {
      lineNumber     := lineNumber
      timestamp      := fields.display
      timestampUtc   := fields.utc
      message        := message
      component      := attrs.component.filter fun value => value != []
      thread         := attrs.thread
      timezoneOffset := fields.timezoneOffset }
    timestampMillis  := fields.millis
    timestampDisplay := fields.display
    severity         := severityFromTypeField attrs.typeValue message
    threadDisplay    := attrs.thread.map formatThreadDisplay
    sourceFile       := attrs.sourceFile.filter fun value => value != []
    format           := .ccm
    isFragment       := false }

end

/-! ## Fragments -/

def fragment (lineNumber : Nat) (message : Text) : ParsedImeRecord :=
  { line := { lineNumber := lineNumber, message := message } }

def trimReturns (piece : Text) : Text := piece.rdropWhile fun c => c == '\r' || c == '\n'

/-- A line in fragments of bounded size; each takes a character at least. -/
def pushChunks (maxEntries lineNumber : Nat) : Nat → Text → ParsedImeChunk → ParsedImeChunk
  | 0, _, build => build
  | fuel + 1, line, build =>
    if line = [] ∨ maxEntries ≤ build.entries.length then build
    else
      let chunk := boundedPrefix line maxImeRecordBytes
      pushChunks maxEntries lineNumber fuel (line.drop chunk.length)
        { entries     := build.entries ++ [fragment lineNumber chunk]
          parseErrors := build.parseErrors + 1 }

def pushPieces (maxEntries : Nat) (lineStarts : List Nat) :
    Nat → List Text → ParsedImeChunk → ParsedImeChunk
  | _, [], build => build
  | offset, piece :: pieces, build =>
    if maxEntries ≤ build.entries.length then build
    else
      let line := trimReturns piece
      pushPieces maxEntries lineStarts (offset + piece.length) pieces
        (pushChunks maxEntries (lineNumberForOffset lineStarts offset) line.length line build)

def pushUnmatchedSegment (maxEntries : Nat) (lineStarts : List Nat) (segment : Text)
    (baseOffset : Nat) (build : ParsedImeChunk) : ParsedImeChunk :=
  pushPieces maxEntries lineStarts baseOffset (splitInclusive segment) build

/-! ## The scan -/

/-- Where the scan has come: what was read, the text after it that the search has passed
over, and the text that it has not. -/
structure ImeCursor where
  offset : Nat := 0
  pending : Text := []
  rest : Text
  matchedAny : Bool := false

section

variable (host : ImeHost) (maxEntries : Nat) (lineStarts : List Nat)

def pushFramed (framed : Text) (offset : Nat) (build : ParsedImeChunk) : ParsedImeChunk :=
  match (imeRecordRe.captures framed).bind fun caps =>
      parseRecord host caps (lineNumberForOffset lineStarts offset) with
  | some record => { build with entries := build.entries ++ [record] }
  | none => pushUnmatchedSegment maxEntries lineStarts framed offset build

def scanRecords : Nat → ImeCursor → ParsedImeChunk → ParsedImeChunk × ImeCursor
  | 0, cursor, build => (build, cursor)
  | fuel + 1, cursor, build =>
    match findText recordStart cursor.rest with
    | none => (build, cursor)
    | some (gap, tail) =>
      if maxEntries ≤ build.entries.length then (build, cursor)
      else match recordBoundary host tail with
      | .interrupted next =>
        scanRecords fuel { cursor with
          pending := cursor.pending ++ gap ++ tail.take next, rest := tail.drop next } build
      | .capped length =>
        let segment := cursor.pending ++ gap ++ tail.take length
        scanRecords fuel
          { offset     := cursor.offset + segment.length
            rest       := tail.drop length
            matchedAny := true }
          (pushUnmatchedSegment maxEntries lineStarts segment cursor.offset build)
      | .incomplete => (build, cursor)
      | .complete length =>
        let segment := cursor.pending ++ gap
        let pushed := pushUnmatchedSegment maxEntries lineStarts segment cursor.offset build
        if maxEntries ≤ pushed.entries.length then (pushed, cursor)
        else
          let start := cursor.offset + segment.length
          scanRecords fuel
            { offset     := start + length
              rest       := tail.drop length
              matchedAny := true }
            (pushFramed host maxEntries lineStarts (tail.take length) start pushed)

end

/-! ## Lines -/

section

variable (host : ImeHost) (maxEntries : Nat)

def simpleTsRe : Regex :=
  let digit := host.decimalNumber
  .chain [.begin,
    .group 1 (.chain [.times 4 digit, .word ['-'], .times 2 digit, .word ['-'], .times 2 digit,
      .plus .space, .times 2 digit, .word [':'], .times 2 digit, .word [':'], .times 2 digit,
      .many (.char fun c => c == '.' || host.isDecimalNumber c)]),
    .plus .space, .group 2 (.plus .dot), .stop]

def setLineNumber (lineNumber : Nat) (record : ParsedImeRecord) : ParsedImeRecord :=
  { record with line := { record.line with lineNumber := lineNumber } }

def timestampedLine (lineNumber : Nat) (caps : Regex.Match) : ParsedImeRecord :=
  let timestamp := caps.group 1
  let message := (caps.group 2).getD []
  { line := {
      lineNumber   := lineNumber
      timestamp    := timestamp
      timestampUtc := timestamp.bind host.parseFallbackTimestampUtc
      message      := message }
    timestampDisplay := timestamp
    severity         := detectSeverityFromText message
    isFragment       := false }

def pushFallbackLine (lineNumber : Nat) (line : Text) (entries : List ParsedImeRecord) :
    List ParsedImeRecord :=
  let trimmed := trim line
  if trimmed = [] ∧ byteLen line < maxImeRecordBytes then entries
  else if maxImeRecordBytes ≤ byteLen line then
    let pushed := pushUnmatchedSegment maxEntries [0] line 0 { entries := entries }
    -- the fragments of a line all belong to it
    let before := pushed.entries.length - pushed.parseErrors
    pushed.entries.take before ++ (pushed.entries.drop before).map (setLineNumber lineNumber)
  else match (simpleTsRe host).captures trimmed with
    | some caps => entries ++ [timestampedLine host lineNumber caps]
    | none => entries ++ [fragment lineNumber line]

def pushFallbackLines : Nat → List Text → List ParsedImeRecord → List ParsedImeRecord
  | _, [], entries => entries
  | lineNumber, line :: lines, entries =>
    if maxEntries ≤ entries.length then entries
    else pushFallbackLines (lineNumber + 1) lines
      (pushFallbackLine host maxEntries lineNumber line entries)

def parseFallbackLines (content : Text) : ParsedImeChunk :=
  let entries := pushFallbackLines host maxEntries 1 (lines content) []
  { entries := entries, parseErrors := entries.countP fun entry => entry.isFragment }

/-! ## Contents -/

def parseImeRecords (content : Text) : ParsedImeChunk :=
  let lineStarts := buildLineStarts content
  let scanned := scanRecords host maxEntries lineStarts content.length { rest := content } {}
  let cursor := scanned.2
  let build := pushUnmatchedSegment maxEntries lineStarts (cursor.pending ++ cursor.rest)
    cursor.offset scanned.1
  if cursor.matchedAny then build else parseFallbackLines host maxEntries content

end

def usizeMax : Nat := 2 ^ 64 - 1

def parseImeContent (host : ImeHost) (content : Text) : List ImeLine :=
  (parseImeRecords host usizeMax content).entries.map fun entry => entry.line

def parseImeContentBounded (host : ImeHost) (content : Text) (limit : Nat) :
    List ImeLine × Bool :=
  let parsed := parseImeRecords host (min (limit + 1) usizeMax) content
  let lines := parsed.entries.map fun entry => entry.line
  (lines.take limit, decide (limit < lines.length))

end Ime
end Parser
end CmTrace
