import CmTrace.Watcher.Decode

/-!
# One read of a followed file

`readNewEntries` observes the file, decodes what was appended and hands the text
to the framing of the selection.  A Company Portal selection holds the newest
record for the lines that continue it; an inventory selection frames what it is
given piece by piece; every other selection parses the lines a read completes.
-/

namespace CmTrace
namespace Watcher

open Text Log

/-! ## Company Portal framing -/

/-- Records that opening left too long are cut at `maxPendingBytes`; a piece
owns the lines it ends. -/
def splitOversized (maxPendingBytes : Nat) : Nat → Text → List FramedLogicalRecord × Option Text
  | 0, record => ([], some record)
  | fuel + 1, record =>
    if byteLen record ≤ maxPendingBytes then ([], some record)
    else
      let piece := takeBytes maxPendingBytes record
      let remainder := dropBytes maxPendingBytes record
      let cut : FramedLogicalRecord := { content := piece, physicalLines := piece.count '\n' }
      if remainder = [] then ([cut], none)
      else
        let rest := splitOversized maxPendingBytes fuel remainder
        (cut :: rest.1, rest.2)

/-- Add one line to the held record; a header completes it first. -/
def frameLine (looksLikeRecordStart : Text → Bool) (maxPendingBytes : Nat)
    (framed : LogicalRecordFramingResult) (rawLine : Text) : LogicalRecordFramingResult :=
  let line := trimEnd rawLine
  let closed := if looksLikeRecordStart line then
      framed.pendingRecord.toList.map FramedLogicalRecord.complete else []
  let kept := if looksLikeRecordStart line then none else framed.pendingRecord
  let record := match kept with
    | some record => record ++ '\n' :: line
    | none => line
  let split := splitOversized maxPendingBytes record.length record
  { completedRecords := framed.completedRecords ++ closed ++ split.1
    pendingRecord    := split.2
    overflowCount    := framed.overflowCount + split.1.length }

def frameCompanyPortalLogicalRecords (looksLikeRecordStart : Text → Bool)
    (pendingRecord : Option Text) (newLines : List Text) (maxPendingBytes : Nat) :
    LogicalRecordFramingResult :=
  newLines.foldl (frameLine looksLikeRecordStart maxPendingBytes) { pendingRecord := pendingRecord }

/-! ## The record that opening the file left last -/

/-- Add one line to it; the flag says that the bound was reached just now. -/
def appendInitialContinuation (maxRetainedBytes now : Nat) (pending : PendingInitialLogicalRecord)
    (line : Text) : PendingInitialLogicalRecord × Bool :=
  let lineNumber := pending.nextContinuationLine
  let pending := { pending with nextContinuationLine := lineNumber + 1, lastUpdated := now }
  if pending.capped then (pending, false)
  else
    let requiredBytes := 1 + byteLen line
    let remaining := maxRetainedBytes - pending.retainedSuffixBytes
    let acceptedBytes := min requiredBytes remaining
    let kept := takeBytes (acceptedBytes - 1) line
    let pending := if 0 < acceptedBytes then
        { pending with
          pendingStartLine    := pending.pendingStartLine.or (some lineNumber)
          pendingEndLine      := some lineNumber
          pendingSuffix       := pending.pendingSuffix ++ '\n' :: kept
          retainedSuffixBytes := pending.retainedSuffixBytes + 1 + byteLen kept }
      else pending
    if acceptedBytes < requiredBytes then ({ pending with capped := true }, true)
    else (pending, false)

def utf16Len (s : Text) : Nat := (s.map fun c => if c.toNat < 0x10000 then 1 else 2).sum

def ErrorCodeSpan.shift (offset : Nat) (span : ErrorCodeSpan) : ErrorCodeSpan :=
  { start := span.start + offset, stop := span.stop + offset }

/-- The amendment that hands over the pending suffix, and what is held after it. -/
def takeAmendment (detectErrorCodeSpans : Text → List ErrorCodeSpan)
    (pending : PendingInitialLogicalRecord) :
    Option TailEntryAmendment × PendingInitialLogicalRecord :=
  if pending.pendingSuffix = [] then (none, pending)
  else match pending.pendingStartLine, pending.pendingEndLine with
    | some startLine, some endLine =>
      (some
        { entryId               := pending.entryId
          entryLineNumber       := pending.entryLineNumber
          continuationStartLine := startLine
          continuationEndLine   := endLine
          messageUtf16Start     := pending.messageUtf16Len
          messageSuffix         := pending.pendingSuffix
          errorCodeSpans        := (detectErrorCodeSpans pending.pendingSuffix).map
            (ErrorCodeSpan.shift pending.messageUtf16Len) },
        { pending with
          pendingStartLine := none
          pendingEndLine   := none
          pendingSuffix    := []
          messageUtf16Len  := pending.messageUtf16Len + utf16Len pending.pendingSuffix })
    | some _, none => (none, { pending with pendingStartLine := none })
    | none, _ => (none, pending)

/-- Several lines, and whether one of them reached the bound. -/
def appendInitialContinuations (maxRetainedBytes now : Nat) :
    PendingInitialLogicalRecord → List Text → PendingInitialLogicalRecord × Bool
  | pending, [] => (pending, false)
  | pending, line :: lines =>
    let appended := appendInitialContinuation maxRetainedBytes now pending (trimEnd line)
    let rest := appendInitialContinuations maxRetainedBytes now appended.1 lines
    (rest.1, appended.2 || rest.2)

namespace TailReader

variable {I : Type} (P : Parsers)

/-- Number the rows of a batch on and advance past its lines. -/
def assignEntryIdentity (r : TailReader I) (entries : List LogEntry) (physicalLines : Nat) :
    List LogEntry × TailReader I :=
  (entries.mapIdx fun i entry => (Tail.rebase r.nextLine entry).withId (r.nextId + i),
    { r with
      nextId   := r.nextId + entries.length
      nextLine := r.nextLine + physicalLines })

def takeInitialAmendment (r : TailReader I) : List TailEntryAmendment × TailReader I :=
  match r.pendingInitialLogicalRecord with
  | none => ([], r)
  | some pending =>
    let taken := takeAmendment P.detectErrorCodeSpans pending
    (taken.1.toList, { r with pendingInitialLogicalRecord := some taken.2 })

/-- Hand lines to the initial record up to the first header, whose index is
given. -/
def consumeInitialCompanyPortalLines (r : TailReader I) (lines : List Text) (now : Nat) :
    Option (TailBatch × Option Nat × TailReader I) :=
  match r.pendingInitialLogicalRecord with
  | none => none
  | some pending =>
    let firstHeader := lines.findIdx? fun line => P.looksLikeRecordStart (trimEnd line)
    let continuationCount := firstHeader.getD lines.length
    let appended := appendInitialContinuations maxPendingLogicalRecordBytes now pending
      (lines.take continuationCount)
    let reported := appended.2 && !appended.1.capReported
    let pending := { appended.1 with capReported := appended.1.capReported || reported }
    let r := { r with
      nextLine                    := pending.nextContinuationLine
      pendingInitialLogicalRecord := some pending }
    let taken := if appended.2 || firstHeader.isSome then r.takeInitialAmendment P else ([], r)
    let batch : TailBatch :=
      { amendments          := taken.1
        parseErrors         := if reported then 1 else 0
        observedThroughLine := if 0 < continuationCount then some (r.nextLine - 1) else none }
    some (batch, firstHeader,
      if firstHeader.isSome then { taken.2 with pendingInitialLogicalRecord := none } else taken.2)

/-- An unterminated line that does not fit the bound is taken as far as it fits
and the rest of it is discarded. -/
def enforceInitialFragmentBound (r : TailReader I) (now : Nat) : TailBatch × TailReader I :=
  let retained := (r.pendingInitialLogicalRecord.map fun p => p.retainedSuffixBytes).getD 0
  let pendingBytes := retained + (if r.pendingFragment = [] then 0 else 1) +
    byteLen r.pendingFragment
  if pendingBytes ≤ maxPendingLogicalRecordBytes then ({}, r)
  else
    let fragment := r.pendingFragment
    let r := { r with pendingFragment := [], pendingFragmentSelection := none }
    match r.pendingInitialLogicalRecord with
    | none => ({}, { r with discardingCappedInitialLine := true })
    | some pending =>
      let appended := appendInitialContinuation maxPendingLogicalRecordBytes now pending fragment
      let reported := appended.2 && !appended.1.capReported
      let pending := { appended.1 with capReported := appended.1.capReported || reported }
      let r := { r with
        nextLine                    := pending.nextContinuationLine
        pendingInitialLogicalRecord := some pending }
      let taken := r.takeInitialAmendment P
      ({ amendments          := taken.1
         parseErrors         := if reported then 1 else 0
         observedThroughLine := some (r.nextLine - 1) },
        { taken.2 with discardingCappedInitialLine := true })

/-! ## Rows of framed records -/

def parsePortalEach (selection : ResolvedParser) (r : TailReader I) :
    List FramedLogicalRecord → (List LogEntry × Nat) × TailReader I
  | [] => (([], 0), r)
  | record :: records =>
    let parsed := P.parseContentWithSelection selection record.content
    let assigned := r.assignEntryIdentity parsed.1 record.physicalLines
    let rest := assigned.2.parsePortalEach selection records
    ((assigned.1 ++ rest.1.1, parsed.2 + rest.1.2), rest.2)

def observed (r : TailReader I) (physicalLines : Nat) : Option Nat :=
  (if 0 < physicalLines then some (r.nextLine - 1) else none).filter (0 < ·)

def parseCompanyPortalRecords (selection : ResolvedParser) (r : TailReader I)
    (records : List FramedLogicalRecord) (framingParseErrors : Nat) : TailBatch × TailReader I :=
  let parsed := r.parsePortalEach P selection records
  ({ entries             := parsed.1.1
     parseErrors         := framingParseErrors + parsed.1.2
     observedThroughLine := parsed.2.observed (records.map fun record => record.physicalLines).sum },
    parsed.2)

def parseLogicalRecords (r : TailReader I) (records : List FramedLogicalRecord)
    (dialect : DeviceInventoryLogDialect) (framingParseErrors : Nat) : TailBatch × TailReader I :=
  let physicalLines := (records.map fun record => record.physicalLines).sum
  let parsed := P.parseFramedRecords records dialect
  let assigned := r.assignEntryIdentity parsed.1 physicalLines
  ({ entries             := assigned.1
     parseErrors         := framingParseErrors + parsed.2
     observedThroughLine := assigned.2.observed physicalLines }, assigned.2)

/-! ## Inventory text -/

def frameInventorySegments (dialect : DeviceInventoryLogDialect) (selection : ResolvedParser)
    (now : Nat) (r : TailReader I) (segments : List LogicalRecordSegment) :
    TailBatch × TailReader I :=
  let framed := P.frameLogicalRecords dialect
    (r.pendingLogicalRecord.map fun pending => pending.content) segments
  let r := { r with pendingLogicalRecord := framed.pendingRecord.map fun content =>
      { content := content, lastUpdated := now, parserSelection := selection } }
  r.parseLogicalRecords P framed.completedRecords dialect framed.overflowCount

def trimEndCr (s : Text) : Text := s.rdropWhile (· = '\r')

def maxLogicalRecordBytes : Nat := 1024 * 1024

/-- What a piece has room for joins the fragment; the rest is given back. -/
def fitInventoryPiece (r : TailReader I) (owner : Option (ResolvedParser × Nat)) (content : Text) :
    Text × TailReader I :=
  let logicalBytes := (r.pendingLogicalRecord.map fun p => byteLen p.content).getD 0
  let separatorBytes := if r.pendingLogicalRecord.isSome then 1 else 0
  let available := maxLogicalRecordBytes - logicalBytes - separatorBytes - byteLen r.pendingFragment
  let taken := takeBytes available content
  (dropBytes available content,
    if taken = [] then r
    else { r with
      pendingFragment          := r.pendingFragment ++ taken
      pendingFragmentSelection := owner })

/-- What does not fit is framed at once, and the line goes on as a continuation. -/
def overflowInventoryLine (dialect : DeviceInventoryLogDialect) (selection : ResolvedParser)
    (now : Nat) (r : TailReader I) (remaining : Text) : TailBatch × TailReader I :=
  if remaining = [] then ({}, r)
  else
    let first := { r with pendingFragment := [] }.frameInventorySegments P dialect selection now
      [.lineStart r.pendingFragment]
    let rest := { first.2 with inventoryLineContinuation := true }.frameInventorySegments P
      dialect selection now [.lineContinuation remaining]
    (first.1.append rest.1, rest.2)

/-- A line that ended before any of it was framed is framed whole. -/
def endInventoryLine (dialect : DeviceInventoryLogDialect) (selection : ResolvedParser)
    (now : Nat) (r : TailReader I) (lineComplete : Bool) : TailBatch × TailReader I :=
  if lineComplete && !r.inventoryLineContinuation then
    { r with pendingFragment := [] }.frameInventorySegments P dialect selection now
      [.lineStart (trimEndCr r.pendingFragment)]
  else ({}, r)

/-- A piece of one line, with whether the line ends with it. -/
def processInventoryLineSegment (dialect : DeviceInventoryLogDialect) (selection : ResolvedParser)
    (now : Nat) (r : TailReader I) (rawContent : Text) (lineComplete : Bool) :
    TailBatch × TailReader I :=
  let content := if lineComplete then trimEndCr rawContent else rawContent
  let owner := some (selection, now)
  if r.inventoryLineContinuation then
    let framed := r.frameInventorySegments P dialect selection now [.lineContinuation content]
    (framed.1,
      if lineComplete then
        { framed.2 with inventoryLineContinuation := false, pendingFragmentSelection := none }
      else { framed.2 with pendingFragmentSelection := owner })
  else if lineComplete && r.pendingFragment.isEmpty then
    let framed := r.frameInventorySegments P dialect selection now [.lineStart content]
    (framed.1, { framed.2 with pendingFragmentSelection := none })
  else
    let fitted := r.fitInventoryPiece owner content
    let started := fitted.2.overflowInventoryLine P dialect selection now fitted.1
    let ended := started.2.endInventoryLine P dialect selection now lineComplete
    (started.1.append ended.1,
      if lineComplete then
        { ended.2 with inventoryLineContinuation := false, pendingFragmentSelection := none }
      else if content = [] then ended.2
      else { ended.2 with pendingFragmentSelection := owner })

/-- The complete lines of a text, one after another. -/
def processInventoryLines (dialect : DeviceInventoryLogDialect) (selection : ResolvedParser)
    (now : Nat) (r : TailReader I) : List Text → TailBatch × TailReader I
  | [] => ({}, r)
  | line :: lines =>
    let first := r.processInventoryLineSegment P dialect selection now line true
    let rest := first.2.processInventoryLines dialect selection now lines
    (first.1.append rest.1, rest.2)

def processInventoryText (dialect : DeviceInventoryLogDialect) (selection : ResolvedParser)
    (now : Nat) (r : TailReader I) (text : Text) : TailBatch × TailReader I :=
  let ended := r.processInventoryLines P dialect selection now (terminated text).1
  if lastLine text = [] then ended
  else
    let open_ := ended.2.processInventoryLineSegment P dialect selection now (lastLine text) false
    (ended.1.append open_.1, open_.2)

/-! ## What can no longer be continued -/

def flushPendingText (r : TailReader I) : TailBatch × TailReader I :=
  let selection := (r.pendingLogicalRecord.map fun p => p.parserSelection).or
    (r.pendingFragmentSelection.map Prod.fst)
  let cleared := { r with
    pendingLogicalRecord     := none
    pendingFragment          := []
    pendingFragmentSelection := none }
  match selection.bind inventoryLogicalDialect with
  | none => ({}, cleared)
  | some dialect =>
    let held := r.pendingLogicalRecord.map fun p => p.content
    let framed : LogicalRecordFramingResult :=
      if r.pendingFragment = [] then { pendingRecord := held }
      else P.frameLogicalRecords dialect held [.lineStart r.pendingFragment]
    let last := P.frameLogicalRecords dialect framed.pendingRecord []
    let records := framed.completedRecords ++ last.completedRecords ++
      last.pendingRecord.toList.map FramedLogicalRecord.complete
    { cleared with inventoryLineContinuation := false }.parseLogicalRecords P records dialect
      (framed.overflowCount + last.overflowCount)

/-- The held fragment as a line of the initial record, when it has one and the
fragment is no header; what is then left of the fragment. -/
def flushInitialFragment (r : TailReader I) (now : Nat) :
    TailBatch × (Text × Option (ResolvedParser × Nat)) × TailReader I :=
  let fragment := r.pendingFragment
  let owner := r.pendingFragmentSelection
  let r := { r with pendingFragment := [], pendingFragmentSelection := none }
  if r.pendingInitialLogicalRecord = none then ({}, (fragment, owner), r)
  else
    let consumed : TailBatch × (Text × Option (ResolvedParser × Nat)) × TailReader I :=
      if fragment = [] then ({}, (fragment, owner), r)
      else match r.consumeInitialCompanyPortalLines P [fragment] now with
        | none => ({}, (fragment, owner), r)
        | some (batch, remainingStart, r) =>
          (batch, if remainingStart = some 0 then (fragment, owner) else ([], none), r)
    let taken := consumed.2.2.takeInitialAmendment P
    (consumed.1.append { amendments := taken.1 }, consumed.2.1, taken.2)

/-- The records of the held record and of what is left of the fragment. -/
def flushHeldRecord (batch : TailBatch) (fragment : Text) (owner : Option (ResolvedParser × Nat))
    (r : TailReader I) : TailBatch × TailReader I :=
  let held := r.pendingLogicalRecord.map fun p => p.content
  let selection := (r.pendingLogicalRecord.map fun p => p.parserSelection).or (owner.map Prod.fst)
  let r := { r with pendingLogicalRecord := none }
  match selection with
  | none => (batch, r)
  | some selection =>
    if companyPortalLogicalFraming selection then
      let framed := if fragment = [] then { pendingRecord := held }
        else frameCompanyPortalLogicalRecords P.looksLikeRecordStart held [fragment]
          maxPendingLogicalRecordBytes
      let records := framed.completedRecords ++
        framed.pendingRecord.toList.map FramedLogicalRecord.complete
      let parsed := parseCompanyPortalRecords P selection r records framed.overflowCount
      (batch.append parsed.1, parsed.2)
    else (batch, r)

def flushPendingLogicalRecord (r : TailReader I) (now : Nat) : TailBatch × TailReader I :=
  let r := if r.pendingInitialLogicalRecord.isSome && !supportsParser r.parserSelection then
      { r with pendingInitialLogicalRecord := none, discardingCappedInitialLine := false }
    else r
  let (batch, (fragment, owner), r) := r.flushInitialFragment P now
  flushHeldRecord P batch fragment owner r

/-- Complete all that is held, at the end of a generation or of the tail. -/
def finalizePendingInput (r : TailReader I) (now : Nat) : TailBatch × TailReader I :=
  let companyPortalOwner := ((r.pendingLogicalRecord.map fun p => p.parserSelection).or
    (r.pendingFragmentSelection.map Prod.fst)).any companyPortalLogicalFraming
  let (batch, r) :=
    if companyPortalOwner || r.pendingInitialLogicalRecord.isSome then
      r.flushPendingLogicalRecord P now
    else r.flushPendingText P
  ({ batch with parseErrors := batch.parseErrors + if r.pendingUtf8Bytes = [] then 0 else 1 },
    { r with pendingUtf8Bytes := [], pendingUtf8Selection := none })

/-! ## Text that was read -/

/-- A held record and an unterminated line that together exceed the bound are
framed as they are. -/
def enforceUnterminatedLogicalBound (selection : ResolvedParser) (r : TailReader I) (now : Nat) :
    TailBatch × TailReader I :=
  let pendingLen := (r.pendingLogicalRecord.map fun p => byteLen p.content).getD 0
  let pendingBytes := pendingLen + byteLen r.pendingFragment +
    if 0 < pendingLen ∧ r.pendingFragment ≠ [] then 1 else 0
  if pendingBytes ≤ maxPendingLogicalRecordBytes then ({}, r)
  else
    let framed := frameCompanyPortalLogicalRecords P.looksLikeRecordStart
      (r.pendingLogicalRecord.map fun p => p.content) [r.pendingFragment]
      maxPendingLogicalRecordBytes
    let fragment := framed.pendingRecord.getD []
    let r := { r with
      pendingLogicalRecord     := none
      pendingFragment          := fragment
      pendingFragmentSelection := if fragment = [] then none else some (selection, now) }
    parseCompanyPortalRecords P selection r framed.completedRecords framed.overflowCount

/-- The lines a read of a Company Portal log completes. -/
def framePortalLines (selection : ResolvedParser) (r : TailReader I) (now : Nat)
    (lines : List Text) : TailBatch × TailReader I :=
  let framed := frameCompanyPortalLogicalRecords P.looksLikeRecordStart
    (r.pendingLogicalRecord.map fun p => p.content) lines maxPendingLogicalRecordBytes
  let r := { r with pendingLogicalRecord := framed.pendingRecord.map fun content =>
      { content := content, lastUpdated := now, parserSelection := selection } }
  parseCompanyPortalRecords P selection r framed.completedRecords framed.overflowCount

/-- The lines that are left when the initial record has taken its own; nothing
when it took all of them. -/
def consumeInitialLines (r : TailReader I) (lines : List Text) (now : Nat) :
    TailBatch × Option (List Text) × TailReader I :=
  match r.consumeInitialCompanyPortalLines P lines now with
  | none => ({}, some lines, r)
  | some (batch, remainingStart, r) => (batch, remainingStart.map lines.drop, r)

def consumePortalLines (r : TailReader I) (now : Nat) (lines : List Text) (receivedText : Bool) :
    TailBatch × TailReader I :=
  let selection := r.parserSelection
  let r := if r.pendingFragment = [] then r
    else { r with pendingFragmentSelection := some (selection, now) }
  let r := if receivedText then
      { r with pendingLogicalRecord :=
          r.pendingLogicalRecord.map fun p => { p with lastUpdated := now } }
    else r
  let (batch, remaining, r) := if lines = [] then ({}, some [], r)
    else r.consumeInitialLines P lines now
  match remaining with
  | none =>
    let bounded := r.enforceInitialFragmentBound P now
    (batch.append bounded.1, bounded.2)
  | some remaining =>
    let framed := if lines = [] then ({}, r) else framePortalLines P selection r now remaining
    let bounded := if framed.2.pendingInitialLogicalRecord.isSome then
        framed.2.enforceInitialFragmentBound P now
      else framed.2.enforceUnterminatedLogicalBound P selection now
    ((batch.append framed.1).append bounded.1, bounded.2)

def isIme (selection : ResolvedParser) : Bool := selection.specialization == some .ime

/-- What is framed of a text, and what is left of it as the fragment. -/
def collectLines (r : TailReader I) (fullText : Text) : List Text × Text :=
  if r.parserSelection.recordFraming = .logicalRecord ∧ isIme r.parserSelection then
    let cutoff := P.completeImePrefixLen fullText
    (lines (fullText.take cutoff), fullText.drop cutoff)
  else Tail.collectCompleteLines fullText []

/-- The rows of complete lines; an IME selection counts the line feeds of what
it framed. -/
def parsePhysicalLines (r : TailReader I) (framedText : Text) (lines : List Text) :
    TailBatch × TailReader I :=
  if lines = [] then ({}, r)
  else
    let parsed := P.parseLinesWithSelection r.parserSelection lines
    let physicalLines := if isIme r.parserSelection then framedText.count '\n' else lines.length
    let assigned := r.assignEntryIdentity parsed.1 physicalLines
    ({ entries             := assigned.1
       parseErrors         := parsed.2
       observedThroughLine := (some (assigned.2.nextLine - 1)).filter (0 < ·) }, assigned.2)

/-- Text of a selection that is not an inventory selection. -/
def consumeLines (r : TailReader I) (now : Nat) (newText : Text) : TailBatch × TailReader I :=
  let fullText := r.pendingFragment ++ newText
  let r := if r.pendingFragment = [] then r
    else { r with pendingFragment := [], pendingFragmentSelection := none }
  let opened : Option (Text × TailReader I) :=
    if r.discardingCappedInitialLine then
      (splitOnce '\n' fullText).map fun split =>
        (split.2, { r with discardingCappedInitialLine := false })
    else some (fullText, r)
  match opened with
  | none => ({}, r)
  | some (fullText, r) =>
    let (lines, fragment) := r.collectLines P fullText
    let r := { r with pendingFragment := fragment }
    if companyPortalLogicalFraming r.parserSelection then
      r.consumePortalLines P now lines (!newText.isEmpty)
    else r.parsePhysicalLines P (fullText.take (fullText.length - fragment.length)) lines

def consumeText (r : TailReader I) (now : Nat) (newText : Text) : TailBatch × TailReader I :=
  match inventoryLogicalDialect r.parserSelection with
  | some dialect =>
    if newText = [] then ({}, r)
    else r.processInventoryText P dialect r.parserSelection now newText
  | none => r.consumeLines P now newText

/-! ## Reads -/

/-- The instant of the latest activity of what a Company Portal selection holds. -/
def lastPortalActivity (r : TailReader I) : Option Nat :=
  let record := (r.pendingLogicalRecord.filter fun p =>
    companyPortalLogicalFraming p.parserSelection).map fun p => p.lastUpdated
  let initial := (r.pendingInitialLogicalRecord.filter fun p =>
    decide (p.pendingSuffix ≠ [])).map fun p => p.lastUpdated
  let fragment := (r.pendingFragmentSelection.filter fun owner =>
    companyPortalLogicalFraming owner.1).map Prod.snd
  Option.merge max (Option.merge max record initial) fragment

def companyPortalDebounceElapsed (r : TailReader I) (now : Nat) : Bool :=
  r.lastPortalActivity.any fun updated => decide (logicalRecordDebounce ≤ now - updated)

def pendingParserSelectionChanged (r : TailReader I) : Bool :=
  (r.pendingLogicalRecord.any fun p => p.parserSelection != r.parserSelection) ||
    (r.pendingFragmentSelection.any fun owner => owner.1 != r.parserSelection) ||
    (r.pendingUtf8Selection.any fun selection => selection != r.parserSelection) ||
    (r.pendingInitialLogicalRecord.isSome && !supportsParser r.parserSelection)

/-- What a call finds: the file may not open, and its bytes may not be read. The
size is taken when it is opened and the bytes are there when it is read. -/
structure Opened (I : Type) where
  identity : Option I
  size : Nat
  content : Option (List UInt8)

/-- The bytes from an offset to the size, all of them. -/
def Opened.readExact (file : Opened I) (offset : Nat) : Option (List UInt8) := do
  let content ← file.content
  let buffer := (content.drop offset).take (file.size - offset)
  if buffer.length = file.size - offset then some buffer else none

variable [DecidableEq I]

def identitiesDiffer (previous current : Option I) : Bool :=
  match previous, current with
  | some left, some right => decide (left ≠ right)
  | _, _ => false

/-- The reset that is owed once the file has been seen. -/
def observedReset (r : TailReader I) (file : Opened I) : Option PendingReset :=
  if identitiesDiffer r.fileIdentity file.identity then some .replaced
  else if file.size < r.byteOffset ∧ r.pendingReset = none then some .truncated
  else r.pendingReset

/-- What is held of the generation before is completed or dropped. -/
def startOver (r : TailReader I) (now : Nat) : TailBatch × TailReader I :=
  let r := { r with pendingInitialLogicalRecord := none, discardingCappedInitialLine := false }
  let companyPortalOwner := ((r.pendingLogicalRecord.map fun p => p.parserSelection).or
    (r.pendingFragmentSelection.map Prod.fst)).any companyPortalLogicalFraming
  let r := if companyPortalOwner then
      { r with pendingLogicalRecord := none, pendingFragment := [], pendingFragmentSelection := none }
    else r
  let (batch, r) := if r.pendingReset = some .truncated then r.finalizePendingInput P now
    else ({}, r)
  ({ batch with reset := true },
    { r with
      pendingFragment           := []
      pendingFragmentSelection  := none
      inventoryLineContinuation := false
      pendingLogicalRecord      := none
      nextLine                  := 1 })

/-- Install what was decoded and frame its text. -/
def commitRead (r : TailReader I) (now : Nat) (file : Opened I) (readOffset : Nat)
    (encoding : FileEncoding) (decoded : DecodedTailBytes) : TailBatch × TailReader I :=
  let r := { r with
    fileIdentity         := file.identity
    pendingReset         := none
    byteOffset           := readOffset
    encoding             := encoding
    pendingByte          := decoded.pendingByte
    pendingUtf8Bytes     := decoded.pendingUtf8Bytes
    pendingUtf8Selection := decoded.pendingUtf8Selection }
  let consumed := r.consumeText P now decoded.text
  (consumed.1, { consumed.2 with byteOffset := file.size })

def readNewEntries (rs : EncodingRs) (r : TailReader I) (now : Nat) (attempt : Option (Opened I)) :
    Except TailError TailBatch × TailReader I :=
  match attempt with
  | none => (.error .io, r)
  | some file =>
    let r := { r with pendingReset := r.observedReset file }
    let reset := r.pendingReset.isSome
    let readOffset := if reset then 0 else r.byteOffset
    if !reset && r.pendingParserSelectionChanged then
      let finalized := r.finalizePendingInput P now
      (.ok finalized.1, { finalized.2 with fileIdentity := file.identity })
    else
      let (batch, r) := if !reset && r.companyPortalDebounceElapsed now then
          r.flushPendingLogicalRecord P now
        else ({}, r)
      if !reset && file.size == readOffset then
        (.ok batch, { r with fileIdentity := file.identity })
      else
        match file.readExact readOffset with
        | none => (.error .io, r)
        | some buffer =>
          let encoding := if readOffset = 0 then detectEncoding buffer else r.encoding
          match r.decodeTailBytes rs buffer encoding reset with
          | .error error => (.error error, r)
          | .ok decoded =>
            let (batch, r) := if reset then
                let cleared := r.startOver P now
                (batch.append cleared.1, cleared.2)
              else (batch, r)
            let committed := r.commitRead P now file readOffset encoding decoded
            (.ok (batch.append committed.1), committed.2)

end TailReader

end Watcher
end CmTrace
