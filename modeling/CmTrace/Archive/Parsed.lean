import CmTrace.Archive.Coverage
import CmTrace.Export.Writer
import CmTrace.Log.Entry

/-!
# What one member yields

A text is parsed as a log up to a number of lines, an event file record by
record.  Whatever is missing from the records has a gap beside them.  The
detection and decoding of texts, the log parsers, the reader of event files and
the rendering of one event are parameters.
-/

namespace CmTrace
namespace Archive

open Text Collections Log Export

structure ParsedFile where
  records : List EvtxRecord
  parseErrors : Nat
  messages : List Text
  coverageGaps : List EvtxCoverageGap
  deriving DecidableEq

inductive EvtxError where
  | failedToParseChunk (chunkId : Nat) (text : Text)
  | failedToParseRecord (recordId : Nat) (text : Text)
  | other (text : Text)
  deriving DecidableEq

structure SerializedRecord where
  eventRecordId : Nat
  data : Text
  deriving DecidableEq

/-- What the reader of event files makes of a buffer. -/
structure EvtxReading where
  records : List (Except EvtxError SerializedRecord)
  /-- What the reads themselves showed to be missing. -/
  observed : Text → List EvtxCoverageGap

structure ParsedContent where
  entries : List LogEntry
  parseErrors : Nat

/-- What the intake of a member calls and does not decide. -/
structure MemberHost where
  sha256Hex : List UInt8 → Text
  decode : List UInt8 → Except Text Text
  parseContent : Text → Text → Nat → ParsedContent
  openEvtx : List UInt8 → Except Text EvtxReading
  /-- The row of an event and why its description is not the provider's. -/
  eventRow : Text → SerializedRecord → Except Text (EvtxRecord × Option Text)

/-! ## Texts -/

def maxArchiveTextParseBytes : Nat := 16 * 1024 * 1024

def maxArchiveTextRecords : Nat := 25000

def linesInclusive : Text → List Text
  | [] => []
  | c :: rest =>
    if c = '\n' then [c] :: linesInclusive rest
    else match linesInclusive rest with
      | [] => [[c]]
      | line :: lines => (c :: line) :: lines

def boundedTextContent (content : Text) (maxLines : Nat) : Text × Bool :=
  if content.isEmpty then (content, false)
  else if maxLines = 0 then ([], true)
  else if maxLines < (linesInclusive content).length then
    (((linesInclusive content).take maxLines).flatten, true)
  else (content, false)

def textLevel : Severity → Export.EvtxLevel
  | .error => .error
  | .warning => .warning
  | .success => .information
  | .info => .information

def textEntryToRecord (entry : LogEntry) (sourceLabel : Text) : EvtxRecord where
  id := 0
  eventRecordId := entry.lineNumber
  eventRecordIdText := some (decimal entry.lineNumber)
  timestamp := entry.timestampDisplay.getD []
  timestampEpoch := entry.timestamp.getD 0
  provider := (entry.component.filter fun component => !isBlank component).getD []
  channel := sourceLabel
  eventId := 0
  level := textLevel entry.severity
  computer := []
  message := entry.message
  eventData := [("Line".toList, decimal entry.lineNumber)]
  sourceLabel := sourceLabel
  originKind := .log
  threadId := entry.thread

def textBudgetExceeded : Text := "text member exceeds parser budget".toList

def textParseErrorIsLimit (error : Text) : Bool := textBudgetExceeded.isPrefixOf error

def textGaps (parsed : ParsedContent) (truncated : Bool) (lineLimit : Nat) (sourceLabel : Text) :
    List EvtxCoverageGap :=
  (if 0 < parsed.parseErrors then
    [.new sourceLabel .record
      (decimal parsed.parseErrors ++ " text records could not be parsed".toList)]
  else if parsed.entries.isEmpty then [.new sourceLabel .empty "text member is empty".toList]
  else []) ++
  (if truncated then
    [.new sourceLabel .limit ("text member parsing stopped after ".toList ++ decimal lineLimit ++
      " lines; later records were not parsed".toList)]
  else [])

def parseTextMember (host : MemberHost) (bytes : List UInt8) (sourceLabel : Text)
    (maxRecords : Nat) : Except Text ParsedFile :=
  if maxArchiveTextParseBytes < bytes.length then
    .error (textBudgetExceeded ++ " of ".toList ++ decimal maxArchiveTextParseBytes ++
      " bytes".toList)
  else match host.decode bytes with
    | .error error => .error error
    | .ok content =>
      let lineLimit := min maxRecords maxArchiveTextRecords
      let bounded := boundedTextContent content lineLimit
      let parsed := host.parseContent bounded.1 sourceLabel bytes.length
      .ok {
        records := parsed.entries.map fun entry => textEntryToRecord entry sourceLabel
        parseErrors := parsed.parseErrors
        messages := []
        coverageGaps := textGaps parsed bounded.2 lineLimit sourceLabel }

/-! ## Event files -/

def maxEntriesPerFile : Nat := 100000

def maxCoverageGapsPerFile : Nat := 4096

def formatCoverageGap (gap : EvtxCoverageGap) : Text :=
  let location := match gap.chunkId, gap.eventRecordId with
    | some chunkId, _ => " chunk ".toList ++ decimal chunkId
    | none, some recordId => " record ".toList ++ decimal recordId
    | none, none => []
  gap.source ++ location ++ ": ".toList ++ gap.reason

def coverageGapFromEvtxError (source : Text) : EvtxError → EvtxCoverageGap
  | .failedToParseChunk chunkId text =>
    { EvtxCoverageGap.new source .chunk text with chunkId := chunkId }
  | .failedToParseRecord recordId text =>
    { EvtxCoverageGap.new source .record text with eventRecordId := recordId }
  | .other text => .new source .file text

def coverageGapForRecordXml (source : Text) (eventRecordId : Nat) (reason : Text) :
    EvtxCoverageGap :=
  { EvtxCoverageGap.new source .xml ("event XML could not be parsed: ".toList ++ reason) with
    eventRecordId := eventRecordId }

/-- The gaps without a provider's repetitions of itself. -/
def dedupProviders : List (Text × Text) → List EvtxCoverageGap → List EvtxCoverageGap
  | _, [] => []
  | seen, gap :: gaps =>
    if gap.kind ≠ .provider then gap :: dedupProviders seen gaps
    else if (gap.source, gap.reason) ∈ seen then dedupProviders seen gaps
    else gap :: dedupProviders ((gap.source, gap.reason) :: seen) gaps

def boundCoverageGaps (gaps : List EvtxCoverageGap) (source : Text) : List EvtxCoverageGap :=
  coalesce maxCoverageGapsPerFile (maxCoverageGapsPerFile - 1)
    (fun omitted => .new source .limit
      (decimal omitted ++ " additional recovery gaps were coalesced".toList))
    (dedupProviders [] gaps)

structure EvtxScan where
  records : List EvtxRecord := []
  parseErrors : Nat := 0
  messages : List Text := []
  coverageGaps : List EvtxCoverageGap := []
  providerGapReasons : List Text := []
  truncated : Bool := false

/-- One record of the file.  One that cannot be read does not end the scan. -/
def EvtxScan.read (host : MemberHost) (sourceLabel : Text) (scan : EvtxScan) :
    Except EvtxError SerializedRecord → EvtxScan
  | .error error =>
    { scan with
      parseErrors := scan.parseErrors + 1
      coverageGaps := scan.coverageGaps ++ [coverageGapFromEvtxError sourceLabel error] }
  | .ok record =>
    match host.eventRow sourceLabel record with
    | .error error =>
      { scan with
        parseErrors := scan.parseErrors + 1
        coverageGaps := scan.coverageGaps ++
          [coverageGapForRecordXml sourceLabel record.eventRecordId error] }
    | .ok (row, none) => { scan with records := scan.records ++ [row] }
    | .ok (row, some reason) =>
      let gap := { EvtxCoverageGap.new sourceLabel .provider reason with
        eventRecordId := record.eventRecordId }
      if reason ∈ scan.providerGapReasons then { scan with records := scan.records ++ [row] }
      else { scan with
        records := scan.records ++ [row]
        messages := scan.messages ++ [formatCoverageGap gap]
        coverageGaps := scan.coverageGaps ++ [gap]
        providerGapReasons := reason :: scan.providerGapReasons }

def EvtxScan.readAll (host : MemberHost) (sourceLabel : Text) (scan : EvtxScan) :
    List (Except EvtxError SerializedRecord) → EvtxScan
  | [] => scan
  | record :: records =>
    if maxEntriesPerFile ≤ scan.records.length then { scan with truncated := true }
    else readAll host sourceLabel (scan.read host sourceLabel record) records

/-- The end of a scan: what was cut off, what could not be read, and whether there
was anything at all. -/
def EvtxScan.finish (scan : EvtxScan) (sourceLabel : Text) : ParsedFile :=
  let cut := EvtxCoverageGap.new sourceLabel .limit ("reader stopped at ".toList ++
    decimal maxEntriesPerFile ++ " events; the source may contain more".toList)
  let cutGaps := if scan.truncated then
    [{ cut with eventRecordId := scan.records.getLast?.map (·.eventRecordId) }] else []
  let cutMessages := if scan.truncated then
    [sourceLabel ++ ": stopped at ".toList ++ decimal maxEntriesPerFile ++
      " events, the most this reader loads from one file. The file holds more.".toList] else []
  let errorMessages := if 0 < scan.parseErrors then
    [sourceLabel ++ ": ".toList ++ decimal scan.parseErrors ++ " of ".toList ++
      decimal (scan.parseErrors + scan.records.length) ++
      " records could not be read and are missing from the view.".toList] else []
  let emptyGaps := if ¬ 0 < scan.parseErrors ∧ scan.records.isEmpty then
    [EvtxCoverageGap.new sourceLabel .empty "source produced no readable records".toList] else []
  { records := scan.records
    parseErrors := scan.parseErrors
    messages := scan.messages ++ cutMessages ++ errorMessages
    coverageGaps := boundCoverageGaps (scan.coverageGaps ++ cutGaps ++ emptyGaps) sourceLabel }

/-- One gap of the reads.  It takes the place of the gap of the same chunk. -/
def attachRecoveryGap (parsed : ParsedFile) (gap : EvtxCoverageGap) : ParsedFile :=
  let kept := if gap.kind = .file ∧ gap.chunkId.isSome then
    parsed.coverageGaps.filter fun existing => !decide (existing.source = gap.source ∧
      existing.kind = .chunk ∧ existing.chunkId = gap.chunkId)
    else parsed.coverageGaps
  if gap ∈ kept then { parsed with coverageGaps := kept }
  else { parsed with
    messages := if formatCoverageGap gap ∈ parsed.messages then parsed.messages
      else parsed.messages ++ [formatCoverageGap gap]
    coverageGaps := kept ++ [gap] }

def attachRecoveryGaps (parsed : ParsedFile) (gaps : List EvtxCoverageGap) : ParsedFile :=
  match gaps with
  | [] => parsed
  | first :: _ =>
    let attached := gaps.foldl attachRecoveryGap parsed
    let bounded := boundCoverageGaps attached.coverageGaps first.source
    let coalesced := if bounded.length < attached.coverageGaps.length then
      bounded.getLast?.filter fun gap => decide (gap.kind = .limit) else none
    { attached with
      coverageGaps := bounded
      messages := match coalesced with
        | none => attached.messages
        | some limit =>
          if formatCoverageGap limit ∈ attached.messages then attached.messages
          else attached.messages ++ [formatCoverageGap limit] }

def parseEvtxBuffer (host : MemberHost) (bytes : List UInt8) (sourceLabel : Text) :
    Except EvtxCoverageGap ParsedFile :=
  match host.openEvtx bytes with
  | .error error =>
    .error (.new sourceLabel .file ("failed to parse EVTX member: ".toList ++ error))
  | .ok reading =>
    let parsed := (EvtxScan.readAll host sourceLabel {} reading.records).finish sourceLabel
    .ok (attachRecoveryGaps parsed (reading.observed sourceLabel))

/-! ## Bounding and judging -/

def parsedMemberOutcome (parsed : ParsedFile) : EvtxArchiveMemberOutcome :=
  if 0 < parsed.parseErrors then .malformed
  else if parsed.coverageGaps.any fun gap => decide (gap.kind = .limit) then .limit
  else .parsed

def boundArchiveRecords (parsed : ParsedFile) (remaining : Nat) (source : Text) (maxRecords : Nat) :
    ParsedFile :=
  if parsed.records.length ≤ remaining then parsed
  else
    { parsed with
      records := parsed.records.take remaining
      coverageGaps := parsed.coverageGaps ++
        [.new source .limit ("archive record budget of ".toList ++ decimal maxRecords ++
          " records omitted ".toList ++ decimal (parsed.records.length - remaining) ++
          " parsed records".toList)] }

/-! ## What is missing is explained -/

def Explained (parsed : ParsedFile) : Prop := 0 < parsed.parseErrors → parsed.coverageGaps ≠ []

theorem explained_parseTextMember {host : MemberHost} {bytes : List UInt8} {sourceLabel : Text}
    {maxRecords : Nat} {parsed : ParsedFile}
    (h : parseTextMember host bytes sourceLabel maxRecords = .ok parsed) : Explained parsed := by
  dsimp only [parseTextMember] at h
  split_ifs at h
  cases hdecode : host.decode bytes with
  | error error =>
    rw [hdecode] at h
    cases h
  | ok content =>
    rw [hdecode] at h
    obtain rfl := Except.ok.inj h
    intro herrors
    show textGaps _ _ _ _ ≠ []
    rw [textGaps, if_pos herrors]
    exact List.cons_ne_nil _ _

theorem explained_read {host : MemberHost} {sourceLabel : Text} {scan : EvtxScan}
    (h : 0 < scan.parseErrors → scan.coverageGaps ≠ [])
    (record : Except EvtxError SerializedRecord) :
    0 < (scan.read host sourceLabel record).parseErrors →
      (scan.read host sourceLabel record).coverageGaps ≠ [] := by
  cases record with
  | error error => exact fun _ => List.append_ne_nil_of_right_ne_nil _ (List.cons_ne_nil _ _)
  | ok record =>
    dsimp only [EvtxScan.read]
    cases host.eventRow sourceLabel record with
    | error error => exact fun _ => List.append_ne_nil_of_right_ne_nil _ (List.cons_ne_nil _ _)
    | ok row =>
      obtain ⟨row, _ | reason⟩ := row
      · exact h
      · dsimp only
        split_ifs
        · exact h
        · exact fun _ => List.append_ne_nil_of_right_ne_nil _ (List.cons_ne_nil _ _)

theorem explained_readAll {host : MemberHost} {sourceLabel : Text}
    (records : List (Except EvtxError SerializedRecord)) {scan : EvtxScan}
    (h : 0 < scan.parseErrors → scan.coverageGaps ≠ []) :
    0 < (scan.readAll host sourceLabel records).parseErrors →
      (scan.readAll host sourceLabel records).coverageGaps ≠ [] := by
  induction records generalizing scan with
  | nil => exact h
  | cons record records ih =>
    rw [EvtxScan.readAll]
    split_ifs
    · exact h
    · exact ih (explained_read h record)

theorem boundCoverageGaps_ne_nil {gaps : List EvtxCoverageGap} (h : gaps ≠ []) (source : Text) :
    boundCoverageGaps gaps source ≠ [] := by
  refine coalesce_ne_nil ?_
  cases gaps with
  | nil => exact absurd rfl h
  | cons gap gaps =>
    rw [dedupProviders, if_neg (List.not_mem_nil)]
    split_ifs
    · exact List.cons_ne_nil _ _
    · exact List.cons_ne_nil _ _

theorem explained_finish {scan : EvtxScan} (h : 0 < scan.parseErrors → scan.coverageGaps ≠ [])
    (sourceLabel : Text) : Explained (scan.finish sourceLabel) := by
  intro herrors
  refine boundCoverageGaps_ne_nil ?_ _
  exact List.append_ne_nil_of_left_ne_nil (List.append_ne_nil_of_left_ne_nil (h herrors) _) _

theorem attachRecoveryGap_ne_nil (parsed : ParsedFile) (gap : EvtxCoverageGap) :
    (attachRecoveryGap parsed gap).coverageGaps ≠ [] := by
  unfold attachRecoveryGap
  extract_lets kept
  by_cases hmem : gap ∈ kept
  · rw [if_pos hmem]
    exact List.ne_nil_of_mem hmem
  · rw [if_neg hmem]
    exact List.append_ne_nil_of_right_ne_nil _ (List.cons_ne_nil _ _)

theorem explained_attachRecoveryGaps {parsed : ParsedFile} (h : Explained parsed)
    (gaps : List EvtxCoverageGap) : Explained (attachRecoveryGaps parsed gaps) := by
  cases gaps with
  | nil => exact h
  | cons first gaps =>
    intro _
    refine boundCoverageGaps_ne_nil ?_ _
    rw [List.foldl_cons]
    induction gaps using List.reverseRecOn with
    | nil => exact attachRecoveryGap_ne_nil _ _
    | append_singleton gaps gap _ =>
      rw [List.foldl_append]
      exact attachRecoveryGap_ne_nil _ _

theorem explained_parseEvtxBuffer {host : MemberHost} {bytes : List UInt8} {sourceLabel : Text}
    {parsed : ParsedFile} (h : parseEvtxBuffer host bytes sourceLabel = .ok parsed) :
    Explained parsed := by
  dsimp only [parseEvtxBuffer] at h
  cases hopen : host.openEvtx bytes with
  | error error =>
    rw [hopen] at h
    cases h
  | ok reading =>
    rw [hopen] at h
    obtain rfl := Except.ok.inj h
    have hscan := @explained_readAll host sourceLabel reading.records {}
      fun hpos => absurd hpos (Nat.lt_irrefl 0)
    exact explained_attachRecoveryGaps (explained_finish hscan sourceLabel) _

theorem source_of_parseEvtxBuffer {host : MemberHost} {bytes : List UInt8} {sourceLabel : Text}
    {gap : EvtxCoverageGap} (h : parseEvtxBuffer host bytes sourceLabel = .error gap) :
    gap.source = sourceLabel := by
  dsimp only [parseEvtxBuffer] at h
  cases hopen : host.openEvtx bytes with
  | error error =>
    rw [hopen] at h
    rw [← Except.error.inj h]
    rfl
  | ok reading =>
    rw [hopen] at h
    cases h

theorem explained_boundArchiveRecords {parsed : ParsedFile} (h : Explained parsed) (remaining : Nat)
    (source : Text) (maxRecords : Nat) :
    Explained (boundArchiveRecords parsed remaining source maxRecords) := by
  unfold boundArchiveRecords
  split
  · exact h
  · exact fun _ => List.append_ne_nil_of_right_ne_nil _ (List.cons_ne_nil _ _)

theorem length_boundArchiveRecords (parsed : ParsedFile) (remaining : Nat) (source : Text)
    (maxRecords : Nat) :
    (boundArchiveRecords parsed remaining source maxRecords).records.length ≤ remaining := by
  unfold boundArchiveRecords
  split
  · assumption
  · exact List.length_take_le _ _

theorem coverageGaps_of_outcome {parsed : ParsedFile} (h : Explained parsed)
    (houtcome : parsedMemberOutcome parsed ≠ .parsed) : parsed.coverageGaps ≠ [] := by
  rw [parsedMemberOutcome] at houtcome
  split_ifs at houtcome with herrors hlimit
  · exact h herrors
  · rintro hnil
    rw [hnil] at hlimit
    cases hlimit
  · exact absurd rfl houtcome

end Archive
end CmTrace
