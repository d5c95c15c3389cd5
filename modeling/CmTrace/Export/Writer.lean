import CmTrace.Machine
import CmTrace.Text.Number

/-!
# The plain export writer

An export writes a list of event records in one of six formats to a sink, and
counts the bytes and the records it wrote.  The records are validated and their
mapped columns are collected before the first byte.  Redaction, the JSON form of
a record and the scan of raw XML are parameters.
-/

namespace CmTrace
namespace Export

open Text

/-! ## Records and formats -/

inductive ExportFormat where
  | csv | tsv | json | xml | html | rawXml
  deriving DecidableEq

def ExportFormat.delimiter : ExportFormat → Char
  | .tsv => '\t'
  | _ => ','

inductive EvtxLevel where
  | critical | error | warning | information | verbose
  deriving DecidableEq

def EvtxLevel.name : EvtxLevel → Text
  | .critical => "Critical".toList
  | .error => "Error".toList
  | .warning => "Warning".toList
  | .information => "Information".toList
  | .verbose => "Verbose".toList

inductive EvtxOriginKind where
  | event | log
  deriving DecidableEq

structure MappedColumn where
  property : Text
  text : Text
  complete : Bool
  deriving DecidableEq

structure EvtxRecord where
  id : Nat
  eventRecordId : Nat
  eventRecordIdText : Option Text := none
  timestamp : Text
  timestampEpoch : Int
  provider : Text
  channel : Text
  eventId : Nat
  level : EvtxLevel
  computer : Text
  message : Text
  eventData : List (Text × Text) := []
  rawXml : Text := []
  sourceLabel : Text
  originKind : EvtxOriginKind := .event
  task : Option Nat := none
  opcode : Option Nat := none
  processId : Option Nat := none
  activityId : Option Text := none
  relatedActivityId : Option Text := none
  sessionId : Option Text := none
  deviceId : Option Text := none
  userId : Option Text := none
  processStartTime : Option Text := none
  threadId : Option Nat := none
  userSid : Option Text := none
  keywords : Option Text := none
  mapped : List MappedColumn := []
  deriving DecidableEq

def maxSafeEventRecordId : Nat := 9007199254740991

/-- The number that a text of decimal digits stands for, when it fits 64 bits. -/
def parseU64 (s : Text) : Option Nat :=
  if s ≠ [] ∧ s.all Char.isDigit ∧ digitsValue s ≤ u64Max then some (digitsValue s) else none
where
  digitsValue (s : Text) : Nat := s.foldl (fun n c => n * 10 + (c.toNat - '0'.toNat)) 0

def canonicalEventRecordIdText (record : EvtxRecord) : Text :=
  let usable := record.eventRecordIdText.filter fun value =>
    (parseU64 value).isSome &&
      (decide (maxSafeEventRecordId < record.eventRecordId) ||
        parseU64 value == some record.eventRecordId)
  usable.getD (decimal record.eventRecordId)

/-- What the writer calls and does not decide. -/
structure Rendering where
  redactRecord : EvtxRecord → EvtxRecord
  redactMappedProperty : Text → Text
  /-- The compact JSON form of a record, or why there is none. -/
  toJson : EvtxRecord → Except Text (List UInt8)
  /-- What is wrong with a raw XML text that is not blank, if anything is. -/
  rawXmlFault : Text → Option Text

/-! ## Cells and rows -/

def columns : List Text :=
  ["Event Time".toList, "Record ID".toList, "Event ID".toList, "Level".toList, "Provider".toList,
    "Channel".toList, "Computer".toList, "Task".toList, "Opcode".toList, "Process ID".toList,
    "Thread ID".toList, "User SID".toList, "Keywords".toList, "Description".toList,
    "Source Label".toList]

def bytesOf (s : Text) : List UInt8 := s.flatMap String.utf8EncodeChar

def neutralizeFormula (value : Text) : Text :=
  match value.head? with
  | some '=' | some '+' | some '-' | some '@' => '\'' :: value
  | some '\t' | some '\r' => '\'' :: value
  | _ => value

def escapeDelimited (value : Text) (delimiter : Char) : Text :=
  let value := neutralizeFormula value
  if delimiter ∈ value ∨ '"' ∈ value ∨ '\n' ∈ value ∨ '\r' ∈ value then
    ['"'] ++ value.flatMap (fun c => if c = '"' then ['"', '"'] else [c]) ++ ['"']
  else value

def htmlEscape (value : Text) : Text :=
  value.flatMap fun c =>
    match c with
    | '&' => "&amp;".toList
    | '<' => "&lt;".toList
    | '>' => "&gt;".toList
    | '"' => "&quot;".toList
    | '\'' => "&#39;".toList
    | c => [c]

/-- The text from the first `?>` on, without it. -/
def afterDeclaration : Text → Option Text
  | '?' :: '>' :: s => some s
  | _ :: s => afterDeclaration s
  | [] => none

def stripXmlDeclaration (xml : Text) : Text :=
  let trimmed := trimStart xml
  if "<?xml".toList <+: trimmed then
    let rest := trimmed.drop 5
    -- `xml-stylesheet` is a processing instruction
    if rest.head?.any (fun c => c ∈ [' ', '\t', '\n', '\x0c', '\r']) then
      ((afterDeclaration rest).map trimStart).getD xml
    else xml
  else xml

def optional (value : Option Nat) : Text := (value.map decimal).getD []

def rowOf (record : EvtxRecord) (mapped : List Text) : List Text :=
  [record.timestamp, canonicalEventRecordIdText record, decimal record.eventId, record.level.name,
    record.provider, record.channel, record.computer, optional record.task, optional record.opcode,
    optional record.processId, optional record.threadId, record.userSid.getD [],
    record.keywords.getD [], record.message, record.sourceLabel] ++
  mapped.map fun property =>
    match (record.mapped.find? (·.property == property)).filter (·.complete) with
    | some column => column.text
    | none => []

def delimitedRow (cells : List Text) (delimiter : Char) : List (List UInt8) :=
  (cells.map fun cell => bytesOf (escapeDelimited cell delimiter)).intersperse
    (bytesOf [delimiter]) ++ [bytesOf ['\n']]

def htmlRow (cells : List Text) (header : Bool) : List (List UInt8) :=
  [bytesOf "<tr>".toList] ++
  (cells.flatMap fun cell =>
    [bytesOf (if header then "<th>".toList else "<td>".toList), bytesOf (htmlEscape cell),
      bytesOf (if header then "</th>".toList else "</td>".toList)]) ++
  [bytesOf "</tr>\n".toList]

/-! ## Validation and mapped columns -/

def maxRawXmlBytes : Nat := 256 * 1024

def trimXmlWhitespace (value : Text) : Text :=
  let blank := fun c : Char => c == ' ' || c == '\t' || c == '\r' || c == '\n'
  (value.dropWhile blank).rdropWhile blank

variable (R : Rendering)

/-- The oversized text passes: redaction replaces it by a marker. -/
def requiredRawXml (record : EvtxRecord) : Except Text Unit :=
  if byteLen record.rawXml > maxRawXmlBytes then .ok ()
  else if trimXmlWhitespace record.rawXml = [] then .error "record is missing raw XML".toList
  else
    match R.rawXmlFault (trimXmlWhitespace record.rawXml) with
    | some fault => .error fault
    | none => .ok ()

def validateOptionalRawXml (record : EvtxRecord) : Except Text Unit :=
  if trimXmlWhitespace record.rawXml = [] then .ok () else requiredRawXml R record

def validateRawXmlRecord (record : EvtxRecord) : ExportFormat → Except Text Unit
  | .json => validateOptionalRawXml R record
  | .xml | .rawXml => requiredRawXml R record
  | .csv | .tsv | .html => .ok ()

def validateRawXml (records : List EvtxRecord) (format : ExportFormat) : Except Text Unit :=
  records.forM fun record => validateRawXmlRecord R record format

def maxMappedColumns : Nat := 4096
def maxMappedEntriesPerRecord : Nat := maxMappedColumns
def maxMappedSchemaBytes : Nat := maxRawXmlBytes
def maxMappedPropertyBytes : Nat := maxRawXmlBytes

def validateMappedProperty (property : Text) : Except Text Unit :=
  if byteLen property > maxMappedPropertyBytes then
    .error ("mapped-column property exceeds ".toList ++ decimal maxMappedPropertyBytes ++
      "-byte limit".toList)
  else .ok ()

/-- The names in first-seen order, which are also those seen. -/
structure MappedColumnAccumulator where
  names : List Text := []
  schemaBytes : Nat := 0
  deriving DecidableEq

namespace MappedColumnAccumulator

def observeProperty (acc : MappedColumnAccumulator) (column : MappedColumn) :
    Except Text MappedColumnAccumulator := do
  validateMappedProperty column.property
  let property := R.redactMappedProperty column.property
  validateMappedProperty property
  if property ∈ acc.names then return acc
  if acc.names.length ≥ maxMappedColumns then
    .error ("mapped-column budget of ".toList ++ decimal maxMappedColumns ++
      " columns exceeded".toList)
  let nextSchemaBytes := acc.schemaBytes + byteLen property
  if nextSchemaBytes > maxMappedSchemaBytes then
    .error ("mapped-column schema exceeds ".toList ++ decimal maxMappedSchemaBytes ++
      "-byte budget".toList)
  return ⟨acc.names ++ [property], nextSchemaBytes⟩

def observe (acc : MappedColumnAccumulator) (record : EvtxRecord) :
    Except Text MappedColumnAccumulator :=
  if record.mapped.length > maxMappedEntriesPerRecord then
    .error ("mapped-column entries per record exceed ".toList ++
      decimal maxMappedEntriesPerRecord)
  else record.mapped.foldlM (observeProperty R) acc

end MappedColumnAccumulator

def mappedColumns (records : List EvtxRecord) : Except Text (List Text) :=
  (records.foldlM (MappedColumnAccumulator.observe R) {}).map MappedColumnAccumulator.names

/-! ## The record stream -/

/-- Why a sink that holds the first bytes does not take the next, if it does not. -/
abbrev Sink := List UInt8 → List UInt8 → Option Text

def memory : Sink := fun _ _ => none

structure CountingWriter where
  inner : List UInt8 := []
  bytes : Nat := 0
  deriving DecidableEq

def CountingWriter.writeAll (sink : Sink) (w : CountingWriter) (buffer : List UInt8) :
    Except Text CountingWriter :=
  match sink w.inner buffer with
  | some error => .error error
  | none => .ok ⟨w.inner ++ buffer, saturatingAdd u64Max w.bytes buffer.length⟩

def writeAllOf (sink : Sink) (w : CountingWriter) (buffers : List (List UInt8)) :
    Except Text CountingWriter :=
  buffers.foldlM (CountingWriter.writeAll sink) w

structure ExportStats where
  bytes : Nat
  records : Nat
  deriving DecidableEq

/-- The state of the stream between two records. -/
structure RecordStream where
  writer : CountingWriter
  count : Nat := 0
  first : Bool := true
  deriving DecidableEq

def prologue (mappedColumns : List Text) (format : ExportFormat) : List (List UInt8) :=
  match format with
  | .csv | .tsv => delimitedRow (columns ++ mappedColumns) format.delimiter
  | .json => [bytesOf ['[']]
  | .xml => [bytesOf "<?xml version=\"1.0\" encoding=\"UTF-8\"?>\n<Events>\n".toList]
  | .rawXml => []
  | .html =>
    [bytesOf ("<!doctype html><html><head><meta charset=\"utf-8\"><title>Event export</title>" ++
        "</head><body><table><thead>").toList] ++
      htmlRow (columns ++ mappedColumns) true ++ [bytesOf "</thead><tbody>\n".toList]

def epilogue : ExportFormat → List (List UInt8)
  | .csv | .tsv | .rawXml => []
  | .json => [bytesOf [']']]
  | .xml => [bytesOf "</Events>\n".toList]
  | .html => [bytesOf "</tbody></table></body></html>\n".toList]

def separator (format : ExportFormat) (first : Bool) : List (List UInt8) :=
  if format = .json ∧ first = false then [bytesOf [',']] else []

def recordWrites (mappedColumns : List Text) (format : ExportFormat) (record : EvtxRecord) :
    Except Text (List (List UInt8)) :=
  let redacted := R.redactRecord record
  match format with
  | .csv | .tsv => .ok (delimitedRow (rowOf redacted mappedColumns) format.delimiter)
  | .json => (R.toJson redacted).map fun json => [json]
  | .xml => .ok [bytesOf (stripXmlDeclaration (trim redacted.rawXml)), bytesOf ['\n']]
  | .rawXml => .ok [bytesOf (trim redacted.rawXml), bytesOf ['\n']]
  | .html => .ok (htmlRow (rowOf redacted mappedColumns) false)

abbrev Validate := EvtxRecord → ExportFormat → Except Text Unit

variable (sink : Sink) (format : ExportFormat) (mapped : List Text) (validate : Validate)

def beginStream : Except Text RecordStream :=
  (writeAllOf sink {} (prologue mapped format)).map fun writer => { writer }

/-- The loops of the delimited and HTML formats do not validate. -/
def validateStreamed (record : EvtxRecord) : Except Text Unit :=
  match format with
  | .json | .xml | .rawXml => validate record format
  | .csv | .tsv | .html => .ok ()

def writeRecord (stream : RecordStream) (record : EvtxRecord) : Except Text RecordStream := do
  validateStreamed format validate record
  let writer ← writeAllOf sink stream.writer (separator format stream.first)
  let writes ← recordWrites R mapped format record
  let writer ← writeAllOf sink writer writes
  return ⟨writer, saturatingAdd u64Max stream.count 1, false⟩

def endStream (stream : RecordStream) : Except Text (CountingWriter × ExportStats) := do
  let writer ← writeAllOf sink stream.writer (epilogue format)
  return (writer, ⟨writer.bytes, stream.count⟩)

def writeRecordStreamInner (records : List EvtxRecord) :
    Except Text (CountingWriter × ExportStats) := do
  let stream ← beginStream sink format mapped
  let stream ← records.foldlM (writeRecord R sink format mapped validate) stream
  endStream sink format stream

def writeRecordStreamUnchecked (records : List EvtxRecord) :
    Except Text (CountingWriter × ExportStats) :=
  writeRecordStreamInner R sink format mapped (fun _ _ => .ok ()) records

/-- The plain writer: what it leaves in the sink, and its statistics. -/
def writeRecords (records : List EvtxRecord) : Except Text (List UInt8 × ExportStats) := do
  validateRawXml R records format
  let mapped ← mappedColumns R records
  let written ← writeRecordStreamUnchecked R sink format mapped records
  return (written.1.inner, written.2)

/-! ## Validation before the stream and inside it -/

variable {R sink format mapped validate}

theorem validateRawXml_ok {records : List EvtxRecord} :
    validateRawXml R records format = .ok () ↔
      ∀ record ∈ records, validateRawXmlRecord R record format = .ok () := by
  unfold validateRawXml
  induction records with
  | nil => simp [pure, Except.pure]
  | cons record records ih =>
    show (validateRawXmlRecord R record format >>= fun _ =>
      records.forM fun record => validateRawXmlRecord R record format) = .ok () ↔ _
    rw [bind_ok, List.forall_mem_cons, ih]
    exact ⟨fun ⟨_, h⟩ => h, fun h => ⟨(), h⟩⟩

theorem foldlM_writeRecord_validated {records : List EvtxRecord}
    (hvalid : ∀ record ∈ records, validate record format = .ok ()) (stream : RecordStream) :
    records.foldlM (writeRecord R sink format mapped validate) stream =
      records.foldlM (writeRecord R sink format mapped fun _ _ => .ok ()) stream := by
  induction records generalizing stream with
  | nil => rfl
  | cons record records ih =>
    have hstep : writeRecord R sink format mapped validate stream record =
        writeRecord R sink format mapped (fun _ _ => .ok ()) stream record := by
      have hstreamed : validateStreamed format validate record = .ok () := by
        unfold validateStreamed
        cases format with
        | json | xml | rawXml => exact hvalid record List.mem_cons_self
        | csv | tsv | html => rfl
      have hskipped : validateStreamed format (fun _ _ => .ok ()) record = .ok () := by
        cases format <;> rfl
      unfold writeRecord
      rw [hstreamed, hskipped]
    rw [List.foldlM_cons, List.foldlM_cons, hstep]
    refine bind_congr fun next => ih (fun r hr => hvalid r (List.mem_cons_of_mem _ hr)) next

theorem writeRecord_count {stream stream' : RecordStream} {record : EvtxRecord}
    (h : writeRecord R sink format mapped validate stream record = .ok stream') :
    stream'.count = saturatingAdd u64Max stream.count 1 := by
  unfold writeRecord at h
  obtain ⟨_, -, h⟩ := bind_ok.mp h
  obtain ⟨_, -, h⟩ := bind_ok.mp h
  obtain ⟨_, -, h⟩ := bind_ok.mp h
  obtain ⟨_, -, h⟩ := bind_ok.mp h
  rw [← pure_ok.mp h]

theorem foldlM_writeRecord_count {records : List EvtxRecord} {stream stream' : RecordStream}
    (hcount : stream.count ≤ u64Max)
    (h : records.foldlM (writeRecord R sink format mapped validate) stream = .ok stream') :
    stream'.count = saturatingAdd u64Max stream.count records.length := by
  induction records generalizing stream with
  | nil =>
    rw [List.foldlM_nil, pure_ok] at h
    rw [← h, List.length_nil, saturatingAdd_zero hcount]
  | cons record records ih =>
    rw [List.foldlM_cons, bind_ok] at h
    obtain ⟨next, hnext, hrest⟩ := h
    have hstep := writeRecord_count hnext
    rw [ih (by rw [hstep]; exact saturatingAdd_le _ _ _) hrest, hstep, List.length_cons]
    unfold saturatingAdd
    omega

end Export
end CmTrace
