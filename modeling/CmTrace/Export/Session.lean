import CmTrace.Codec.Streamed
import CmTrace.Export.Writer

/-!
# Chunked export sessions

A session receives the records to export as one stream of newline-terminated
JSON, cut anywhere, in base64 envelopes that it spools to a private file.
Finalization decodes the spool three times: to validate the records and collect
the header, to write the staged file, and to check the sources again before the
staged file replaces the destination.

Finalization is a machine whose states wait for the next look at the cancel flag.
Three of those looks are checks that end it.  The others stand before every read
of a decoder and answer that the read was interrupted, upon which the reader of
the decoder reads again.
-/

namespace CmTrace
namespace Export

open Text Streamed

def maxExportChunkBytes : Nat := 4 * 1024 * 1024
def maxExportChunkBase64Chars : Nat := (maxExportChunkBytes + 2) / 3 * 4
def maxExportChunkRecordSeparators : Nat := 1000
def maxCachedRecordSourceLabels : Nat := 4096

/-! ## Errors -/

inductive ExportError where
  | noDestination
  | notAccepting
  | cancelled
  | wrongSequence (sequence expected : Nat)
  | envelopeSize
  | invalidBase64 (error : Text)
  | chunkSize
  | tooManySeparators (separators : Nat)
  | recordCountOverflowed
  | moreThanExpected (expected : Nat)
  | byteCountOverflowed
  | spoolUnavailable
  | cannotAppend (error : Text)
  | finalizedTwice
  | receivedOf (received expected : Nat)
  | cannotFlush (error : Text)
  | cannotInspect (error : Text)
  | endedBeforeSeparator
  | cannotRewind (error : Text)
  | cannotDecode (error : Text)
  | invalidRecord (error : Text)
  | overwritesSource
  | mappedColumns (error : Text)
  | parsedCountOverflowed
  | decodedOf (parsed expected : Nat)
  | cannotClone (error : Text)
  | cannotStage (error : Text)
  | cannotWrite (destination error : Text)
  | cannotReplace (destination error : Text)
  | wroteOf (records expected : Nat)
  deriving DecidableEq

def refuseIf (condition : Prop) [Decidable condition] (error : ExportError) :
    Except ExportError Unit :=
  if condition then .error error else .ok ()

theorem refuseIf_ok {condition : Prop} [Decidable condition] {error : ExportError} {u : Unit} :
    refuseIf condition error = .ok u ↔ ¬ condition := by
  unfold refuseIf
  split_ifs with h <;> simp [h]

/-! ## Sessions -/

inductive ExportSessionState where
  | receiving | finalizing | terminal
  deriving DecidableEq

structure EventLogExportSessionStatus where
  sessionId : Text
  nextSequence : Nat
  receivedRecords : Nat
  receivedBytes : Nat
  expectedRecords : Nat
  deriving DecidableEq

structure EventLogExportResult where
  sessionId : Text
  records : Nat
  bytes : Nat
  deriving DecidableEq

structure EventLogExportSession where
  id : Text
  format : ExportFormat
  destination : Text
  destinationIdentity : Text
  protectedSources : List Text
  expectedRecords : UInt64
  nextSequence : Nat := 0
  receivedRecords : Nat := 0
  receivedBytes : Nat := 0
  spool : Option (List UInt8) := some []
  state : ExportSessionState := .receiving
  deriving DecidableEq

/-- What paths resolve to, at one time. -/
abbrev Resolve := Text → Text

def rejectSourceDestination (normalizedPathIdentity : Resolve) (sources : List Text)
    (destination : Text) : Except ExportError Unit :=
  if destination = ['-'] then .ok ()
  else if sources.any fun source =>
      normalizedPathIdentity source == normalizedPathIdentity destination then
    .error .overwritesSource
  else .ok ()

namespace EventLogExportSession

def new (normalizedPathIdentity : Resolve) (id : Text) (format : ExportFormat)
    (destination : Text) (protectedSources : List Text) (expectedRecords : UInt64) :
    Except ExportError EventLogExportSession := do
  refuseIf (destination = [] ∨ destination = ['-']) .noDestination
  rejectSourceDestination normalizedPathIdentity protectedSources destination
  let destinationIdentity := normalizedPathIdentity destination
  return { id, format, destination, destinationIdentity, protectedSources, expectedRecords }

def status (s : EventLogExportSession) : EventLogExportSessionStatus :=
  ⟨s.id, s.nextSequence, s.receivedRecords, s.receivedBytes, s.expectedRecords.toNat⟩

/-- A request to append, the cancel flag it finds and what writing to the spool
would report. -/
structure Request where
  sequence : Nat
  payloadBase64 : Text
  cancelled : Bool := false
  writeFault : Option Text := none

variable (decode : Text → Except Text (List UInt8))

/-- The bytes of a request and the counters after it, or why it is refused. -/
def admitted (s : EventLogExportSession) (r : Request) :
    Except ExportError (List UInt8 × Nat × Nat × List UInt8) := do
  refuseIf (s.state ≠ .receiving) .notAccepting
  refuseIf r.cancelled .cancelled
  refuseIf (r.sequence ≠ s.nextSequence) (.wrongSequence r.sequence s.nextSequence)
  refuseIf (r.payloadBase64 = [] ∨ byteLen r.payloadBase64 > maxExportChunkBase64Chars)
    .envelopeSize
  let decoded ← (decode r.payloadBase64).mapError ExportError.invalidBase64
  refuseIf (decoded = [] ∨ decoded.length > maxExportChunkBytes) .chunkSize
  let separators := decoded.count 10
  refuseIf (separators > maxExportChunkRecordSeparators) (.tooManySeparators separators)
  let receivedRecords := s.receivedRecords + separators
  refuseIf (receivedRecords > u64Max) .recordCountOverflowed
  refuseIf (receivedRecords > s.expectedRecords.toNat)
    (.moreThanExpected s.expectedRecords.toNat)
  let receivedBytes := s.receivedBytes + decoded.length
  refuseIf (receivedBytes > u64Max) .byteCountOverflowed
  let spool ← s.spool.elim (.error .spoolUnavailable) .ok
  return (decoded, receivedRecords, receivedBytes, spool)

def appendChunk (s : EventLogExportSession) (r : Request) :
    Except ExportError EventLogExportSessionStatus × EventLogExportSession :=
  match s.admitted decode r with
  | .error error => (.error error, s)
  | .ok (decoded, receivedRecords, receivedBytes, spool) =>
    match r.writeFault with
    | some error => (.error (.cannotAppend error), { s with state := .terminal, spool := none })
    | none =>
      let s := { s with
        spool := some (spool ++ decoded)
        nextSequence := saturatingAdd u64Max s.nextSequence 1
        receivedRecords
        receivedBytes }
      (.ok s.status, s)

def appendAll (s : EventLogExportSession) (requests : List Request) : EventLogExportSession :=
  requests.foldl (fun s r => (s.appendChunk decode r).2) s

end EventLogExportSession

/-! ## The three loops -/

variable (R : Rendering)

structure DecodeLoop where
  mapped : MappedColumnAccumulator := {}
  parsedRecords : Nat := 0
  checkedSources : List Text := []
  deriving DecidableEq

/-- The labels checked after a record's.  Once the cache is full, a label outside
it is looked up each time. -/
def checkSource (normalizedPathIdentity : Resolve) (s : EventLogExportSession)
    (checkedSources : List Text) (label : Text) : Except ExportError (List Text) :=
  let shouldCheckSource := label ∈ checkedSources ∨
    checkedSources.length < maxCachedRecordSourceLabels
  if shouldCheckSource ∧ label ∉ checkedSources then
    if normalizedPathIdentity label = s.destinationIdentity then .error .overwritesSource
    else .ok (label :: checkedSources)
  else if ¬ shouldCheckSource ∧ normalizedPathIdentity label = s.destinationIdentity then
    .error .overwritesSource
  else .ok checkedSources

def decodeRecord (normalizedPathIdentity : Resolve) (s : EventLogExportSession)
    (loop : DecodeLoop) (record : EvtxRecord) : Except ExportError DecodeLoop := do
  (validateRawXmlRecord R record s.format).mapError ExportError.invalidRecord
  let checkedSources ←
    checkSource normalizedPathIdentity s loop.checkedSources record.sourceLabel
  let mapped ← (loop.mapped.observe R record).mapError ExportError.mappedColumns
  refuseIf (loop.parsedRecords + 1 > u64Max) .parsedCountOverflowed
  return ⟨mapped, loop.parsedRecords + 1, checkedSources⟩

structure CheckLoop where
  parsedRecords : Nat := 0
  checkedSources : List Text := []
  deriving DecidableEq

/-- The body of the decoding before publication. -/
def checkRecord (normalizedPathIdentity : Resolve) (destination : Text) (loop : CheckLoop)
    (record : EvtxRecord) : Except ExportError CheckLoop :=
  if loop.parsedRecords + 1 > u64Max then .error .parsedCountOverflowed
  else if record.sourceLabel ∈ loop.checkedSources then
    .ok ⟨loop.parsedRecords + 1, loop.checkedSources⟩
  else if normalizedPathIdentity record.sourceLabel = normalizedPathIdentity destination then
    .error .overwritesSource
  else if loop.checkedSources.length < maxCachedRecordSourceLabels then
    .ok ⟨loop.parsedRecords + 1, record.sourceLabel :: loop.checkedSources⟩
  else .ok ⟨loop.parsedRecords + 1, loop.checkedSources⟩

/-! ## Finalization -/

inductive DecodePass where
  | decoding | writing | revalidating
  deriving DecidableEq

/-- The file operations of a finalization, reads of the spool and writes of the
staged file apart. -/
inductive FileStep where
  | flush | inspect | rewind | clone | outputRewind | validationClone | stage | stagedFlush
  | publicationRewind | replace
  deriving DecidableEq

/-- The files a finalization meets. -/
structure Files where
  fault : FileStep → Option Text
  readFault : DecodePass → Option (Nat × Text)
  sink : Sink
  resolveDecoding : Resolve
  resolvePublishing : Resolve

/-- A session to finalize and what finalizing it rests on. -/
structure Finalization (δ : Type) where
  rendering : Rendering
  decoder : StreamDecoder δ EvtxRecord Text
  files : Files
  session : EventLogExportSession

/-- Where a finalization stands when it next looks at the cancel flag. -/
inductive Finalizer (δ : Type) where
  | starting
  | decoding (loop : Reading δ DecodeLoop)
  | writing (loop : Reading δ RecordStream) (mapped : List Text)
  | publishing (staged : List UInt8) (stats : ExportStats)
  | revalidating (loop : Reading δ CheckLoop) (staged : List UInt8) (stats : ExportStats)
  | committing (staged : List UInt8) (stats : ExportStats)
  | finished (result : Except ExportError EventLogExportResult)
      (published : Option (List UInt8))

namespace Finalizer

variable {δ : Type}

/-- The finalization ends, and the destination keeps what it holds. -/
def fail (error : ExportError) : Finalizer δ := .finished (.error error) none

def orFail {α : Type} (next : α → Finalizer δ) : Except ExportError α → Finalizer δ
  | .error error => fail error
  | .ok a => next a

/-- The next look at the flag is one before a read. -/
def awaitsRead : Finalizer δ → Bool
  | .decoding _ | .writing _ _ | .revalidating _ _ _ => true
  | _ => false

def isFinished : Finalizer δ → Bool
  | .finished _ _ => true
  | _ => false

def published : Finalizer δ → Option (List UInt8)
  | .finished _ published => published
  | _ => none

end Finalizer

namespace Finalization

variable {δ : Type} (F : Finalization δ)

def source (pass : DecodePass) : Source Text :=
  ⟨F.session.spool.getD [], F.files.readFault pass⟩

def io (step : FileStep) (wrap : Text → ExportError) : Except ExportError Unit :=
  match F.files.fault step with
  | some error => .error (wrap error)
  | none => .ok ()

/-- A spool that is not empty ends in a separator. -/
def inspect (spool : List UInt8) : Except ExportError Unit :=
  if F.session.receivedBytes > 0 then do
    F.io .inspect .cannotInspect
    refuseIf (spool.getLast? ≠ some 10) .endedBeforeSeparator
  else .ok ()

/-- What comes between the first check and the first decoding. -/
def prepare : Except ExportError Unit := do
  refuseIf (F.session.receivedRecords ≠ F.session.expectedRecords.toNat)
    (.receivedOf F.session.receivedRecords F.session.expectedRecords.toNat)
  let spool ← F.session.spool.elim (.error .spoolUnavailable) .ok
  F.io .flush .cannotFlush
  F.inspect spool
  F.io .rewind .cannotRewind

def cannotWrite (error : Text) : ExportError := .cannotWrite F.session.destination error

/-- What comes between the first decoding and the second. -/
def prepareWriting (loop : DecodeLoop) : Except ExportError RecordStream := do
  refuseIf (loop.parsedRecords ≠ F.session.expectedRecords.toNat)
    (.decodedOf loop.parsedRecords F.session.expectedRecords.toNat)
  F.io .clone .cannotClone
  F.io .outputRewind .cannotRewind
  F.io .validationClone .cannotClone
  F.io .stage .cannotStage
  (beginStream F.files.sink F.session.format loop.mapped.names).mapError F.cannotWrite

def decodeBody : DecodeLoop → EvtxRecord → Except ExportError DecodeLoop :=
  decodeRecord F.rendering F.files.resolveDecoding F.session

/-- The header's columns are those of the first decoding. -/
def writeBody (mapped : List Text) (stream : RecordStream) (record : EvtxRecord) :
    Except ExportError RecordStream :=
  (writeRecord F.rendering F.files.sink F.session.format mapped
    (validateRawXmlRecord F.rendering) stream record).mapError F.cannotWrite

def checkBody : CheckLoop → EvtxRecord → Except ExportError CheckLoop :=
  checkRecord F.files.resolvePublishing F.session.destination

/-- What comes between the second decoding and the check before the third. -/
def finishWriting (stream : RecordStream) :
    Except ExportError (CountingWriter × ExportStats) := do
  let written ← (endStream F.files.sink F.session.format stream).mapError F.cannotWrite
  F.io .stagedFlush F.cannotWrite
  return written

/-- What comes between that check and the third decoding. -/
def preparePublication : Except ExportError Unit := do
  rejectSourceDestination F.files.resolvePublishing F.session.protectedSources
    F.session.destination
  F.io .publicationRewind .cannotRewind

/-! ### The machine -/

def enterDecoding : Finalizer δ :=
  Finalizer.orFail (fun _ => .decoding ⟨(0, F.decoder.start), {}⟩) F.prepare

def enterWriting (loop : DecodeLoop) : Finalizer δ :=
  Finalizer.orFail (fun stream => .writing ⟨(0, F.decoder.start), stream⟩ loop.mapped.names)
    (F.prepareWriting loop)

def enterPublishing (stream : RecordStream) : Finalizer δ :=
  Finalizer.orFail (fun written => .publishing written.1.inner written.2) (F.finishWriting stream)

def enterRevalidating (staged : List UInt8) (stats : ExportStats) : Finalizer δ :=
  Finalizer.orFail (fun _ => .revalidating ⟨(0, F.decoder.start), {}⟩ staged stats)
    F.preparePublication

def enterCommitting (staged : List UInt8) (stats : ExportStats) (loop : CheckLoop) :
    Finalizer δ :=
  if loop.parsedRecords ≠ F.session.expectedRecords.toNat then
    .fail (.decodedOf loop.parsedRecords F.session.expectedRecords.toNat)
  else .committing staged stats

/-- The staged file replaces the destination, and the count is compared once more. -/
def commit (staged : List UInt8) (stats : ExportStats) : Finalizer δ :=
  match F.files.fault .replace with
  | some error => .fail (.cannotReplace F.session.destination error)
  | none =>
    if stats.records ≠ F.session.expectedRecords.toNat then
      .finished (.error (.wroteOf stats.records F.session.expectedRecords.toNat)) (some staged)
    else .finished (.ok ⟨F.session.id, stats.records, stats.bytes⟩) (some staged)

def start : Finalizer δ :=
  if F.session.state ≠ .receiving then .fail .finalizedTwice else .starting

/-- One look at the cancel flag, and everything up to the next.  A read that is
interrupted is only begun again. -/
def poll (cancelled : Bool) : Finalizer δ → Finalizer δ
  | .starting => if cancelled then .fail .cancelled else F.enterDecoding
  | .decoding loop =>
    if cancelled then .decoding loop
    else (loop.advance F.decoder (F.source .decoding) F.decodeBody .cannotDecode).elim
      .decoding (Finalizer.orFail F.enterWriting)
  | .writing loop mapped =>
    if cancelled then .writing loop mapped
    else (loop.advance F.decoder (F.source .writing) (F.writeBody mapped) F.cannotWrite).elim
      (.writing · mapped) (Finalizer.orFail F.enterPublishing)
  | .publishing staged stats =>
    if cancelled then .fail .cancelled else F.enterRevalidating staged stats
  | .revalidating loop staged stats =>
    if cancelled then .revalidating loop staged stats
    else (loop.advance F.decoder (F.source .revalidating) F.checkBody .cannotDecode).elim
      (.revalidating · staged stats) (Finalizer.orFail (F.enterCommitting staged stats))
  | .committing staged stats => if cancelled then .fail .cancelled else F.commit staged stats
  | .finished result published => .finished result published

/-- The state after `n` looks at the flag, when look `i` finds it as `flag i`. -/
def run (flag : Nat → Bool) : Nat → Finalizer δ
  | 0 => F.start
  | n + 1 => F.poll (flag n) (run flag n)

/-- The flag as the looks find it when it is set, for good, before one of them. -/
def flagSet (moment : Option Nat) (look : Nat) : Bool := moment.any (decide <| · ≤ look)

/-- What the destination holds, given what it held. -/
def destinationAfter (f : Finalizer δ) (old : Option (List UInt8)) : Option (List UInt8) :=
  f.published.or old

end Finalization
end Export
end CmTrace
