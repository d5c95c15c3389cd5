import CmTrace.Export.Publish

/-!
# From requests to a published file

Appending in sequence spools the stream that was cut, whatever is refused on the
way, and finalizing what was spooled publishes the plain writer's file or nothing,
unless it is cancelled while a decoder reads.
-/

namespace CmTrace
namespace Export

open Text Streamed

namespace EventLogExportSession

variable {decode : Text → Except Text (List UInt8)}

/-! ## Appending -/

theorem appendChunk_refused {s : EventLogExportSession} {r : Request} {e : ExportError}
    (h : (s.appendChunk decode r).1 = .error e) (hfault : r.writeFault = none) :
    (s.appendChunk decode r).2 = s := by
  unfold appendChunk at h ⊢
  cases hadmitted : s.admitted decode r with
  | error error => rfl
  | ok admitted =>
    simp only [hadmitted, hfault] at h
    cases h

/-- A session that has received `bytes` and nothing else. -/
structure Received (s : EventLogExportSession) (bytes : List UInt8) : Prop where
  state : s.state = .receiving
  spool : s.spool = some bytes
  records : s.receivedRecords = bytes.count 10
  bytes : s.receivedBytes = bytes.length

def next (s : EventLogExportSession) (payload : Text) : Request :=
  { sequence := s.nextSequence, payloadBase64 := payload }

/-- What identifies an export and stays as it is. -/
def Same (s s' : EventLogExportSession) : Prop :=
  s'.id = s.id ∧ s'.format = s.format ∧ s'.destination = s.destination ∧
    s'.destinationIdentity = s.destinationIdentity ∧ s'.protectedSources = s.protectedSources ∧
    s'.expectedRecords = s.expectedRecords

theorem Same.refl (s : EventLogExportSession) : Same s s := ⟨rfl, rfl, rfl, rfl, rfl, rfl⟩

theorem Same.trans {s s' s'' : EventLogExportSession} (h : Same s s') (h' : Same s' s'') :
    Same s s'' := by
  obtain ⟨h₁, h₂, h₃, h₄, h₅, h₆⟩ := h
  obtain ⟨h₁', h₂', h₃', h₄', h₅', h₆'⟩ := h'
  exact ⟨h₁'.trans h₁, h₂'.trans h₂, h₃'.trans h₃, h₄'.trans h₄, h₅'.trans h₅, h₆'.trans h₆⟩

theorem Received.admitted {s : EventLogExportSession} {before chunk : List UInt8}
    {payload : Text} (h : s.Received before) (hdecode : decode payload = .ok chunk)
    (hpayload : payload ≠ []) (hchars : byteLen payload ≤ maxExportChunkBase64Chars)
    (hchunk : chunk ≠ []) (hsize : chunk.length ≤ maxExportChunkBytes)
    (hseparators : chunk.count 10 ≤ maxExportChunkRecordSeparators)
    (hrecords : (before ++ chunk).count 10 ≤ s.expectedRecords.toNat)
    (hbytes : (before ++ chunk).length ≤ u64Max) :
    s.admitted decode (s.next payload) =
      .ok (chunk, (before ++ chunk).count 10, (before ++ chunk).length, before) := by
  have hexpected : s.expectedRecords.toNat ≤ u64Max := by
    have := s.expectedRecords.toNat_lt
    unfold u64Max
    omega
  rw [List.count_append] at hrecords ⊢
  rw [List.length_append] at hbytes ⊢
  unfold EventLogExportSession.admitted next
  simp only [bind_ok, refuseIf_ok, mapError_ok, pure_ok, h.state, h.records, h.bytes, h.spool,
    Option.elim_some, Except.ok.injEq]
  refine ⟨(), by simp, (), by simp, (), by simp, (), ?_, chunk, hdecode, (), ?_, (), by omega, (),
    by omega, (), by omega, (), by omega, before, rfl, rfl⟩
  · rintro (hempty | hlong)
    · exact hpayload hempty
    · omega
  · rintro (hempty | hlong)
    · exact hchunk hempty
    · omega

theorem Received.next {s : EventLogExportSession} {before chunk : List UInt8} {payload : Text}
    (h : s.Received before)
    (hadmitted : s.admitted decode (s.next payload) =
      .ok (chunk, (before ++ chunk).count 10, (before ++ chunk).length, before)) :
    (s.appendChunk decode (s.next payload)).2.Received (before ++ chunk) ∧
      Same s (s.appendChunk decode (s.next payload)).2 := by
  unfold appendChunk
  rw [hadmitted]
  exact ⟨⟨h.state, rfl, rfl, rfl⟩, rfl, rfl, rfl, rfl, rfl, rfl⟩

/-- Requests that carry the chunks of a stream in sequence, with any number that are
refused in between. -/
inductive Delivers (decode : Text → Except Text (List UInt8)) :
    EventLogExportSession → List Request → List (List UInt8) → Prop where
  | nil {s} : Delivers decode s [] []
  | refused {s r requests chunks e} : (s.appendChunk decode r).1 = .error e →
      r.writeFault = none → Delivers decode s requests chunks →
      Delivers decode s (r :: requests) chunks
  | chunk {s payload chunk requests chunks} : decode payload = .ok chunk → payload ≠ [] →
      byteLen payload ≤ maxExportChunkBase64Chars → chunk ≠ [] →
      chunk.length ≤ maxExportChunkBytes → chunk.count 10 ≤ maxExportChunkRecordSeparators →
      Delivers decode (s.appendChunk decode (s.next payload)).2 requests chunks →
      Delivers decode s (s.next payload :: requests) (chunk :: chunks)

theorem Received.delivered {s : EventLogExportSession} {requests : List Request}
    {chunks : List (List UInt8)} {before : List UInt8} (hdelivers : Delivers decode s requests chunks)
    (h : s.Received before) (hrecords : (before ++ chunks.flatten).count 10 ≤ s.expectedRecords.toNat)
    (hbytes : (before ++ chunks.flatten).length ≤ u64Max) :
    (s.appendAll decode requests).Received (before ++ chunks.flatten) ∧
      Same s (s.appendAll decode requests) := by
  induction hdelivers generalizing before with
  | nil =>
    rw [List.flatten_nil, List.append_nil]
    exact ⟨h, Same.refl _⟩
  | refused hrefused hfault _ ih =>
    rw [appendAll, List.foldl_cons, appendChunk_refused hrefused hfault]
    exact ih h hrecords hbytes
  | @chunk s payload chunk requests chunks hdecode hpayload hchars hchunk hsize hseparators _ ih =>
    rw [List.flatten_cons, ← List.append_assoc] at hrecords hbytes ⊢
    have hfront : (before ++ chunk).count 10 ≤ s.expectedRecords.toNat := by
      rw [List.count_append] at hrecords
      omega
    have hfrontBytes : (before ++ chunk).length ≤ u64Max := by
      rw [List.length_append] at hbytes
      omega
    obtain ⟨hreceived, hsame⟩ := h.next (h.admitted hdecode hpayload hchars hchunk hsize
      hseparators hfront hfrontBytes)
    have hexpected := hsame.2.2.2.2.2
    obtain ⟨hall, hsameAll⟩ := ih hreceived (by rw [hexpected]; exact hrecords) hbytes
    exact ⟨hall, hsame.trans hsameAll⟩

theorem new_received {resolve : Resolve} {id : Text} {format : ExportFormat} {destination : Text}
    {protectedSources : List Text} {expectedRecords : UInt64} {s : EventLogExportSession}
    (h : EventLogExportSession.new resolve id format destination protectedSources
      expectedRecords = .ok s) :
    s.Received [] ∧ s.id = id ∧ s.format = format ∧ s.destination = destination ∧
      s.destinationIdentity = resolve destination ∧ s.protectedSources = protectedSources ∧
      s.expectedRecords = expectedRecords ∧ s.destination ≠ ['-'] := by
  unfold EventLogExportSession.new at h
  obtain ⟨_, hdestination, h⟩ := bind_ok.mp h
  obtain ⟨_, -, h⟩ := bind_ok.mp h
  rw [refuseIf_ok, not_or] at hdestination
  rw [← pure_ok.mp h]
  exact ⟨⟨rfl, rfl, rfl, rfl⟩, rfl, rfl, rfl, rfl, rfl, rfl, hdestination.2⟩

end EventLogExportSession

/-! ## The stream of a list of records -/

/-- The newline-terminated stream of records, given the line of each. -/
def streamOf (line : EvtxRecord → List UInt8) (records : List EvtxRecord) : List UInt8 :=
  records.flatMap fun record => line record ++ [10]

theorem count_streamOf {line : EvtxRecord → List UInt8} {records : List EvtxRecord}
    (hline : ∀ r ∈ records, (10 : UInt8) ∉ line r) :
    (streamOf line records).count 10 = records.length := by
  induction records with
  | nil => rfl
  | cons record records ih =>
    rw [List.forall_mem_cons] at hline
    have hnone : (line record).count 10 = 0 := List.count_eq_zero.mpr hline.1
    have hrest := ih hline.2
    unfold streamOf at hrest ⊢
    rw [List.flatMap_cons, List.count_append, List.count_append, hnone, hrest, List.length_cons]
    simp only [List.count_singleton_self]
    omega

theorem getLast?_streamOf {line : EvtxRecord → List UInt8} {records : List EvtxRecord}
    (h : 0 < (streamOf line records).length) : (streamOf line records).getLast? = some 10 := by
  induction records using List.reverseRecOn with
  | nil => cases h
  | append_singleton records record _ =>
    unfold streamOf
    rw [List.flatMap_append, List.flatMap_singleton, ← List.append_assoc, List.getLast?_concat]

/-! ## The session as a whole -/

open EventLogExportSession in
/-- A refused append changes nothing.  The session that has received the stream of a
list of records may publish what the plain writer writes for that list, if it writes
it, no source resolves to the destination and no file operation fails.  And every
finalization publishes what it may or returns an error with the destination as it
was, exactly when it is not cancelled at a moment at which a decoder reads next. -/
theorem chunked_export_iff {δ : Type} {resolve : Resolve} {id : Text} {format : ExportFormat}
    {destination : Text} {protectedSources : List Text} {expectedRecords : UInt64}
    {s₀ : EventLogExportSession}
    (hnew : EventLogExportSession.new resolve id format destination protectedSources
      expectedRecords = .ok s₀)
    (decode : Text → Except Text (List UInt8)) (requests : List Request) (F : Finalization δ)
    (hsession : F.session = s₀.appendAll decode requests) (moment : Option Nat)
    (old : Option (List UInt8)) :
    (∀ (s : EventLogExportSession) (r : Request) (e : ExportError),
      (s.appendChunk decode r).1 = .error e → r.writeFault = none →
        (s.appendChunk decode r).2 = s) ∧
    (∀ (line : EvtxRecord → List UInt8) (records : List EvtxRecord) (chunks : List (List UInt8)),
      Delivers decode s₀ requests chunks → chunks.flatten = streamOf line records →
      (∀ r ∈ records, (10 : UInt8) ∉ line r) → (streamOf line records).length ≤ u64Max →
      records.length = expectedRecords.toNat →
      F.decoder.Decodes ⟨streamOf line records, none⟩ (0, F.decoder.start) records none →
      (∀ pass, F.files.readFault pass = none) →
      ∀ (written : List EvtxRecord) (bytes : List UInt8) (stats : ExportStats),
        F.Publishable written bytes stats ↔ written = records ∧
          writeRecords F.rendering F.files.sink format records = .ok (bytes, stats) ∧
          (∀ r ∈ records, F.files.resolveDecoding r.sourceLabel ≠ resolve destination ∧
            F.files.resolvePublishing r.sourceLabel ≠ F.files.resolvePublishing destination) ∧
          (∀ p ∈ protectedSources,
            F.files.resolvePublishing p ≠ F.files.resolvePublishing destination) ∧
          ∀ step, step = .inspect ∧ records = [] ∨ F.files.fault step = none) ∧
    (F.WriterOrNothing moment old ↔
      ∀ k, moment = some k → ¬ (F.run (fun _ => false) k).awaitsRead) := by
  refine ⟨fun s r e => appendChunk_refused, ?_, Finalization.writerOrNothing_iff F moment old⟩
  intro line records chunks hdelivers hstream hline hsize hcount hjson hreads written bytes stats
  obtain ⟨hreceived, -, hformat, hdestination, hidentity, hprotected, hexpected, hdash⟩ :=
    new_received hnew
  have hall : ([] ++ chunks.flatten).count 10 ≤ s₀.expectedRecords.toNat := by
    rw [List.nil_append, hstream, count_streamOf hline, hexpected, hcount]
  obtain ⟨hgot, -, hformat', hdestination', hidentity', hprotected', hexpected'⟩ :=
    hreceived.delivered hdelivers hall (by rw [List.nil_append, hstream]; exact hsize)
  rw [List.nil_append, hstream, ← hsession] at hgot
  rw [← hsession] at hformat' hdestination' hidentity' hprotected' hexpected'
  rw [hformat] at hformat'
  rw [hdestination] at hdestination' hdash
  rw [hidentity] at hidentity'
  rw [hprotected] at hprotected'
  rw [hexpected] at hexpected'
  have hsource : ∀ pass, F.source pass = ⟨streamOf line records, none⟩ := fun pass => by
    rw [Finalization.source, hgot.spool, hreads pass]
    rfl
  have hdecodes : ∀ pass, F.DecodesTo pass (records, none) := fun pass => by
    rw [Finalization.DecodesTo, hsource pass]
    exact hjson
  have hempty : F.session.receivedBytes = 0 ↔ records = [] := by
    rw [hgot.bytes, List.length_eq_zero_iff]
    cases records with
    | nil => simp [streamOf]
    | cons record records => simp [streamOf]
  constructor
  · intro h
    obtain rfl : written = records := Finalization.decodesTo_unique (h.decodes .decoding)
      (hdecodes .decoding)
    have hsources := h.sources
    have hprotecteds := h.protectedSources
    have hwritten := h.written
    rw [hidentity', hdestination'] at hsources
    rw [hprotected', hdestination'] at hprotecteds
    rw [hformat'] at hwritten
    refine ⟨rfl, hwritten, hsources, hprotecteds hdash, fun step => ?_⟩
    rw [← hempty]
    exact h.files step
  · rintro ⟨rfl, hwritten, hsources, hprotecteds, hfiles⟩
    refine ⟨hgot.state, by rw [hgot.spool]; rfl, ?_, fun hbytes => ?_, hdecodes, ?_, ?_, ?_, ?_, ?_⟩
    · rw [hgot.records, count_streamOf hline, hcount, hexpected']
    · rw [hgot.bytes] at hbytes
      rw [hgot.spool]
      exact getLast?_streamOf hbytes
    · rw [hcount, hexpected']
    · rw [hformat']
      exact hwritten
    · rw [hidentity', hdestination']
      exact hsources
    · intro _
      rw [hprotected', hdestination']
      exact hprotecteds
    · intro step
      rw [hempty]
      exact hfiles step

/-! ### One record, cancelled during its first decoding -/

namespace OneRecord

def record : EvtxRecord where
  id := 1
  eventRecordId := 7
  timestamp := "2024-05-01T10:00:00Z".toList
  timestampEpoch := 1714557600
  provider := "Disk".toList
  channel := "System".toList
  eventId := 7
  level := .error
  computer := "PC1".toList
  message := "bad block".toList
  sourceLabel := "a.evtx".toList

/-- The record as its JSON line, in UTF-8:
`{"id":1,"eventRecordId":7,"timestamp":"2024-05-01T10:00:00Z","timestampEpoch":1714557600,`
`"provider":"Disk","channel":"System","eventId":7,"level":"Error","computer":"PC1",`
`"message":"bad block","sourceLabel":"a.evtx"}`. -/
def line : List UInt8 :=
  [123, 34, 105, 100, 34, 58, 49, 44, 34, 101, 118, 101, 110, 116, 82, 101, 99, 111, 114, 100,
    73, 100, 34, 58, 55, 44, 34, 116, 105, 109, 101, 115, 116, 97, 109, 112, 34, 58, 34, 50, 48,
    50, 52, 45, 48, 53, 45, 48, 49, 84, 49, 48, 58, 48, 48, 58, 48, 48, 90, 34, 44, 34, 116, 105,
    109, 101, 115, 116, 97, 109, 112, 69, 112, 111, 99, 104, 34, 58, 49, 55, 49, 52, 53, 53, 55,
    54, 48, 48, 44, 34, 112, 114, 111, 118, 105, 100, 101, 114, 34, 58, 34, 68, 105, 115, 107,
    34, 44, 34, 99, 104, 97, 110, 110, 101, 108, 34, 58, 34, 83, 121, 115, 116, 101, 109, 34, 44,
    34, 101, 118, 101, 110, 116, 73, 100, 34, 58, 55, 44, 34, 108, 101, 118, 101, 108, 34, 58,
    34, 69, 114, 114, 111, 114, 34, 44, 34, 99, 111, 109, 112, 117, 116, 101, 114, 34, 58, 34,
    80, 67, 49, 34, 44, 34, 109, 101, 115, 115, 97, 103, 101, 34, 58, 34, 98, 97, 100, 32, 98,
    108, 111, 99, 107, 34, 44, 34, 115, 111, 117, 114, 99, 101, 76, 97, 98, 101, 108, 34, 58, 34,
    97, 46, 101, 118, 116, 120, 34, 125]

/-- A decoder of copies of `line` with separators between them.  Its state is the
number of bytes it has of one. -/
def decoder : StreamDecoder Nat EvtxRecord Text where
  start := 0
  feed
    | 0, none => .done
    | _ + 1, none => .failed "EOF while parsing an object".toList
    | n, some b =>
      if n = 0 ∧ b = 10 then .more 0
      else if (line.drop n).head? ≠ some b then .failed "expected value".toList
      else if n + 1 = line.length then .record record 0
      else .more (n + 1)
  patience _ := 0
  more_lt d d' h := by cases d <;> cases h
  record_lt d r d' h := by cases d <;> cases h

def sextet (n : Nat) : Char :=
  if n < 26 then Char.ofNat ('A'.toNat + n)
  else if n < 52 then Char.ofNat ('a'.toNat + (n - 26))
  else if n < 62 then Char.ofNat ('0'.toNat + (n - 52))
  else if n = 62 then '+'
  else '/'

def encode : List UInt8 → Text
  | a :: b :: c :: rest =>
    [sextet (a.toNat / 4), sextet (a.toNat % 4 * 16 + b.toNat / 16),
      sextet (b.toNat % 16 * 4 + c.toNat / 64), sextet (c.toNat % 64)] ++ encode rest
  | [a, b] =>
    [sextet (a.toNat / 4), sextet (a.toNat % 4 * 16 + b.toNat / 16), sextet (b.toNat % 16 * 4), '=']
  | [a] => [sextet (a.toNat / 4), sextet (a.toNat % 4 * 16), '=', '=']
  | [] => []

def decode (payload : Text) : Except Text (List UInt8) :=
  if payload = encode (line ++ [10]) then .ok (line ++ [10]) else .error "Invalid padding".toList

def session : EventLogExportSession where
  id := ['s']
  format := .csv
  destination := ['o', 'u', 't']
  destinationIdentity := ['o', 'u', 't']
  protectedSources := []
  expectedRecords := 1

def requests : List EventLogExportSession.Request :=
  [{ sequence := 0, payloadBase64 := encode (line ++ [10]) }]

def finalization : Finalization Nat where
  rendering := ⟨id, id, fun _ => .ok line, fun _ => none⟩
  decoder := decoder
  files := ⟨fun _ => none, fun _ => none, memory, id, id⟩
  session := session.appendAll decode requests

end OneRecord

set_option maxRecDepth 2000 in
open OneRecord in
theorem chunked_export_iff_one_record :
    (∀ (s : EventLogExportSession) (r : EventLogExportSession.Request) (e : ExportError),
      (s.appendChunk decode r).1 = .error e → r.writeFault = none →
        (s.appendChunk decode r).2 = s) ∧
    (finalization.WriterOrNothing none none ↔
      ∀ k, none = some k → ¬ (finalization.run (fun _ => false) k).awaitsRead) := by
  have hnew : EventLogExportSession.new id session.id .csv session.destination [] 1 =
      .ok session := by rfl
  have h := chunked_export_iff hnew decode requests finalization rfl none none
  exact ⟨h.1, h.2.2⟩

open OneRecord in
/-- The flag is set after the first check, and the first decoding never ends. -/
theorem cancelled_export_never_ends : ¬ finalization.WriterOrNothing (some 1) none := by
  intro h
  refine (Finalization.writerOrNothing_iff _ _ _).mp h 1 rfl ?_
  decide +kernel

end Export
end CmTrace
