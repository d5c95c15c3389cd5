import CmTrace.Text.Basic
import CmTrace.Archive.Parsed

/-!
# Reading archive members

A member is read through a limit one byte above what is allowed, so that a member
that is longer than its header says is noticed and not kept.
-/

namespace CmTrace
namespace Archive

open Text Export

inductive MemberReadError where
  | limit (bytesRead : Nat)
  | io (source : Text) (bytesRead : Nat)
  deriving DecidableEq, Repr

namespace MemberReadError

def bytesRead : MemberReadError → Nat
  | limit bytesRead => bytesRead
  | io _ bytesRead => bytesRead

def isLimit : MemberReadError → Bool
  | limit _ => true
  | io _ _ => false

def display : MemberReadError → Text
  | limit _ => "member expanded beyond archive limit".toList
  | io source _ => source

end MemberReadError

/-- What the reads of a member return one after the other, and the error that
comes after them if there is one.  A read of nothing is the end. -/
structure MemberReader where
  reads : List (List UInt8)
  failure : Option Text
  deriving DecidableEq

def readable : List (List UInt8) → List UInt8
  | [] => []
  | [] :: _ => []
  | read :: reads => read ++ readable reads

def takeReads : Nat → List (List UInt8) → List (List UInt8)
  | _, [] => []
  | limit, read :: reads =>
    if limit ≤ read.length then [read.take limit] else read :: takeReads (limit - read.length) reads

namespace MemberReader

def content (reader : MemberReader) : List UInt8 := readable reader.reads

/-- The member up to a limit.  Where the limit is reached the member is not read
on, so that an error behind it is not met. -/
def take (reader : MemberReader) (limit : Nat) : MemberReader where
  reads := takeReads limit reader.reads
  failure := if limit ≤ reader.reads.flatten.length then none else reader.failure

end MemberReader

def readToEnd (failure : Option Text) :
    List UInt8 → List (List UInt8) → Except MemberReadError (List UInt8)
  | bytes, [] =>
    match failure with
    | some source => .error (.io source bytes.length)
    | none => .ok bytes
  | bytes, [] :: _ => .ok bytes
  | bytes, read :: reads => readToEnd failure (bytes ++ read) reads

def readMemberBytes (entry : MemberReader) (maxBytes : Nat) :
    Except MemberReadError (List UInt8) :=
  let reader := entry.take (maxBytes + 1)
  match readToEnd reader.failure [] reader.reads with
  | .error error => .error error
  | .ok bytes => if maxBytes < bytes.length then .error (.limit bytes.length) else .ok bytes

/-- What was fed to the hash so far, and how much that is. -/
def readDigestFrom (maxBytes : Nat) (failure : Option Text) :
    List UInt8 → Nat → List (List UInt8) → Except MemberReadError (List UInt8 × Nat)
  | hashed, total, [] =>
    match failure with
    | some source => .error (.io source total)
    | none => .ok (hashed, total)
  | hashed, total, [] :: _ => .ok (hashed, total)
  | hashed, total, read :: reads =>
    if maxBytes < total + read.length then .error (.limit (total + read.length))
    else readDigestFrom maxBytes failure (hashed ++ read) (total + read.length) reads

def readMemberDigest (sha256Hex : List UInt8 → Text) (entry : MemberReader) (maxBytes : Nat) :
    Except MemberReadError (Text × Nat) :=
  let reader := entry.take (maxBytes + 1)
  (readDigestFrom maxBytes reader.failure [] 0 reader.reads).map fun r => (sha256Hex r.1, r.2)

/-! ## What a read returns -/

theorem readable_cons (read : List UInt8) (reads : List (List UInt8)) :
    readable (read :: reads) = if read = [] then [] else read ++ readable reads := by
  cases read with
  | nil => rfl
  | cons b bs => rfl

theorem readable_takeReads (limit : Nat) (reads : List (List UInt8)) :
    readable (takeReads limit reads) = (readable reads).take limit := by
  induction reads generalizing limit with
  | nil => exact List.take_nil.symm
  | cons read reads ih =>
    rw [takeReads, readable_cons]
    by_cases hread : read = []
    · rw [if_pos hread, List.take_nil]
      split_ifs
      · rw [hread, List.take_nil]
        rfl
      · rw [hread]
        rfl
    · rw [if_neg hread]
      by_cases hlimit : limit ≤ read.length
      · rw [if_pos hlimit, List.take_append_of_le_length hlimit, readable_cons]
        split_ifs with htake
        · exact htake.symm
        · exact List.append_nil _
      · rw [if_neg hlimit, readable_cons, if_neg hread, ih, List.take_append,
          List.take_of_length_le (show read.length ≤ limit by omega)]

theorem readToEnd_ok {failure : Option Text} {bytes result : List UInt8}
    {reads : List (List UInt8)} (h : readToEnd failure bytes reads = .ok result) :
    result = bytes ++ readable reads := by
  induction reads generalizing bytes with
  | nil =>
    cases failure with
    | none => rw [readable, List.append_nil, Except.ok.inj h]
    | some source => cases h
  | cons read reads ih =>
    cases read with
    | nil => rw [readable, List.append_nil, Except.ok.inj h]
    | cons b bs => rw [ih h, List.append_assoc, readable_cons, if_neg (List.cons_ne_nil b bs)]

theorem eq_of_take_le {xs : List UInt8} {limit : Nat} (h : (xs.take (limit + 1)).length ≤ limit) :
    xs.take (limit + 1) = xs ∧ xs.length ≤ limit := by
  rw [List.length_take] at h
  have hlen : xs.length ≤ limit := by omega
  exact ⟨List.take_of_length_le (by omega), hlen⟩

theorem readMemberBytes_ok {entry : MemberReader} {maxBytes : Nat} {bytes : List UInt8}
    (h : readMemberBytes entry maxBytes = .ok bytes) :
    bytes = entry.content ∧ entry.content.length ≤ maxBytes := by
  dsimp only [readMemberBytes] at h
  cases hread : readToEnd (entry.take (maxBytes + 1)).failure []
      (entry.take (maxBytes + 1)).reads with
  | error error =>
    rw [hread] at h
    cases h
  | ok read =>
    rw [hread] at h
    dsimp only at h
    split_ifs at h with hlimit
    obtain rfl := Except.ok.inj h
    have hcontent := readToEnd_ok hread
    rw [List.nil_append, MemberReader.take, readable_takeReads] at hcontent
    rw [hcontent] at hlimit
    have hwhole := eq_of_take_le (Nat.not_lt.mp hlimit)
    exact ⟨hcontent.trans hwhole.1, hwhole.2⟩

theorem readDigestFrom_ok {maxBytes : Nat} {failure : Option Text} {hashed : List UInt8}
    {total : Nat}
    {reads : List (List UInt8)} {result : List UInt8 × Nat} (htotal : total = hashed.length)
    (hbound : total ≤ maxBytes)
    (h : readDigestFrom maxBytes failure hashed total reads = .ok result) :
    result.1 = hashed ++ readable reads ∧ result.2 = result.1.length ∧ result.2 ≤ maxBytes := by
  induction reads generalizing hashed total with
  | nil =>
    cases failure with
    | none =>
      obtain rfl := Except.ok.inj h
      exact ⟨(List.append_nil _).symm, htotal, hbound⟩
    | some source => cases h
  | cons read reads ih =>
    cases read with
    | nil =>
      obtain rfl := Except.ok.inj h
      exact ⟨(List.append_nil _).symm, htotal, hbound⟩
    | cons b bs =>
      rw [readDigestFrom] at h
      split_ifs at h with hlimit
      · obtain ⟨hbytes, hrest⟩ := ih (by rw [htotal, List.length_append]) (Nat.not_lt.mp hlimit) h
        refine ⟨?_, hrest⟩
        rw [hbytes, List.append_assoc, readable_cons, if_neg (List.cons_ne_nil b bs)]
      · exact List.cons_ne_nil b bs

theorem readMemberDigest_ok {sha256Hex : List UInt8 → Text} {entry : MemberReader} {maxBytes : Nat}
    {digest : Text} {total : Nat}
    (h : readMemberDigest sha256Hex entry maxBytes = .ok (digest, total)) :
    digest = sha256Hex entry.content ∧ total = entry.content.length ∧ total ≤ maxBytes := by
  dsimp only [readMemberDigest] at h
  cases hread : readDigestFrom maxBytes (entry.take (maxBytes + 1)).failure [] 0
      (entry.take (maxBytes + 1)).reads with
  | error error =>
    rw [hread] at h
    cases h
  | ok read =>
    rw [hread] at h
    obtain ⟨rfl, rfl⟩ := Prod.mk.inj (Except.ok.inj h)
    obtain ⟨hbytes, hlen, hbound⟩ := readDigestFrom_ok rfl (Nat.zero_le _) hread
    rw [List.nil_append, MemberReader.take, readable_takeReads] at hbytes
    rw [hlen, hbytes] at hbound
    have hwhole := eq_of_take_le hbound
    rw [hwhole.1] at hbytes
    rw [hlen, hbytes]
    exact ⟨rfl, rfl, hwhole.2⟩

/-! ## Intake of an archive

The members of an archive are visited in order.  Every visit leaves one entry of
metadata; it ends with a gap or with a member that is handed on.  The archive
itself, the host and the receiver of members are parameters.
-/

def maxArchiveMemberBytes : Nat := 128 * 1024 * 1024

def maxArchiveTotalBytes : Nat := 512 * 1024 * 1024

def maxArchiveTotalCompressedBytes : Nat := 512 * 1024 * 1024

def maxArchiveCentralDirectoryBytes : Nat := 64 * 1024 * 1024

structure ZipEntry where
  rawName : Text
  storedUnixMode : Option Nat
  isDir : Bool
  compressedSize : Nat
  size : Nat
  reader : MemberReader

/-- An entry, or why it or its name cannot be had. -/
abbrev OpenedEntry : Type := Except Text ZipEntry

structure ArchiveDirectoryInfo where
  memberCount : Nat
  directorySize : Nat
  directoryOffset : Nat

/-- An archive file as the calls on it answer. -/
structure ArchiveFile where
  path : Text
  openError : Option Text
  directoryInfo : Except Text (Option ArchiveDirectoryInfo)
  length : Except Text Nat
  rewindError : Option Text
  zip : Except Text (List OpenedEntry)

def fileGap (source context error : Text) : EvtxCoverageGap := .new source .file (context ++ error)

/-- What the directory says is checked before it is read as a whole. -/
def checkDirectory (file : ArchiveFile) (info : ArchiveDirectoryInfo) :
    Except EvtxCoverageGap Unit :=
  if maxArchiveMembers < info.memberCount then
    .error (.new file.path .limit ("archive member count ".toList ++ decimal info.memberCount ++
      " exceeds limit of ".toList ++ decimal maxArchiveMembers ++
      "; archive was not opened".toList))
  else match file.length with
    | .error error =>
      .error (fileGap file.path "archive metadata could not be inspected: ".toList error)
    | .ok fileLen =>
      let directoryEnd := info.directoryOffset + info.directorySize
      if maxArchiveCentralDirectoryBytes < info.directorySize ∨ u64Max < directoryEnd ∨
          fileLen < directoryEnd then
        .error (.new file.path .limit ("archive central directory exceeds ".toList ++
          decimal maxArchiveCentralDirectoryBytes ++
          " byte limit or lies outside the archive".toList))
      else .ok ()

def openArchive (file : ArchiveFile) : Except EvtxCoverageGap (List OpenedEntry) := do
  if let some error := file.openError then
    throw (fileGap file.path "failed to open archive: ".toList error)
  match file.directoryInfo with
  | .error error =>
    throw (fileGap file.path "archive directory could not be inspected: ".toList error)
  | .ok none => pure ()
  | .ok (some info) => checkDirectory file info
  if let some error := file.rewindError then
    throw (fileGap file.path "archive could not be rewound: ".toList error)
  match file.zip with
  | .error error => throw (fileGap file.path "archive is corrupt or not a ZIP: ".toList error)
  | .ok archive => pure archive

/-! ## Budgets -/

def archiveBudgetAllows (total next limit : Nat) : Bool :=
  if limit < total then false
  else
    let remaining := limit - total
    decide (0 < remaining) && decide (next ≤ remaining)

def accountArchiveBytes (total consumed : Nat) : Nat := min (total + consumed) maxArchiveTotalBytes

def archiveRecordBudgetAllows (total maxRecords : Nat) : Bool := decide (total < maxRecords)

def archiveTextParserAdmissionAllows (declaredBytes totalRecords maxRecords : Nat) : Bool :=
  decide (declaredBytes ≤ maxArchiveTextParseBytes) &&
    archiveRecordBudgetAllows totalRecords maxRecords

/-! ## The visit of a member -/

structure ArchiveMember where
  sourceLabel : Text
  parsed : ParsedFile

structure ArchiveState where
  result : ArchiveParseResult := {}
  seenPaths : List Text := []
  totalBytes : Nat := 0
  totalCompressedBytes : Nat := 0
  totalRecords : Nat := 0
  emittedMembers : Nat := 0
  /-- The members that were handed on. -/
  sent : List ArchiveMember := []

namespace ArchiveState

def refuse (s : ArchiveState) (path : Text) (kind : EvtxArchiveMemberKind) (sha256 : Option Text)
    (outcome : EvtxArchiveMemberOutcome) (gapSource : Text) (gapKind : EvtxCoverageGapKind)
    (reason : Text) : ArchiveState :=
  { s with
    result := pushGap (pushMetadata s.result path kind sha256 outcome) gapSource gapKind reason }

def seen (s : ArchiveState) (name : Text) : ArchiveState :=
  { s with seenPaths := toAsciiLowercase name :: s.seenPaths }

def compressed (s : ArchiveState) (size : Nat) : ArchiveState :=
  { s with totalCompressedBytes := s.totalCompressedBytes + size }

def account (s : ArchiveState) (consumed : Nat) : ArchiveState :=
  { s with totalBytes := accountArchiveBytes s.totalBytes consumed }

def send (s : ArchiveState) (label : Text) (kind : EvtxArchiveMemberKind) (digest : Text)
    (parsed : ParsedFile) : ArchiveState :=
  { s with
    totalRecords := s.totalRecords + parsed.records.length
    result := pushMetadata s.result label kind (some digest) (parsedMemberOutcome parsed)
    emittedMembers := s.emittedMembers + 1
    sent := s.sent ++ [⟨label, parsed⟩] }

end ArchiveState

def memberLabelAt (source : Text) (index : Nat) : Text :=
  source ++ "::member-".toList ++ decimal index

def memberLabel (source name : Text) : Text := source ++ "::".toList ++ name

/-- A member that may be read, up to a limit. -/
structure Admitted where
  entry : ZipEntry
  name : Text
  limit : Nat

def isSymbolicLink (entry : ZipEntry) : Bool :=
  entry.storedUnixMode.any fun mode => mode &&& 0o170000 == 0o120000

/-- The checks before a member is read; on the left the state after a refusal. -/
def admitNamed (source : Text) (maxRecords : Nat) (s : ArchiveState) (entry : ZipEntry)
    (name : Text) :
    Except ArchiveState (ArchiveState × Admitted) :=
  let label := memberLabel source name
  let refuse (s : ArchiveState) (outcome : EvtxArchiveMemberOutcome) (kind : EvtxCoverageGapKind)
      (reason : Text) : Except ArchiveState (ArchiveState × Admitted) :=
    .error (s.refuse label (archiveMemberKind name) none outcome label kind reason)
  if isSymbolicLink entry then
    refuse s .unsupported .unsupported "symbolic-link archive members are not followed".toList
  else if toAsciiLowercase name ∈ s.seenPaths then
    refuse s .duplicate .unsupported "duplicate archive member path (case-insensitive)".toList
  else
    let s := s.seen name
    if entry.isDir then
      refuse s .unsupported .unsupported "directory archive member was skipped".toList
    else if isEvtxName name ∧ ¬ archiveRecordBudgetAllows s.totalRecords maxRecords then
      refuse s .limit .limit ("archive record budget of ".toList ++ decimal maxRecords ++
        " records was exhausted".toList)
    else if maxArchiveMemberBytes < entry.compressedSize then
      refuse s .limit .limit ("compressed member exceeds ".toList ++
        decimal maxArchiveMemberBytes ++ " byte limit".toList)
    else if maxArchiveMemberBytes < entry.size then
      refuse s .limit .limit ("member exceeds ".toList ++ decimal maxArchiveMemberBytes ++
        " byte limit".toList)
    else if isTextName name ∧
        ¬ archiveTextParserAdmissionAllows entry.size s.totalRecords maxRecords then
      .error (s.refuse label .text none .limit label .limit
        ("text member exceeds parser budget of ".toList ++ decimal maxArchiveTextParseBytes ++
          " bytes or archive record budget of ".toList ++ decimal maxRecords ++ " records".toList))
    else if ¬ archiveBudgetAllows s.totalCompressedBytes entry.compressedSize
        maxArchiveTotalCompressedBytes then
      refuse s .limit .limit ("archive aggregate compressed bytes exceed ".toList ++
        decimal maxArchiveTotalCompressedBytes ++ " byte limit".toList)
    else
      let s := s.compressed entry.compressedSize
      if maxArchiveTotalBytes < s.totalBytes then
        refuse s .limit .limit "archive aggregate byte accounting overflowed".toList
      else
        let remaining := maxArchiveTotalBytes - s.totalBytes
        if remaining < entry.size ∨ remaining = 0 then
          refuse s .limit .limit ("archive aggregate exceeds ".toList ++
            decimal maxArchiveTotalBytes ++ " byte limit".toList)
        else .ok (s, ⟨entry, name, min maxArchiveMemberBytes remaining⟩)

def admitMember (source : Text) (maxRecords : Nat) (s : ArchiveState) (index : Nat)
    (opened : OpenedEntry) :
    Except ArchiveState (ArchiveState × Admitted) :=
  match opened with
  | .error error =>
    .error (s.refuse (memberLabelAt source index) .binary none .malformed source .file
      ("member ".toList ++ decimal index ++ " could not be opened: ".toList ++ error))
  | .ok entry =>
    match validateMemberName entry.rawName with
    | none =>
      let label := if entry.rawName.any isUnsafeMemberCharacter then memberLabelAt source index
        else memberLabel source entry.rawName
      .error (s.refuse label (archiveMemberKind entry.rawName) none .unsupported label .unsupported
        "member path is not a safe relative path".toList)
    | some name => admitNamed source maxRecords s entry name

def refuseRead (s : ArchiveState) (label : Text) (kind : EvtxArchiveMemberKind) (what : Text)
    (error : MemberReadError) : ArchiveState :=
  (s.account error.bytesRead).refuse label kind none
    (if error.isLimit then .limit else .malformed) label (if error.isLimit then .limit else .file)
    (what ++ " member could not be read: ".toList ++ error.display)

section

variable (host : MemberHost) (emit : List ArchiveMember → Bool)

/-- Hands a member on with the records there is room for, and asks whether to go
on. -/
def sendBounded (maxRecords : Nat) (s : ArchiveState) (label : Text) (kind : EvtxArchiveMemberKind)
    (digest : Text) (parsed : ParsedFile) : ArchiveState × Bool :=
  let bounded := boundArchiveRecords parsed (maxRecords - s.totalRecords) label maxRecords
  let s := s.send label kind digest bounded
  (s, emit s.sent)

def visitText (maxRecords : Nat) (s : ArchiveState) (label : Text) (a : Admitted) :
    ArchiveState × Bool :=
  match readMemberBytes a.entry.reader (min a.limit maxArchiveTextParseBytes) with
  | .error error => (refuseRead s label .text "text".toList error, true)
  | .ok bytes =>
    let s := s.account bytes.length
    let digest := host.sha256Hex bytes
    match parseTextMember host bytes label (maxRecords - s.totalRecords) with
    | .ok parsed => sendBounded emit maxRecords s label .text digest parsed
    | .error error =>
      let limited := textParseErrorIsLimit error
      (s.refuse label .text (some digest) (if limited then .limit else .malformed) label
        (if limited then .limit else .file) ("text member could not be parsed: ".toList ++ error),
        true)

def visitInventory (s : ArchiveState) (label : Text) (a : Admitted) : ArchiveState × Bool :=
  let category := (inventoryCategory a.name).name
  match readMemberDigest host.sha256Hex a.entry.reader a.limit with
  | .error error => (refuseRead s label (archiveMemberKind a.name) category error, true)
  | .ok (digest, readBytes) =>
    ((s.account readBytes).refuse label (archiveMemberKind a.name) (some digest) .unsupported label
      .unsupported ("unsupported ".toList ++ category ++
        " member retained as inventory (sha256:".toList ++ digest ++ ")".toList), true)

def visitEvtx (maxRecords : Nat) (s : ArchiveState) (label : Text) (a : Admitted) :
    ArchiveState × Bool :=
  match readMemberBytes a.entry.reader a.limit with
  | .error error => (refuseRead s label .evtx "EVTX".toList error, true)
  | .ok bytes =>
    let s := s.account bytes.length
    let digest := host.sha256Hex bytes
    match parseEvtxBuffer host bytes label with
    | .ok parsed => sendBounded emit maxRecords s label .evtx digest parsed
    | .error gap =>
      let result := pushMetadata s.result label .evtx (some digest) .malformed
      let gap := { gap with reason := gap.reason ++ " (sha256:".toList ++ digest ++ ")".toList }
      let result := { result with parseErrors := min (result.parseErrors + 1) u32Max }
      ({ s with result := pushExistingGap result gap }, true)

/-- The visit of a member; `false` when its receiver wants no more. -/
def visit (source : Text) (maxRecords : Nat) (s : ArchiveState) (index : Nat)
    (opened : OpenedEntry) :
    ArchiveState × Bool :=
  match admitMember source maxRecords s index opened with
  | .error s => (s, true)
  | .ok (s, a) =>
    let label := memberLabel source a.name
    if isEvtxName a.name then visitEvtx host emit maxRecords s label a
    else if isTextName a.name then visitText host emit maxRecords s label a
    else visitInventory host s label a

def visitAll (source : Text) (maxRecords : Nat) :
    ArchiveState → Nat → List OpenedEntry → ArchiveState
  | s, _, [] => s
  | s, index, opened :: archive =>
    let r := visit host emit source maxRecords s index opened
    if r.2 then visitAll source maxRecords r.1 (index + 1) archive else r.1

def refuseRest (source : Text) (memberCount : Nat) (s : ArchiveState) : ArchiveState :=
  if memberCount ≤ maxArchiveMembers then s
  else s.refuse (source ++ "::[members ".toList ++ decimal maxArchiveMembers ++ "..".toList ++
      decimal memberCount ++ ")".toList) .binary none .limit source .limit
    ("archive member count ".toList ++ decimal memberCount ++ " exceeds limit of ".toList ++
      decimal maxArchiveMembers ++ "; later members were not inspected".toList)

def emptyArchiveReason : Text := "archive contains no supported EVTX or inventory members".toList

/-- Nothing handed on is said in a message, and in a gap if no other gap says it. -/
def closeResult (source : Text) (s : ArchiveState) : ArchiveParseResult :=
  if s.emittedMembers = 0 then
    let result := if s.result.coverage.isEmpty then
      pushGap s.result source .empty emptyArchiveReason
      else s.result
    { result with messages := result.messages ++ [source ++
      ": no readable EVTX members were found; archive coverage is reported below".toList] }
  else s.result

/-- The result and the members that were handed on. -/
def parseArchiveBatches (file : ArchiveFile) (maxRecords : Nat) :
    Except EvtxCoverageGap (ArchiveParseResult × List ArchiveMember) :=
  match openArchive file with
  | .error gap => .error gap
  | .ok archive =>
    let s := visitAll host emit file.path maxRecords {} 0 (archive.take maxArchiveMembers)
    let s := refuseRest file.path archive.length s
    .ok (closeResult file.path s, s.sent)

end

end Archive
end CmTrace
