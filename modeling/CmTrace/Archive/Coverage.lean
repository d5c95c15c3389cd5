import CmTrace.Text.Json
import CmTrace.Collections.Coalesce

/-!
# Names of archive members

A member of an archive is known by a name out of the archive, which may be
anything.  Only a name that reads as a path below the archive is kept, with one
kind of separator.
-/

namespace CmTrace
namespace Archive

open Text Collections

inductive EvtxArchiveMemberKind where
  | evtx
  | text
  | registry
  | binary
  deriving DecidableEq, Repr

/-- Text up to the last place a separator stands at, and what follows it. -/
def rsplitOnce (sep : Text) : Text → Option (Text × Text)
  | [] => none
  | c :: rest =>
    match rsplitOnce sep rest with
    | some (stem, tail) => some (c :: stem, tail)
    | none => if sep.isPrefixOf (c :: rest) then some ([], (c :: rest).drop sep.length) else none

def fileName (name : Text) : Text := (splitOn '/' name).getLast?.getD []

/-- The suffix of an event file, which a number may follow when it is rotated. -/
def isEvtxName (name : Text) : Bool :=
  let lower := toAsciiLowercase (fileName name)
  if ".evtx".toList.isSuffixOf lower then true
  else match rsplitOnce ".evtx.".toList lower with
    | none => false
    | some (stem, rotation) => !stem.isEmpty && !rotation.isEmpty && rotation.all isAsciiDigit

inductive InventoryCategory where
  | text
  | registry
  | binary
  deriving DecidableEq, Repr

def InventoryCategory.name : InventoryCategory → Text
  | text => "text".toList
  | registry => "registry".toList
  | binary => "binary".toList

def inventoryCategory (name : Text) : InventoryCategory :=
  match (rsplitOnce ['.'] (fileName name)).map fun r => toAsciiLowercase r.2 with
  | none => .binary
  | some extension =>
    if extension ∈
        ["txt".toList, "log".toList, "xml".toList, "json".toList, "csv".toList] then .text
    else if extension = "reg".toList then .registry
    else .binary

def isTextName (name : Text) : Bool := decide (inventoryCategory name = .text)

def archiveMemberKind (name : Text) : EvtxArchiveMemberKind :=
  if isEvtxName name then .evtx
  else match inventoryCategory name with
    | .text => .text
    | .registry => .registry
    | .binary => .binary

/-- A control character or one that is not for interchange. -/
def isUnsafeMemberCharacter (c : Char) : Bool :=
  let codePoint := c.toNat
  isControl c || decide (0xFDD0 ≤ codePoint ∧ codePoint ≤ 0xFDEF) ||
    decide (0xFFFE ≤ codePoint % 0x10000)

def hasDrive (name : Text) : Bool :=
  match name with
  | c :: ':' :: _ => c.utf8Size == 1
  | _ => false

def isUnsafePart (part : Text) : Bool :=
  part.isEmpty || part == ['.'] || part == ['.', '.'] || part.contains '\x00'

def validateMemberName (raw : Text) : Option Text :=
  if raw.any isUnsafeMemberCharacter then none
  else
    let normalized := raw.map fun c => if c = '\\' then '/' else c
    if normalized.isEmpty || normalized.head? == some '/' || hasDrive normalized then none
    else
      let parts := splitOn '/' normalized
      if parts.any isUnsafePart then none else some (join ['/'] parts)

/-! ## Names that are kept -/

/-- A path that stays below the directory it is read in, on any system, and that
shows as it is written. -/
structure SafeRelativePath (name : Text) : Prop where
  shown : ∀ c ∈ name, isUnsafeMemberCharacter c = false
  separated : '\\' ∉ name
  below : ∀ part ∈ splitOn '/' name, part ≠ [] ∧ part ≠ ['.'] ∧ part ≠ ['.', '.']
  relative : hasDrive name = false

theorem validateMemberName_safe {raw name : Text} (h : validateMemberName raw = some name) :
    SafeRelativePath name := by
  dsimp only [validateMemberName] at h
  split_ifs at h with hraw hstart hparts
  rw [Option.some.injEq, join_splitOn] at h
  rw [Bool.or_eq_true, Bool.or_eq_true, not_or, not_or] at hstart
  rw [List.any_eq_true] at hraw hparts
  subst h
  refine ⟨?_, ?_, ?_, Bool.eq_false_iff.mpr hstart.2⟩
  · intro c hc
    obtain ⟨d, hd, rfl⟩ := List.mem_map.mp hc
    by_cases hback : d = '\\'
    · rw [if_pos hback]
      decide
    · rw [if_neg hback]
      exact Bool.eq_false_iff.mpr fun hunsafe => hraw ⟨d, hd, hunsafe⟩
  · intro hmem
    obtain ⟨d, -, hd⟩ := List.mem_map.mp hmem
    by_cases hback : d = '\\'
    · rw [if_pos hback] at hd
      exact absurd hd (by decide)
    · rw [if_neg hback] at hd
      exact hback hd
  · intro part hpart
    have hunsafe : isUnsafePart part = false :=
      Bool.eq_false_iff.mpr fun hbad => hparts ⟨part, hpart, hbad⟩
    rw [isUnsafePart] at hunsafe
    refine ⟨?_, ?_, ?_⟩
    · rintro rfl
      exact absurd hunsafe (by decide)
    · rintro rfl
      exact absurd hunsafe (by decide)
    · rintro rfl
      exact absurd hunsafe (by decide)

example : validateMemberName "logs\\Setup.evtx".toList = some "logs/Setup.evtx".toList := by decide

example : isEvtxName "logs/Archive.EVTX.12".toList = true := by decide

/-! ## Coverage of an archive

What an archive did not yield is reported as gaps.  The report has a bound: past
it one entry says how many gaps there were besides.
-/

inductive EvtxCoverageGapKind where
  | unsupported
  | accessDenied
  | missing
  | invalidPattern
  | limitReached
  | empty
  | file
  | chunk
  | record
  | xml
  | provider
  | limit
  | cancelled
  deriving DecidableEq, Repr

structure EvtxCoverageGap where
  source : Text
  kind : EvtxCoverageGapKind
  reason : Text
  chunkId : Option Nat := none
  eventRecordId : Option Nat := none
  deriving DecidableEq, Repr

def EvtxCoverageGap.new (source : Text) (kind : EvtxCoverageGapKind) (reason : Text) :
    EvtxCoverageGap where
  source := source
  kind := kind
  reason := reason

inductive EvtxArchiveMemberOutcome where
  | parsed
  | unsupported
  | malformed
  | duplicate
  | limit
  deriving DecidableEq, Repr

structure EvtxArchiveMember where
  path : Text
  kind : EvtxArchiveMemberKind
  sha256 : Option Text
  outcome : EvtxArchiveMemberOutcome
  deriving DecidableEq, Repr

structure ArchiveParseResult where
  metadata : List EvtxArchiveMember := []
  coverage : List EvtxCoverageGap := []
  parseErrors : Nat := 0
  messages : List Text := []
  omittedCoverage : Nat := 0
  deriving DecidableEq, Repr

def maxArchiveMembers : Nat := 512

def maxArchiveCoverage : Nat := maxArchiveMembers + 32

def u32Max : Nat := 2 ^ 32 - 1

def EvtxCoverageGap.message (gap : EvtxCoverageGap) : Text :=
  gap.source ++ ": ".toList ++ gap.reason

def coalescedSource : Text := "<archive coverage>".toList

def pushMetadata (result : ArchiveParseResult) (path : Text) (kind : EvtxArchiveMemberKind)
    (sha256 : Option Text) (outcome : EvtxArchiveMemberOutcome) : ArchiveParseResult :=
  { result with metadata := result.metadata ++ [⟨path, kind, sha256, outcome⟩] }

/-- The summary takes the last place and counts from there. -/
def pushExistingGap (result : ArchiveParseResult) (gap : EvtxCoverageGap) : ArchiveParseResult :=
  if result.coverage.length < maxArchiveCoverage - 1 then
    { result with
      messages := result.messages ++ [gap.message]
      coverage := result.coverage ++ [gap] }
  else if result.omittedCoverage = 0 then
    let summary := EvtxCoverageGap.new coalescedSource .limit
      "additional archive member diagnostics were coalesced".toList
    { result with
      omittedCoverage := 1
      messages := result.messages ++ [summary.message]
      coverage := result.coverage ++ [summary] }
  else
    let omitted := result.omittedCoverage + 1
    match result.coverage.getLast? with
    | none => { result with omittedCoverage := omitted }
    | some summary =>
      let summary := { summary with
        reason := decimal omitted ++
          " additional archive member diagnostics were coalesced".toList }
      { result with
        omittedCoverage := omitted
        coverage := result.coverage.dropLast ++ [summary]
        messages := if result.messages.isEmpty then [] else
          result.messages.dropLast ++ [summary.message] }

def pushGap (result : ArchiveParseResult) (source : Text) (kind : EvtxCoverageGapKind)
    (reason : Text) : ArchiveParseResult :=
  pushExistingGap { result with parseErrors := min (result.parseErrors + 1) u32Max }
    (.new source kind reason)

/-! ## What the report says of the gaps -/

/-- The entry for the gaps that have none of their own. -/
def coalescedSummary (omitted : Nat) : EvtxCoverageGap where
  source := coalescedSource
  kind := .limit
  reason := (if omitted = 1 then [] else decimal omitted ++ [' ']) ++
    "additional archive member diagnostics were coalesced".toList

def reported (gaps : List EvtxCoverageGap) : List EvtxCoverageGap :=
  coalesce (maxArchiveCoverage - 1) (maxArchiveCoverage - 1) coalescedSummary gaps

theorem length_reported_le (gaps : List EvtxCoverageGap) :
    (reported gaps).length ≤ maxArchiveCoverage :=
  length_coalesce_le (by decide)

/-- The result reports these gaps and no others, and counts those it leaves out. -/
structure Reports (result : ArchiveParseResult) (gaps : List EvtxCoverageGap) : Prop where
  coverage : result.coverage = reported gaps
  omitted : result.omittedCoverage = gaps.length - (maxArchiveCoverage - 1)

theorem reports_empty : Reports {} [] := ⟨rfl, rfl⟩

theorem pushExistingGap_metadata (result : ArchiveParseResult) (gap : EvtxCoverageGap) :
    (pushExistingGap result gap).metadata = result.metadata := by
  unfold pushExistingGap
  split
  · rfl
  · split
    · rfl
    · cases result.coverage.getLast? with
      | none => rfl
      | some summary => rfl

theorem Reports.push {result : ArchiveParseResult} {gaps : List EvtxCoverageGap}
    (h : Reports result gaps) (gap : EvtxCoverageGap) :
    Reports (pushExistingGap result gap) (gaps ++ [gap]) := by
  have hlen : result.coverage.length =
      if gaps.length ≤ maxArchiveCoverage - 1 then gaps.length else maxArchiveCoverage - 1 + 1 := by
    rw [h.coverage, reported, length_coalesce_eq]
  have hroom : result.coverage.length < maxArchiveCoverage - 1 ↔
      gaps.length < maxArchiveCoverage - 1 := by
    rw [hlen]
    split_ifs <;> omega
  have hsnoc : reported (gaps ++ [gap]) =
      if gaps.length < maxArchiveCoverage - 1 then reported gaps ++ [gap]
      else gaps.take (maxArchiveCoverage - 1) ++
        [coalescedSummary (gaps.length + 1 - (maxArchiveCoverage - 1))] := coalesce_snoc gap
  unfold pushExistingGap
  by_cases hfits : gaps.length < maxArchiveCoverage - 1
  · rw [if_pos (hroom.mpr hfits)]
    refine ⟨?_, ?_⟩
    · show result.coverage ++ [gap] = _
      rw [hsnoc, if_pos hfits, h.coverage]
    · show result.omittedCoverage = _
      rw [h.omitted, List.length_append, List.length_singleton]
      omega
  · rw [if_neg (fun hlt => hfits (hroom.mp hlt))]
    by_cases hfull : gaps.length = maxArchiveCoverage - 1
    · -- the first gap there is no room for
      rw [if_pos (by rw [h.omitted]; omega)]
      refine ⟨?_, ?_⟩
      · show result.coverage ++ [_] = _
        rw [hsnoc, if_neg hfits, h.coverage, reported, coalesce_of_le hfull.le,
          List.take_of_length_le hfull.le, hfull, Nat.add_sub_cancel_left]
        rfl
      · show 1 = _
        rw [List.length_append, List.length_singleton]
        omega
    · have hover : maxArchiveCoverage - 1 < gaps.length := by omega
      have hcoverage : result.coverage = gaps.take (maxArchiveCoverage - 1) ++
          [coalescedSummary (gaps.length - (maxArchiveCoverage - 1))] := by
        rw [h.coverage, reported, coalesce, if_neg (by omega)]
      rw [if_neg (by rw [h.omitted]; omega), hcoverage, List.getLast?_concat]
      refine ⟨?_, ?_⟩
      · show (_ ++ [_]).dropLast ++ [_] = _
        rw [List.dropLast_concat, hsnoc, if_neg hfits, h.omitted]
        have hone : gaps.length - (maxArchiveCoverage - 1) + 1 ≠ 1 := by omega
        have hnext : gaps.length + 1 - (maxArchiveCoverage - 1) =
            gaps.length - (maxArchiveCoverage - 1) + 1 := by omega
        rw [hnext, coalescedSummary, coalescedSummary, if_neg hone, List.append_assoc]
        rfl
      · show result.omittedCoverage + 1 = _
        rw [h.omitted, List.length_append, List.length_singleton]
        omega

theorem Reports.pushMetadata {result : ArchiveParseResult} {gaps : List EvtxCoverageGap}
    (h : Reports result gaps) (path : Text) (kind : EvtxArchiveMemberKind) (sha256 : Option Text)
    (outcome : EvtxArchiveMemberOutcome) :
    Reports (pushMetadata result path kind sha256 outcome) gaps := ⟨h.coverage, h.omitted⟩

theorem Reports.pushGap {result : ArchiveParseResult} {gaps : List EvtxCoverageGap}
    (h : Reports result gaps) (source : Text) (kind : EvtxCoverageGapKind) (reason : Text) :
    Reports (pushGap result source kind reason) (gaps ++ [.new source kind reason]) := by
  have hcounted : Reports { result with parseErrors := min (result.parseErrors + 1) u32Max } gaps :=
    ⟨h.coverage, h.omitted⟩
  exact hcounted.push _

theorem pushGap_metadata (result : ArchiveParseResult) (source : Text) (kind : EvtxCoverageGapKind)
    (reason : Text) : (pushGap result source kind reason).metadata = result.metadata := by
  rw [pushGap, pushExistingGap_metadata]

end Archive
end CmTrace
