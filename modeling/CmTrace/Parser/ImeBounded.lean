import CmTrace.Parser.ImeScan
import CmTrace.Parser.CcmRecords

/-!
# Bounded readings of the management extension log

What a reading up to a number of entries keeps of the whole one, and when it takes the
lines where the whole one takes the records.
-/

namespace CmTrace
namespace Parser
namespace Ime

open Text Log Time Ccm

/-! ## Entries up to a number -/

section

variable {α : Type}

/-- Entries, and as many of the new ones as there is room for. -/
def upTo (maxEntries : Nat) (entries new : List α) : List α :=
  entries ++ new.take (maxEntries - entries.length)

theorem upTo_of_full {maxEntries : Nat} {entries : List α} (h : maxEntries ≤ entries.length)
    (new : List α) : upTo maxEntries entries new = entries := by
  rw [upTo, Nat.sub_eq_zero_of_le h, List.take_zero, List.append_nil]

theorem upTo_nil (maxEntries : Nat) (entries : List α) : upTo maxEntries entries [] = entries := by
  rw [upTo, List.take_nil, List.append_nil]

theorem upTo_append (maxEntries : Nat) (entries a b : List α) :
    upTo maxEntries (upTo maxEntries entries a) b = upTo maxEntries entries (a ++ b) := by
  rw [upTo, upTo, upTo, List.take_append, List.append_assoc, List.length_append, List.length_take]
  congr 3
  omega

theorem upTo_singleton {maxEntries : Nat} {entries : List α} (h : entries.length < maxEntries)
    (entry : α) : upTo maxEntries entries [entry] = entries ++ [entry] := by
  rw [upTo, List.take_of_length_le]
  rw [List.length_singleton]
  omega

theorem upTo_append_of_full {maxEntries : Nat} {entries a : List α}
    (h : maxEntries ≤ (upTo maxEntries entries a).length) (b : List α) :
    upTo maxEntries entries (a ++ b) = upTo maxEntries entries a := by
  rw [← upTo_append, upTo_of_full h]

end

/-! ## Fragments -/

def chunksFrom : Nat → Text → List Text
  | 0, _ => []
  | fuel + 1, line =>
    if line = [] then []
    else
      let chunk := boundedPrefix line maxImeRecordBytes
      chunk :: chunksFrom fuel (line.drop chunk.length)

def lineChunks (line : Text) : List Text := chunksFrom line.length line

def pieceFragments (lineStarts : List Nat) : Nat → List Text → List ParsedImeRecord
  | _, [] => []
  | offset, piece :: pieces =>
    (lineChunks (trimReturns piece)).map (fragment (lineNumberForOffset lineStarts offset)) ++
      pieceFragments lineStarts (offset + piece.length) pieces

def segmentFragments (lineStarts : List Nat) (segment : Text) (baseOffset : Nat) :
    List ParsedImeRecord :=
  pieceFragments lineStarts baseOffset (splitInclusive segment)

def ParsedImeChunk.push (maxEntries : Nat) (build : ParsedImeChunk) (new : List ParsedImeRecord) :
    ParsedImeChunk :=
  { entries     := upTo maxEntries build.entries new
    parseErrors := build.parseErrors + (new.take (maxEntries - build.entries.length)).length }

namespace ParsedImeChunk

theorem push_of_full {maxEntries : Nat} {build : ParsedImeChunk}
    (h : maxEntries ≤ build.entries.length) (new : List ParsedImeRecord) :
    build.push maxEntries new = build := by
  rw [push, upTo_of_full h, Nat.sub_eq_zero_of_le h]
  rfl

theorem push_nil (maxEntries : Nat) (build : ParsedImeChunk) : build.push maxEntries [] = build := by
  rw [push, upTo_nil, List.take_nil]
  rfl

theorem push_push (maxEntries : Nat) (build : ParsedImeChunk) (a b : List ParsedImeRecord) :
    (build.push maxEntries a).push maxEntries b = build.push maxEntries (a ++ b) := by
  rw [push, push, push, upTo_append]
  simp only [upTo, List.length_append, List.length_take, ParsedImeChunk.mk.injEq, true_and]
  omega

end ParsedImeChunk

theorem pushChunks_eq (maxEntries lineNumber fuel : Nat) (line : Text) (build : ParsedImeChunk) :
    pushChunks maxEntries lineNumber fuel line build =
      build.push maxEntries ((chunksFrom fuel line).map (fragment lineNumber)) := by
  induction fuel generalizing line build with
  | zero => exact (build.push_nil maxEntries).symm
  | succ fuel ih =>
    rw [pushChunks, chunksFrom]
    by_cases hline : line = []
    · rw [if_pos (.inl hline), if_pos hline, List.map_nil, build.push_nil]
    · rw [if_neg hline]
      by_cases hfull : maxEntries ≤ build.entries.length
      · rw [if_pos (.inr hfull), ParsedImeChunk.push_of_full hfull]
      · have hone : build.push maxEntries [fragment lineNumber
            (boundedPrefix line maxImeRecordBytes)] =
            { entries     := build.entries ++
                [fragment lineNumber (boundedPrefix line maxImeRecordBytes)]
              parseErrors := build.parseErrors + 1 } := by
          have hroom : 1 ≤ maxEntries - build.entries.length := by omega
          rw [ParsedImeChunk.push, upTo_singleton (Nat.lt_of_not_le hfull),
            List.take_of_length_le (by simpa using hroom)]
          rfl
        rw [if_neg (by simp [hline, hfull]), ih, ← hone, ParsedImeChunk.push_push]
        rfl

theorem pushPieces_eq (maxEntries : Nat) (lineStarts : List Nat) (offset : Nat)
    (pieces : List Text) (build : ParsedImeChunk) :
    pushPieces maxEntries lineStarts offset pieces build =
      build.push maxEntries (pieceFragments lineStarts offset pieces) := by
  induction pieces generalizing offset build with
  | nil => exact (build.push_nil maxEntries).symm
  | cons piece pieces ih =>
    rw [pushPieces]
    split_ifs with hfull
    · rw [ParsedImeChunk.push_of_full hfull]
    · rw [ih, pushChunks_eq, ParsedImeChunk.push_push]
      rfl

theorem pushUnmatchedSegment_eq (maxEntries : Nat) (lineStarts : List Nat) (segment : Text)
    (baseOffset : Nat) (build : ParsedImeChunk) :
    pushUnmatchedSegment maxEntries lineStarts segment baseOffset build =
      build.push maxEntries (segmentFragments lineStarts segment baseOffset) :=
  pushPieces_eq maxEntries lineStarts baseOffset (splitInclusive segment) build

/-! ## The scan without a bound -/

section

variable (host : ImeHost) (lineStarts : List Nat)

def framedEntries (framed : Text) (offset : Nat) : List ParsedImeRecord :=
  match (imeRecordRe.captures framed).bind fun caps =>
      parseRecord host caps (lineNumberForOffset lineStarts offset) with
  | some record => [record]
  | none => segmentFragments lineStarts framed offset

def ImeCursor.remaining (cursor : ImeCursor) : List ParsedImeRecord :=
  segmentFragments lineStarts (cursor.pending ++ cursor.rest) cursor.offset

/-- The entries from a place on, and whether a record ends there or later. -/
def entriesFrom : Nat → ImeCursor → List ParsedImeRecord × Bool
  | 0, cursor => (cursor.remaining lineStarts, cursor.matchedAny)
  | fuel + 1, cursor =>
    match findText recordStart cursor.rest with
    | none => (cursor.remaining lineStarts, cursor.matchedAny)
    | some (gap, tail) =>
      match recordBoundary host tail with
      | .interrupted next =>
        entriesFrom fuel { cursor with
          pending := cursor.pending ++ gap ++ tail.take next, rest := tail.drop next }
      | .capped length =>
        let segment := cursor.pending ++ gap ++ tail.take length
        let later := entriesFrom fuel
          { offset     := cursor.offset + segment.length
            rest       := tail.drop length
            matchedAny := true }
        (segmentFragments lineStarts segment cursor.offset ++ later.1, later.2)
      | .incomplete => (cursor.remaining lineStarts, cursor.matchedAny)
      | .complete length =>
        let segment := cursor.pending ++ gap
        let start := cursor.offset + segment.length
        let later := entriesFrom fuel
          { offset     := start + length
            rest       := tail.drop length
            matchedAny := true }
        (segmentFragments lineStarts segment cursor.offset ++
          (framedEntries host lineStarts (tail.take length) start ++ later.1), later.2)

/-- What precedes the first complete record and the text from there, when no capped one
comes before it. -/
def opening : Nat → Text → Text → Option (Text × Text)
  | 0, _, _ => none
  | fuel + 1, pending, rest =>
    match findText recordStart rest with
    | none => none
    | some (gap, tail) =>
      match recordBoundary host tail with
      | .interrupted next => opening fuel (pending ++ gap ++ tail.take next) (tail.drop next)
      | .complete _ => some (pending ++ gap, tail)
      | _ => none

variable {host lineStarts} {maxEntries : Nat}

theorem pushFramed_entries (framed : Text) (offset : Nat) {build : ParsedImeChunk}
    (h : build.entries.length < maxEntries) :
    (pushFramed host maxEntries lineStarts framed offset build).entries =
      upTo maxEntries build.entries (framedEntries host lineStarts framed offset) := by
  rw [pushFramed, framedEntries]
  cases (imeRecordRe.captures framed).bind fun caps =>
      parseRecord host caps (lineNumberForOffset lineStarts offset) with
  | some record => exact (upTo_singleton h record).symm
  | none =>
    dsimp only
    rw [pushUnmatchedSegment_eq]
    rfl

def finish (maxEntries : Nat) (lineStarts : List Nat) (scanned : ParsedImeChunk × ImeCursor) :
    List ParsedImeRecord :=
  upTo maxEntries scanned.1.entries (scanned.2.remaining lineStarts)

theorem finish_scanRecords (fuel : Nat) (cursor : ImeCursor) (build : ParsedImeChunk) :
    finish maxEntries lineStarts (scanRecords host maxEntries lineStarts fuel cursor build) =
      upTo maxEntries build.entries (entriesFrom host lineStarts fuel cursor).1 := by
  induction fuel generalizing cursor build with
  | zero => rfl
  | succ fuel ih =>
    rw [scanRecords, entriesFrom]
    cases hfind : findText recordStart cursor.rest with
    | none => rfl
    | some found =>
      obtain ⟨gap, tail⟩ := found
      dsimp only
      by_cases hfull : maxEntries ≤ build.entries.length
      · rw [if_pos hfull, finish, upTo_of_full hfull, upTo_of_full hfull]
      · rw [if_neg hfull]
        cases hboundary : recordBoundary host tail with
        | interrupted next => exact ih _ build
        | incomplete => rfl
        | capped length =>
          dsimp only
          rw [ih, pushUnmatchedSegment_eq]
          exact upTo_append _ _ _ _
        | complete length =>
          dsimp only
          rw [pushUnmatchedSegment_eq]
          split_ifs with hpushed
          · -- the fragments before the record fill the room
            rw [finish, upTo_of_full hpushed, upTo_append_of_full hpushed]
            rfl
          · rw [ih, pushFramed_entries _ _ (Nat.lt_of_not_le hpushed), upTo_append]
            exact upTo_append _ _ _ _

theorem matchedAny_scanRecords (fuel : Nat) {cursor : ImeCursor} (h : cursor.matchedAny = true)
    (build : ParsedImeChunk) :
    (scanRecords host maxEntries lineStarts fuel cursor build).2.matchedAny = true := by
  induction fuel generalizing cursor build with
  | zero => exact h
  | succ fuel ih =>
    rw [scanRecords]
    split
    · exact h
    · split_ifs
      · exact h
      · split
        · refine ih ?_ build
          exact h
        · exact ih rfl _
        · exact h
        · dsimp only
          split_ifs
          · exact h
          · exact ih rfl _

theorem matchedAny_entriesFrom (fuel : Nat) {cursor : ImeCursor} (h : cursor.matchedAny = true) :
    (entriesFrom host lineStarts fuel cursor).2 = true := by
  induction fuel generalizing cursor with
  | zero => exact h
  | succ fuel ih =>
    rw [entriesFrom]
    split
    · exact h
    · split
      · exact ih h
      · exact ih rfl
      · exact h
      · exact ih rfl

/-- Before anything is matched, a scan ends early where the fragments before the first
complete record fill the room. -/
theorem matchedAny_eq (hmax : 0 < maxEntries) (fuel : Nat) {cursor : ImeCursor}
    (h : cursor.matchedAny = false) {build : ParsedImeChunk} (hbuild : build.entries = []) :
    (scanRecords host maxEntries lineStarts fuel cursor build).2.matchedAny =
      ((entriesFrom host lineStarts fuel cursor).2 &&
        !(opening host fuel cursor.pending cursor.rest).any fun opened =>
          decide (maxEntries ≤ (segmentFragments lineStarts opened.1 cursor.offset).length)) := by
  induction fuel generalizing cursor with
  | zero => rw [scanRecords, entriesFrom, h, Bool.false_and]
  | succ fuel ih =>
    rw [scanRecords, entriesFrom, opening]
    cases hfind : findText recordStart cursor.rest with
    | none => rw [h, Bool.false_and]
    | some found =>
      obtain ⟨gap, tail⟩ := found
      have hroom : ¬ maxEntries ≤ build.entries.length := by
        rw [hbuild]
        exact Nat.not_le_of_lt hmax
      dsimp only
      rw [if_neg hroom]
      cases hboundary : recordBoundary host tail with
      | interrupted next => exact ih h
      | incomplete => rw [h, Bool.false_and]
      | capped length =>
        dsimp only
        rw [matchedAny_scanRecords fuel rfl, matchedAny_entriesFrom fuel rfl]
        rfl
      | complete length =>
        dsimp only
        rw [matchedAny_entriesFrom fuel rfl, pushUnmatchedSegment_eq, Bool.true_and,
          Option.any_some]
        have hlength : (build.push maxEntries (segmentFragments lineStarts
            (cursor.pending ++ gap) cursor.offset)).entries.length =
            min maxEntries (segmentFragments lineStarts (cursor.pending ++ gap)
              cursor.offset).length := by
          rw [ParsedImeChunk.push, hbuild, upTo, List.nil_append, List.length_nil, Nat.sub_zero,
            List.length_take]
        dsimp only
        split_ifs with hfull
        · rw [hlength] at hfull
          rw [h, decide_eq_true (by omega), Bool.not_true]
        · rw [hlength] at hfull
          rw [matchedAny_scanRecords fuel rfl, decide_eq_false (by omega), Bool.not_false]

end

/-! ## Rounds of the scan -/

/-! ## Lines without a bound -/

theorem trimReturns_nil : trimReturns [] = [] := rfl

theorem segmentFragments_line (lineStarts : List Nat) {line : Text} (h : '\n' ∉ line)
    (baseOffset : Nat) :
    segmentFragments lineStarts line baseOffset =
      (lineChunks (trimReturns line)).map (fragment (lineNumberForOffset lineStarts baseOffset)) := by
  have hpieces : splitInclusive line = if line = [] then [] else [line] := by
    rw [splitInclusive, lastLine, terminated_of_not_mem h]
    rfl
  rw [segmentFragments, hpieces]
  split_ifs with hline
  · rw [hline]
    rfl
  · exact List.append_nil _

section

variable (host : ImeHost)

def fallbackLine (lineNumber : Nat) (line : Text) : List ParsedImeRecord :=
  let trimmed := trim line
  if trimmed = [] ∧ byteLen line < maxImeRecordBytes then []
  else if maxImeRecordBytes ≤ byteLen line then
    (lineChunks (trimReturns line)).map (fragment lineNumber)
  else match (simpleTsRe host).captures trimmed with
    | some caps => [timestampedLine host lineNumber caps]
    | none => [fragment lineNumber line]

def fallbackEntries : Nat → List Text → List ParsedImeRecord
  | _, [] => []
  | lineNumber, line :: lines =>
    fallbackLine host lineNumber line ++ fallbackEntries (lineNumber + 1) lines

variable {host} {maxEntries : Nat}

theorem pushFallbackLine_eq (lineNumber : Nat) {line : Text} (h : '\n' ∉ line)
    {entries : List ParsedImeRecord} (hroom : entries.length < maxEntries) :
    pushFallbackLine host maxEntries lineNumber line entries =
      upTo maxEntries entries (fallbackLine host lineNumber line) := by
  rw [pushFallbackLine, fallbackLine]
  dsimp only
  split_ifs with hblank hlong
  · rw [upTo_nil]
  · rw [pushUnmatchedSegment_eq, segmentFragments_line [0] h]
    have hbefore : (upTo maxEntries entries ((lineChunks (trimReturns line)).map
        (fragment (lineNumberForOffset [0] 0)))).length -
        (((lineChunks (trimReturns line)).map (fragment (lineNumberForOffset [0] 0))).take
          (maxEntries - entries.length)).length = entries.length := by
      rw [upTo, List.length_append, Nat.add_sub_cancel]
    rw [ParsedImeChunk.push]
    dsimp only
    rw [Nat.zero_add, hbefore, upTo, List.take_left, List.drop_left, upTo, List.map_take,
      List.map_map]
    rfl
  · cases (simpleTsRe host).captures (trim line) with
    | some caps => exact (upTo_singleton hroom _).symm
    | none => exact (upTo_singleton hroom _).symm

theorem pushFallbackLines_eq (lineNumber : Nat) {ls : List Text} (h : ∀ line ∈ ls, '\n' ∉ line)
    (entries : List ParsedImeRecord) :
    pushFallbackLines host maxEntries lineNumber ls entries =
      upTo maxEntries entries (fallbackEntries host lineNumber ls) := by
  induction ls generalizing lineNumber entries with
  | nil => exact (upTo_nil maxEntries entries).symm
  | cons line ls ih =>
    rw [pushFallbackLines, fallbackEntries]
    split_ifs with hfull
    · rw [upTo_of_full hfull]
    · rw [ih _ fun other hother => h other (List.mem_cons_of_mem _ hother),
        pushFallbackLine_eq _ (h line List.mem_cons_self) (Nat.lt_of_not_le hfull), upTo_append]

/-! ## Readings -/

/-- The fragments before the first complete record fill the room, so that no record is
matched. -/
def stopsEarly (host : ImeHost) (maxEntries : Nat) (content : Text) : Bool :=
  (opening host content.length [] content).any fun opened =>
    decide (maxEntries ≤ (segmentFragments (buildLineStarts content) opened.1 0).length)

theorem parseImeRecords_entries (hmax : 0 < maxEntries) (content : Text) :
    (parseImeRecords host maxEntries content).entries =
      let scanned := entriesFrom host (buildLineStarts content) content.length { rest := content }
      if scanned.2 && !stopsEarly host maxEntries content then scanned.1.take maxEntries
      else (fallbackEntries host 1 (lines content)).take maxEntries := by
  have hmatched : (scanRecords host maxEntries (buildLineStarts content) content.length
      { rest := content } {}).2.matchedAny = _ := matchedAny_eq hmax content.length rfl rfl
  have hfinish : finish maxEntries (buildLineStarts content) (scanRecords host maxEntries
      (buildLineStarts content) content.length { rest := content } {}) = _ :=
    finish_scanRecords content.length { rest := content } {}
  rw [parseImeRecords]
  dsimp only
  rw [hmatched]
  split_ifs with h h' h'
  · rw [pushUnmatchedSegment_eq]
    exact hfinish
  · exact absurd h h'
  · exact absurd h' h
  · rw [parseFallbackLines]
    dsimp only
    rw [pushFallbackLines_eq 1 (not_mem_lines content)]
    rfl

end

end Ime
end Parser
end CmTrace
