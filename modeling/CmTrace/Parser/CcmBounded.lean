import CmTrace.Parser.CcmRecords

/-!
# Bounded evidence of configuration manager logs

A scan for evidence leaves out what could be read in two ways, and may stop at a number
of envelopes.  A bounded scan goes along with the one that has no bound; once it is
full, it says so at the next envelope.
-/

namespace CmTrace
namespace Parser
namespace Ccm

open Text Log Time

def scanLogicalRecords (content filePath : Text) : List CcmLogicalRecord :=
  (scanCcmContent content filePath .sccmEvidence none).records.filter fun record =>
    record.entry.format == .ccm

structure CcmLogicalRecordScan where
  records : List CcmLogicalRecord
  complete : Bool
  recordLimitExceeded : Bool

def scanLogicalRecordsBounded (content filePath : Text) (maxRecords : Nat) :
    CcmLogicalRecordScan :=
  let scan := scanCcmContent content filePath .sccmEvidence (some maxRecords)
  { records             := scan.records.filter fun record => record.entry.format == .ccm
    complete            := scan.errors == 0 && !scan.recordLimitExceeded
    recordLimitExceeded := scan.recordLimitExceeded }

/-! ## The envelopes of a content -/

def settle (lineStarts : List Nat) (filePath : Text) (scanned : CcmScanBuild × Option CcmCursor) :
    CcmScanBuild :=
  scanned.2.elim scanned.1 fun cursor =>
    pushUnmatchedPlain cursor.rest cursor.offset lineStarts filePath scanned.1

def scanEnvelopes (content filePath : Text) (recordLimit : Option Nat) : CcmScanBuild :=
  settle (buildLineStarts content) filePath
    (scanRecords .sccmEvidence (buildLineStarts content) filePath content.length
      { offset := 0, rest := content } { recordLimit := recordLimit })

/-- The records and plain lines that a scan without a limit emits, before it may turn to
the lines. -/
def envelopes (content filePath : Text) : List CcmLogicalRecord :=
  (scanEnvelopes content filePath none).records

def isPlain (record : CcmLogicalRecord) : Bool := record.entry.format == .plain

/-! ## A bounded build and one without a bound -/

/-- The bounded build has the first envelopes of the other. -/
structure Limits (limit : Nat) (bounded unbounded : CcmScanBuild) : Prop where
  limited : bounded.recordLimit = some limit
  unlimited : unbounded.recordLimit = none
  records : bounded.records = unbounded.records.take limit
  exceeded : bounded.recordLimitExceeded = decide (limit < unbounded.records.length)
  numbered : unbounded.records.length ≤ limit → bounded.idCounter = unbounded.idCounter
  counted : bounded.errors = bounded.records.countP isPlain

/-- What a build without a bound becomes. -/
structure Extends (u u' : CcmScanBuild) : Prop where
  unlimited : u'.recordLimit = none
  records : u.records <+: u'.records

def CcmScanBuild.emit (build : CcmScanBuild) (envelope : Nat → CcmLogicalRecord) (errors : Nat) :
    CcmScanBuild :=
  { build with
    records   := build.records ++ [envelope build.idCounter]
    idCounter := build.idCounter + 1
    errors    := build.errors + errors }

theorem recordLimitReached_none {u : CcmScanBuild} (h : u.recordLimit = none) :
    u.recordLimitReached = (false, u) := by
  rw [CcmScanBuild.recordLimitReached, h]
  rfl

namespace Extends

variable {u u' u'' : CcmScanBuild}

theorem refl (h : u.recordLimit = none) : Extends u u := ⟨h, List.prefix_rfl⟩

theorem trans (h : Extends u u') (h' : Extends u' u'') : Extends u u'' :=
  ⟨h'.unlimited, h.records.trans h'.records⟩

theorem emit (h : u.recordLimit = none) (envelope : Nat → CcmLogicalRecord) (errors : Nat) :
    Extends u (u.emit envelope errors) :=
  ⟨h, List.prefix_append _ _⟩

end Extends

namespace Limits

variable {limit : Nat} {b u u' : CcmScanBuild}

theorem reached_iff (h : Limits limit b u) :
    b.recordLimitReached.1 = true ↔ limit ≤ u.records.length := by
  have hlength : b.records.length = min limit u.records.length := by
    rw [h.records, List.length_take]
  rw [CcmScanBuild.recordLimitReached, h.limited, Option.any_some, hlength]
  by_cases hfull : limit ≤ u.records.length
  · rw [if_pos (decide_eq_true (by omega))]
    exact iff_of_true rfl hfull
  · rw [if_neg (by rw [decide_eq_true_iff]; omega)]
    exact iff_of_false Bool.false_ne_true hfull

theorem full (h : Limits limit b u) (hfull : limit < u.records.length) (hmore : Extends u u') :
    Limits limit b u' where
  limited := h.limited
  unlimited := hmore.unlimited
  records := by
    obtain ⟨more, hmore⟩ := hmore.records
    rw [← hmore, List.take_append_of_le_length (Nat.le_of_lt hfull), h.records]
  exceeded := by
    have hlength := hmore.records.length_le
    rw [h.exceeded, decide_eq_true hfull, decide_eq_true (by omega)]
  numbered hlength := by
    have hle := hmore.records.length_le
    omega
  counted := h.counted

theorem refuse (h : Limits limit b u) (hreached : b.recordLimitReached.1 = true)
    (envelope : Nat → CcmLogicalRecord) (errors : Nat)
    (hmore : Extends (u.emit envelope errors) u') :
    Limits limit b.recordLimitReached.2 u' := by
  have hfull := h.reached_iff.mp hreached
  have hflagged : b.recordLimitReached.2 = { b with recordLimitExceeded := true } := by
    rw [CcmScanBuild.recordLimitReached] at hreached ⊢
    split_ifs at hreached ⊢
    rfl
  have hlength : limit < (u.emit envelope errors).records.length := by
    rw [CcmScanBuild.emit, List.length_append, List.length_singleton]
    omega
  refine full ?_ hlength hmore
  rw [hflagged]
  exact
    { limited   := h.limited
      unlimited := h.unlimited
      records   := by
        show b.records = (u.records ++ _).take limit
        rw [List.take_append_of_le_length hfull, h.records]
      exceeded  := (decide_eq_true hlength).symm
      numbered  := fun hle => absurd hlength (Nat.not_lt.mpr hle)
      counted   := h.counted }

theorem emit (h : Limits limit b u) (hreached : ¬ b.recordLimitReached.1 = true)
    {envelope : Nat → CcmLogicalRecord} {errors : Nat}
    (herrors : ∀ id, (if isPlain (envelope id) then 1 else 0) = errors) :
    Limits limit (b.emit envelope errors) (u.emit envelope errors) := by
  have hroom : u.records.length < limit := by
    rw [h.reached_iff] at hreached
    exact Nat.lt_of_not_le hreached
  have hrecords : b.records = u.records := by
    rw [h.records, List.take_of_length_le (Nat.le_of_lt hroom)]
  have hid := h.numbered (Nat.le_of_lt hroom)
  have hlength : (u.emit envelope errors).records.length = u.records.length + 1 :=
    List.length_append
  exact
    { limited   := h.limited
      unlimited := h.unlimited
      records   := by
        rw [List.take_of_length_le (by omega), CcmScanBuild.emit, CcmScanBuild.emit, hrecords, hid]
      exceeded  := by
        rw [hlength, decide_eq_false (by omega)]
        exact h.exceeded.trans (decide_eq_false (by omega))
      numbered  := fun _ => congrArg (· + 1) hid
      counted   := by
        show b.errors + errors = (b.records ++ [envelope b.idCounter]).countP isPlain
        rw [List.countP_append, List.countP_singleton, herrors, h.counted] }

end Limits

/-! ## Plain lines -/

def plainEnvelope (lineNumber : Nat) (message filePath : Text) (id : Nat) : CcmLogicalRecord :=
  { entry     := plainEntry id lineNumber message filePath
    lineStart := lineNumber
    lineEnd   := lineNumber }

theorem isPlain_plainEnvelope (lineNumber : Nat) (message filePath : Text) (id : Nat) :
    (if isPlain (plainEnvelope lineNumber message filePath id) then 1 else 0) = 1 := if_pos rfl

variable {lineStarts : List Nat} {filePath : Text}

theorem pushPlainPieces_cons (offset : Nat) (piece : Text) (pieces : List Text) :
    (∀ build, pushPlainPieces lineStarts filePath offset (piece :: pieces) build =
        pushPlainPieces lineStarts filePath (offset + piece.length) pieces build) ∨
    ∃ message, ∀ build, pushPlainPieces lineStarts filePath offset (piece :: pieces) build =
      if build.recordLimitReached.1 then build.recordLimitReached.2
      else pushPlainPieces lineStarts filePath (offset + piece.length) pieces
        (build.emit (plainEnvelope (lineNumberForOffset lineStarts offset) message filePath)
          1) := by
  by_cases hblank : trim (piece.rdropWhile fun c => c == '\r' || c == '\n') = []
  · left
    intro build
    rw [pushPlainPieces]
    exact if_pos hblank
  · right
    refine ⟨trim (piece.rdropWhile fun c => c == '\r' || c == '\n'), fun build => ?_⟩
    rw [pushPlainPieces]
    exact if_neg hblank

theorem extends_pushPlainPieces (offset : Nat) (pieces : List Text) {u : CcmScanBuild}
    (h : u.recordLimit = none) :
    Extends u (pushPlainPieces lineStarts filePath offset pieces u) := by
  induction pieces generalizing offset u with
  | nil => exact .refl h
  | cons piece pieces ih =>
    rcases @pushPlainPieces_cons lineStarts filePath offset piece pieces with
      hblank | ⟨message, hpush⟩
    · rw [hblank]
      exact ih _ h
    · rw [hpush, recordLimitReached_none h, if_neg Bool.false_ne_true]
      have hemit := Extends.emit h
        (plainEnvelope (lineNumberForOffset lineStarts offset) message filePath) 1
      exact hemit.trans (ih _ hemit.unlimited)

theorem Limits.pushPlainPieces {limit : Nat} {b u : CcmScanBuild} (h : Limits limit b u)
    (offset : Nat) (pieces : List Text) :
    Limits limit (pushPlainPieces lineStarts filePath offset pieces b)
      (pushPlainPieces lineStarts filePath offset pieces u) := by
  induction pieces generalizing offset b u with
  | nil => exact h
  | cons piece pieces ih =>
    rcases @pushPlainPieces_cons lineStarts filePath offset piece pieces with
      hblank | ⟨message, hpush⟩
    · rw [hblank, hblank]
      exact ih h _
    · rw [hpush, hpush u, recordLimitReached_none h.unlimited, if_neg Bool.false_ne_true]
      by_cases hreached : b.recordLimitReached.1 = true
      · -- the bounded scan leaves out the rest of the segment as well
        rw [if_pos hreached]
        exact h.refuse hreached _ 1 (extends_pushPlainPieces _ pieces h.unlimited)
      · rw [if_neg hreached]
        exact ih (h.emit hreached (isPlain_plainEnvelope _ message filePath)) _

/-! ## The scan -/

theorem extends_settle {scanned : CcmScanBuild × Option CcmCursor} {u : CcmScanBuild}
    (h : Extends u scanned.1) : Extends u (settle lineStarts filePath scanned) := by
  rw [settle]
  cases scanned.2 with
  | none => exact h
  | some cursor => exact h.trans (extends_pushPlainPieces _ _ h.unlimited)

def recordEnvelope (parsed : CcmParsed) (lineStart lineEnd : Nat) (filePath : Text) (id : Nat) :
    CcmLogicalRecord :=
  parsed.intoLogicalRecord id lineStart lineEnd filePath

theorem isPlain_recordEnvelope (parsed : CcmParsed) (lineStart lineEnd : Nat) (filePath : Text)
    (id : Nat) :
    (if isPlain (recordEnvelope parsed lineStart lineEnd filePath id) then 1 else 0) = 0 :=
  if_neg Bool.false_ne_true

/-- One round: nothing is found, what is found is ambiguous and goes to the plain lines,
or it is a record that the limit may refuse. -/
theorem scanRecords_step (fuel : Nat) (cursor : CcmCursor) :
    (ccmRe.locate cursor.rest = none ∧ ∀ build,
      scanRecords .sccmEvidence lineStarts filePath (fuel + 1) cursor build =
        (build, some cursor)) ∨
    (∃ segment next, next.matchedAny = true ∧ ∀ build,
      scanRecords .sccmEvidence lineStarts filePath (fuel + 1) cursor build =
        scanRecords .sccmEvidence lineStarts filePath fuel next
          (pushUnmatchedPlain segment cursor.offset lineStarts filePath build)) ∨
    ∃ gap parsed lineStart lineEnd next, newestNestedOpener parsed.message = none ∧
      next.matchedAny = true ∧ ∀ build,
        scanRecords .sccmEvidence lineStarts filePath (fuel + 1) cursor build =
          if (pushUnmatchedPlain gap cursor.offset lineStarts filePath build).recordLimitReached.1
          then ((pushUnmatchedPlain gap cursor.offset lineStarts filePath
            build).recordLimitReached.2, none)
          else scanRecords .sccmEvidence lineStarts filePath fuel next
            ((pushUnmatchedPlain gap cursor.offset lineStarts filePath build).emit
              (recordEnvelope parsed lineStart lineEnd filePath) 0) := by
  cases hfind : Regex.locate ccmRe cursor.rest with
  | none =>
    refine Or.inl ⟨rfl, fun build => ?_⟩
    rw [scanRecords, hfind]
  | some found =>
    obtain ⟨gap, caps⟩ := found
    obtain ⟨parsed, hparsed, hmessage⟩ := parseCaptures_ccmRe
      (List.mem_of_head? (Regex.locate_head hfind))
    right
    by_cases hnested : (newestNestedOpener parsed.message).isSome = true
    · refine Or.inl ⟨gap ++ caps.taken,
        { offset     := cursor.offset + gap.length + caps.taken.length
          rest       := caps.rest
          matchedAny := true }, rfl, fun build => ?_⟩
      rw [scanRecords, hfind]
      dsimp only
      rw [hmessage, Option.getD_some, hnested]
      rfl
    · refine Or.inr ⟨gap, parsed, lineNumberForOffset lineStarts (cursor.offset + gap.length),
        lineNumberForOffset lineStarts (cursor.offset + gap.length + caps.taken.length - 1),
        { offset     := cursor.offset + gap.length + caps.taken.length
          rest       := caps.rest
          matchedAny := true }, Option.not_isSome_iff_eq_none.mp hnested, rfl, fun build => ?_⟩
      rw [scanRecords, hfind]
      dsimp only
      rw [hmessage, Option.getD_some, Bool.eq_false_iff.mpr hnested, Bool.false_and,
        if_neg Bool.false_ne_true, hparsed]
      rfl

theorem extends_scanRecords (fuel : Nat) (cursor : CcmCursor) {u : CcmScanBuild}
    (h : u.recordLimit = none) :
    Extends u (scanRecords .sccmEvidence lineStarts filePath fuel cursor u).1 := by
  induction fuel generalizing cursor u with
  | zero => exact .refl h
  | succ fuel ih =>
    rcases @scanRecords_step lineStarts filePath fuel cursor with
      ⟨-, hnone⟩ | ⟨segment, next, -, hpush⟩ | ⟨gap, parsed, first, last, next, -, -, hrecord⟩
    · rw [hnone]
      exact .refl h
    · rw [hpush]
      have hpushed := @extends_pushPlainPieces lineStarts filePath cursor.offset
        (splitInclusive segment) u h
      exact hpushed.trans (ih _ hpushed.unlimited)
    · have hpushed := @extends_pushPlainPieces lineStarts filePath cursor.offset
        (splitInclusive gap) u h
      rw [hrecord, pushUnmatchedPlain, recordLimitReached_none hpushed.unlimited,
        if_neg Bool.false_ne_true]
      have hemit := hpushed.trans (.emit hpushed.unlimited
        (recordEnvelope parsed first last filePath) 0)
      exact hemit.trans (ih _ hemit.unlimited)

theorem Limits.settle {limit : Nat} {bounded unbounded : CcmScanBuild × Option CcmCursor}
    (h : Limits limit bounded.1 unbounded.1) (hcursor : bounded.2 = unbounded.2) :
    Limits limit (settle lineStarts filePath bounded) (settle lineStarts filePath unbounded) := by
  rw [Ccm.settle, Ccm.settle, hcursor]
  cases unbounded.2 with
  | none => exact h
  | some cursor => exact h.pushPlainPieces _ _

theorem Limits.scanRecords {limit : Nat} (fuel : Nat) (cursor : CcmCursor) {b u : CcmScanBuild}
    (h : Limits limit b u) :
    Limits limit
      (Ccm.settle lineStarts filePath
        (scanRecords .sccmEvidence lineStarts filePath fuel cursor b))
      (Ccm.settle lineStarts filePath
        (scanRecords .sccmEvidence lineStarts filePath fuel cursor u)) := by
  induction fuel generalizing cursor b u with
  | zero => exact h.settle rfl
  | succ fuel ih =>
    rcases @scanRecords_step lineStarts filePath fuel cursor with
      ⟨-, hnone⟩ | ⟨segment, next, -, hpush⟩ | ⟨gap, parsed, first, last, next, -, -, hrecord⟩
    · rw [hnone, hnone]
      exact h.settle rfl
    · rw [hpush, hpush]
      exact ih next (h.pushPlainPieces cursor.offset (splitInclusive segment))
    · have hpushed := @Limits.pushPlainPieces lineStarts filePath limit b u h cursor.offset
        (splitInclusive gap)
      rw [hrecord, hrecord, pushUnmatchedPlain, pushUnmatchedPlain,
        recordLimitReached_none hpushed.unlimited]
      rw [if_neg Bool.false_ne_true]
      by_cases hreached : (Ccm.pushPlainPieces lineStarts filePath cursor.offset
          (splitInclusive gap) b).recordLimitReached.1 = true
      · -- the bounded scan ends here
        rw [if_pos hreached]
        refine hpushed.refuse hreached (recordEnvelope parsed first last filePath) 0 ?_
        exact extends_settle (extends_scanRecords fuel next hpushed.unlimited)
      · rw [if_neg hreached]
        exact ih next (hpushed.emit hreached (isPlain_recordEnvelope parsed first last filePath))

theorem scanCcmContent_some (content filePath : Text) (limit : Nat) :
    scanCcmContent content filePath .sccmEvidence (some limit) =
      (scanEnvelopes content filePath (some limit)).finish := by
  rw [scanCcmContent, scanEnvelopes, settle]
  dsimp only
  generalize scanRecords .sccmEvidence (buildLineStarts content) filePath content.length
    { offset := 0, rest := content } { recordLimit := some limit } = scanned
  obtain ⟨build, cursor⟩ := scanned
  cases cursor with
  | none => rfl
  | some cursor => exact if_pos (Bool.or_true _)

/-! ## Openers -/

def OpensLine (message : Text) : Prop :=
  ∃ before c after, (c = '\n' ∨ c = '\r') ∧ message = before ++ c :: (ccmRecordOpener ++ after)

theorem not_opensLine {message : Text} (h : newestNestedOpener message = none) :
    ¬ OpensLine message := by
  rintro ⟨before, c, after, hc, rfl⟩
  rw [newestNestedOpener, List.find?_eq_none] at h
  have hpos : 0 < ccmRecordOpener.length := by decide
  refine h (before.length + 1) ?_ ?_
  · rw [List.mem_reverse, List.mem_range]
    simp only [List.length_append, List.length_cons]
    omega
  · have hsplit : before ++ c :: (ccmRecordOpener ++ after) =
        (before ++ [c]) ++ (ccmRecordOpener ++ after) := by
      rw [List.append_assoc, List.singleton_append]
    have hlength : before.length + 1 = (before ++ [c]).length := by
      rw [List.length_append, List.length_singleton]
    rw [hsplit, hlength, List.drop_left, List.take_left, List.getLast?_concat, Option.any_some,
      Bool.and_eq_true]
    refine ⟨List.isPrefixOf_iff_prefix.mpr (List.prefix_append _ _), ?_⟩
    rcases hc with rfl | rfl
    · rfl
    · rfl

/-- No record of a build has an opener at the beginning of a line of its message. -/
def Clear (build : CcmScanBuild) : Prop :=
  ∀ record ∈ build.records, isPlain record = false → ¬ OpensLine record.entry.message

theorem Clear.emit {build : CcmScanBuild} (h : Clear build) {envelope : Nat → CcmLogicalRecord}
    (henvelope : ∀ id, isPlain (envelope id) = false → ¬ OpensLine (envelope id).entry.message)
    (errors : Nat) : Clear (build.emit envelope errors) := by
  intro record hrecord hplain
  rcases List.mem_append.mp hrecord with hrecord | hrecord
  · exact h record hrecord hplain
  · rw [List.mem_singleton.mp hrecord] at hplain ⊢
    exact henvelope _ hplain

theorem Clear.pushPlainPieces {u : CcmScanBuild} (h : Clear u) (hlimit : u.recordLimit = none)
    (offset : Nat) (pieces : List Text) :
    Clear (pushPlainPieces lineStarts filePath offset pieces u) := by
  induction pieces generalizing offset u with
  | nil => exact h
  | cons piece pieces ih =>
    rcases @pushPlainPieces_cons lineStarts filePath offset piece pieces with
      hblank | ⟨message, hpush⟩
    · rw [hblank]
      exact ih h hlimit _
    · rw [hpush, recordLimitReached_none hlimit, if_neg Bool.false_ne_true]
      refine ih (h.emit (fun id hplain => ?_) 1) hlimit _
      cases hplain

theorem clear_scanRecords (fuel : Nat) (cursor : CcmCursor) {u : CcmScanBuild} (h : Clear u)
    (hlimit : u.recordLimit = none) :
    Clear (settle lineStarts filePath
      (scanRecords .sccmEvidence lineStarts filePath fuel cursor u)) := by
  induction fuel generalizing cursor u with
  | zero => exact h.pushPlainPieces hlimit _ _
  | succ fuel ih =>
    rcases @scanRecords_step lineStarts filePath fuel cursor with
      ⟨-, hnone⟩ | ⟨segment, next, -, hpush⟩ | ⟨gap, parsed, first, last, next, hopener, -, hrecord⟩
    · rw [hnone]
      exact h.pushPlainPieces hlimit _ _
    · have hpushed := @extends_pushPlainPieces lineStarts filePath cursor.offset
        (splitInclusive segment) u hlimit
      rw [hpush]
      exact ih next (h.pushPlainPieces hlimit _ _) hpushed.unlimited
    · have hpushed := @extends_pushPlainPieces lineStarts filePath cursor.offset
        (splitInclusive gap) u hlimit
      have hclear := @Clear.pushPlainPieces lineStarts filePath u h hlimit cursor.offset
        (splitInclusive gap)
      rw [hrecord, pushUnmatchedPlain, recordLimitReached_none hpushed.unlimited,
        if_neg Bool.false_ne_true]
      exact ih next (hclear.emit (fun _ _ => not_opensLine hopener) 0) hpushed.unlimited

/-! ## The scan without a bound -/

theorem cursor_scanRecords (fuel : Nat) (cursor : CcmCursor) {u : CcmScanBuild}
    (hlimit : u.recordLimit = none) :
    ∃ after, (scanRecords .sccmEvidence lineStarts filePath fuel cursor u).2 = some after ∧
      (cursor.matchedAny = true ∨ 0 < fuel ∧ ccmRe.locate cursor.rest ≠ none →
        after.matchedAny = true) := by
  induction fuel generalizing cursor u with
  | zero => exact ⟨cursor, rfl, fun h => h.resolve_right fun h => Nat.lt_irrefl 0 h.1⟩
  | succ fuel ih =>
    rcases @scanRecords_step lineStarts filePath fuel cursor with
      ⟨hfind, hnone⟩ | ⟨segment, next, hmatched, hpush⟩ |
        ⟨gap, parsed, first, last, next, -, hmatched, hrecord⟩
    · exact ⟨cursor, by rw [hnone], fun h => h.resolve_right fun h => h.2 hfind⟩
    · have hpushed := @extends_pushPlainPieces lineStarts filePath cursor.offset
        (splitInclusive segment) u hlimit
      obtain ⟨after, hafter, hkept⟩ := ih next hpushed.unlimited
      exact ⟨after, (congrArg Prod.snd (hpush u)).trans hafter, fun _ => hkept (.inl hmatched)⟩
    · have hpushed := @extends_pushPlainPieces lineStarts filePath cursor.offset
        (splitInclusive gap) u hlimit
      obtain ⟨after, hafter, hkept⟩ := @ih next
        ((pushUnmatchedPlain gap cursor.offset lineStarts filePath u).emit
          (recordEnvelope parsed first last filePath) 0) hpushed.unlimited
      refine ⟨after, ?_, fun _ => hkept (.inl hmatched)⟩
      rw [hrecord, pushUnmatchedPlain, recordLimitReached_none hpushed.unlimited,
        if_neg Bool.false_ne_true]
      exact hafter

theorem filter_of_ccmShown {records : List CcmLogicalRecord}
    (h : ccmShown (records.map fun record => record.entry) = []) :
    (records.filter fun record => record.entry.format == .ccm) = [] := by
  rw [ccmShown, List.filter_map, List.map_map, List.map_eq_nil_iff] at h
  exact h

theorem scanLogicalRecords_eq (content filePath : Text) :
    scanLogicalRecords content filePath =
      (envelopes content filePath).filter fun record => record.entry.format == .ccm := by
  obtain ⟨after, hafter, hmatched⟩ := @cursor_scanRecords (buildLineStarts content) filePath
    content.length { offset := 0, rest := content } { recordLimit := none } rfl
  rw [scanLogicalRecords, scanCcmContent, envelopes, scanEnvelopes, settle]
  dsimp only
  by_cases hany : after.matchedAny = true
  · generalize scanRecords .sccmEvidence (buildLineStarts content) filePath content.length
      { offset := 0, rest := content } { recordLimit := none } = scanned at *
    obtain ⟨build, rest⟩ := scanned
    obtain rfl : rest = some after := hafter
    dsimp only
    rw [hany, Bool.true_or, if_pos rfl]
    rfl
  · -- a content without a match has no line with one
    have hfind : ccmRe.locate content = none := by
      by_contra hfound
      refine hany (hmatched (.inr ⟨?_, hfound⟩))
      refine List.length_pos_iff.mpr fun hnil => hfound ?_
      rw [hnil, Regex.locate, ccmRe_taking]
      rfl
    have hscan : scanRecords .sccmEvidence (buildLineStarts content) filePath content.length
        { offset := 0, rest := content } { recordLimit := none } =
        ({ recordLimit := none }, some { offset := 0, rest := content }) := by
      cases content.length with
      | zero => rfl
      | succ fuel => rw [scanRecords, hfind]
    rw [hscan]
    dsimp only
    have hplain := (pushPlainPieces_shown (buildLineStarts content) filePath 0
      (splitInclusive content) { recordLimit := none } rfl).1
    have hlines := parseLinesFrom_shown filePath 0 1 (lines content) fun line hline => by
      obtain ⟨a, b, hab⟩ := lines_isInfix content line hline
      rw [← hab] at hfind
      exact Regex.locate_infix_none ccmRe_unanchored hfind
    refine (filter_of_ccmShown ?_).trans (filter_of_ccmShown hplain).symm
    refine Eq.trans ?_ hlines
    show ccmShown (List.map _ (List.map _ _)) = _
    rw [List.map_map]
    exact congrArg ccmShown (List.map_id _)

/-! ## Bounded evidence -/

theorem limits_envelopes (content filePath : Text) (limit : Nat) :
    Limits limit (scanEnvelopes content filePath (some limit))
      (scanEnvelopes content filePath none) := by
  have hstart : Limits limit { recordLimit := some limit } { recordLimit := none } :=
    { limited   := rfl
      unlimited := rfl
      records   := List.take_nil.symm
      exceeded  := (decide_eq_false (Nat.not_lt_zero limit)).symm
      numbered  := fun _ => rfl
      counted   := rfl }
  exact hstart.scanRecords _ _

theorem clear_envelopes (content filePath : Text) :
    ∀ record ∈ envelopes content filePath, isPlain record = false →
      ¬ OpensLine record.entry.message := by
  have hstart : Clear { recordLimit := none } := fun record hrecord => by cases hrecord
  exact clear_scanRecords _ _ hstart rfl

theorem isPlain_of_ccm {record : CcmLogicalRecord} (h : (record.entry.format == .ccm) = true) :
    isPlain record = false := by
  rw [isPlain, beq_iff_eq.mp h]
  rfl

/-- A bounded scan has the evidence among the first envelopes, says whether there are
more, and is complete when all of them are evidence. -/
theorem scanLogicalRecordsBounded_spec (content filePath : Text) (maxRecords : Nat) :
    (scanLogicalRecordsBounded content filePath maxRecords).records =
      ((envelopes content filePath).take maxRecords).filter
        (fun record => record.entry.format == .ccm) ∧
    ((scanLogicalRecordsBounded content filePath maxRecords).recordLimitExceeded = true ↔
      maxRecords < (envelopes content filePath).length) ∧
    ((scanLogicalRecordsBounded content filePath maxRecords).complete = true ↔
      (envelopes content filePath).length ≤ maxRecords ∧
      ∀ record ∈ envelopes content filePath, isPlain record = false) ∧
    scanLogicalRecords content filePath =
      (envelopes content filePath).filter (fun record => record.entry.format == .ccm) ∧
    (∀ record ∈ (scanLogicalRecordsBounded content filePath maxRecords).records,
      ¬ OpensLine record.entry.message) ∧
    ∀ record ∈ scanLogicalRecords content filePath, ¬ OpensLine record.entry.message := by
  have hlimits := limits_envelopes content filePath maxRecords
  have hclear := clear_envelopes content filePath
  have hrecords : (scanLogicalRecordsBounded content filePath maxRecords).records =
      ((envelopes content filePath).take maxRecords).filter
        (fun record => record.entry.format == .ccm) := by
    rw [scanLogicalRecordsBounded, scanCcmContent_some, CcmScanBuild.finish, hlimits.records]
    rfl
  have hexceeded : (scanLogicalRecordsBounded content filePath maxRecords).recordLimitExceeded =
      decide (maxRecords < (envelopes content filePath).length) := by
    rw [scanLogicalRecordsBounded, scanCcmContent_some, CcmScanBuild.finish]
    exact hlimits.exceeded
  have hcomplete : (scanLogicalRecordsBounded content filePath maxRecords).complete =
      (((envelopes content filePath).take maxRecords).countP isPlain == 0 &&
        !decide (maxRecords < (envelopes content filePath).length)) := by
    rw [← hexceeded, scanLogicalRecordsBounded, scanCcmContent_some, CcmScanBuild.finish,
      hlimits.counted, hlimits.records]
    rfl
  refine ⟨hrecords, ?_, ?_, scanLogicalRecords_eq content filePath, ?_, ?_⟩
  · rw [hexceeded, decide_eq_true_iff]
  · rw [hcomplete, Bool.and_eq_true, beq_iff_eq, Bool.not_eq_true', decide_eq_false_iff_not,
      Nat.not_lt]
    constructor
    · rintro ⟨hplain, hfits⟩
      rw [List.take_of_length_le hfits, List.countP_eq_zero] at hplain
      exact ⟨hfits, fun record hrecord => Bool.eq_false_iff.mpr (hplain record hrecord)⟩
    · rintro ⟨hfits, hplain⟩
      rw [List.take_of_length_le hfits, List.countP_eq_zero]
      exact ⟨fun record hrecord => Bool.eq_false_iff.mp (hplain record hrecord), hfits⟩
  · rw [hrecords]
    intro record hrecord
    obtain ⟨hrecord, hccm⟩ := List.mem_filter.mp hrecord
    exact hclear record (List.mem_of_mem_take hrecord) (isPlain_of_ccm hccm)
  · rw [scanLogicalRecords_eq]
    intro record hrecord
    obtain ⟨hrecord, hccm⟩ := List.mem_filter.mp hrecord
    exact hclear record hrecord (isPlain_of_ccm hccm)

end Ccm
end Parser
end CmTrace
