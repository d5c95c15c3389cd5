import CmTrace.Watcher.Reset

/-!
# The record that was open when the file was read

Opening a Company Portal log may leave its last record open.  What is appended to
it afterwards reaches the viewer as amendments: the lines a read completes, an
unterminated line that reaches the bound, and what a debounce or the last flush
hands over.  `processInitial` is what the reader does for the record in each of
these; `Amends` is the invariant that ties the amendments given so far to the
lines they were made of.
-/

namespace CmTrace
namespace Watcher

open Text Log

def suffixes (amendments : List TailEntryAmendment) : Text :=
  (amendments.map fun a => a.messageSuffix).flatten

/-- What lines add to a message: each on a line of its own, without the white space
at its end. -/
def continuation (lines : List Text) : Text := (lines.map fun line => '\n' :: trimEnd line).flatten

theorem suffixes_append (a b : List TailEntryAmendment) :
    suffixes (a ++ b) = suffixes a ++ suffixes b := by
  rw [suffixes, List.map_append, List.flatten_append]
  rfl

theorem suffixes_singleton (a : TailEntryAmendment) : suffixes [a] = a.messageSuffix := by
  simp [suffixes]

theorem continuation_append (a b : List Text) :
    continuation (a ++ b) = continuation a ++ continuation b := by
  rw [continuation, List.map_append, List.flatten_append]
  rfl

theorem continuation_singleton (line : Text) : continuation [line] = '\n' :: trimEnd line := by
  simp [continuation]

theorem utf16Len_append (a b : Text) : utf16Len (a ++ b) = utf16Len a + utf16Len b := by
  simp [utf16Len]

/-- Nothing has been added to the record since the file was opened. -/
structure PendingInitialLogicalRecord.Untouched (p : PendingInitialLogicalRecord) : Prop where
  retainedSuffixBytes : p.retainedSuffixBytes = 0
  pendingSuffix : p.pendingSuffix = []
  pendingStartLine : p.pendingStartLine = none
  pendingEndLine : p.pendingEndLine = none
  capped : p.capped = false
  capReported : p.capReported = false

section
variable (detect : Text → List ErrorCodeSpan) (start : PendingInitialLogicalRecord)

/-- What the amendments say of the lines that were taken for the record. -/
structure Reconstructs (lines : List Text) (amendments : List TailEntryAmendment) : Prop where
  /-- Every amendment begins where the one before it ended. -/
  begins : ∀ (i : Nat) (a : TailEntryAmendment), amendments[i]? = some a →
    a.messageUtf16Start = start.messageUtf16Len + utf16Len (suffixes (amendments.take i))
  /-- Amendments cover lines of the record, each after the ones before. -/
  covers : ∀ a ∈ amendments, start.nextContinuationLine ≤ a.continuationStartLine ∧
    a.continuationStartLine ≤ a.continuationEndLine ∧
    a.continuationEndLine < start.nextContinuationLine + lines.length
  ascends : amendments.Pairwise fun a b => a.continuationEndLine < b.continuationStartLine
  bounded : byteLen (suffixes amendments) ≤ maxPendingLogicalRecordBytes
  shifted : ∀ a ∈ amendments, a.entryId = start.entryId ∧
    a.entryLineNumber = start.entryLineNumber ∧
    a.errorCodeSpans = (detect a.messageSuffix).map (ErrorCodeSpan.shift a.messageUtf16Start)
  text : suffixes amendments <+: continuation lines

/-- The record after `lines` were taken for it and `amendments` were made of them. -/
structure Amends (lines : List Text) (amendments : List TailEntryAmendment)
    (p : PendingInitialLogicalRecord) : Prop where
  made : Reconstructs detect start lines amendments
  sameEntry : p.entryId = start.entryId ∧ p.entryLineNumber = start.entryLineNumber
  nextLine : p.nextContinuationLine = start.nextContinuationLine + lines.length
  length : p.messageUtf16Len = start.messageUtf16Len + utf16Len (suffixes amendments)
  retained : p.retainedSuffixBytes = byteLen (suffixes amendments ++ p.pendingSuffix)
  within : p.retainedSuffixBytes ≤ maxPendingLogicalRecordBytes
  kept : suffixes amendments ++ p.pendingSuffix <+: continuation lines
  whole : p.capped = false → suffixes amendments ++ p.pendingSuffix = continuation lines
  held : (p.pendingSuffix = [] ∧ p.pendingStartLine = none ∧ p.pendingEndLine = none) ∨
    p.pendingSuffix ≠ [] ∧ ∃ first last, p.pendingStartLine = some first ∧
      p.pendingEndLine = some last ∧ start.nextContinuationLine ≤ first ∧ first ≤ last ∧
      last < p.nextContinuationLine ∧ ∀ a ∈ amendments, a.continuationEndLine < first

variable {detect start} {lines : List Text} {amendments : List TailEntryAmendment}
  {p : PendingInitialLogicalRecord}

theorem amends_start (h : start.Untouched) : Amends detect start [] [] start :=
  { made      := ⟨fun i a hi => (by simp at hi), fun a ha => (by cases ha), List.Pairwise.nil,
      Nat.zero_le _, fun a ha => (by cases ha), List.prefix_rfl⟩
    sameEntry := ⟨rfl, rfl⟩
    nextLine  := rfl
    length    := rfl
    retained  := by rw [h.retainedSuffixBytes, h.pendingSuffix]; rfl
    within    := by rw [h.retainedSuffixBytes]; exact Nat.zero_le _
    kept      := by rw [h.pendingSuffix]; exact List.prefix_rfl
    whole     := fun _ => by rw [h.pendingSuffix]; rfl
    held      := .inl ⟨h.pendingSuffix, h.pendingStartLine, h.pendingEndLine⟩ }

theorem reconstructs_mono (h : Reconstructs detect start lines amendments) (more : List Text) :
    Reconstructs detect start (lines ++ more) amendments := by
  refine { h with covers := fun a ha => ?_, text := ?_ }
  · obtain ⟨hfirst, hlast, hend⟩ := h.covers a ha
    refine ⟨hfirst, hlast, ?_⟩
    rw [List.length_append]
    omega
  · rw [continuation_append]
    exact h.text.trans (List.prefix_append _ _)

def keptOf (p : PendingInitialLogicalRecord) (line : Text) : Text :=
  takeBytes (min (1 + byteLen line) (maxPendingLogicalRecordBytes - p.retainedSuffixBytes) - 1) line

def PendingInitialLogicalRecord.count (p : PendingInitialLogicalRecord) (now : Nat) :
    PendingInitialLogicalRecord :=
  { p with nextContinuationLine := p.nextContinuationLine + 1, lastUpdated := now }

def PendingInitialLogicalRecord.keep (p : PendingInitialLogicalRecord) (now : Nat) (line : Text) :
    PendingInitialLogicalRecord :=
  { p.count now with
    pendingStartLine    := p.pendingStartLine.or (some p.nextContinuationLine)
    pendingEndLine      := some p.nextContinuationLine
    pendingSuffix       := p.pendingSuffix ++ '\n' :: keptOf p line
    retainedSuffixBytes := p.retainedSuffixBytes + 1 + byteLen (keptOf p line) }

theorem appendInitialContinuation_cases (p : PendingInitialLogicalRecord) (now : Nat) (line : Text) :
    let appended := appendInitialContinuation maxPendingLogicalRecordBytes now p line
    (p.capped = true ∧ appended = (p.count now, false)) ∨
      p.capped = false ∧
        (maxPendingLogicalRecordBytes ≤ p.retainedSuffixBytes ∧
            appended = ({ p.count now with capped := true }, true) ∨
          p.retainedSuffixBytes < maxPendingLogicalRecordBytes ∧
            maxPendingLogicalRecordBytes - p.retainedSuffixBytes < 1 + byteLen line ∧
            appended = ({ p.keep now line with capped := true }, true) ∨
          p.retainedSuffixBytes < maxPendingLogicalRecordBytes ∧
            1 + byteLen line ≤ maxPendingLogicalRecordBytes - p.retainedSuffixBytes ∧
            appended = (p.keep now line, false)) := by
  rw [appendInitialContinuation]
  dsimp only
  rcases Bool.eq_false_or_eq_true p.capped with hcapped | hopen
  · exact .inl ⟨hcapped, if_pos hcapped⟩
  · refine .inr ⟨hopen, ?_⟩
    rw [if_neg (Bool.eq_false_iff.mp hopen)]
    rcases Nat.lt_or_ge p.retainedSuffixBytes maxPendingLogicalRecordBytes with hroom | hfull
    · have hpos : 0 < min (1 + byteLen line) (maxPendingLogicalRecordBytes - p.retainedSuffixBytes) := by
        omega
      rw [if_pos hpos]
      rcases Nat.lt_or_ge (maxPendingLogicalRecordBytes - p.retainedSuffixBytes) (1 + byteLen line)
        with hlong | hfits
      · exact .inr (.inl ⟨hroom, hlong, by rw [if_pos (by omega)]; rfl⟩)
      · exact .inr (.inr ⟨hroom, hfits, by rw [if_neg (by omega)]; rfl⟩)
    · have hnone : ¬ 0 < min (1 + byteLen line)
          (maxPendingLogicalRecordBytes - p.retainedSuffixBytes) := by omega
      exact .inl ⟨hfull, by rw [if_neg hnone, if_pos (by omega)]; rfl⟩

theorem count_amends (h : Amends detect start lines amendments p) (now : Nat) (raw : Text) :
    Amends detect start (lines ++ [raw]) amendments { p.count now with capped := true } :=
  { made      := reconstructs_mono h.made [raw]
    sameEntry := h.sameEntry
    nextLine  := by
      rw [List.length_append, List.length_singleton, ← Nat.add_assoc, ← h.nextLine]
      rfl
    length    := h.length
    retained  := h.retained
    within    := h.within
    kept      := by
      rw [continuation_append]
      exact h.kept.trans (List.prefix_append _ _)
    whole     := fun hcapped => (by cases hcapped)
    held      := h.held.imp id fun ⟨hsuffix, first, last, hfirst, hlast, hge, hle, hlt, hafter⟩ =>
      ⟨hsuffix, first, last, hfirst, hlast, hge, hle, Nat.lt_succ_of_lt hlt, hafter⟩ }

theorem byteLen_keptOf (p : PendingInitialLogicalRecord) (line : Text)
    (hroom : p.retainedSuffixBytes < maxPendingLogicalRecordBytes) :
    p.retainedSuffixBytes + 1 + byteLen (keptOf p line) ≤ maxPendingLogicalRecordBytes := by
  have h := byteLen_takeBytes_le
    (min (1 + byteLen line) (maxPendingLogicalRecordBytes - p.retainedSuffixBytes) - 1) line
  rw [keptOf]
  omega

theorem keptOf_of_fits (p : PendingInitialLogicalRecord) {line : Text}
    (hfits : 1 + byteLen line ≤ maxPendingLogicalRecordBytes - p.retainedSuffixBytes) :
    keptOf p line = line :=
  takeBytes_of_le (by omega)

/-- A line of which as much is kept as fits; `full` says that the bound is
reached. -/
theorem keep_amends (h : Amends detect start lines amendments p) (now : Nat) {line raw : Text}
    (hopen : p.capped = false) (hroom : p.retainedSuffixBytes < maxPendingLogicalRecordBytes)
    (full : Bool) (fits : keptOf p line <+: trimEnd raw)
    (whole : full = false → keptOf p line = trimEnd raw) :
    Amends detect start (lines ++ [raw]) amendments { p.keep now line with capped := full } := by
  have hsuffix : suffixes amendments ++ (p.pendingSuffix ++ '\n' :: keptOf p line) =
      continuation lines ++ '\n' :: keptOf p line := by
    rw [← List.append_assoc, h.whole hopen]
  have hpending : p.pendingSuffix ++ '\n' :: keptOf p line ≠ [] := by simp
  refine
    { made      := reconstructs_mono h.made [raw]
      sameEntry := h.sameEntry
      nextLine  := ?_
      length    := h.length
      retained  := ?_
      within    := byteLen_keptOf p line hroom
      kept      := ?_
      whole     := fun hfull => ?_
      held      := .inr ⟨hpending, ?_⟩ }
  · rw [List.length_append, List.length_singleton, ← Nat.add_assoc, ← h.nextLine]
    rfl
  · show p.retainedSuffixBytes + 1 + byteLen (keptOf p line) =
      byteLen (suffixes amendments ++ (p.pendingSuffix ++ '\n' :: keptOf p line))
    rw [h.retained]
    simp only [byteLen_append, byteLen_cons]
    rw [show Char.utf8Size '\n' = 1 from rfl]
    omega
  · show suffixes amendments ++ (p.pendingSuffix ++ '\n' :: keptOf p line) <+: _
    rw [hsuffix, continuation_append, continuation_singleton, List.prefix_append_right_inj,
      List.cons_prefix_cons]
    exact ⟨rfl, fits⟩
  · show suffixes amendments ++ (p.pendingSuffix ++ '\n' :: keptOf p line) = _
    rw [hsuffix, whole hfull, continuation_append, continuation_singleton]
  · rcases h.held with ⟨-, hfirst, -⟩ | ⟨-, first, last, hfirst, -, hge, hle, hlt, hafter⟩
    · refine ⟨p.nextContinuationLine, p.nextContinuationLine, ?_, rfl, ?_, Nat.le_refl _,
        Nat.lt_succ_self _, fun a ha => ?_⟩
      · show p.pendingStartLine.or (some p.nextContinuationLine) = _
        rw [hfirst]
        rfl
      · rw [h.nextLine]
        exact Nat.le_add_right _ _
      · rw [h.nextLine]
        exact (h.made.covers a ha).2.2
    · refine ⟨first, p.nextContinuationLine, ?_, rfl, hge, ?_, Nat.lt_succ_self _, hafter⟩
      · show p.pendingStartLine.or (some p.nextContinuationLine) = _
        rw [hfirst]
        rfl
      · exact Nat.le_of_lt (Nat.lt_of_le_of_lt hle hlt)

/-- Taking a line.  What is kept of it has to be part of the line without the white
space at its end, and all of that line if the bound is not reached. -/
theorem append_amends (h : Amends detect start lines amendments p) (now : Nat) (line raw : Text)
    (fits : p.capped = false → keptOf p line <+: trimEnd raw)
    (whole : 1 + byteLen line ≤ maxPendingLogicalRecordBytes - p.retainedSuffixBytes →
      line = trimEnd raw) :
    Amends detect start (lines ++ [raw]) amendments
      (appendInitialContinuation maxPendingLogicalRecordBytes now p line).1 := by
  rcases appendInitialContinuation_cases p now line with
    ⟨hcapped, heq⟩ | ⟨hopen, ⟨-, heq⟩ | ⟨hroom, -, heq⟩ | ⟨hroom, hfits, heq⟩⟩
  · have hcount := count_amends h now raw
    rw [heq]
    rwa [show ({ p.count now with capped := true } : PendingInitialLogicalRecord) = p.count now by
      rw [← hcapped]; rfl] at hcount
  · rw [heq]
    exact count_amends h now raw
  · rw [heq]
    exact keep_amends h now hopen hroom true (fits hopen) fun hfull => (by cases hfull)
  · have hkeep := keep_amends h now hopen hroom false (fits hopen)
      fun _ => (keptOf_of_fits p hfits).trans (whole hfits)
    rw [heq]
    rwa [show ({ p.keep now line with capped := false } : PendingInitialLogicalRecord) =
      p.keep now line by rw [← hopen]; rfl] at hkeep

theorem take_amends (h : Amends detect start lines amendments p) :
    Amends detect start lines (amendments ++ (takeAmendment detect p).1.toList)
      (takeAmendment detect p).2 := by
  rw [takeAmendment]
  rcases h.held with ⟨hnone, -, -⟩ | ⟨hsuffix, first, last, hfirst, hlast, hge, hle, hlt, hafter⟩
  · rw [if_pos hnone, Option.toList_none, List.append_nil]
    exact h
  · rw [if_neg hsuffix, hfirst, hlast, Option.toList_some]
    dsimp only
    set amendment : TailEntryAmendment :=
      { entryId               := p.entryId
        entryLineNumber       := p.entryLineNumber
        continuationStartLine := first
        continuationEndLine   := last
        messageUtf16Start     := p.messageUtf16Len
        messageSuffix         := p.pendingSuffix
        errorCodeSpans        := (detect p.pendingSuffix).map
          (ErrorCodeSpan.shift p.messageUtf16Len) } with hamendment
    have hsuffixes : suffixes (amendments ++ [amendment]) =
        suffixes amendments ++ p.pendingSuffix := by
      rw [suffixes_append, suffixes_singleton]
    refine
      { made      :=
          { begins  := fun i a hi => ?_
            covers  := fun a ha => ?_
            ascends := ?_
            bounded := ?_
            shifted := fun a ha => ?_
            text    := hsuffixes ▸ h.kept }
        sameEntry := h.sameEntry
        nextLine  := h.nextLine
        length    := ?_
        retained  := ?_
        within    := h.within
        kept      := ?_
        whole     := fun hopen => ?_
        held      := .inl ⟨rfl, rfl, rfl⟩ }
    · rcases Nat.lt_or_ge i amendments.length with hi' | hi'
      · rw [List.getElem?_append_left hi'] at hi
        rw [List.take_append_of_le_length (Nat.le_of_lt hi')]
        exact h.made.begins i a hi
      · rw [List.getElem?_append_right hi', List.getElem?_singleton] at hi
        split_ifs at hi with hlen
        rw [← Option.some.inj hi, List.take_left' (by omega)]
        exact h.length
    · rcases List.mem_append.mp ha with ha | ha
      · exact h.made.covers a ha
      · rw [List.mem_singleton.mp ha]
        exact ⟨hge, hle, h.nextLine ▸ hlt⟩
    · refine List.pairwise_append.mpr ⟨h.made.ascends, List.pairwise_singleton .., ?_⟩
      intro a ha b hb
      rw [List.mem_singleton.mp hb]
      exact hafter a ha
    · rw [hsuffixes, ← h.retained]
      exact h.within
    · rcases List.mem_append.mp ha with ha | ha
      · exact h.made.shifted a ha
      · rw [List.mem_singleton.mp ha]
        exact ⟨h.sameEntry.1, h.sameEntry.2, rfl⟩
    · rw [hsuffixes, utf16Len_append, ← Nat.add_assoc, ← h.length]
    · rw [hsuffixes, List.append_nil]
      exact h.retained
    · rw [hsuffixes, List.append_nil]
      exact h.kept
    · rw [hsuffixes, List.append_nil]
      exact h.whole hopen

theorem appendInitialContinuation_capReported (p : PendingInitialLogicalRecord) (now : Nat)
    (line : Text) :
    (appendInitialContinuation maxPendingLogicalRecordBytes now p line).1.capReported =
      p.capReported := by
  rcases appendInitialContinuation_cases p now line with
    ⟨-, heq⟩ | ⟨-, ⟨-, heq⟩ | ⟨-, -, heq⟩ | ⟨-, -, heq⟩⟩ <;> rw [heq] <;> rfl

theorem appends_amends (h : Amends detect start lines amendments p) (now : Nat)
    (more : List Text) :
    Amends detect start (lines ++ more) amendments
        (appendInitialContinuations maxPendingLogicalRecordBytes now p more).1 ∧
      (appendInitialContinuations maxPendingLogicalRecordBytes now p more).1.capReported =
        p.capReported := by
  induction more generalizing lines p with
  | nil =>
    rw [List.append_nil]
    exact ⟨h, rfl⟩
  | cons line more ih =>
    rw [appendInitialContinuations]
    have hline := append_amends h now (trimEnd line) line
      (fun _ => takeBytes_prefixed _ _) (fun _ => rfl)
    have hmore := ih hline
    rw [List.append_assoc] at hmore
    exact ⟨hmore.1, hmore.2.trans (appendInitialContinuation_capReported p now _)⟩

theorem takeAmendment_capReported (detect : Text → List ErrorCodeSpan)
    (p : PendingInitialLogicalRecord) :
    (takeAmendment detect p).2.capReported = p.capReported := by
  rw [takeAmendment]
  split_ifs
  · rfl
  · split <;> rfl

theorem report_amends (h : Amends detect start lines amendments p) (reported : Bool) :
    Amends detect start lines amendments { p with capReported := reported } :=
  { made      := h.made
    sameEntry := h.sameEntry
    nextLine  := h.nextLine
    length    := h.length
    retained  := h.retained
    within    := h.within
    kept      := h.kept
    whole     := h.whole
    held      := h.held }

end

/-! ## What comes to the record -/

/-- Lines that a read completed, an unterminated line that is checked against the
bound (with what the line goes on with before it ends, which is discarded when
the line is taken), and an unterminated line that a flush hands over. -/
inductive InitialEvent where
  | lines (now : Nat) (lines : List Text)
  | fragment (now : Nat) (text rest : Text)
  | flush (now : Nat) (text : Text)

namespace InitialEvent

variable {I : Type} (P : Parsers)

def process (r : TailReader I) : InitialEvent → TailBatch × TailReader I
  | lines now newLines => match r.consumeInitialCompanyPortalLines P newLines now with
    | none => ({}, r)
    | some (batch, _, r) => (batch, r)
  | fragment now text _ =>
    if r.pendingInitialLogicalRecord.isSome then
      { r with pendingFragment := text }.enforceInitialFragmentBound P now
    else ({}, r)
  | flush now text =>
    let flushed := { r with pendingFragment := text }.flushInitialFragment P now
    (flushed.1, flushed.2.2)

def Exceeds (p : PendingInitialLogicalRecord) (text : Text) : Prop :=
  maxPendingLogicalRecordBytes <
    p.retainedSuffixBytes + (if text = [] then 0 else 1) + byteLen text

instance (p : PendingInitialLogicalRecord) (text : Text) : Decidable (Exceeds p text) :=
  inferInstanceAs (Decidable (_ < _))

def taken (p : PendingInitialLogicalRecord) : InitialEvent → List Text
  | lines _ newLines => newLines.take
      ((newLines.findIdx? fun line => P.looksLikeRecordStart (trimEnd line)).getD newLines.length)
  | fragment _ text rest => if Exceeds p text then [text ++ rest] else []
  | flush _ text => if text = [] ∨ P.looksLikeRecordStart (trimEnd text) = true then [] else [text]

/-- No white space from the end of its line is kept of an unterminated line that
reaches the bound. -/
def KeepsTrimmed (p : PendingInitialLogicalRecord) : InitialEvent → Prop
  | fragment _ text rest => p.capped = false → Exceeds p text →
      takeBytes (maxPendingLogicalRecordBytes - p.retainedSuffixBytes - 1) text <+:
        trimEnd (text ++ rest)
  | _ => True

end InitialEvent

/-- A run, with the lines that were taken for the record. -/
structure InitialRun (I : Type) where
  taken : List Text := []
  amendments : List TailEntryAmendment := []
  parseErrors : Nat := 0
  reader : TailReader I

namespace InitialRun

variable {I : Type} (P : Parsers)

def step (run : InitialRun I) (event : InitialEvent) : InitialRun I :=
  let processed := event.process P run.reader
  { taken       := run.taken ++ run.reader.pendingInitialLogicalRecord.elim [] (event.taken P)
    amendments  := run.amendments ++ processed.1.amendments
    parseErrors := run.parseErrors + processed.1.parseErrors
    reader      := processed.2 }

def events (r : TailReader I) (events : List InitialEvent) : InitialRun I :=
  events.foldl (step P) { reader := r }

def KeepsTrimmed (r : TailReader I) : List InitialEvent → Prop
  | [] => True
  | event :: events =>
    (∀ p ∈ r.pendingInitialLogicalRecord, event.KeepsTrimmed p) ∧
      KeepsTrimmed (event.process P r).2 events

/-- What holds in every state of a run. -/
structure Holds (start : PendingInitialLogicalRecord) (run : InitialRun I) : Prop where
  made : Reconstructs P.detectErrorCodeSpans start run.taken run.amendments
  nextLine : run.taken ≠ [] →
    run.reader.nextLine = start.nextContinuationLine + run.taken.length
  errors : run.parseErrors ≤ 1
  record : ∀ p, run.reader.pendingInitialLogicalRecord = some p →
    Amends P.detectErrorCodeSpans start run.taken run.amendments p ∧
      run.parseErrors = if p.capReported then 1 else 0

end InitialRun

section
variable {I : Type} (P : Parsers) {start p : PendingInitialLogicalRecord} {lines : List Text}
  {amendments : List TailEntryAmendment} {errors : Nat}

def Kept (start : PendingInitialLogicalRecord) (lines : List Text)
    (amendments : List TailEntryAmendment) (errors : Nat) (p : PendingInitialLogicalRecord) : Prop :=
  Amends P.detectErrorCodeSpans start lines amendments p ∧
    errors = if p.capReported then 1 else 0

def Advances (start : PendingInitialLogicalRecord) (lines : List Text)
    (amendments : List TailEntryAmendment) (errors : Nat) (r : TailReader I) (more : List Text)
    (out : TailBatch × TailReader I) : Prop :=
  ∃ p, Kept P start (lines ++ more) (amendments ++ out.1.amendments)
      (errors + out.1.parseErrors) p ∧
    (out.2.pendingInitialLogicalRecord = some p ∨ out.2.pendingInitialLogicalRecord = none) ∧
    (out.2.nextLine = p.nextContinuationLine ∨ more = [] ∧ out.2.nextLine = r.nextLine)

theorem kept_report (h : Amends P.detectErrorCodeSpans start lines amendments p)
    (herrors : errors = if p.capReported then 1 else 0) (newlyCapped : Bool) :
    Kept P start lines amendments
      (errors + if (newlyCapped && !p.capReported) = true then 1 else 0)
      { p with capReported := p.capReported || (newlyCapped && !p.capReported) } := by
  refine ⟨report_amends h _, ?_⟩
  rw [herrors]
  cases p.capReported <;> cases newlyCapped <;> rfl

theorem takeInitialAmendment_some (r : TailReader I) (h : r.pendingInitialLogicalRecord = some p) :
    r.takeInitialAmendment P = ((takeAmendment P.detectErrorCodeSpans p).1.toList,
      { r with
        pendingInitialLogicalRecord := some (takeAmendment P.detectErrorCodeSpans p).2 }) := by
  rw [TailReader.takeInitialAmendment, h]

theorem takeInitialAmendment_none (r : TailReader I) (h : r.pendingInitialLogicalRecord = none) :
    r.takeInitialAmendment P = ([], r) := by
  rw [TailReader.takeInitialAmendment, h]

theorem kept_take (h : Kept P start lines amendments errors p) :
    Kept P start lines (amendments ++ (takeAmendment P.detectErrorCodeSpans p).1.toList) errors
      (takeAmendment P.detectErrorCodeSpans p).2 :=
  ⟨take_amends h.1, by rw [takeAmendment_capReported]; exact h.2⟩

theorem takeAmendment_nextLine (detect : Text → List ErrorCodeSpan)
    (p : PendingInitialLogicalRecord) :
    (takeAmendment detect p).2.nextContinuationLine = p.nextContinuationLine := by
  rw [takeAmendment]
  split_ifs
  · rfl
  · split <;> rfl

theorem advances_take {r : TailReader I} {more : List Text} {out : TailBatch × TailReader I}
    (h : Advances P start lines amendments errors r more out) :
    Advances P start lines amendments errors r more
      (out.1.append { amendments := (out.2.takeInitialAmendment P).1 },
        (out.2.takeInitialAmendment P).2) := by
  obtain ⟨p, hkept, hrecord | hrecord, hnext⟩ := h
  · rw [takeInitialAmendment_some P out.2 hrecord]
    refine ⟨(takeAmendment P.detectErrorCodeSpans p).2, ?_, .inl rfl, ?_⟩
    · have htaken := kept_take P hkept
      rw [List.append_assoc] at htaken
      exact htaken
    · rw [takeAmendment_nextLine]
      exact hnext
  · rw [takeInitialAmendment_none P out.2 hrecord]
    refine ⟨p, ?_, .inr hrecord, hnext⟩
    show Kept P start _ (amendments ++ (out.1.amendments ++ [])) (errors + (_ + 0)) p
    rw [List.append_nil, Nat.add_zero]
    exact hkept

theorem consume_advances (h : Kept P start lines amendments errors p) (r : TailReader I)
    (hp : r.pendingInitialLogicalRecord = some p) (newLines : List Text) (now : Nat) :
    ∃ result, r.consumeInitialCompanyPortalLines P newLines now = some result ∧
      Advances P start lines amendments errors r
        (InitialEvent.taken P p (.lines now newLines)) (result.1, result.2.2) := by
  rw [TailReader.consumeInitialCompanyPortalLines, hp]
  dsimp only [InitialEvent.taken]
  generalize (newLines.findIdx? fun line => P.looksLikeRecordStart (trimEnd line)) = firstHeader
  obtain ⟨happended, hreported⟩ := appends_amends h.1 now
    (newLines.take (firstHeader.getD newLines.length))
  set appended := appendInitialContinuations maxPendingLogicalRecordBytes now p
    (newLines.take (firstHeader.getD newLines.length)) with happ
  have hkept := kept_report P happended (hreported ▸ h.2) appended.2
  refine ⟨_, rfl, ?_⟩
  by_cases htake : (appended.2 || firstHeader.isSome) = true
  · rw [if_pos htake, takeInitialAmendment_some P _ rfl]
    refine ⟨_, kept_take P hkept, ?_, .inl ?_⟩
    · cases firstHeader with
      | none => exact .inl rfl
      | some _ => exact .inr rfl
    · rw [takeAmendment_nextLine]
      cases firstHeader with
      | none => rfl
      | some _ => rfl
  · rw [if_neg htake]
    have hheader : firstHeader = none := by
      rw [Bool.or_eq_true, not_or] at htake
      exact Option.not_isSome_iff_eq_none.mp htake.2
    subst hheader
    refine ⟨_, ?_, .inl rfl, .inl rfl⟩
    rw [List.append_nil]
    exact hkept

theorem enforce_advances (h : Kept P start lines amendments errors p) (r : TailReader I)
    (hp : r.pendingInitialLogicalRecord = some p) (now : Nat) (text rest : Text)
    (htrimmed : InitialEvent.KeepsTrimmed p (.fragment now text rest)) :
    Advances P start lines amendments errors r (InitialEvent.taken P p (.fragment now text rest))
      ({ r with pendingFragment := text }.enforceInitialFragmentBound P now) := by
  rw [TailReader.enforceInitialFragmentBound, InitialEvent.taken]
  dsimp only
  rw [hp, Option.map_some, Option.getD_some]
  by_cases hexceeds : InitialEvent.Exceeds p text
  · have hlong : maxPendingLogicalRecordBytes <
        p.retainedSuffixBytes + (if text = [] then 0 else 1) + byteLen text := hexceeds
    have hmore : maxPendingLogicalRecordBytes - p.retainedSuffixBytes < 1 + byteLen text := by
      split_ifs at hlong <;> omega
    rw [if_neg (Nat.not_le.mpr hlong), if_pos hexceeds]
    have happended := append_amends h.1 now text (text ++ rest)
      (fun hopen => by
        rw [keptOf, Nat.min_eq_right (Nat.le_of_lt hmore)]
        exact htrimmed hopen hexceeds)
      (fun hfits => absurd hmore (Nat.not_lt.mpr hfits))
    have hkept := kept_report P happended
      ((appendInitialContinuation_capReported p now text).symm ▸ h.2)
      (appendInitialContinuation maxPendingLogicalRecordBytes now p text).2
    dsimp only
    rw [takeInitialAmendment_some P _ rfl]
    refine ⟨_, kept_take P hkept, .inl rfl, .inl ?_⟩
    rw [takeAmendment_nextLine]
  · rw [if_pos (Nat.not_lt.mp hexceeds), if_neg hexceeds]
    refine ⟨p, ?_, .inl rfl, .inr ⟨rfl, rfl⟩⟩
    rw [List.append_nil, List.append_nil, Nat.add_zero]
    exact h

theorem flush_advances (h : Kept P start lines amendments errors p) (r : TailReader I)
    (hp : r.pendingInitialLogicalRecord = some p) (now : Nat) (text : Text) :
    Advances P start lines amendments errors r (InitialEvent.taken P p (.flush now text))
      (InitialEvent.process P r (.flush now text)) := by
  rw [InitialEvent.process, TailReader.flushInitialFragment]
  dsimp only
  rw [hp, if_neg (Option.some_ne_none p)]
  have htake : ∀ consumed : TailBatch × (Text × Option (ResolvedParser × Nat)) × TailReader I,
      Advances P start lines amendments errors r (InitialEvent.taken P p (.flush now text))
          (consumed.1, consumed.2.2) →
        Advances P start lines amendments errors r (InitialEvent.taken P p (.flush now text))
          (consumed.1.append { amendments := (consumed.2.2.takeInitialAmendment P).1 },
            (consumed.2.2.takeInitialAmendment P).2) :=
    fun consumed hconsumed => advances_take P hconsumed
  refine htake _ ?_
  rw [InitialEvent.taken]
  by_cases hempty : text = []
  · rw [if_pos hempty, if_pos (.inl hempty)]
    refine ⟨p, ?_, .inl rfl, .inr ⟨rfl, rfl⟩⟩
    rw [List.append_nil, List.append_nil, Nat.add_zero]
    exact h
  · rw [if_neg hempty]
    obtain ⟨result, hresult, hadvances⟩ := consume_advances P h
      { r with
        pendingFragment             := []
        pendingFragmentSelection    := none
        pendingInitialLogicalRecord := some p } rfl [text] now
    have hlines : InitialEvent.taken P p (.lines now [text]) =
        if text = [] ∨ P.looksLikeRecordStart (trimEnd text) = true then [] else [text] := by
      rw [InitialEvent.taken, List.findIdx?_singleton]
      by_cases hheader : P.looksLikeRecordStart (trimEnd text) = true
      · rw [if_pos hheader, if_pos (.inr hheader)]
        rfl
      · rw [if_neg hheader, if_neg (not_or.mpr ⟨hempty, hheader⟩)]
        rfl
    rw [hresult, ← hlines]
    exact hadvances

theorem process_idle (r : TailReader I) (hp : r.pendingInitialLogicalRecord = none)
    (event : InitialEvent) :
    (event.process P r).1 = {} ∧ (event.process P r).2.pendingInitialLogicalRecord = none ∧
      (event.process P r).2.nextLine = r.nextLine := by
  cases event with
  | lines now newLines =>
    rw [InitialEvent.process, TailReader.consumeInitialCompanyPortalLines, hp]
    exact ⟨rfl, hp, rfl⟩
  | fragment now text rest =>
    rw [InitialEvent.process, hp]
    exact ⟨rfl, hp, rfl⟩
  | flush now text =>
    rw [InitialEvent.process, TailReader.flushInitialFragment]
    dsimp only
    rw [hp, if_pos rfl]
    exact ⟨rfl, rfl, rfl⟩

theorem process_advances (h : Kept P start lines amendments errors p) (r : TailReader I)
    (hp : r.pendingInitialLogicalRecord = some p) (event : InitialEvent)
    (htrimmed : event.KeepsTrimmed p) :
    Advances P start lines amendments errors r (event.taken P p) (event.process P r) := by
  cases event with
  | lines now newLines =>
    obtain ⟨result, hresult, hadvances⟩ := consume_advances P h r hp newLines now
    rw [InitialEvent.process, hresult]
    exact hadvances
  | fragment now text rest =>
    have hsome : r.pendingInitialLogicalRecord.isSome = true := by
      rw [hp]
      rfl
    rw [InitialEvent.process, if_pos hsome]
    exact enforce_advances P h r hp now text rest htrimmed
  | flush now text => exact flush_advances P h r hp now text

namespace InitialRun

theorem holds_start {r : TailReader I} (hp : r.pendingInitialLogicalRecord = some start)
    (huntouched : start.Untouched) : Holds P start { reader := r } :=
  { made     := (amends_start huntouched).made
    nextLine := fun htaken => absurd rfl htaken
    errors   := Nat.zero_le _
    record   := fun p hrecord => by
      obtain rfl := Option.some.inj (hp.symm.trans hrecord)
      exact ⟨amends_start huntouched, by rw [huntouched.capReported]; rfl⟩ }

theorem step_holds {run : InitialRun I} (h : Holds P start run) (event : InitialEvent)
    (htrimmed : ∀ p ∈ run.reader.pendingInitialLogicalRecord, event.KeepsTrimmed p) :
    Holds P start (run.step P event) := by
  cases hp : run.reader.pendingInitialLogicalRecord with
  | none =>
    obtain ⟨hbatch, hrecord, hnext⟩ := process_idle P run.reader hp event
    rw [step, hp, hbatch]
    simp only [Option.elim_none, List.append_nil, Nat.add_zero]
    exact
      { made     := h.made
        nextLine := fun htaken => hnext.trans (h.nextLine htaken)
        errors   := h.errors
        record   := fun p hp => by rw [hrecord] at hp; cases hp }
  | some p =>
    obtain ⟨p', ⟨hamends, herrors⟩, hrecord, hnext⟩ :=
      process_advances P (h.record p hp) run.reader hp event (htrimmed p hp)
    rw [step, hp, Option.elim_some]
    refine
      { made     := hamends.made
        nextLine := fun htaken => ?_
        errors   := ?_
        record   := fun q hq => ?_ }
    · rcases hnext with hnext | ⟨hnone, hnext⟩
      · exact hnext.trans hamends.nextLine
      · dsimp only at htaken ⊢
        rw [hnone, List.append_nil] at htaken ⊢
        exact hnext.trans (h.nextLine htaken)
    · dsimp only
      rw [herrors]
      split_ifs <;> omega
    · rcases hrecord with hrecord | hrecord
      · obtain rfl := Option.some.inj (hrecord.symm.trans hq)
        exact ⟨hamends, herrors⟩
      · cases hrecord.symm.trans hq

theorem foldl_holds (events : List InitialEvent) {run : InitialRun I} (h : Holds P start run)
    (htrimmed : KeepsTrimmed P run.reader events) :
    Holds P start (events.foldl (step P) run) := by
  induction events generalizing run with
  | nil => exact h
  | cons event events ih => exact ih (step_holds P h event htrimmed.1) htrimmed.2

def oneLine : PendingInitialLogicalRecord :=
  { entryId := 0, entryLineNumber := 1, nextContinuationLine := 2, messageUtf16Len := 5
    lastUpdated := 0 }

def oneLineReader : TailReader Nat :=
  { byteOffset                  := 0
    parserSelection             := .companyPortal
    nextId                      := 1
    nextLine                    := 2
    pendingInitialLogicalRecord := some oneLine }

theorem fragment_suffixes (r : TailReader I) (hp : r.pendingInitialLogicalRecord = some start)
    (huntouched : start.Untouched) (now : Nat) (text : Text)
    (hexceeds : InitialEvent.Exceeds start text) :
    suffixes (events P r [.fragment now text []]).amendments = '\n' :: keptOf start text ∧
      (events P r [.fragment now text []]).taken = [text] := by
  have hlong : maxPendingLogicalRecordBytes <
      start.retainedSuffixBytes + (if text = [] then 0 else 1) + byteLen text := hexceeds
  have hmore : maxPendingLogicalRecordBytes - start.retainedSuffixBytes < 1 + byteLen text := by
    split_ifs at hlong <;> omega
  have hroom : start.retainedSuffixBytes < maxPendingLogicalRecordBytes := by
    rw [huntouched.retainedSuffixBytes]
    exact Nat.two_pow_pos 20
  have happended : appendInitialContinuation maxPendingLogicalRecordBytes now start text =
      ({ start.keep now text with capped := true }, true) := by
    rcases appendInitialContinuation_cases start now text with
      ⟨hcapped, -⟩ | ⟨-, ⟨hfull, -⟩ | ⟨-, -, heq⟩ | ⟨-, hfits, -⟩⟩
    · rw [huntouched.capped] at hcapped
      cases hcapped
    · exact absurd hroom (Nat.not_lt.mpr hfull)
    · exact heq
    · exact absurd hmore (Nat.not_lt.mpr hfits)
  have hsome : r.pendingInitialLogicalRecord.isSome = true := by
    rw [hp]
    rfl
  have htaken : (events P r [.fragment now text []]).taken = [text] := by
    show [] ++ r.pendingInitialLogicalRecord.elim [] _ = _
    rw [hp, Option.elim_some, InitialEvent.taken, if_pos hexceeds, List.append_nil]
    rfl
  refine ⟨?_, htaken⟩
  show suffixes ([] ++ (InitialEvent.process P r (.fragment now text [])).1.amendments) = _
  rw [InitialEvent.process, if_pos hsome, TailReader.enforceInitialFragmentBound]
  dsimp only
  rw [hp, Option.map_some, Option.getD_some, if_neg (Nat.not_le.mpr hlong)]
  dsimp only
  have hpending : ({ start.keep now text with capped := true } :
      PendingInitialLogicalRecord).pendingSuffix = '\n' :: keptOf start text := by
    show start.pendingSuffix ++ _ = _
    rw [huntouched.pendingSuffix, List.nil_append]
  have hstart : ({ start.keep now text with capped := true } :
      PendingInitialLogicalRecord).pendingStartLine = some start.nextContinuationLine := by
    show start.pendingStartLine.or _ = _
    rw [huntouched.pendingStartLine]
    rfl
  rw [happended, takeInitialAmendment_some P _ rfl, takeAmendment]
  dsimp only
  rw [hpending, hstart, if_neg (List.cons_ne_nil _ _)]
  exact suffixes_singleton _

theorem trimEnd_append_spaces (s : Text) (n : Nat) :
    trimEnd (s ++ List.replicate n ' ') = trimEnd s := by
  induction n with
  | zero => rw [List.replicate_zero, List.append_nil]
  | succ n ih =>
    rw [List.replicate_succ', ← List.append_assoc, trimEnd, List.rdropWhile_concat_pos _ _ _ rfl]
    exact ih

theorem not_reconstructs_of_spaces (n : Nat) (hn : maxPendingLogicalRecordBytes ≤ n) :
    let run := InitialRun.events TailReader.plainParsers oneLineReader
      [.fragment 0 ('x' :: List.replicate n ' ') []]
    ¬ suffixes run.amendments <+: continuation run.taken := by
  intro run hpre
  have hlen : byteLen (List.replicate n ' ') = n := by
    rw [byteLen, List.map_replicate, List.sum_replicate]
    exact Nat.mul_one n
  have hexceeds : InitialEvent.Exceeds oneLine ('x' :: List.replicate n ' ') := by
    rw [InitialEvent.Exceeds, if_neg (List.cons_ne_nil _ _), byteLen_cons, hlen]
    omega
  obtain ⟨hsuffixes, htaken⟩ := fragment_suffixes TailReader.plainParsers oneLineReader rfl
    ⟨rfl, rfl, rfl, rfl, rfl, rfl⟩ 0 _ hexceeds
  -- the first space after the letter is kept
  have hkept : ['x', ' '] <+: keptOf oneLine ('x' :: List.replicate n ' ') := by
    refine takeBytes_longest ?_ ?_
    · obtain ⟨m, rfl⟩ : ∃ m, n = m + 1 := ⟨n - 1, by
        have : 0 < maxPendingLogicalRecordBytes := Nat.two_pow_pos 20
        omega⟩
      rw [List.replicate_succ]
      exact ⟨List.replicate m ' ', rfl⟩
    · rw [byteLen_cons _ (List.replicate n ' '), hlen]
      show 2 ≤ min (1 + (1 + n)) (maxPendingLogicalRecordBytes - 0) - 1
      rw [show maxPendingLogicalRecordBytes = 2 ^ 20 from rfl] at hn ⊢
      omega
  have htext : continuation run.taken = ['\n', 'x'] := by
    rw [htaken, continuation_singleton]
    exact congrArg (List.cons '\n') (trimEnd_append_spaces ['x'] n)
  have hlong : 2 ≤ (keptOf oneLine ('x' :: List.replicate n ' ')).length := hkept.length_le
  have hshort : ('\n' :: keptOf oneLine ('x' :: List.replicate n ' ')).length ≤ 2 := by
    rw [← hsuffixes, show 2 = ['\n', 'x'].length from rfl, ← htext]
    exact hpre.length_le
  rw [List.length_cons] at hshort
  omega

end InitialRun

end
end Watcher
end CmTrace
