import CmTrace.Watcher.Reader

/-!
# What framing leaves alone

Framing text moves neither the position in the bytes nor the generation, resets
nothing, and holds only text of the reader's own selection.
-/

namespace CmTrace
namespace Watcher
namespace TailReader

open Text Log

variable {I : Type}

/-- The two readers stand at the same place of the same file. -/
structure SameSource (r r' : TailReader I) : Prop where
  byteOffset : r'.byteOffset = r.byteOffset
  fileIdentity : r'.fileIdentity = r.fileIdentity
  pendingReset : r'.pendingReset = r.pendingReset
  parserSelection : r'.parserSelection = r.parserSelection
  encoding : r'.encoding = r.encoding
  pendingByte : r'.pendingByte = r.pendingByte
  pendingUtf8Bytes : r'.pendingUtf8Bytes = r.pendingUtf8Bytes
  pendingUtf8Selection : r'.pendingUtf8Selection = r.pendingUtf8Selection

/-- What is held is held for the reader's selection. -/
structure Owned (r : TailReader I) : Prop where
  record : ∀ p ∈ r.pendingLogicalRecord, p.parserSelection = r.parserSelection
  fragment : ∀ owner ∈ r.pendingFragmentSelection, owner.1 = r.parserSelection
  initial : r.pendingInitialLogicalRecord.isSome = true → supportsParser r.parserSelection = true

/-- Framing moves from one reader to the other. -/
structure Keeps (r r' : TailReader I) : Prop where
  source : SameSource r r'
  owned : Owned r → Owned r'

/-- What framing gives. -/
structure Frames (r : TailReader I) (result : TailBatch × TailReader I) : Prop where
  reset : result.1.reset = false
  keeps : Keeps r result.2

theorem SameSource.refl (r : TailReader I) : SameSource r r := ⟨rfl, rfl, rfl, rfl, rfl, rfl, rfl, rfl⟩

theorem SameSource.trans {a b c : TailReader I} (h : SameSource a b) (h' : SameSource b c) :
    SameSource a c :=
  { byteOffset           := h'.byteOffset.trans h.byteOffset
    fileIdentity         := h'.fileIdentity.trans h.fileIdentity
    pendingReset         := h'.pendingReset.trans h.pendingReset
    parserSelection      := h'.parserSelection.trans h.parserSelection
    encoding             := h'.encoding.trans h.encoding
    pendingByte          := h'.pendingByte.trans h.pendingByte
    pendingUtf8Bytes     := h'.pendingUtf8Bytes.trans h.pendingUtf8Bytes
    pendingUtf8Selection := h'.pendingUtf8Selection.trans h.pendingUtf8Selection }

theorem Keeps.refl (r : TailReader I) : Keeps r r := ⟨.refl r, id⟩

theorem Keeps.trans {a b c : TailReader I} (h : Keeps a b) (h' : Keeps b c) : Keeps a c :=
  ⟨h.source.trans h'.source, fun ho => h'.owned (h.owned ho)⟩

theorem Frames.refl (r : TailReader I) : Frames r ({}, r) := ⟨rfl, .refl r⟩

theorem Keeps.frames {r s : TailReader I} {result : TailBatch × TailReader I} (h : Keeps r s)
    (hf : Frames s result) : Frames r result :=
  ⟨hf.reset, h.trans hf.keeps⟩

theorem Frames.append {r s : TailReader I} {batch : TailBatch} {result : TailBatch × TailReader I}
    (hb : batch.reset = false) (hs : Keeps r s) (h : Frames s result) :
    Frames r (batch.append result.1, result.2) :=
  { reset := by
      show (batch.reset || result.1.reset) = false
      rw [hb, h.reset, Bool.or_self]
    keeps := hs.trans h.keeps }

/-! ## What is held -/

theorem keeps_pendingLogicalRecord (r : TailReader I) {held : Option PendingLogicalRecord}
    (h : ∀ p ∈ held, p.parserSelection = r.parserSelection) :
    Keeps r { r with pendingLogicalRecord := held } :=
  ⟨⟨rfl, rfl, rfl, rfl, rfl, rfl, rfl, rfl⟩, fun ho => ⟨h, ho.fragment, ho.initial⟩⟩

theorem keeps_pendingFragment (r : TailReader I) (fragment : Text)
    {owner : Option (ResolvedParser × Nat)} (h : ∀ o ∈ owner, o.1 = r.parserSelection) :
    Keeps r { r with pendingFragment := fragment, pendingFragmentSelection := owner } :=
  ⟨⟨rfl, rfl, rfl, rfl, rfl, rfl, rfl, rfl⟩, fun ho => ⟨ho.record, h, ho.initial⟩⟩

theorem keeps_fragment_only (r : TailReader I) (fragment : Text) :
    Keeps r { r with pendingFragment := fragment } :=
  ⟨⟨rfl, rfl, rfl, rfl, rfl, rfl, rfl, rfl⟩, fun ho => ⟨ho.record, ho.fragment, ho.initial⟩⟩

theorem keeps_owner (r : TailReader I) {owner : Option (ResolvedParser × Nat)}
    (h : ∀ o ∈ owner, o.1 = r.parserSelection) :
    Keeps r { r with pendingFragmentSelection := owner } :=
  ⟨⟨rfl, rfl, rfl, rfl, rfl, rfl, rfl, rfl⟩, fun ho => ⟨ho.record, h, ho.initial⟩⟩

theorem keeps_inventoryLineContinuation (r : TailReader I) (b : Bool) :
    Keeps r { r with inventoryLineContinuation := b } :=
  ⟨⟨rfl, rfl, rfl, rfl, rfl, rfl, rfl, rfl⟩, fun ho => ⟨ho.record, ho.fragment, ho.initial⟩⟩

theorem keeps_discardingCappedInitialLine (r : TailReader I) (b : Bool) :
    Keeps r { r with discardingCappedInitialLine := b } :=
  ⟨⟨rfl, rfl, rfl, rfl, rfl, rfl, rfl, rfl⟩, fun ho => ⟨ho.record, ho.fragment, ho.initial⟩⟩

theorem keeps_initial_none (r : TailReader I) :
    Keeps r { r with pendingInitialLogicalRecord := none } :=
  ⟨⟨rfl, rfl, rfl, rfl, rfl, rfl, rfl, rfl⟩,
    fun ho => ⟨ho.record, ho.fragment, fun h => by cases h⟩⟩

theorem keeps_initial (r : TailReader I) {pending : PendingInitialLogicalRecord}
    (h : r.pendingInitialLogicalRecord = some pending) (n : Nat)
    (pending' : PendingInitialLogicalRecord) :
    Keeps r { r with nextLine := n, pendingInitialLogicalRecord := some pending' } :=
  ⟨⟨rfl, rfl, rfl, rfl, rfl, rfl, rfl, rfl⟩,
    fun ho => ⟨ho.record, ho.fragment, fun _ => ho.initial (by rw [h]; rfl)⟩⟩

theorem Owned.fragmentSome (r : TailReader I) (now : Nat) :
    ∀ o ∈ some (r.parserSelection, now), o.1 = r.parserSelection := by
  intro o ho
  rw [Option.mem_some_iff] at ho
  rw [← ho]

theorem Owned.fragmentNone (r : TailReader I) :
    ∀ o ∈ (none : Option (ResolvedParser × Nat)), o.1 = r.parserSelection :=
  fun _ h => by cases h

theorem Owned.recordNone (r : TailReader I) :
    ∀ p ∈ (none : Option PendingLogicalRecord), p.parserSelection = r.parserSelection :=
  fun _ h => by cases h

theorem Owned.recordMap (r : TailReader I) (content : Option Text) (now : Nat) :
    ∀ p ∈ content.map fun content =>
        ({ content := content, lastUpdated := now, parserSelection := r.parserSelection } :
          PendingLogicalRecord),
      p.parserSelection = r.parserSelection := by
  intro p hp
  rw [Option.mem_map] at hp
  obtain ⟨content, -, rfl⟩ := hp
  rfl

/-! ## Rows -/

variable (P : Parsers)

theorem assignEntryIdentity_keeps (r : TailReader I) (entries : List LogEntry) (n : Nat) :
    Keeps r (r.assignEntryIdentity entries n).2 :=
  ⟨⟨rfl, rfl, rfl, rfl, rfl, rfl, rfl, rfl⟩, fun h => ⟨h.record, h.fragment, h.initial⟩⟩

theorem parsePortalEach_keeps (selection : ResolvedParser) (records : List FramedLogicalRecord)
    (r : TailReader I) : Keeps r (r.parsePortalEach P selection records).2 := by
  induction records generalizing r with
  | nil => exact .refl r
  | cons record records ih =>
    have hfirst := r.assignEntryIdentity_keeps
      (P.parseContentWithSelection selection record.content).1 record.physicalLines
    exact hfirst.trans (ih _)

theorem parseCompanyPortalRecords_frames (selection : ResolvedParser) (r : TailReader I)
    (records : List FramedLogicalRecord) (errors : Nat) :
    Frames r (parseCompanyPortalRecords P selection r records errors) :=
  ⟨rfl, r.parsePortalEach_keeps P selection records⟩

theorem parseLogicalRecords_frames (r : TailReader I) (records : List FramedLogicalRecord)
    (dialect : DeviceInventoryLogDialect) (errors : Nat) :
    Frames r (r.parseLogicalRecords P records dialect errors) :=
  ⟨rfl, r.assignEntryIdentity_keeps (P.parseFramedRecords records dialect).1
    (records.map fun record : FramedLogicalRecord => record.physicalLines).sum⟩

/-! ## The initial record -/

theorem takeInitialAmendment_keeps (r : TailReader I) : Keeps r (r.takeInitialAmendment P).2 := by
  rw [takeInitialAmendment]
  cases hp : r.pendingInitialLogicalRecord with
  | none => exact .refl r
  | some pending => exact keeps_initial r hp r.nextLine _

theorem takeInitialAmendment_if_keeps (r : TailReader I) (b : Bool) :
    Keeps r (if b = true then r.takeInitialAmendment P else ([], r)).2 := by
  cases b with
  | false => exact .refl r
  | true  => exact r.takeInitialAmendment_keeps P

theorem initial_none_if_keeps (r : TailReader I) (b : Bool) :
    Keeps r (if b = true then { r with pendingInitialLogicalRecord := none } else r) := by
  cases b with
  | false => exact .refl r
  | true  => exact r.keeps_initial_none

theorem consumeInitialCompanyPortalLines_frames (r : TailReader I) (lines : List Text) (now : Nat)
    {batch : TailBatch} {start : Option Nat} {r' : TailReader I}
    (h : r.consumeInitialCompanyPortalLines P lines now = some (batch, start, r')) :
    Frames r (batch, r') := by
  rw [consumeInitialCompanyPortalLines] at h
  cases hp : r.pendingInitialLogicalRecord with
  | none => rw [hp] at h; cases h
  | some pending =>
    rw [hp] at h
    cases h
    exact ⟨rfl, ((keeps_initial r hp _ _).trans (takeInitialAmendment_if_keeps P _ _)).trans
      (initial_none_if_keeps _ _)⟩

theorem enforceInitialFragmentBound_frames (r : TailReader I) (now : Nat) :
    Frames r (r.enforceInitialFragmentBound P now) := by
  rw [enforceInitialFragmentBound]
  generalize (r.pendingInitialLogicalRecord.map fun p => p.retainedSuffixBytes).getD 0 +
    (if r.pendingFragment = [] then 0 else 1) + byteLen r.pendingFragment = pendingBytes
  dsimp only
  have hcleared := keeps_pendingFragment r [] (Owned.fragmentNone r)
  by_cases hfits : pendingBytes ≤ maxPendingLogicalRecordBytes
  · rw [if_pos hfits]
    exact .refl r
  · rw [if_neg hfits]
    split
    · exact ⟨rfl, hcleared.trans (keeps_discardingCappedInitialLine _ true)⟩
    next pending hp =>
      have hinitial := keeps_initial
        { r with pendingFragment := [], pendingFragmentSelection := none } hp
      exact ⟨rfl, ((hcleared.trans (hinitial _ _)).trans (takeInitialAmendment_keeps P _)).trans
        (keeps_discardingCappedInitialLine _ true)⟩

/-! ## Inventory text -/

section Inventory

variable (dialect : DeviceInventoryLogDialect) {selection : ResolvedParser} (now : Nat)

theorem frameInventorySegments_frames (r : TailReader I) (hs : selection = r.parserSelection)
    (segments : List LogicalRecordSegment) :
    Frames r (r.frameInventorySegments P dialect selection now segments) := by
  subst hs
  have hheld := keeps_pendingLogicalRecord r (Owned.recordMap r (P.frameLogicalRecords dialect
    (r.pendingLogicalRecord.map fun pending => pending.content) segments).pendingRecord now)
  exact hheld.frames (parseLogicalRecords_frames P _ _ dialect _)

theorem fitInventoryPiece_keeps (r : TailReader I) {owner : Option (ResolvedParser × Nat)}
    (ho : ∀ o ∈ owner, o.1 = r.parserSelection) (content : Text) :
    Keeps r (r.fitInventoryPiece owner content).2 := by
  rw [fitInventoryPiece]
  dsimp only
  generalize maxLogicalRecordBytes - _ - _ - byteLen r.pendingFragment = available
  split_ifs
  · exact .refl r
  · exact keeps_pendingFragment r _ ho

theorem overflowInventoryLine_frames (r : TailReader I) (hs : selection = r.parserSelection)
    (remaining : Text) :
    Frames r (r.overflowInventoryLine P dialect selection now remaining) := by
  rw [overflowInventoryLine]
  split_ifs
  · exact .refl r
  · have hfirst := frameInventorySegments_frames P dialect now { r with pendingFragment := [] } hs
      [.lineStart r.pendingFragment]
    have hcontinued := hfirst.keeps.trans (keeps_inventoryLineContinuation _ true)
    have hrest := frameInventorySegments_frames P dialect now _
      (hs.trans hcontinued.source.parserSelection.symm) [.lineContinuation remaining]
    exact Frames.append hfirst.reset ((keeps_fragment_only r []).trans hcontinued) hrest

theorem endInventoryLine_frames (r : TailReader I) (hs : selection = r.parserSelection)
    (lineComplete : Bool) :
    Frames r (r.endInventoryLine P dialect selection now lineComplete) := by
  rw [endInventoryLine]
  split_ifs
  · exact (keeps_fragment_only r []).frames
      (frameInventorySegments_frames P dialect now { r with pendingFragment := [] } hs _)
  · exact .refl r

theorem processInventoryLineSegment_frames (r : TailReader I) (hs : selection = r.parserSelection)
    (rawContent : Text) (lineComplete : Bool) :
    Frames r (r.processInventoryLineSegment P dialect selection now rawContent lineComplete) := by
  have hlater : ∀ {s : TailReader I}, Keeps r s → selection = s.parserSelection :=
    fun h => hs.trans h.source.parserSelection.symm
  have howner : ∀ {s : TailReader I}, Keeps r s →
      ∀ o ∈ some (selection, now), o.1 = s.parserSelection := by
    intro s h
    rw [hlater h]
    exact Owned.fragmentSome s now
  have hcloses : ∀ s : TailReader I, Keeps s
      { s with inventoryLineContinuation := false, pendingFragmentSelection := none } :=
    fun s => (keeps_inventoryLineContinuation s false).trans (keeps_owner _ (Owned.fragmentNone s))
  rw [processInventoryLineSegment]
  generalize (if lineComplete = true then trimEndCr rawContent else rawContent) = content
  dsimp only
  have hfitted := fitInventoryPiece_keeps r (howner (.refl r)) content
  have hstarted := overflowInventoryLine_frames P dialect now _ (hlater hfitted)
    (r.fitInventoryPiece (some (selection, now)) content).1
  have hstart := hfitted.trans hstarted.keeps
  have hended := endInventoryLine_frames P dialect now _ (hlater hstart) lineComplete
  have hwhole := Frames.append hstarted.reset hstart hended
  split_ifs with hcontinued hcomplete hempty hcomplete
  · have h := frameInventorySegments_frames P dialect now r hs [.lineContinuation content]
    exact ⟨h.reset, h.keeps.trans (hcloses _)⟩
  · have h := frameInventorySegments_frames P dialect now r hs [.lineContinuation content]
    exact ⟨h.reset, h.keeps.trans (keeps_owner _ (howner h.keeps))⟩
  · have h := frameInventorySegments_frames P dialect now r hs [.lineStart content]
    exact ⟨h.reset, h.keeps.trans (keeps_owner _ (Owned.fragmentNone _))⟩
  · exact ⟨hwhole.reset, hwhole.keeps.trans (hcloses _)⟩
  · exact hwhole
  · exact ⟨hwhole.reset, hwhole.keeps.trans (keeps_owner _ (howner hwhole.keeps))⟩

theorem processInventoryLines_frames (lines : List Text) (r : TailReader I)
    (hs : selection = r.parserSelection) :
    Frames r (r.processInventoryLines P dialect selection now lines) := by
  induction lines generalizing r with
  | nil => exact .refl r
  | cons line lines ih =>
    have hfirst := processInventoryLineSegment_frames P dialect now r hs line true
    exact Frames.append hfirst.reset hfirst.keeps
      (ih _ (hs.trans hfirst.keeps.source.parserSelection.symm))

theorem processInventoryText_frames (r : TailReader I) (hs : selection = r.parserSelection)
    (text : Text) : Frames r (r.processInventoryText P dialect selection now text) := by
  have hlines := processInventoryLines_frames P dialect now (terminated text).1 r hs
  rw [processInventoryText]
  dsimp only
  split_ifs
  · exact hlines
  · exact Frames.append hlines.reset hlines.keeps (processInventoryLineSegment_frames P dialect now _
      (hs.trans hlines.keeps.source.parserSelection.symm) _ _)

end Inventory

/-! ## What can no longer be continued -/

theorem flushPendingText_frames (r : TailReader I) : Frames r (r.flushPendingText P) := by
  rw [flushPendingText]
  have hcleared := (keeps_pendingLogicalRecord r (Owned.recordNone r)).trans
    (keeps_pendingFragment _ [] (Owned.fragmentNone _))
  dsimp only
  generalize (((r.pendingLogicalRecord.map fun p => p.parserSelection).or
    (r.pendingFragmentSelection.map Prod.fst)).bind inventoryLogicalDialect) = dialect
  cases dialect with
  | none => exact ⟨rfl, hcleared⟩
  | some dialect =>
    exact (hcleared.trans (keeps_inventoryLineContinuation _ false)).frames
      (parseLogicalRecords_frames P _ _ dialect _)

theorem flushInitialFragment_frames (r : TailReader I) (now : Nat) :
    Frames r ((r.flushInitialFragment P now).1, (r.flushInitialFragment P now).2.2) := by
  rw [flushInitialFragment]
  have hcleared := keeps_pendingFragment r [] (Owned.fragmentNone r)
  dsimp only
  by_cases hnone : r.pendingInitialLogicalRecord = none
  · rw [if_pos hnone]
    exact ⟨rfl, hcleared⟩
  · rw [if_neg hnone]
    by_cases hempty : r.pendingFragment = []
    · rw [if_pos hempty]
      exact ⟨rfl, hcleared.trans (takeInitialAmendment_keeps P _)⟩
    · rw [if_neg hempty]
      cases hconsumed : { r with
          pendingFragment := [], pendingFragmentSelection := none }.consumeInitialCompanyPortalLines
        P [r.pendingFragment] now with
      | none => exact ⟨rfl, hcleared.trans (takeInitialAmendment_keeps P _)⟩
      | some consumed =>
        have h := consumeInitialCompanyPortalLines_frames P _ _ now hconsumed
        exact ⟨by show (consumed.1.reset || false) = false; rw [h.reset]; rfl,
          (hcleared.trans h.keeps).trans (takeInitialAmendment_keeps P _)⟩

theorem flushHeldRecord_frames {r s : TailReader I} {batch : TailBatch}
    (h : Frames r (batch, s)) (fragment : Text) (owner : Option (ResolvedParser × Nat)) :
    Frames r (flushHeldRecord P batch fragment owner s) := by
  rw [flushHeldRecord]
  have hcleared := h.keeps.trans (keeps_pendingLogicalRecord s (Owned.recordNone s))
  dsimp only
  generalize ((s.pendingLogicalRecord.map fun p => p.parserSelection).or
    (owner.map Prod.fst)) = selection
  cases selection with
  | none => exact ⟨h.reset, hcleared⟩
  | some selection =>
    dsimp only
    split_ifs
    · exact Frames.append h.reset hcleared (parseCompanyPortalRecords_frames P _ _ _ _)
    · exact Frames.append h.reset hcleared (parseCompanyPortalRecords_frames P _ _ _ _)
    · exact ⟨h.reset, hcleared⟩

theorem flushPendingLogicalRecord_frames (r : TailReader I) (now : Nat) :
    Frames r (r.flushPendingLogicalRecord P now) := by
  rw [flushPendingLogicalRecord]
  have hsupported : Keeps r (if (r.pendingInitialLogicalRecord.isSome &&
      !supportsParser r.parserSelection) = true then
        { r with pendingInitialLogicalRecord := none, discardingCappedInitialLine := false }
      else r) := by
    split_ifs
    · exact (keeps_initial_none r).trans (keeps_discardingCappedInitialLine _ false)
    · exact .refl r
  exact flushHeldRecord_frames P (hsupported.frames (flushInitialFragment_frames P _ now)) _ _

theorem finalizePendingInput_frames (r : TailReader I) (now : Nat) :
    (r.finalizePendingInput P now).1.reset = false ∧
      (r.finalizePendingInput P now).2.byteOffset = r.byteOffset ∧
      (r.finalizePendingInput P now).2.fileIdentity = r.fileIdentity ∧
      (r.finalizePendingInput P now).2.pendingReset = r.pendingReset ∧
      (r.finalizePendingInput P now).2.parserSelection = r.parserSelection ∧
      (r.finalizePendingInput P now).2.encoding = r.encoding := by
  rw [finalizePendingInput]
  dsimp only
  have hflushed := flushPendingLogicalRecord_frames P r now
  have htext := flushPendingText_frames P r
  generalize (((r.pendingLogicalRecord.map fun p => p.parserSelection).or
    (r.pendingFragmentSelection.map Prod.fst)).any companyPortalLogicalFraming) = owner
  cases owner || r.pendingInitialLogicalRecord.isSome with
  | true =>
    have h := hflushed.keeps.source
    exact ⟨hflushed.reset, h.byteOffset, h.fileIdentity, h.pendingReset, h.parserSelection,
      h.encoding⟩
  | false =>
    have h := htext.keeps.source
    exact ⟨htext.reset, h.byteOffset, h.fileIdentity, h.pendingReset, h.parserSelection, h.encoding⟩

/-! ## Text that was read -/

theorem enforceUnterminatedLogicalBound_frames (r : TailReader I) (now : Nat) :
    Frames r (r.enforceUnterminatedLogicalBound P r.parserSelection now) := by
  rw [enforceUnterminatedLogicalBound]
  generalize ((r.pendingLogicalRecord.map fun p => byteLen p.content).getD 0) = pendingLen
  dsimp only
  generalize pendingLen + byteLen r.pendingFragment +
    (if 0 < pendingLen ∧ r.pendingFragment ≠ [] then 1 else 0) = pendingBytes
  generalize frameCompanyPortalLogicalRecords P.looksLikeRecordStart
      (r.pendingLogicalRecord.map fun p => p.content) [r.pendingFragment]
      maxPendingLogicalRecordBytes = framed
  by_cases hfits : pendingBytes ≤ maxPendingLogicalRecordBytes
  · rw [if_pos hfits]
    exact .refl r
  · rw [if_neg hfits]
    have howner : ∀ o ∈ (if framed.pendingRecord.getD [] = [] then none
        else some (r.parserSelection, now)), o.1 = r.parserSelection := by
      split_ifs
      · exact Owned.fragmentNone r
      · exact Owned.fragmentSome r now
    exact ((keeps_pendingLogicalRecord r (Owned.recordNone r)).trans
      (keeps_pendingFragment _ _ howner)).frames (parseCompanyPortalRecords_frames P _ _ _ _)

theorem framePortalLines_frames (r : TailReader I) (now : Nat) (lines : List Text) :
    Frames r (framePortalLines P r.parserSelection r now lines) :=
  (keeps_pendingLogicalRecord r (Owned.recordMap r (frameCompanyPortalLogicalRecords
    P.looksLikeRecordStart (r.pendingLogicalRecord.map fun p => p.content) lines
    maxPendingLogicalRecordBytes).pendingRecord now)).frames
    (parseCompanyPortalRecords_frames P _ _ _ _)

theorem consumeInitialLines_frames (r : TailReader I) (lines : List Text) (now : Nat) :
    Frames r ((r.consumeInitialLines P lines now).1, (r.consumeInitialLines P lines now).2.2) := by
  rw [consumeInitialLines]
  cases hconsumed : r.consumeInitialCompanyPortalLines P lines now with
  | none => exact .refl r
  | some consumed => exact consumeInitialCompanyPortalLines_frames P r lines now hconsumed

theorem parsePhysicalLines_frames (r : TailReader I) (framedText : Text) (lines : List Text) :
    Frames r (r.parsePhysicalLines P framedText lines) := by
  rw [parsePhysicalLines]
  generalize (if isIme r.parserSelection = true then framedText.count '\n' else lines.length) = n
  dsimp only
  split_ifs
  · exact .refl r
  · exact ⟨rfl, r.assignEntryIdentity_keeps _ _⟩

theorem touch_keeps (r : TailReader I) (now : Nat) :
    Keeps r { r with pendingLogicalRecord :=
      r.pendingLogicalRecord.map fun p => { p with lastUpdated := now } } := by
  refine ⟨⟨rfl, rfl, rfl, rfl, rfl, rfl, rfl, rfl⟩, fun ho => ⟨fun p hp => ?_, ho.fragment, ho.initial⟩⟩
  rw [Option.mem_map] at hp
  obtain ⟨held, hheld, rfl⟩ := hp
  exact ho.record held hheld

theorem framed_frames {r s : TailReader I} {batch : TailBatch} (h : Frames r (batch, s))
    (now : Nat) (lines : List Text) (remaining : Option (List Text)) :
    Frames r (match remaining with
      | none =>
        let bounded := s.enforceInitialFragmentBound P now
        (batch.append bounded.1, bounded.2)
      | some remaining =>
        let framed := if lines = [] then ({}, s)
          else framePortalLines P r.parserSelection s now remaining
        let bounded := if framed.2.pendingInitialLogicalRecord.isSome then
            framed.2.enforceInitialFragmentBound P now
          else framed.2.enforceUnterminatedLogicalBound P r.parserSelection now
        ((batch.append framed.1).append bounded.1, bounded.2)) := by
  cases remaining with
  | none => exact Frames.append h.reset h.keeps (enforceInitialFragmentBound_frames P s now)
  | some remaining =>
    have hframed : Frames s (if lines = [] then ({}, s)
        else framePortalLines P r.parserSelection s now remaining) := by
      rw [← h.keeps.source.parserSelection]
      split_ifs
      · exact .refl s
      · exact framePortalLines_frames P s now remaining
    have hboth := Frames.append h.reset h.keeps hframed
    dsimp only
    generalize (if lines = [] then (({} : TailBatch), s)
      else framePortalLines P r.parserSelection s now remaining) = framed at hframed hboth ⊢
    have hbounded : Frames framed.2 (if framed.2.pendingInitialLogicalRecord.isSome = true then
          framed.2.enforceInitialFragmentBound P now
        else framed.2.enforceUnterminatedLogicalBound P r.parserSelection now) := by
      rw [← hboth.keeps.source.parserSelection]
      split_ifs
      · exact enforceInitialFragmentBound_frames P framed.2 now
      · exact enforceUnterminatedLogicalBound_frames P framed.2 now
    exact Frames.append hboth.reset hboth.keeps hbounded

theorem consumePortalLines_frames (r : TailReader I) (now : Nat) (lines : List Text)
    (receivedText : Bool) : Frames r (r.consumePortalLines P now lines receivedText) := by
  rw [consumePortalLines]
  have howned : Keeps r (if r.pendingFragment = [] then r
      else { r with pendingFragmentSelection := some (r.parserSelection, now) }) := by
    split_ifs
    · exact .refl r
    · exact keeps_owner r (Owned.fragmentSome r now)
  generalize (if r.pendingFragment = [] then r
    else { r with pendingFragmentSelection := some (r.parserSelection, now) }) = owned at howned ⊢
  have htouched : Keeps owned (if receivedText = true then
      { owned with pendingLogicalRecord :=
          owned.pendingLogicalRecord.map fun p => { p with lastUpdated := now } }
      else owned) := by
    split_ifs
    · exact touch_keeps owned now
    · exact .refl owned
  dsimp only
  generalize (if receivedText = true then
      { owned with pendingLogicalRecord :=
          owned.pendingLogicalRecord.map fun p => { p with lastUpdated := now } }
      else owned) = touched at htouched ⊢
  have hinitial : Frames touched ((if lines = [] then ({}, some [], touched)
      else touched.consumeInitialLines P lines now).1,
      (if lines = [] then ({}, some [], touched)
        else touched.consumeInitialLines P lines now).2.2) := by
    split_ifs
    · exact .refl touched
    · exact consumeInitialLines_frames P touched lines now
  exact framed_frames P ((howned.trans htouched).frames hinitial) now lines _

theorem consumeLines_frames (r : TailReader I) (now : Nat) (newText : Text) :
    Frames r (r.consumeLines P now newText) := by
  rw [consumeLines]
  have hcleared : Keeps r (if r.pendingFragment = [] then r
      else { r with pendingFragment := [], pendingFragmentSelection := none }) := by
    split_ifs
    · exact .refl r
    · exact keeps_pendingFragment r [] (Owned.fragmentNone r)
  dsimp only
  generalize (if r.pendingFragment = [] then r
    else { r with pendingFragment := [], pendingFragmentSelection := none }) = cleared at hcleared ⊢
  have hopened : ∀ opened ∈ (if cleared.discardingCappedInitialLine = true then
      (splitOnce '\n' (r.pendingFragment ++ newText)).map fun split =>
        (split.2, { cleared with discardingCappedInitialLine := false })
      else some (r.pendingFragment ++ newText, cleared)), Keeps r opened.2 := by
    intro opened h
    split_ifs at h
    · rw [Option.mem_map] at h
      obtain ⟨split, -, rfl⟩ := h
      exact hcleared.trans (keeps_discardingCappedInitialLine cleared false)
    · rw [Option.mem_some_iff] at h
      rw [← h]
      exact hcleared
  generalize (if cleared.discardingCappedInitialLine = true then
      (splitOnce '\n' (r.pendingFragment ++ newText)).map fun split =>
        (split.2, { cleared with discardingCappedInitialLine := false })
      else some (r.pendingFragment ++ newText, cleared)) = opened at hopened ⊢
  cases opened with
  | none => exact ⟨rfl, hcleared⟩
  | some opened =>
    have hkeeps := (hopened opened rfl).trans
      (keeps_fragment_only opened.2 (opened.2.collectLines P opened.1).2)
    dsimp only
    split_ifs
    · exact hkeeps.frames (consumePortalLines_frames P _ now _ _)
    · exact hkeeps.frames (parsePhysicalLines_frames P _ _ _)

theorem consumeText_frames (r : TailReader I) (now : Nat) (newText : Text) :
    Frames r (r.consumeText P now newText) := by
  rw [consumeText]
  cases inventoryLogicalDialect r.parserSelection with
  | none => exact consumeLines_frames P r now newText
  | some dialect =>
    dsimp only
    split_ifs
    · exact .refl r
    · exact processInventoryText_frames P dialect now r rfl newText

end TailReader
end Watcher
end CmTrace
