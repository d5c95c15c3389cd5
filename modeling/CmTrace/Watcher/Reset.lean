import CmTrace.Watcher.Frame
import CmTrace.Watcher.Utf16

/-!
# Resets

A call that sees another identity, or a file shorter than the position, owes a
reset until a call succeeds: the failing calls in between keep the position and
the debt, and the call that succeeds reads the file from its first byte.
-/

namespace CmTrace
namespace Watcher
namespace TailReader

open Text Log

variable {I : Type} [DecidableEq I]

/-- A call: when it is made and what it finds. -/
structure Call (I : Type) where
  now : Nat
  attempt : Option (Opened I)

def readCalls (P : Parsers) (rs : EncodingRs) (r : TailReader I) :
    List (Call I) → List (Except TailError TailBatch) × TailReader I
  | [] => ([], r)
  | call :: calls =>
    let first := r.readNewEntries P rs call.now call.attempt
    let rest := first.2.readCalls P rs calls
    (first.1 :: rest.1, rest.2)

def Observes (r : TailReader I) (file : Opened I) : Prop :=
  identitiesDiffer r.fileIdentity file.identity = true ∨ file.size < r.byteOffset

def watch (r : TailReader I) (file : Opened I) : TailReader I :=
  { r with pendingReset := r.observedReset file }

/-- What is left of a reader when the text of its generation is given up. -/
def forget (r : TailReader I) : TailReader I :=
  { byteOffset      := r.byteOffset
    fileIdentity    := r.fileIdentity
    pendingReset    := r.pendingReset
    parserSelection := r.parserSelection
    nextId          := r.nextId
    nextLine        := 1 }

/-- Nothing is held and the first line comes next. -/
structure Fresh (r : TailReader I) : Prop where
  nextLine : r.nextLine = 1
  pendingFragment : r.pendingFragment = []
  pendingFragmentSelection : r.pendingFragmentSelection = none
  inventoryLineContinuation : r.inventoryLineContinuation = false
  pendingLogicalRecord : r.pendingLogicalRecord = none
  pendingInitialLogicalRecord : r.pendingInitialLogicalRecord = none
  discardingCappedInitialLine : r.discardingCappedInitialLine = false

variable (P : Parsers) (rs : EncodingRs)

/-- The batch ends with what a fresh reader gives for the file from its first
byte, and that reader goes on. -/
def StartsOver (r : TailReader I) (now : Nat) (file : Opened I) (batch : TailBatch)
    (r' : TailReader I) : Prop :=
  ∃ (cleared : TailBatch) (fresh : TailReader I) (buffer : List UInt8) (decoded : DecodedTailBytes),
    Fresh fresh ∧ fresh.parserSelection = r.parserSelection ∧
    file.readExact 0 = some buffer ∧
    r.forget.decodeTailBytes rs buffer (detectEncoding buffer) true = .ok decoded ∧
    batch = cleared.append (fresh.commitRead P now file 0 (detectEncoding buffer) decoded).1 ∧
    r' = (fresh.commitRead P now file 0 (detectEncoding buffer) decoded).2

/-- The batch ends with what the file has after the position, if the call reads
at all; the reader before it differs in what it has flushed. -/
def Continues (r : TailReader I) (now : Nat) (file : Opened I) (batch : TailBatch)
    (r' : TailReader I) : Prop :=
  (r'.byteOffset = r.byteOffset ∧ (r.pendingParserSelectionChanged = true ∨
      file.size = r.byteOffset)) ∨
    ∃ (flushed : TailBatch) (s : TailReader I) (buffer : List UInt8) (decoded : DecodedTailBytes),
      Frames r (flushed, s) ∧
      file.readExact r.byteOffset = some buffer ∧
      s.decodeTailBytes rs buffer
        (if r.byteOffset = 0 then detectEncoding buffer else r.encoding) false = .ok decoded ∧
      batch = flushed.append (s.commitRead P now file r.byteOffset
        (if r.byteOffset = 0 then detectEncoding buffer else r.encoding) decoded).1 ∧
      r' = (s.commitRead P now file r.byteOffset
        (if r.byteOffset = 0 then detectEncoding buffer else r.encoding) decoded).2

/-! ## One call -/

theorem observedReset_isSome (r : TailReader I) (file : Opened I) :
    (r.observedReset file).isSome = true ↔ r.Observes file ∨ r.pendingReset.isSome = true := by
  rw [observedReset, Observes]
  split_ifs with hdiffer hcut
  · simp [hdiffer]
  · simp [hcut.1]
  · cases hp : r.pendingReset with
    | none => simpa [hdiffer, hp] using hcut
    | some _ => simp

theorem observedReset_replaced (r : TailReader I) (file : Opened I) :
    r.observedReset file = some .replaced ↔
      identitiesDiffer r.fileIdentity file.identity = true ∨ r.pendingReset = some .replaced := by
  rw [observedReset]
  split_ifs with hdiffer hcut
  · simp [hdiffer]
  · simp [hdiffer, hcut.2]
  · simp [hdiffer]

theorem readNewEntries_reset (r : TailReader I) (now : Nat) (file : Opened I)
    (h : (r.observedReset file).isSome = true) :
    r.readNewEntries P rs now (some file) =
      match file.readExact 0 with
      | none => (.error .io, r.watch file)
      | some buffer =>
        match (r.watch file).decodeTailBytes rs buffer (detectEncoding buffer) true with
        | .error error => (.error error, r.watch file)
        | .ok decoded =>
          let cleared := (r.watch file).startOver P now
          let committed := cleared.2.commitRead P now file 0 (detectEncoding buffer) decoded
          (.ok (cleared.1.append committed.1), committed.2) := by
  rw [readNewEntries, watch]
  cases hread : file.readExact 0 with
  | none => simp only [h, hread, if_true, Bool.not_true, Bool.false_and, Bool.false_eq_true, if_false]
  | some buffer =>
    dsimp only
    cases hdecode : ({ r with pendingReset := r.observedReset file }).decodeTailBytes rs buffer
        (detectEncoding buffer) true with
    | error _ =>
      simp only [h, hread, hdecode, if_true, Bool.not_true, Bool.false_and, Bool.false_eq_true, if_false]
    | ok _ =>
      simp only [h, hread, hdecode, if_true, Bool.not_true, Bool.false_and, Bool.false_eq_true, if_false,
        TailBatch.empty_append]

theorem watch_eq (r : TailReader I) (file : Opened I) (h : r.observedReset file = none) :
    r.watch file = r := by
  have hnone : r.pendingReset = none := by
    have hseen := observedReset_isSome r file
    rw [h] at hseen
    cases hp : r.pendingReset with
    | none => rfl
    | some _ => simp [hp] at hseen
  rw [watch, h, ← hnone]

/-- The reader when the debounce of what it holds has elapsed. -/
def debounced (r : TailReader I) (now : Nat) : TailBatch × TailReader I :=
  if r.companyPortalDebounceElapsed now then r.flushPendingLogicalRecord P now else ({}, r)

omit [DecidableEq I] in
theorem debounced_frames (r : TailReader I) (now : Nat) : Frames r (r.debounced P now) := by
  rw [debounced]
  split_ifs
  · exact flushPendingLogicalRecord_frames P r now
  · exact .refl r

theorem readNewEntries_continues (r : TailReader I) (now : Nat) (file : Opened I)
    (h : r.observedReset file = none) :
    r.readNewEntries P rs now (some file) =
      if r.pendingParserSelectionChanged = true then
        (.ok (r.finalizePendingInput P now).1,
          { (r.finalizePendingInput P now).2 with fileIdentity := file.identity })
      else
        let flushed := r.debounced P now
        if file.size = r.byteOffset then
          (.ok flushed.1, { flushed.2 with fileIdentity := file.identity })
        else match file.readExact r.byteOffset with
          | none => (.error .io, flushed.2)
          | some buffer =>
            let encoding := if r.byteOffset = 0 then detectEncoding buffer else flushed.2.encoding
            match flushed.2.decodeTailBytes rs buffer encoding false with
            | .error error => (.error error, flushed.2)
            | .ok decoded =>
              let committed := flushed.2.commitRead P now file r.byteOffset encoding decoded
              (.ok (flushed.1.append committed.1), committed.2) := by
  have hwatch := watch_eq r file h
  rw [watch, h] at hwatch
  rw [readNewEntries]
  simp only [h, hwatch, debounced, Option.isSome_none, Bool.not_false, Bool.true_and,
    Bool.false_eq_true, if_false, beq_iff_eq]
  all_goals rfl

/-! ## Starting over -/

section StartOver

omit [DecidableEq I]

theorem parsePortalEach_initial (selection : ResolvedParser) (records : List FramedLogicalRecord)
    (r : TailReader I) :
    (r.parsePortalEach P selection records).2.pendingInitialLogicalRecord =
        r.pendingInitialLogicalRecord ∧
      (r.parsePortalEach P selection records).2.discardingCappedInitialLine =
        r.discardingCappedInitialLine := by
  induction records generalizing r with
  | nil => exact ⟨rfl, rfl⟩
  | cons record records ih =>
    have h := ih (r.assignEntryIdentity (P.parseContentWithSelection selection record.content).1
      record.physicalLines).2
    exact ⟨h.1.trans rfl, h.2.trans rfl⟩

theorem flushHeldRecord_initial (batch : TailBatch) (fragment : Text)
    (owner : Option (ResolvedParser × Nat)) (r : TailReader I) :
    (flushHeldRecord P batch fragment owner r).2.pendingInitialLogicalRecord =
        r.pendingInitialLogicalRecord ∧
      (flushHeldRecord P batch fragment owner r).2.discardingCappedInitialLine =
        r.discardingCappedInitialLine := by
  rw [flushHeldRecord]
  dsimp only
  generalize ((r.pendingLogicalRecord.map fun p => p.parserSelection).or
    (owner.map Prod.fst)) = selection
  cases selection with
  | none => exact ⟨rfl, rfl⟩
  | some selection =>
    dsimp only
    split_ifs
    · exact parsePortalEach_initial P selection _ _
    · exact parsePortalEach_initial P selection _ _
    · exact ⟨rfl, rfl⟩

theorem flushPendingText_initial (r : TailReader I) :
    (r.flushPendingText P).2.pendingInitialLogicalRecord = r.pendingInitialLogicalRecord ∧
      (r.flushPendingText P).2.discardingCappedInitialLine = r.discardingCappedInitialLine := by
  rw [flushPendingText]
  dsimp only
  generalize (((r.pendingLogicalRecord.map fun p => p.parserSelection).or
    (r.pendingFragmentSelection.map Prod.fst)).bind inventoryLogicalDialect) = dialect
  cases dialect with
  | none => exact ⟨rfl, rfl⟩
  | some dialect => exact ⟨rfl, rfl⟩

theorem finalizePendingInput_initial (r : TailReader I) (now : Nat)
    (h : r.pendingInitialLogicalRecord = none) :
    (r.finalizePendingInput P now).2.pendingInitialLogicalRecord = none ∧
      (r.finalizePendingInput P now).2.discardingCappedInitialLine =
        r.discardingCappedInitialLine := by
  have hflushed : (r.flushPendingLogicalRecord P now).2.pendingInitialLogicalRecord = none ∧
      (r.flushPendingLogicalRecord P now).2.discardingCappedInitialLine =
        r.discardingCappedInitialLine := by
    rw [flushPendingLogicalRecord]
    simp only [h, Option.isSome_none, Bool.false_and, Bool.false_eq_true, if_false,
      flushInitialFragment, if_true]
    exact flushHeldRecord_initial P _ _ _ _
  rw [finalizePendingInput]
  dsimp only
  rw [h, Option.isSome_none, Bool.or_false]
  split_ifs
  · exact hflushed
  · exact ⟨(flushPendingText_initial P r).1.trans h, (flushPendingText_initial P r).2⟩

theorem startOver_reset (r : TailReader I) (now : Nat) : (r.startOver P now).1.reset = true := rfl

theorem startOver_replaced (r : TailReader I) (now : Nat) (h : r.pendingReset = some .replaced) :
    r.startOver P now = ({ reset := true },
      { r with
        nextLine                    := 1
        pendingFragment             := []
        pendingFragmentSelection    := none
        inventoryLineContinuation   := false
        pendingLogicalRecord        := none
        pendingInitialLogicalRecord := none
        discardingCappedInitialLine := false }) := by
  rw [startOver]
  dsimp only
  cases ((r.pendingLogicalRecord.map fun p => p.parserSelection).or
    (r.pendingFragmentSelection.map Prod.fst)).any companyPortalLogicalFraming with
  | true => simp [h]
  | false => simp [h]

theorem startOver_fresh (r : TailReader I) (now : Nat) :
    Fresh (r.startOver P now).2 ∧ (r.startOver P now).2.parserSelection = r.parserSelection := by
  rw [startOver]
  dsimp only
  have hdropped : ∀ d : TailReader I, d.pendingInitialLogicalRecord = none →
      d.discardingCappedInitialLine = false → d.parserSelection = r.parserSelection →
      ((if d.pendingReset = some .truncated then d.finalizePendingInput P now
          else ({}, d)).2.pendingInitialLogicalRecord = none ∧
        (if d.pendingReset = some .truncated then d.finalizePendingInput P now
          else ({}, d)).2.discardingCappedInitialLine = false) ∧
        (if d.pendingReset = some .truncated then d.finalizePendingInput P now
          else ({}, d)).2.parserSelection = r.parserSelection := by
    intro d hinitial hdiscarding hselection
    split_ifs
    · have h := finalizePendingInput_initial P d now hinitial
      have hframes := finalizePendingInput_frames P d now
      exact ⟨⟨h.1, h.2.trans hdiscarding⟩, hframes.2.2.2.2.1.trans hselection⟩
    · exact ⟨⟨hinitial, hdiscarding⟩, hselection⟩
  have h := hdropped
    (if (((r.pendingLogicalRecord.map fun p => p.parserSelection).or
        (r.pendingFragmentSelection.map Prod.fst)).any companyPortalLogicalFraming) = true then
      { r with
        pendingInitialLogicalRecord := none
        discardingCappedInitialLine := false
        pendingLogicalRecord        := none
        pendingFragment             := []
        pendingFragmentSelection    := none }
    else { r with pendingInitialLogicalRecord := none, discardingCappedInitialLine := false })
    (by split_ifs <;> rfl) (by split_ifs <;> rfl) (by split_ifs <;> rfl)
  exact ⟨⟨rfl, rfl, rfl, rfl, rfl, h.1.1, h.1.2⟩, h.2⟩

theorem commitRead_spec (r : TailReader I) (now : Nat) (file : Opened I) (readOffset : Nat)
    (encoding : FileEncoding) (decoded : DecodedTailBytes) :
    (r.commitRead P now file readOffset encoding decoded).1.reset = false ∧
      (r.commitRead P now file readOffset encoding decoded).2.pendingReset = none ∧
      (r.commitRead P now file readOffset encoding decoded).2.fileIdentity = file.identity ∧
      (r.commitRead P now file readOffset encoding decoded).2.byteOffset = file.size := by
  have h := consumeText_frames P
    { r with
      fileIdentity         := file.identity
      pendingReset         := none
      byteOffset           := readOffset
      encoding             := encoding
      pendingByte          := decoded.pendingByte
      pendingUtf8Bytes     := decoded.pendingUtf8Bytes
      pendingUtf8Selection := decoded.pendingUtf8Selection } now decoded.text
  exact ⟨h.reset, h.keeps.source.pendingReset, h.keeps.source.fileIdentity, rfl⟩

end StartOver

/-! ## What a call leaves -/

theorem readNewEntries_error (r : TailReader I) (now : Nat) (attempt : Option (Opened I))
    {error : TailError} (h : (r.readNewEntries P rs now attempt).1 = .error error) :
    (r.readNewEntries P rs now attempt).2.fileIdentity = r.fileIdentity ∧
      (r.readNewEntries P rs now attempt).2.byteOffset = r.byteOffset ∧
      (r.readNewEntries P rs now attempt).2.parserSelection = r.parserSelection ∧
      (r.readNewEntries P rs now attempt).2.pendingReset =
        attempt.elim r.pendingReset r.observedReset := by
  cases attempt with
  | none => exact ⟨rfl, rfl, rfl, rfl⟩
  | some file =>
    cases hreset : r.observedReset file with
    | some reset =>
      have hsome : (r.observedReset file).isSome = true := by rw [hreset]; rfl
      rw [readNewEntries_reset P rs r now file hsome] at h ⊢
      cases hread : file.readExact 0 with
      | none => exact ⟨rfl, rfl, rfl, rfl⟩
      | some buffer =>
        simp only [hread] at h ⊢
        cases hdecoded : (r.watch file).decodeTailBytes rs buffer (detectEncoding buffer) true with
        | error _ => exact ⟨rfl, rfl, rfl, rfl⟩
        | ok decoded => rw [hdecoded] at h; cases h
    | none =>
      have hnone : r.pendingReset = none := by
        have hwatch := watch_eq r file hreset
        rw [← hwatch]
        exact hreset
      rw [readNewEntries_continues P rs r now file hreset] at h ⊢
      have hframes := (debounced_frames P r now).keeps.source
      by_cases hchanged : r.pendingParserSelectionChanged = true
      · rw [if_pos hchanged] at h; cases h
      · rw [if_neg hchanged] at h ⊢
        dsimp only at h ⊢
        by_cases hsize : file.size = r.byteOffset
        · rw [if_pos hsize] at h; cases h
        · rw [if_neg hsize] at h ⊢
          have hleft : (r.debounced P now).2.fileIdentity = r.fileIdentity ∧
              (r.debounced P now).2.byteOffset = r.byteOffset ∧
              (r.debounced P now).2.parserSelection = r.parserSelection ∧
              (r.debounced P now).2.pendingReset = (some file).elim r.pendingReset r.observedReset :=
            ⟨hframes.fileIdentity, hframes.byteOffset, hframes.parserSelection,
              (hframes.pendingReset.trans hnone).trans hreset.symm⟩
          cases hread : file.readExact r.byteOffset with
          | none => exact hleft
          | some buffer =>
            simp only [hread] at h ⊢
            split at h
            next => exact hleft
            next => cases h

theorem readNewEntries_startsOver (r : TailReader I) (now : Nat) (file : Opened I)
    (hreset : (r.observedReset file).isSome = true) {batch : TailBatch}
    (h : (r.readNewEntries P rs now (some file)).1 = .ok batch) :
    batch.reset = true ∧ (r.readNewEntries P rs now (some file)).2.pendingReset = none ∧
      StartsOver P rs r now file batch (r.readNewEntries P rs now (some file)).2 := by
  rw [readNewEntries_reset P rs r now file hreset] at h ⊢
  cases hread : file.readExact 0 with
  | none => rw [hread] at h; cases h
  | some buffer =>
    simp only [hread] at h ⊢
    cases hdecoded : (r.watch file).decodeTailBytes rs buffer (detectEncoding buffer) true with
    | error _ => rw [hdecoded] at h; cases h
    | ok decoded =>
      rw [hdecoded] at h
      cases h
      have hfresh := startOver_fresh P (r.watch file) now
      have hspec := commitRead_spec P ((r.watch file).startOver P now).2 now file 0
        (detectEncoding buffer) decoded
      exact ⟨rfl, hspec.2.1, _, _, buffer, decoded, hfresh.1, hfresh.2, hread, hdecoded, rfl, rfl⟩

theorem readNewEntries_goesOn (r : TailReader I) (now : Nat) (file : Opened I)
    (hreset : r.observedReset file = none) {batch : TailBatch}
    (h : (r.readNewEntries P rs now (some file)).1 = .ok batch) :
    batch.reset = false ∧ (r.readNewEntries P rs now (some file)).2.pendingReset = none ∧
      Continues P rs r now file batch (r.readNewEntries P rs now (some file)).2 := by
  have hnone : r.pendingReset = none := by
    rw [← watch_eq r file hreset]
    exact hreset
  rw [readNewEntries_continues P rs r now file hreset] at h ⊢
  have hdebounced := debounced_frames P r now
  have hfinal := finalizePendingInput_frames P r now
  by_cases hchanged : r.pendingParserSelectionChanged = true
  · rw [if_pos hchanged] at h ⊢
    cases h
    exact ⟨hfinal.1, hfinal.2.2.2.1.trans hnone, .inl ⟨hfinal.2.1, .inl hchanged⟩⟩
  · rw [if_neg hchanged] at h ⊢
    dsimp only at h ⊢
    by_cases hsize : file.size = r.byteOffset
    · rw [if_pos hsize] at h ⊢
      cases h
      exact ⟨hdebounced.reset, hdebounced.keeps.source.pendingReset.trans hnone,
        .inl ⟨hdebounced.keeps.source.byteOffset, .inr hsize⟩⟩
    · rw [if_neg hsize] at h ⊢
      cases hread : file.readExact r.byteOffset with
      | none => rw [hread] at h; cases h
      | some buffer =>
        simp only [hread] at h ⊢
        rw [hdebounced.keeps.source.encoding] at h ⊢
        cases hdecoded : (r.debounced P now).2.decodeTailBytes rs buffer
            (if r.byteOffset = 0 then detectEncoding buffer else r.encoding) false with
        | error _ => rw [hdecoded] at h; cases h
        | ok decoded =>
          rw [hdecoded] at h
          cases h
          have hspec := commitRead_spec P (r.debounced P now).2 now file r.byteOffset
            (if r.byteOffset = 0 then detectEncoding buffer else r.encoding) decoded
          refine ⟨?_, hspec.2.1, .inr ⟨_, _, buffer, decoded, hdebounced, hread, hdecoded, rfl, rfl⟩⟩
          show (TailBatch.reset _ || TailBatch.reset _) = false
          rw [hdebounced.reset, hspec.1, Bool.or_self]

theorem readNewEntries_forget (r : TailReader I) (now : Nat) (file : Opened I)
    (hreset : r.observedReset file = some .replaced) {batch : TailBatch}
    (h : (r.readNewEntries P rs now (some file)).1 = .ok batch) :
    r.readNewEntries P rs now (some file) = r.forget.readNewEntries P rs now (some file) := by
  have hforget : r.forget.observedReset file = some .replaced := hreset
  have hsome : (r.observedReset file).isSome = true := by rw [hreset]; rfl
  have hstart := startOver_replaced P (r.watch file) now hreset
  have hstart' := startOver_replaced P (r.forget.watch file) now hforget
  rw [readNewEntries_reset P rs r now file hsome] at h ⊢
  rw [readNewEntries_reset P rs r.forget now file (by rw [hforget]; rfl)]
  cases hread : file.readExact 0 with
  | none => rw [hread] at h; cases h
  | some buffer =>
    simp only [hread] at h ⊢
    have hdecode : (r.forget.watch file).decodeTailBytes rs buffer (detectEncoding buffer) true =
        (r.watch file).decodeTailBytes rs buffer (detectEncoding buffer) true := rfl
    rw [hdecode]
    cases hdecoded : (r.watch file).decodeTailBytes rs buffer (detectEncoding buffer) true with
    | error _ => rw [hdecoded] at h; cases h
    | ok decoded =>
      simp only [hstart, hstart']
      rfl

/-! ## Runs -/

theorem readCalls_error (r : TailReader I) (calls : List (Call I))
    (h : ∀ outcome ∈ (r.readCalls P rs calls).1, ∃ error, outcome = .error error) :
    (r.readCalls P rs calls).2.fileIdentity = r.fileIdentity ∧
      (r.readCalls P rs calls).2.byteOffset = r.byteOffset ∧
      ((r.readCalls P rs calls).2.pendingReset.isSome = true ↔
        (∃ file ∈ calls.filterMap Call.attempt, r.Observes file) ∨
          r.pendingReset.isSome = true) ∧
      ((r.readCalls P rs calls).2.pendingReset = some .replaced ↔
        (∃ file ∈ calls.filterMap Call.attempt,
          identitiesDiffer r.fileIdentity file.identity = true) ∨
          r.pendingReset = some .replaced) := by
  induction calls generalizing r with
  | nil => simp [readCalls]
  | cons call calls ih =>
    rw [readCalls] at h ⊢
    obtain ⟨error, herror⟩ := h _ (List.mem_cons_self ..)
    have hfirst := readNewEntries_error P rs r call.now call.attempt herror
    have hrest := ih (r.readNewEntries P rs call.now call.attempt).2
      fun outcome ho => h outcome (List.mem_cons_of_mem _ ho)
    have hobserves : ∀ file, (r.readNewEntries P rs call.now call.attempt).2.Observes file ↔
        r.Observes file := by
      intro file
      rw [Observes, Observes, hfirst.1, hfirst.2.1]
    simp only [hobserves, hfirst.1, hfirst.2.1] at hrest
    refine ⟨hrest.1, hrest.2.1, hrest.2.2.1.trans ?_, hrest.2.2.2.trans ?_⟩
    · rw [hfirst.2.2.2]
      cases hattempt : call.attempt with
      | none => simp [hattempt]
      | some file =>
        simp only [Option.elim, observedReset_isSome, List.filterMap_cons, hattempt,
          List.mem_cons, exists_eq_or_imp]
        rw [or_left_comm, ← or_assoc]
    · rw [hfirst.2.2.2]
      cases hattempt : call.attempt with
      | none => simp [hattempt]
      | some file =>
        simp only [Option.elim, observedReset_replaced, List.filterMap_cons, hattempt,
          List.mem_cons, exists_eq_or_imp]
        rw [or_left_comm, ← or_assoc]

theorem readNewEntries_ok_pendingReset (r : TailReader I) (now : Nat) (attempt : Option (Opened I))
    {batch : TailBatch} (h : (r.readNewEntries P rs now attempt).1 = .ok batch) :
    (r.readNewEntries P rs now attempt).2.pendingReset = none := by
  cases attempt with
  | none => cases h
  | some file =>
    cases hreset : r.observedReset file with
    | none => exact (readNewEntries_goesOn P rs r now file hreset h).2.1
    | some _ => exact (readNewEntries_startsOver P rs r now file (by rw [hreset]; rfl) h).2.1

theorem readCalls_append (r : TailReader I) (calls calls' : List (Call I)) :
    r.readCalls P rs (calls ++ calls') =
      ((r.readCalls P rs calls).1 ++ ((r.readCalls P rs calls).2.readCalls P rs calls').1,
        ((r.readCalls P rs calls).2.readCalls P rs calls').2) := by
  induction calls generalizing r with
  | nil => rfl
  | cons call calls ih => rw [List.cons_append, readCalls, readCalls, ih]; rfl

theorem readCalls_pendingReset (r : TailReader I) (hr : r.pendingReset = none)
    (calls : List (Call I))
    (h : ∀ outcome ∈ (r.readCalls P rs calls).1.getLast?, ∃ batch, outcome = .ok batch) :
    (r.readCalls P rs calls).2.pendingReset = none := by
  rcases List.eq_nil_or_concat calls with rfl | ⟨front, call, rfl⟩
  · exact hr
  · rw [List.concat_eq_append, readCalls_append] at h ⊢
    obtain ⟨batch, hbatch⟩ := h _ List.getLast?_concat
    exact readNewEntries_ok_pendingReset P rs _ call.now call.attempt hbatch

/-- A reset is neither lost nor invented.  After any calls of which the last
succeeds, and after any calls that fail, a call that succeeds is a reset exactly
when one of the failing calls or the call itself has seen the file replaced or
cut.  It then reads the file from its first byte and its first line, and when
the file was replaced nothing that was held plays a part in it.  Otherwise it
goes on at the position. -/
theorem readCalls_reset (r : TailReader I) (hr : r.pendingReset = none)
    (before failing : List (Call I)) (now : Nat) (file : Opened I) {batch : TailBatch}
    (hbefore : ∀ outcome ∈ (r.readCalls P rs before).1.getLast?, ∃ batch, outcome = .ok batch)
    (hfailing : ∀ outcome ∈ ((r.readCalls P rs before).2.readCalls P rs failing).1,
      ∃ error, outcome = .error error)
    (hbatch : (((r.readCalls P rs before).2.readCalls P rs failing).2.readNewEntries P rs now
      (some file)).1 = .ok batch) :
    let s := (r.readCalls P rs before).2
    let t := (s.readCalls P rs failing).2
    let result := t.readNewEntries P rs now (some file)
    let seen := failing.filterMap Call.attempt ++ [file]
    (batch.reset = true ↔ ∃ f ∈ seen, s.Observes f) ∧
      (batch.reset = true → StartsOver P rs t now file batch result.2) ∧
      ((∃ f ∈ seen, identitiesDiffer s.fileIdentity f.identity = true) →
        result = t.forget.readNewEntries P rs now (some file)) ∧
      (batch.reset = false → t.byteOffset = s.byteOffset ∧
        Continues P rs t now file batch result.2) := by
  intro s t result seen
  have hs : s.pendingReset = none := readCalls_pendingReset P rs r hr before hbefore
  obtain ⟨hidentity, hoffset, howed, hreplaced⟩ := readCalls_error P rs s failing hfailing
  have hobserves : t.Observes file ↔ s.Observes file := by
    rw [Observes, Observes, hidentity, hoffset]
  have hseen : (t.observedReset file).isSome = true ↔ ∃ f ∈ seen, s.Observes f := by
    rw [observedReset_isSome, hobserves, howed, hs]
    simp [seen, or_and_right, exists_or, or_comm]
  have hseen' : t.observedReset file = some .replaced ↔
      ∃ f ∈ seen, identitiesDiffer s.fileIdentity f.identity = true := by
    rw [observedReset_replaced, hidentity, hreplaced, hs]
    simp [seen, or_and_right, exists_or, or_comm]
  have hforget := fun h => readNewEntries_forget P rs t now file (hseen'.mpr h) hbatch
  cases hreset : t.observedReset file with
  | some reset =>
    have hsome : (t.observedReset file).isSome = true := by rw [hreset]; rfl
    obtain ⟨htrue, -, hstart⟩ := readNewEntries_startsOver P rs t now file hsome hbatch
    exact ⟨⟨fun _ => hseen.mp hsome, fun _ => htrue⟩, fun _ => hstart, hforget,
      fun hfalse => by rw [htrue] at hfalse; cases hfalse⟩
  | none =>
    obtain ⟨hfalse, -, hgoes⟩ := readNewEntries_goesOn P rs t now file hreset hbatch
    refine ⟨⟨fun htrue => ?_, fun h => ?_⟩, fun htrue => ?_, hforget, fun _ => ⟨hoffset, hgoes⟩⟩
    · rw [hfalse] at htrue; cases htrue
    · rw [← hseen, hreset] at h; cases h
    · rw [hfalse] at htrue; cases htrue

def plainRows (lines : List Text) : List LogEntry :=
  (lines.zipIdx 1).filterMap fun (line, n) =>
    if isBlank line then none else some { lineNumber := n, message := line }

def plainParsers : Parsers :=
  { parseLinesWithSelection   := fun _ lines => (plainRows lines, 0)
    parseContentWithSelection := fun _ content => (plainRows (lines content), 0)
    detectErrorCodeSpans      := fun _ => []
    completeImePrefixLen      := fun _ => 0
    looksLikeRecordStart      := fun _ => false
    frameLogicalRecords       := fun _ pending _ => { pendingRecord := pending }
    parseFramedRecords        := fun _ _ => ([], 0) }

def plainStart : TailReader Nat :=
  { byteOffset      := 0
    parserSelection := { parser := .plain, recordFraming := .physicalLine }
    nextId          := 0
    nextLine        := 1 }

/-- The file is replaced by a longer one, which is first found unreadable. -/
theorem readCalls_reset_replaced :
    ∃ batch,
      (((plainStart.readCalls plainParsers unsniffed
          [⟨0, some ⟨some 1, 3, some [97, 10, 98]⟩⟩]).2.readCalls plainParsers unsniffed
          [⟨1, none⟩, ⟨2, some ⟨some 2, 4, none⟩⟩]).2.readNewEntries plainParsers unsniffed 3
          (some ⟨some 2, 4, some [99, 10, 100, 10]⟩)).1 = .ok batch ∧
        batch.reset = true :=
  ⟨_, rfl, (readCalls_reset plainParsers unsniffed plainStart rfl
    [⟨0, some ⟨some 1, 3, some [97, 10, 98]⟩⟩] [⟨1, none⟩, ⟨2, some ⟨some 2, 4, none⟩⟩] 3
    ⟨some 2, 4, some [99, 10, 100, 10]⟩
    (fun _ h => ⟨_, (Option.some.inj h).symm⟩)
    (fun outcome h => ⟨.io, by
      rcases List.mem_cons.mp h with h | h
      · exact h
      · exact List.mem_singleton.mp h⟩)
    rfl).1.mpr ⟨⟨some 2, 4, none⟩, List.mem_cons_self .., .inl rfl⟩⟩

end TailReader
end Watcher
end CmTrace
