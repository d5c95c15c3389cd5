import CmTrace.Export.Finalize

/-!
# A chunked session is the plain writer, or nothing

What has to hold of a session and of the files it meets for its finalization to
publish, and that it then publishes what the plain writer writes.
-/

namespace CmTrace
namespace Export

open Text Streamed

variable {δ : Type}

namespace Finalization

variable (F : Finalization δ)

/-- The spool holds these records, the plain writer writes them as `bytes`, and
nothing stands in the way of their publication. -/
structure Publishable (records : List EvtxRecord) (bytes : List UInt8) (stats : ExportStats) :
    Prop where
  receiving : F.session.state = .receiving
  spooled : F.session.spool.isSome
  received : F.session.receivedRecords = F.session.expectedRecords.toNat
  terminated : 0 < F.session.receivedBytes → (F.session.spool.getD []).getLast? = some 10
  decodes : ∀ pass, F.DecodesTo pass (records, none)
  complete : records.length = F.session.expectedRecords.toNat
  written : writeRecords F.rendering F.files.sink F.session.format records = .ok (bytes, stats)
  sources : ∀ r ∈ records,
    F.files.resolveDecoding r.sourceLabel ≠ F.session.destinationIdentity ∧
    F.files.resolvePublishing r.sourceLabel ≠ F.files.resolvePublishing F.session.destination
  protectedSources : F.session.destination ≠ ['-'] → ∀ p ∈ F.session.protectedSources,
    F.files.resolvePublishing p ≠ F.files.resolvePublishing F.session.destination
  files : ∀ step, step = .inspect ∧ F.session.receivedBytes = 0 ∨ F.files.fault step = none

variable {F}

/-! ## Each part of a finalization as a condition -/

theorem io_ok {step : FileStep} {wrap : Text → ExportError} {u : Unit} :
    F.io step wrap = .ok u ↔ F.files.fault step = none := by
  unfold io
  cases F.files.fault step <;> simp

theorem inspect_ok {spool : List UInt8} {u : Unit} :
    F.inspect spool = .ok u ↔ (0 < F.session.receivedBytes →
      F.files.fault .inspect = none ∧ spool.getLast? = some 10) := by
  unfold inspect
  by_cases hbytes : 0 < F.session.receivedBytes
  · simp [hbytes, bind_ok, io_ok, refuseIf_ok]
  · simp [hbytes]

theorem prepare_ok :
    F.prepare = .ok () ↔
      F.session.receivedRecords = F.session.expectedRecords.toNat ∧
      F.session.spool.isSome ∧ F.files.fault .flush = none ∧
      (0 < F.session.receivedBytes → F.files.fault .inspect = none ∧
        (F.session.spool.getD []).getLast? = some 10) ∧
      F.files.fault .rewind = none := by
  unfold prepare
  cases hspool : F.session.spool with
  | none => simp [bind_ok]
  | some spool => simp [bind_ok, refuseIf_ok, io_ok, inspect_ok]

theorem prepareWriting_ok {loop : DecodeLoop} {stream : RecordStream} :
    F.prepareWriting loop = .ok stream ↔
      loop.parsedRecords = F.session.expectedRecords.toNat ∧ F.files.fault .clone = none ∧
      F.files.fault .outputRewind = none ∧ F.files.fault .validationClone = none ∧
      F.files.fault .stage = none ∧
      beginStream F.files.sink F.session.format loop.mapped.names = .ok stream := by
  unfold prepareWriting
  simp [bind_ok, refuseIf_ok, io_ok, mapError_ok]

theorem finishWriting_ok {stream : RecordStream} {file : CountingWriter × ExportStats} :
    F.finishWriting stream = .ok file ↔
      endStream F.files.sink F.session.format stream = .ok file ∧
      F.files.fault .stagedFlush = none := by
  unfold finishWriting
  simp only [bind_ok, mapError_ok, io_ok, pure_ok]
  constructor
  · rintro ⟨a, h, _, hflush, rfl⟩
    exact ⟨h, hflush⟩
  · rintro ⟨h, hflush⟩
    exact ⟨file, h, (), hflush, rfl⟩

theorem preparePublication_ok :
    F.preparePublication = .ok () ↔
      (F.session.destination ≠ ['-'] → ∀ p ∈ F.session.protectedSources,
        F.files.resolvePublishing p ≠ F.files.resolvePublishing F.session.destination) ∧
      F.files.fault .publicationRewind = none := by
  unfold preparePublication rejectSourceDestination
  simp only [bind_ok, io_ok]
  by_cases hdash : F.session.destination = ['-']
  · simp [hdash]
  · simp [hdash]

theorem foldlM_writeBody {mapped : List Text} {records : List EvtxRecord}
    {stream stream' : RecordStream} :
    records.foldlM (F.writeBody mapped) stream = .ok stream' ↔
      records.foldlM (writeRecord F.rendering F.files.sink F.session.format mapped
        (validateRawXmlRecord F.rendering)) stream = .ok stream' := by
  induction records generalizing stream with
  | nil => rw [List.foldlM_nil, List.foldlM_nil, pure_ok, pure_ok]
  | cons record records ih =>
    simp only [List.foldlM_cons, bind_ok, ih, writeBody, mapError_ok]

theorem writeRecords_ok {R : Rendering} {sink : Sink} {format : ExportFormat}
    {records : List EvtxRecord} {bytes : List UInt8} {stats : ExportStats} :
    writeRecords R sink format records = .ok (bytes, stats) ↔
      (∀ r ∈ records, validateRawXmlRecord R r format = .ok ()) ∧
      ∃ acc stream writer,
        records.foldlM (MappedColumnAccumulator.observe R) {} = .ok acc ∧
        (∃ before, beginStream sink format acc.names = .ok before ∧
          records.foldlM (writeRecord R sink format acc.names fun _ _ => .ok ()) before =
            .ok stream) ∧
        endStream sink format stream = .ok (writer, stats) ∧ writer.inner = bytes := by
  unfold writeRecords
  simp only [bind_ok, pure_ok, Prod.mk.injEq]
  constructor
  · rintro ⟨_, hvalid, names, hnames, ⟨writer, stats'⟩, hwritten, rfl, rfl⟩
    unfold mappedColumns at hnames
    cases hacc : records.foldlM (MappedColumnAccumulator.observe R) {} with
    | error e => simp [hacc, Except.map] at hnames
    | ok acc =>
      simp only [hacc, Except.map, Except.ok.injEq] at hnames
      unfold writeRecordStreamUnchecked writeRecordStreamInner at hwritten
      obtain ⟨before, hbefore, hwritten⟩ := bind_ok.mp hwritten
      obtain ⟨stream, hstream, hend⟩ := bind_ok.mp hwritten
      rw [← hnames] at hbefore hstream
      exact ⟨validateRawXml_ok.mp hvalid, acc, stream, writer, rfl, ⟨before, hbefore, hstream⟩,
        hend, rfl⟩
  · rintro ⟨hvalid, acc, stream, writer, hacc, ⟨before, hbefore, hstream⟩, hend, rfl⟩
    refine ⟨(), validateRawXml_ok.mpr hvalid, acc.names, ?_, (writer, stats), ?_, rfl, rfl⟩
    · unfold mappedColumns
      rw [hacc]
      rfl
    · exact bind_ok.mpr ⟨before, hbefore, bind_ok.mpr ⟨stream, hstream, hend⟩⟩

theorem endStream_stats {sink : Sink} {format : ExportFormat} {stream : RecordStream}
    {file : CountingWriter × ExportStats} (h : endStream sink format stream = .ok file) :
    file.2 = ⟨file.1.bytes, stream.count⟩ := by
  unfold endStream at h
  obtain ⟨writer, -, h⟩ := bind_ok.mp h
  rw [← pure_ok.mp h]

/-! ## What is staged -/

theorem staged_ok {records : List EvtxRecord} {bytes : List UInt8} {stats : ExportStats} :
    F.staged (records, none) (records, none) (records, none) = .ok (bytes, stats) ↔
      F.prepare = .ok () ∧ records.length = F.session.expectedRecords.toNat ∧
      writeRecords F.rendering F.files.sink F.session.format records = .ok (bytes, stats) ∧
      (∀ r ∈ records,
        F.files.resolveDecoding r.sourceLabel ≠ F.session.destinationIdentity ∧
        F.files.resolvePublishing r.sourceLabel ≠
          F.files.resolvePublishing F.session.destination) ∧
      F.preparePublication = .ok () ∧ F.files.fault .clone = none ∧
      F.files.fault .outputRewind = none ∧ F.files.fault .validationClone = none ∧
      F.files.fault .stage = none ∧ F.files.fault .stagedFlush = none := by
  have hexpected : F.session.expectedRecords.toNat ≤ u64Max := by
    have := F.session.expectedRecords.toNat_lt
    unfold u64Max
    omega
  unfold staged
  simp only [bind_ok, Reading.outcome_ok, true_and]
  constructor
  · rintro ⟨_, hprepare, loop, hloop, stream, hstream, last, hlast, file, hfile, _, hpublication,
      check, hcheck, h⟩
    obtain ⟨hparsed, hclone, houtput, hvclone, hstage, hbegin⟩ := prepareWriting_ok.mp hstream
    obtain ⟨hend, hflush⟩ := finishWriting_ok.mp hfile
    obtain ⟨hvalid, hsources, hmapped, hcount, -⟩ :=
      (foldlM_decodeRecord (by simp) (Nat.zero_le _)).mp ⟨loop.checkedSources, hloop⟩
    obtain ⟨hpublished, -, -⟩ :=
      (foldlM_checkRecord (by simp) (Nat.zero_le _)).mp ⟨check.checkedSources, hcheck⟩
    rw [foldlM_writeBody, foldlM_writeRecord_validated hvalid] at hlast
    split_ifs at h with hchecked
    cases h
    refine ⟨hprepare, ?_, writeRecords_ok.mpr ⟨hvalid, loop.mapped, last, file.1, hmapped,
      ⟨stream, hbegin, hlast⟩, hend, rfl⟩, fun r hr => ⟨hsources r hr, hpublished r hr⟩,
      hpublication, hclone, houtput, hvclone, hstage, hflush⟩
    rw [← hparsed, hcount]
    exact (Nat.zero_add _).symm
  · rintro ⟨hprepare, hcomplete, hwritten, hsources, hpublication, hclone, houtput, hvclone, hstage,
      hflush⟩
    obtain ⟨hvalid, acc, stream, writer, hmapped, ⟨before, hbefore, hstream⟩, hend, rfl⟩ :=
      writeRecords_ok.mp hwritten
    obtain ⟨checked, hloop⟩ := (@foldlM_decodeRecord F.rendering F.files.resolveDecoding F.session
      records {} acc records.length (by simp) (Nat.zero_le _)).mpr
        ⟨hvalid, fun r hr => (hsources r hr).1, hmapped, (Nat.zero_add _).symm, by omega⟩
    obtain ⟨checked', hcheck⟩ := (@foldlM_checkRecord F.files.resolvePublishing
      F.session.destination records {} records.length (by simp) (Nat.zero_le _)).mpr
        ⟨fun r hr => (hsources r hr).2, (Nat.zero_add _).symm, by omega⟩
    refine ⟨(), hprepare, _, hloop, before, prepareWriting_ok.mpr ⟨hcomplete, hclone, houtput,
      hvclone, hstage, hbefore⟩, stream, ?_, (writer, stats), finishWriting_ok.mpr ⟨hend, hflush⟩,
      (), hpublication, _, hcheck, ?_⟩
    · rw [foldlM_writeBody, foldlM_writeRecord_validated hvalid]
      exact hstream
    · rw [if_neg (not_not.mpr hcomplete)]

theorem Publishable.staged {records : List EvtxRecord} {bytes : List UInt8} {stats : ExportStats}
    (h : F.Publishable records bytes stats) :
    F.staged (records, none) (records, none) (records, none) = .ok (bytes, stats) := by
  have hnone : ∀ step, step ≠ .inspect → F.files.fault step = none := fun step hstep =>
    (h.files step).resolve_left fun hinspect => hstep hinspect.1
  refine staged_ok.mpr ⟨prepare_ok.mpr ⟨h.received, h.spooled, hnone _ (by decide), ?_,
    hnone _ (by decide)⟩, h.complete, h.written, h.sources,
    preparePublication_ok.mpr ⟨h.protectedSources, hnone _ (by decide)⟩, hnone _ (by decide),
    hnone _ (by decide), hnone _ (by decide), hnone _ (by decide), hnone _ (by decide)⟩
  intro hbytes
  exact ⟨(h.files .inspect).resolve_left fun hempty => by omega, h.terminated hbytes⟩

theorem publishable_of_staged {records : List EvtxRecord} {bytes : List UInt8}
    {stats : ExportStats} (hreceiving : F.session.state = .receiving)
    (hdecodes : ∀ pass, F.DecodesTo pass (records, none))
    (h : F.staged (records, none) (records, none) (records, none) = .ok (bytes, stats))
    (hreplace : F.files.fault .replace = none) : F.Publishable records bytes stats := by
  obtain ⟨hprepare, hcomplete, hwritten, hsources, hpublication, hclone, houtput, hvclone, hstage,
    hstagedFlush⟩ := staged_ok.mp h
  obtain ⟨hreceived, hspool, hflush, hterminated, hrewind⟩ := prepare_ok.mp hprepare
  obtain ⟨hprotected, hrewound⟩ := preparePublication_ok.mp hpublication
  refine ⟨hreceiving, hspool, hreceived, fun hbytes => (hterminated hbytes).2, hdecodes, hcomplete,
    hwritten, hsources, hprotected, fun step => ?_⟩
  cases step with
  | inspect =>
    by_cases hbytes : 0 < F.session.receivedBytes
    · exact .inr (hterminated hbytes).1
    · exact .inl ⟨rfl, by omega⟩
  | flush => exact .inr hflush
  | rewind => exact .inr hrewind
  | clone => exact .inr hclone
  | outputRewind => exact .inr houtput
  | validationClone => exact .inr hvclone
  | stage => exact .inr hstage
  | stagedFlush => exact .inr hstagedFlush
  | publicationRewind => exact .inr hrewound
  | replace => exact .inr hreplace

theorem staged_errorless {decoded written checked : List EvtxRecord × Option Text}
    {file : List UInt8 × ExportStats} (h : F.staged decoded written checked = .ok file) :
    decoded.2 = none ∧ written.2 = none ∧ checked.2 = none := by
  unfold staged at h
  obtain ⟨_, -, h⟩ := bind_ok.mp h
  obtain ⟨_, hdecoded, h⟩ := bind_ok.mp h
  obtain ⟨_, -, h⟩ := bind_ok.mp h
  obtain ⟨_, hwritten, h⟩ := bind_ok.mp h
  obtain ⟨_, -, h⟩ := bind_ok.mp h
  obtain ⟨_, -, h⟩ := bind_ok.mp h
  obtain ⟨_, hchecked, -⟩ := bind_ok.mp h
  exact ⟨(Reading.outcome_ok.mp hdecoded).1, (Reading.outcome_ok.mp hwritten).1,
    (Reading.outcome_ok.mp hchecked).1⟩

theorem Publishable.records_eq {records : List EvtxRecord} {bytes : List UInt8}
    {stats : ExportStats} (h : F.Publishable records bytes stats) :
    stats.records = F.session.expectedRecords.toNat := by
  obtain ⟨-, acc, stream, writer, -, ⟨before, hbefore, hstream⟩, hend, -⟩ :=
    writeRecords_ok.mp h.written
  have hzero : before.count = 0 := by
    unfold beginStream at hbefore
    cases hwrite : writeAllOf F.files.sink {} (prologue acc.names F.session.format) with
    | error e => simp [hwrite, Except.map] at hbefore
    | ok writer =>
      simp only [hwrite, Except.map, Except.ok.injEq] at hbefore
      rw [← hbefore]
  have hstats : stats.records = stream.count := congrArg ExportStats.records (endStream_stats hend)
  have hcount := foldlM_writeRecord_count (by omega) hstream
  have hexpected := F.session.expectedRecords.toNat_lt
  rw [hstats, hcount, hzero, h.complete, saturatingAdd, u64Max]
  omega

/-! ## The uncancelled run to its end -/

theorem commit_of_publishable {records : List EvtxRecord} {bytes : List UInt8}
    {stats : ExportStats} (h : F.Publishable records bytes stats) :
    F.commit bytes stats =
      .finished (.ok ⟨F.session.id, stats.records, stats.bytes⟩) (some bytes) := by
  have hreplace : F.files.fault .replace = none :=
    (h.files .replace).resolve_left fun hinspect => by cases hinspect.1
  unfold commit
  rw [hreplace]
  show (if _ then _ else _) = _
  rw [if_neg (not_not.mpr h.records_eq)]

theorem decodesTo_unique {pass pass' : DecodePass} {records records' : List EvtxRecord}
    (h : F.DecodesTo pass (records, none)) (h' : F.DecodesTo pass' (records', none)) :
    records = records' := (h.faultless.unique h'.faultless).1

theorem quiet_finishes (F : Finalization δ) :
    ∃ n result published, F.run (fun _ => false) n = .finished result published ∧
      (∀ records bytes stats, F.Publishable records bytes stats →
        result = .ok ⟨F.session.id, stats.records, stats.bytes⟩ ∧ published = some bytes) ∧
      ((¬ ∃ records bytes stats, F.Publishable records bytes stats) →
        (∃ error, result = .error error) ∧ published = none) := by
  by_cases hstate : F.session.state = .receiving
  swap
  · refine ⟨0, .error .finalizedTwice, none, ?_, fun _ _ _ h => absurd h.receiving hstate,
      fun _ => ⟨⟨_, rfl⟩, rfl⟩⟩
    show F.start = _
    unfold start
    rw [if_pos hstate]
    rfl
  have hstart : F.start = .starting := by
    unfold start
    rw [if_neg (not_not.mpr hstate)]
  obtain ⟨rs₁, e₁, h₁⟩ := F.decoder.exists_decodes (F.source .decoding) (0, F.decoder.start)
  obtain ⟨rs₂, e₂, h₂⟩ := F.decoder.exists_decodes (F.source .writing) (0, F.decoder.start)
  obtain ⟨rs₃, e₃, h₃⟩ := F.decoder.exists_decodes (F.source .revalidating) (0, F.decoder.start)
  obtain ⟨n, hn⟩ := @starting_settles _ F (rs₁, e₁) (rs₂, e₂) (rs₃, e₃) h₁ h₂ h₃
  rw [← hstart, ← run_quiet] at hn
  cases hstaged : F.staged (rs₁, e₁) (rs₂, e₂) (rs₃, e₃) with
  | error error =>
    rw [hstaged] at hn
    refine ⟨n, .error error, none, hn, fun records bytes stats h => ?_, fun _ => ⟨⟨_, rfl⟩, rfl⟩⟩
    obtain ⟨rfl, rfl⟩ := h₁.unique (h.decodes .decoding)
    obtain ⟨rfl, rfl⟩ := h₂.unique (h.decodes .writing)
    obtain ⟨rfl, rfl⟩ := h₃.unique (h.decodes .revalidating)
    rw [h.staged] at hstaged
    cases hstaged
  | ok file =>
    rw [hstaged] at hn
    obtain ⟨rfl, rfl, rfl⟩ : e₁ = none ∧ e₂ = none ∧ e₃ = none := staged_errorless hstaged
    obtain rfl : rs₁ = rs₂ := decodesTo_unique h₁ h₂
    obtain rfl : rs₁ = rs₃ := decodesTo_unique h₁ h₃
    have hdecodes : ∀ pass, F.DecodesTo pass (rs₁, none) := fun pass => by
      cases pass with
      | decoding => exact h₁
      | writing => exact h₂
      | revalidating => exact h₃
    cases hreplace : F.files.fault .replace with
    | some error =>
      have hcommit : F.commit file.1 file.2 = .fail (.cannotReplace F.session.destination error) := by
        unfold commit
        rw [hreplace]
      refine ⟨n, _, none, hn.trans hcommit, fun records bytes stats h => ?_,
        fun _ => ⟨⟨_, rfl⟩, rfl⟩⟩
      rcases h.files .replace with hinspect | hnone
      · cases hinspect.1
      · rw [hreplace] at hnone
        cases hnone
    | none =>
      have hmay := publishable_of_staged hstate hdecodes hstaged hreplace
      refine ⟨n, _, _, hn.trans (commit_of_publishable hmay), fun records bytes stats h => ?_,
        fun hno => absurd ⟨_, _, _, hmay⟩ hno⟩
      obtain rfl : rs₁ = records := decodesTo_unique h₁ (h.decodes .decoding)
      have hsame := h.staged
      rw [hstaged, Except.ok.injEq] at hsame
      rw [hsame]
      exact ⟨rfl, rfl⟩

/-! ## Cancellation -/

theorem poll_finished (cancelled : Bool) {f : Finalizer δ} (h : f.isFinished) :
    F.poll cancelled f = f := by
  cases f with
  | finished result published => rfl
  | _ => cases h

theorem poll_cancelled_of_awaitsRead {f : Finalizer δ} (h : f.awaitsRead) :
    F.poll true f = f := by
  cases f with
  | decoding _ => rfl
  | writing _ _ => rfl
  | revalidating _ _ _ => rfl
  | _ => cases h

theorem poll_cancelled_of_check {f : Finalizer δ} (hread : ¬ f.awaitsRead)
    (hfinished : ¬ f.isFinished) : F.poll true f = .fail .cancelled := by
  cases f with
  | starting => rfl
  | publishing _ _ => rfl
  | committing _ _ => rfl
  | finished _ _ => exact absurd rfl hfinished
  | _ => exact absurd rfl hread

theorem run_flagSet_none (n : Nat) : F.run (flagSet none) n = F.run (fun _ => false) n := rfl

theorem run_flagSet_before {moment n : Nat} (h : n ≤ moment) :
    F.run (flagSet (some moment)) n = F.run (fun _ => false) n := by
  induction n with
  | zero => rfl
  | succ n ih =>
    have hunset : flagSet (some moment) n = false := by
      unfold flagSet
      simp only [Option.any_some, decide_eq_false_iff_not, not_le]
      omega
    rw [run, run, ih (by omega), hunset]

theorem run_flagSet_after (moment n : Nat) :
    F.run (flagSet (some moment)) (moment + n) =
      (F.poll true)^[n] (F.run (fun _ => false) moment) := by
  induction n with
  | zero => exact run_flagSet_before le_rfl
  | succ n ih =>
    have hset : flagSet (some moment) (moment + n) = true := by
      unfold flagSet
      simp only [Option.any_some, decide_eq_true_eq]
      omega
    rw [← Nat.add_assoc, run, ih, hset, Function.iterate_succ_apply']

theorem not_finished_of_awaitsRead {f : Finalizer δ} (h : f.awaitsRead) : ¬ f.isFinished := by
  cases f <;> simp_all [Finalizer.awaitsRead, Finalizer.isFinished]

theorem run_finished_le {flag : Nat → Bool} {n m : Nat} (h : (F.run flag n).isFinished)
    (hle : n ≤ m) : F.run flag m = F.run flag n := by
  induction m, hle using Nat.le_induction with
  | base => rfl
  | succ m _ ih => rw [run, ih, poll_finished _ h]

theorem never_finishes {moment : Nat} (h : (F.run (fun _ => false) moment).awaitsRead) (n : Nat) :
    ¬ (F.run (flagSet (some moment)) n).isFinished := by
  rcases Nat.le_total n moment with hn | hn
  · rw [run_flagSet_before hn]
    intro hfinished
    rw [run_finished_le hfinished hn] at h
    exact not_finished_of_awaitsRead h hfinished
  · obtain ⟨m, rfl⟩ := Nat.exists_eq_add_of_le hn
    rw [run_flagSet_after, Function.iterate_fixed (poll_cancelled_of_awaitsRead h)]
    exact not_finished_of_awaitsRead h

theorem finishes_at_check {moment : Nat} (hread : ¬ (F.run (fun _ => false) moment).awaitsRead)
    (hfinished : ¬ (F.run (fun _ => false) moment).isFinished) :
    F.run (flagSet (some moment)) (moment + 1) = .fail .cancelled := by
  rw [run_flagSet_after, Function.iterate_one, poll_cancelled_of_check hread hfinished]

/-- The flag is not set before the finalization is over. -/
def Unseen (F : Finalization δ) (moment : Option Nat) : Prop :=
  ∀ k, moment = some k → (F.run (fun _ => false) k).isFinished

theorem run_unseen {moment : Option Nat} (h : F.Unseen moment) {n : Nat}
    (hn : (F.run (fun _ => false) n).isFinished) :
    ∃ m, F.run (flagSet moment) m = F.run (fun _ => false) n := by
  cases moment with
  | none => exact ⟨n, run_flagSet_none n⟩
  | some k =>
    have hk := h k rfl
    refine ⟨k, ?_⟩
    rw [run_flagSet_before le_rfl]
    rcases Nat.le_total k n with hle | hle
    · exact (run_finished_le hk hle).symm
    · exact run_finished_le hn hle

/-- The finalization returns: the plain writer's statistics with the plain writer's
bytes in the destination when nothing stands in the way and no look finds the flag
set, and otherwise an error with the destination as it was. -/
def WriterOrNothing (F : Finalization δ) (moment : Option Nat) (old : Option (List UInt8)) : Prop :=
  ∃ n result published, F.run (flagSet moment) n = .finished result published ∧
    (∀ records bytes stats, F.Unseen moment → F.Publishable records bytes stats →
      result = .ok ⟨F.session.id, stats.records, stats.bytes⟩ ∧
      destinationAfter (F.run (flagSet moment) n) old = some bytes) ∧
    ((¬ (F.Unseen moment ∧ ∃ records bytes stats, F.Publishable records bytes stats)) →
      (∃ error, result = .error error) ∧
      destinationAfter (F.run (flagSet moment) n) old = old)

theorem writerOrNothing_iff (F : Finalization δ) (moment : Option Nat)
    (old : Option (List UInt8)) :
    F.WriterOrNothing moment old ↔
      ∀ k, moment = some k → ¬ (F.run (fun _ => false) k).awaitsRead := by
  constructor
  · rintro ⟨n, result, published, hrun, -⟩ k rfl hread
    refine never_finishes hread n ?_
    rw [hrun]
    rfl
  · intro hmoment
    by_cases hunseen : F.Unseen moment
    · obtain ⟨n, result, published, hrun, hpublishes, hfails⟩ := quiet_finishes F
      obtain ⟨m, hm⟩ := run_unseen hunseen (by rw [hrun]; rfl)
      refine ⟨m, result, published, hm.trans hrun, fun records bytes stats _ h => ?_,
        fun hno => ?_⟩
      · obtain ⟨hresult, hpublished⟩ := hpublishes records bytes stats h
        rw [hm, hrun, hpublished]
        exact ⟨hresult, rfl⟩
      · obtain ⟨hresult, hpublished⟩ := hfails fun h => hno ⟨hunseen, h⟩
        rw [hm, hrun, hpublished]
        exact ⟨hresult, rfl⟩
    · -- the first look that finds the flag set is a check
      unfold Unseen at hunseen
      push Not at hunseen
      obtain ⟨k, rfl, hk⟩ := hunseen
      have hrun := finishes_at_check (hmoment k rfl) hk
      refine ⟨k + 1, _, none, hrun, fun _ _ _ h => absurd (h k rfl) hk, fun _ => ?_⟩
      rw [hrun]
      exact ⟨⟨_, rfl⟩, rfl⟩

end Finalization
end Export
end CmTrace
