import CmTrace.Export.Session

/-!
# What a finalization comes to

Each of the three loops as a condition on the records, and the uncancelled run as
one chain of steps over the three decodings of the spool.
-/

namespace CmTrace
namespace Export

open Text Streamed

theorem mapError_ok {ε ε' α : Type} {f : ε → ε'} {x : Except ε α} {a : α} :
    x.mapError f = .ok a ↔ x = .ok a := by
  cases x <;> simp [Except.mapError]

/-! ## The bodies of the loops -/

/-- The labels checked after a record, in both loops that check labels. -/
def checkedAfter (checked : List Text) (label : Text) : List Text :=
  if label ∈ checked ∨ ¬ checked.length < maxCachedRecordSourceLabels then checked
  else label :: checked

variable {R : Rendering} {resolve : Resolve} {s : EventLogExportSession} {destination : Text}

theorem checkSource_ok {checked checked' : List Text} {label : Text} :
    checkSource resolve s checked label = .ok checked' ↔
      (label ∈ checked ∨ resolve label ≠ s.destinationIdentity) ∧
      checked' = checkedAfter checked label := by
  unfold checkSource checkedAfter
  by_cases hseen : label ∈ checked
  · simp [hseen, eq_comm]
  · by_cases hroom : checked.length < maxCachedRecordSourceLabels
    · by_cases hsame : resolve label = s.destinationIdentity
      · simp [hseen, hroom, hsame]
      · simp [hseen, hroom, hsame, eq_comm]
    · by_cases hsame : resolve label = s.destinationIdentity
      · simp [hseen, hroom, hsame]
      · simp [hseen, hroom, hsame, eq_comm]

theorem decodeRecord_ok {loop loop' : DecodeLoop} {record : EvtxRecord} :
    decodeRecord R resolve s loop record = .ok loop' ↔
      validateRawXmlRecord R record s.format = .ok () ∧
      (record.sourceLabel ∈ loop.checkedSources ∨
        resolve record.sourceLabel ≠ s.destinationIdentity) ∧
      loop.mapped.observe R record = .ok loop'.mapped ∧ loop.parsedRecords + 1 ≤ u64Max ∧
      loop' = ⟨loop'.mapped, loop.parsedRecords + 1,
        checkedAfter loop.checkedSources record.sourceLabel⟩ := by
  obtain ⟨mapped', parsed', checked'⟩ := loop'
  unfold decodeRecord
  simp only [bind_ok, pure_ok, mapError_ok, checkSource_ok, refuseIf_ok, DecodeLoop.mk.injEq]
  constructor
  · rintro ⟨_, hvalid, checked, ⟨hlabel, rfl⟩, mapped, hmapped, _, hcount, rfl, rfl, rfl⟩
    exact ⟨hvalid, hlabel, hmapped, by omega, trivial, rfl, rfl⟩
  · rintro ⟨hvalid, hlabel, hmapped, hcount, -, rfl, rfl⟩
    exact ⟨(), hvalid, _, ⟨hlabel, rfl⟩, mapped', hmapped, (), by omega, rfl, rfl, rfl⟩

theorem checkRecord_ok {loop loop' : CheckLoop} {record : EvtxRecord} :
    checkRecord resolve destination loop record = .ok loop' ↔
      loop.parsedRecords + 1 ≤ u64Max ∧
      (record.sourceLabel ∈ loop.checkedSources ∨
        resolve record.sourceLabel ≠ resolve destination) ∧
      loop' = ⟨loop.parsedRecords + 1, checkedAfter loop.checkedSources record.sourceLabel⟩ := by
  unfold checkRecord checkedAfter
  by_cases hcount : loop.parsedRecords + 1 > u64Max
  · rw [if_pos hcount]
    simp only [reduceCtorEq, false_iff, not_and]
    omega
  · rw [if_neg hcount]
    have hle : loop.parsedRecords + 1 ≤ u64Max := by omega
    by_cases hseen : record.sourceLabel ∈ loop.checkedSources
    · simp [hle, hseen, eq_comm]
    · by_cases hsame : resolve record.sourceLabel = resolve destination
      · simp [hseen, hsame]
      · by_cases hroom : loop.checkedSources.length < maxCachedRecordSourceLabels
        · simp [hle, hseen, hsame, hroom, eq_comm]
        · simp [hle, hseen, hsame, hroom, eq_comm]

/-! ## The loops -/

theorem forall_checkedAfter {P : Text → Prop} {checked : List Text} {label : Text}
    (hchecked : ∀ l ∈ checked, P l) (hlabel : P label) : ∀ l ∈ checkedAfter checked label, P l := by
  intro l h
  unfold checkedAfter at h
  split_ifs at h with hkeep
  · exact hchecked l h
  · rcases List.mem_cons.mp h with rfl | h
    · exact hlabel
    · exact hchecked l h

/-- The first loop gets through the records that are valid, come from elsewhere and
fit the header. -/
theorem foldlM_decodeRecord {records : List EvtxRecord} {loop : DecodeLoop}
    {mapped : MappedColumnAccumulator} {parsed : Nat}
    (hchecked : ∀ l ∈ loop.checkedSources, resolve l ≠ s.destinationIdentity)
    (hcount : loop.parsedRecords ≤ u64Max) :
    (∃ checked, records.foldlM (decodeRecord R resolve s) loop = .ok ⟨mapped, parsed, checked⟩) ↔
      (∀ r ∈ records, validateRawXmlRecord R r s.format = .ok ()) ∧
      (∀ r ∈ records, resolve r.sourceLabel ≠ s.destinationIdentity) ∧
      records.foldlM (MappedColumnAccumulator.observe R) loop.mapped = .ok mapped ∧
      parsed = loop.parsedRecords + records.length ∧ parsed ≤ u64Max := by
  induction records generalizing loop with
  | nil =>
    simp only [List.foldlM_nil, pure_ok, List.not_mem_nil, false_imp_iff, implies_true, true_and,
      List.length_nil, Nat.add_zero]
    constructor
    · rintro ⟨checked, rfl⟩
      exact ⟨rfl, rfl, hcount⟩
    · rintro ⟨rfl, rfl, -⟩
      exact ⟨loop.checkedSources, rfl⟩
  | cons record records ih =>
    simp only [List.foldlM_cons, bind_ok, List.forall_mem_cons, List.length_cons]
    constructor
    · rintro ⟨checked, next, hnext, hrest⟩
      obtain ⟨hvalid, hlabel, hmapped, hroom, hloop⟩ := decodeRecord_ok.mp hnext
      have hsource : resolve record.sourceLabel ≠ s.destinationIdentity :=
        hlabel.elim (hchecked _) id
      rw [hloop] at hrest
      have hih := (@ih ⟨next.mapped, loop.parsedRecords + 1,
        checkedAfter loop.checkedSources record.sourceLabel⟩
        (forall_checkedAfter hchecked hsource) hroom).mp ⟨checked, hrest⟩
      obtain ⟨hvalids, hsources, hfold, hparsed, hle⟩ := hih
      refine ⟨⟨hvalid, hvalids⟩, ⟨hsource, hsources⟩, ⟨next.mapped, hmapped, hfold⟩, ?_, hle⟩
      rw [hparsed]
      show loop.parsedRecords + 1 + records.length = _
      omega
    · rintro ⟨⟨hvalid, hvalids⟩, ⟨hsource, hsources⟩, ⟨mid, hmapped, hfold⟩, hparsed, hle⟩
      have hroom : loop.parsedRecords + 1 ≤ u64Max := by omega
      obtain ⟨checked, hrest⟩ := (@ih ⟨mid, loop.parsedRecords + 1,
        checkedAfter loop.checkedSources record.sourceLabel⟩
        (forall_checkedAfter hchecked hsource) hroom).mpr
          ⟨hvalids, hsources, hfold, by rw [hparsed]; simp only; omega, hle⟩
      exact ⟨checked, _, decodeRecord_ok.mpr ⟨hvalid, .inr hsource, hmapped, hroom, rfl⟩, hrest⟩

theorem foldlM_checkRecord {records : List EvtxRecord} {loop : CheckLoop} {parsed : Nat}
    (hchecked : ∀ l ∈ loop.checkedSources, resolve l ≠ resolve destination)
    (hcount : loop.parsedRecords ≤ u64Max) :
    (∃ checked, records.foldlM (checkRecord resolve destination) loop = .ok ⟨parsed, checked⟩) ↔
      (∀ r ∈ records, resolve r.sourceLabel ≠ resolve destination) ∧
      parsed = loop.parsedRecords + records.length ∧ parsed ≤ u64Max := by
  induction records generalizing loop with
  | nil =>
    simp only [List.foldlM_nil, pure_ok, List.not_mem_nil, false_imp_iff, implies_true, true_and,
      List.length_nil, Nat.add_zero]
    constructor
    · rintro ⟨checked, rfl⟩
      exact ⟨rfl, hcount⟩
    · rintro ⟨rfl, -⟩
      exact ⟨loop.checkedSources, rfl⟩
  | cons record records ih =>
    simp only [List.foldlM_cons, bind_ok, List.forall_mem_cons, List.length_cons]
    constructor
    · rintro ⟨checked, next, hnext, hrest⟩
      obtain ⟨hroom, hlabel, rfl⟩ := checkRecord_ok.mp hnext
      have hsource : resolve record.sourceLabel ≠ resolve destination :=
        hlabel.elim (hchecked _) id
      obtain ⟨hsources, hparsed, hle⟩ := (@ih _
        (forall_checkedAfter hchecked hsource) hroom).mp ⟨checked, hrest⟩
      refine ⟨⟨hsource, hsources⟩, ?_, hle⟩
      rw [hparsed]
      show loop.parsedRecords + 1 + records.length = _
      omega
    · rintro ⟨⟨hsource, hsources⟩, hparsed, hle⟩
      have hroom : loop.parsedRecords + 1 ≤ u64Max := by omega
      obtain ⟨checked, hrest⟩ := (@ih ⟨loop.parsedRecords + 1,
        checkedAfter loop.checkedSources record.sourceLabel⟩
        (forall_checkedAfter hchecked hsource) hroom).mpr
          ⟨hsources, by rw [hparsed]; simp only; omega, hle⟩
      exact ⟨checked, _, checkRecord_ok.mpr ⟨hroom, .inr hsource, rfl⟩, hrest⟩

/-! ## The uncancelled run -/

namespace Finalization

variable {δ : Type} (F : Finalization δ)

/-- `f'` is what `f` comes to while nobody cancels. -/
def Settles (f f' : Finalizer δ) : Prop := ∃ n, (F.poll false)^[n] f = f'

variable {F}

theorem Settles.step {f f' : Finalizer δ} (h : F.Settles (F.poll false f) f') : F.Settles f f' := by
  obtain ⟨n, hn⟩ := h
  exact ⟨n + 1, by rw [Function.iterate_succ_apply, hn]⟩

theorem Settles.trans {f f' f'' : Finalizer δ} (h : F.Settles f f') (h' : F.Settles f' f'') :
    F.Settles f f'' := by
  obtain ⟨n, rfl⟩ := h
  obtain ⟨m, rfl⟩ := h'
  exact ⟨m + n, Function.iterate_add_apply _ _ _ _⟩

theorem settles_self (f : Finalizer δ) : F.Settles f f := ⟨0, rfl⟩

theorem run_quiet (n : Nat) : F.run (fun _ => false) n = (F.poll false)^[n] F.start := by
  induction n with
  | zero => rfl
  | succ n ih => rw [Function.iterate_succ_apply', ← ih, run]

variable (F)

/-- What the three decodings and everything between them leave to commit. -/
def staged (decoded written checked : List EvtxRecord × Option Text) :
    Except ExportError (List UInt8 × ExportStats) := do
  F.prepare
  let loop ← Reading.outcome F.decodeBody .cannotDecode {} decoded.1 decoded.2
  let stream ← F.prepareWriting loop
  let stream ← Reading.outcome (F.writeBody loop.mapped.names) F.cannotWrite stream
    written.1 written.2
  let file ← F.finishWriting stream
  F.preparePublication
  let check ← Reading.outcome F.checkBody .cannotDecode {} checked.1 checked.2
  if check.parsedRecords ≠ F.session.expectedRecords.toNat then
    .error (.decodedOf check.parsedRecords F.session.expectedRecords.toNat)
  else .ok (file.1.inner, file.2)

def DecodesTo (pass : DecodePass) (decoded : List EvtxRecord × Option Text) : Prop :=
  F.decoder.Decodes (F.source pass) (0, F.decoder.start) decoded.1 decoded.2

variable {F}

theorem settles_orFail_bind {α β : Type} {x : Except ExportError α}
    {next : α → Except ExportError β} {f : α → Finalizer δ} {last : β → Finalizer δ}
    (h : ∀ a, x = .ok a → F.Settles (f a) (.orFail last (next a))) :
    F.Settles (.orFail f x) (.orFail last (x >>= next)) := by
  cases x with
  | error e => exact settles_self _
  | ok a => exact h a rfl

theorem decoding_settles {decoded : List EvtxRecord × Option Text}
    (h : F.DecodesTo .decoding decoded) (loop : DecodeLoop) :
    F.Settles (.decoding ⟨(0, F.decoder.start), loop⟩) (.orFail F.enterWriting
      (Reading.outcome F.decodeBody .cannotDecode loop decoded.1 decoded.2)) := by
  have hstep : ∀ loop, F.poll false (.decoding loop) =
      (loop.advance F.decoder (F.source .decoding) F.decodeBody .cannotDecode).elim .decoding
        (.orFail F.enterWriting) := fun _ => rfl
  exact Reading.leaves_loop hstep h loop

theorem writing_settles {decoded : List EvtxRecord × Option Text}
    (h : F.DecodesTo .writing decoded) (stream : RecordStream) (mapped : List Text) :
    F.Settles (.writing ⟨(0, F.decoder.start), stream⟩ mapped) (.orFail F.enterPublishing
      (Reading.outcome (F.writeBody mapped) F.cannotWrite stream decoded.1 decoded.2)) := by
  have hstep : ∀ loop, F.poll false (.writing loop mapped) =
      (loop.advance F.decoder (F.source .writing) (F.writeBody mapped) F.cannotWrite).elim
        (.writing · mapped) (.orFail F.enterPublishing) := fun _ => rfl
  exact Reading.leaves_loop hstep h stream

theorem revalidating_settles {decoded : List EvtxRecord × Option Text}
    (h : F.DecodesTo .revalidating decoded) (loop : CheckLoop) (staged : List UInt8)
    (stats : ExportStats) :
    F.Settles (.revalidating ⟨(0, F.decoder.start), loop⟩ staged stats)
      (.orFail (F.enterCommitting staged stats)
        (Reading.outcome F.checkBody .cannotDecode loop decoded.1 decoded.2)) := by
  have hstep : ∀ loop, F.poll false (.revalidating loop staged stats) =
      (loop.advance F.decoder (F.source .revalidating) F.checkBody .cannotDecode).elim
        (.revalidating · staged stats) (.orFail (F.enterCommitting staged stats)) := fun _ => rfl
  exact Reading.leaves_loop hstep h loop

/-- From a session that is receiving, the uncancelled run comes to the commit of what
is staged, or to its error. -/
theorem starting_settles {decoded written checked : List EvtxRecord × Option Text}
    (hdecoded : F.DecodesTo .decoding decoded) (hwritten : F.DecodesTo .writing written)
    (hchecked : F.DecodesTo .revalidating checked) :
    F.Settles .starting
      (.orFail (fun file => F.commit file.1 file.2) (F.staged decoded written checked)) := by
  refine Settles.step (settles_orFail_bind fun _ _ => ?_)
  refine Settles.trans (decoding_settles hdecoded {}) ?_
  refine settles_orFail_bind fun loop _ => settles_orFail_bind fun stream _ => ?_
  refine Settles.trans (writing_settles hwritten stream _) ?_
  refine settles_orFail_bind fun stream _ => settles_orFail_bind fun file _ => ?_
  refine Settles.step (settles_orFail_bind fun _ _ => ?_)
  refine Settles.trans (revalidating_settles hchecked {} _ _) ?_
  refine settles_orFail_bind fun check _ => ?_
  show F.Settles (if _ then _ else _) _
  split_ifs
  · exact settles_self _
  · exact Settles.step (settles_self _)

end Finalization
end Export
end CmTrace
