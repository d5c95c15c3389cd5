import CmTrace.MarkerStore.Serial

/-!
# What a save leaves on disk

From the moment a save is asked for, what is written has been in memory since then; a
file of which nothing is pending has had that written to it last.
-/

namespace CmTrace
namespace MarkerStore

open Collections Js

/-- What a file shows of its markers to a save: `none` when it has none. -/
def FileState.shown (file : FileState) : Option (List Marker) :=
  match file.markers with
  | none => none
  | some fileMap => if fileMap.size = 0 then none else some fileMap.values

def DiskHolds (disk : Option MarkerFile) (file : FileState) : Prop :=
  disk.map (·.markers) = file.shown

theorem diskHolds_snapshot (state : MarkerState) (file : FileState) :
    DiskHolds (markerFileSnapshot state file) file := by
  rw [DiskHolds, markerFileSnapshot, FileState.shown]
  cases file.markers with
  | none => rfl
  | some fileMap =>
    dsimp only
    split <;> rfl

theorem runNext_shown (state : MarkerState) (file : FileState) :
    (runNextMarkerOperation state file).shown = file.shown := by
  rw [runNextMarkerOperation]
  split
  · rfl
  · split <;> rfl

theorem enqueue_shown (state : MarkerState) (file : FileState) (request : Request) :
    (enqueueMarkerOperation state file request).shown = file.shown :=
  runNext_shown ..

/-! ## Tickets -/

theorem runNext_requests (state : MarkerState) (file : FileState) :
    (runNextMarkerOperation state file).requests = file.requests := by
  rw [runNextMarkerOperation]
  split
  · rfl
  · split
    · rfl
    · rename_i operation operations hqueue
      rw [FileState.requests, FileState.requests, hqueue, List.map_append, List.append_assoc]
      rfl

theorem enqueue_requests (state : MarkerState) (file : FileState) (request : Request) :
    (enqueueMarkerOperation state file request).requests =
      file.requests ++ [⟨request, state.nextTicket⟩] := by
  rw [enqueueMarkerOperation, runNext_requests, FileState.requests, FileState.requests,
    List.append_assoc]

theorem FileStep.requests {state : MarkerState} {nextTicket : Nat} {file file' : FileState}
    (hstep : FileStep state nextTicket file file') (hsound : Sound file) {operation : Operation}
    (hmem : operation ∈ file'.requests) :
    operation ∈ file.requests ∨
      (operation.ticket = state.nextTicket ∧ nextTicket = state.nextTicket + 1) := by
  cases hstep with
  | same => exact .inl hmem
  | edit fileMap hdistinct => exact .inl hmem
  | clear => exact .inl hmem
  | load hnext =>
    rw [enqueue_requests, List.mem_append, List.mem_singleton] at hmem
    exact hmem.imp_right fun heq => ⟨congrArg Operation.ticket heq, hnext⟩
  | save hnext =>
    rw [enqueue_requests, List.mem_append, List.mem_singleton] at hmem
    exact hmem.imp_right fun heq => ⟨congrArg Operation.ticket heq, hnext⟩
  | @goOn running next awaiting ticket hfind hgoes =>
    obtain ⟨honly, hticket, -⟩ := running_of_find hsound.serial hfind
    have hrun : running ∈ file.running := by
      rw [honly]
      exact List.mem_singleton_self running
    obtain ⟨hversions, hsame, -, -⟩ :=
      goes_sound hsound.versions hrun (hsound.waits running hrun) hgoes
    have hqueue : next.persistence.operations = file.persistence.operations := by
      generalize running.awaiting = before at hgoes
      cases hgoes with
      | loaded hload => exact (finishLoad_cases hload).1.queue.2
      | _ => rfl
    rw [FileState.requests, goOn_running (hsame.trans honly) hticket] at hmem
    rw [FileState.requests, honly, ← hqueue]
    exact .inl hmem
  | settle hfind =>
    rw [MarkerStore.settle, runNext_requests] at hmem
    refine .inl ?_
    rw [FileState.requests] at hmem ⊢
    rcases List.mem_append.mp hmem with hrun | hqueue
    · obtain ⟨running, hrunning, rfl⟩ := List.mem_map.mp hrun
      exact List.mem_append_left _ (List.mem_map_of_mem (List.mem_of_mem_filter hrunning))
    · exact List.mem_append_right _ hqueue

theorem step_nextTicket {state state' : MarkerState} {event : Event}
    (h : state.step event = some state') : state.nextTicket ≤ state'.nextTicket := by
  cases event with
  | tick clock => cases h; exact le_rfl
  | setActiveCategory category => cases h; exact le_rfl
  | addCategory category => cases h; exact le_rfl
  | toggleMarker filePath lineId identity =>
    obtain ⟨file, -, rfl⟩ := Option.map_eq_some_iff.mp h
    exact le_rfl
  | setMarkerCategory filePath lineId category identity => cases h; exact le_rfl
  | removeMarker filePath lineId identity => cases h; exact le_rfl
  | clearMarkersForFile filePath => cases h; exact le_rfl
  | loadMarkers filePath => cases h; exact Nat.le_succ _
  | saveMarkers filePath => cases h; exact Nat.le_succ _
  | answer filePath ticket reply =>
    obtain ⟨running, -, h⟩ := Option.bind_eq_some_iff.mp h
    obtain ⟨next, -, rfl⟩ := Option.map_eq_some_iff.mp h
    exact le_rfl
  | resume filePath ticket =>
    obtain ⟨running, -, h⟩ := Option.bind_eq_some_iff.mp h
    split at h
    · cases h
      exact le_rfl
    · obtain ⟨next, -, rfl⟩ := Option.map_eq_some_iff.mp h
      exact le_rfl

theorem tickets_below {disk : JsString → Option MarkerFile} {clock : JsString} {events : List Event}
    {state : MarkerState} (h : (MarkerState.initial disk clock).run events = some state)
    (filePath : JsString) : ∀ operation ∈ (state.files filePath).requests,
      operation.ticket < state.nextTicket := by
  refine (runFrom_keeps (P := fun state => (∀ filePath, Sound (state.files filePath)) ∧
    ∀ filePath, ∀ operation ∈ (state.files filePath).requests, operation.ticket < state.nextTicket)
    ⟨fun filePath => sound_initial (disk filePath), fun _ _ hmem => absurd hmem List.not_mem_nil⟩ ?_ h).2 filePath
  rintro event state state' ⟨hsound, hbelow⟩ hstep
  refine ⟨fun filePath => (step_file hstep filePath).sound (hsound filePath), ?_⟩
  intro filePath operation hmem
  rcases (step_file hstep filePath).requests (hsound filePath) hmem with hold | ⟨hnew, hnext⟩
  · exact (hbelow filePath operation hold).trans_le (step_nextTicket hstep)
  · rw [hnew, hnext]
    exact Nat.lt_succ_self _

/-! ## Since a save was asked for -/

/-- What the wait of an operation says of the memory since the save of a ticket was
asked for; `P` holds of a disk that was in memory since. -/
def Running.Fresh (P : Option MarkerFile → Prop) (intent ticket : Nat) (disk : Option MarkerFile)
    (running : Running) : Prop :=
  match running.awaiting with
  | .write _ content _ intentVersion => intent ≤ intentVersion → P content
  | .written _ outcome _ intentVersion => intent ≤ intentVersion → outcome ≠ .failed → P disk
  | .flushed .save outcome =>
    running.operation.ticket = ticket → outcome ≠ some .failed → P disk
  | .returned (.save outcome) => running.operation.ticket = ticket → outcome ≠ .failed → P disk
  | _ => True

structure Fresh (P : Option MarkerFile → Prop) (intent ticket : Nat) (file : FileState) : Prop where
  asked : intent ≤ file.persistence.saveIntentVersion
  clean : intent ≤ file.persistence.completedSaveIntentVersion →
    hasPendingMarkerSave file.persistence = false → P file.disk
  waits : ∀ running ∈ file.running, running.Fresh P intent ticket file.disk

section Fresh

variable {P P' : Option MarkerFile → Prop} {intent ticket : Nat} {state : MarkerState}
  {file : FileState}

theorem Running.Fresh.mono {running : Running} {disk : Option MarkerFile}
    (h : running.Fresh P intent ticket disk) (hmono : ∀ disk, P disk → P' disk) :
    running.Fresh P' intent ticket disk := by
  rw [Running.Fresh] at h ⊢
  split at h <;> simp_all

theorem Fresh.mono (h : Fresh P intent ticket file) (hmono : ∀ disk, P disk → P' disk) :
    Fresh P' intent ticket file where
  asked := h.asked
  clean hdone hpending := hmono _ (h.clean hdone hpending)
  waits running hmem := (h.waits running hmem).mono hmono

/-- A file of which nothing is pending has what it should on disk. -/
def Clean (P : Option MarkerFile → Prop) (file : FileState) : Prop :=
  hasPendingMarkerSave file.persistence = false → P file.disk

theorem Fresh.isClean (h : Fresh P intent ticket file) : Clean P file :=
  fun hpending => h.clean (h.asked.trans (completed_of_not_pending hpending)) hpending

theorem flush_fresh (hclean : Clean P file) (hnow : ∀ disk, DiskHolds disk file → P disk)
    (operation : Operation) (caller : Caller) (lastOutcome : Option MarkerSaveOutcome) :
    Running.Fresh P intent ticket file.disk
      ⟨operation, flushPendingMarkerSave state file caller lastOutcome⟩ := by
  rw [flushPendingMarkerSave]
  split
  · exact fun _ => hnow _ (diskHolds_snapshot state file)
  · rename_i hpending
    cases caller with
    | load outcome => trivial
    | save => exact fun _ _ => hclean (Bool.eq_false_iff.mpr hpending)

theorem afterLoad_fresh (hclean : Clean P file) (hnow : ∀ disk, DiskHolds disk file → P disk)
    (operation : Operation) (outcome : MarkerLoadOutcome) :
    Running.Fresh P intent ticket file.disk ⟨operation, afterLoad state file outcome⟩ := by
  rw [afterLoad]
  split
  · exact flush_fresh hclean hnow operation _ _
  · trivial

theorem afterSaveLoad_fresh (hclean : Clean P file) (hnow : ∀ disk, DiskHolds disk file → P disk)
    (operation : Operation) :
    Running.Fresh P intent ticket file.disk ⟨operation, afterSaveLoad state file⟩ := by
  rw [afterSaveLoad]
  split
  · exact fun _ hfailed => absurd rfl hfailed
  · exact flush_fresh hclean hnow operation _ _

theorem start_fresh (hclean : Clean P file) (hnow : ∀ disk, DiskHolds disk file → P disk)
    (operation : Operation) :
    Running.Fresh P intent ticket file.disk ⟨operation, operation.start state file⟩ := by
  rw [Operation.start]
  split
  · rw [performMarkerLoadRequest]
    split
    · exact afterLoad_fresh hclean hnow operation _
    · trivial
  · rw [performMarkerSaveRequest]
    split
    · trivial
    · exact afterSaveLoad_fresh hclean hnow operation

theorem runNext_fresh (h : Fresh P intent ticket file)
    (hnow : ∀ disk, DiskHolds disk file → P disk) :
    Fresh P intent ticket (runNextMarkerOperation state file) := by
  rw [runNextMarkerOperation]
  split
  · exact h
  · split
    · exact h
    · rename_i operation operations _
      refine ⟨h.asked, h.clean, fun running hmem => ?_⟩
      rcases List.mem_append.mp hmem with hold | hnew
      · exact h.waits running hold
      · rw [List.mem_singleton.mp hnew]
        exact start_fresh h.isClean hnow operation

theorem enqueue_fresh (h : Fresh P intent ticket file)
    (hnow : ∀ disk, DiskHolds disk file → P disk) (request : Request) :
    Fresh P intent ticket (enqueueMarkerOperation state file request) :=
  runNext_fresh ⟨h.asked, h.clean, h.waits⟩ hnow

theorem noteSaveIntent_pending (hversions : Versions file) :
    hasPendingMarkerSave (noteSaveIntent file).persistence = true :=
  (pending_iff _).mpr (.inl (Nat.lt_succ_of_le hversions.completed))

theorem goes_fresh {next : FileState} {running : Running} {awaiting : Awaiting}
    (h : Fresh P intent ticket file) (hmem : running ∈ file.running)
    (hwait : running.awaiting.Sound file) (hnow : ∀ disk, DiskHolds disk next → P disk)
    (hgoes : Goes state file running.operation.request running.awaiting next awaiting) :
    intent ≤ next.persistence.saveIntentVersion ∧
      (intent ≤ next.persistence.completedSaveIntentVersion → Clean P next) ∧
      Running.Fresh P intent ticket next.disk { running with awaiting := awaiting } := by
  have hfresh := h.waits running hmem
  rw [Running.Fresh] at hfresh
  generalize running.awaiting = before at hgoes hwait hfresh
  have hclean := h.isClean
  cases hgoes with
  | loaded hload =>
    have hloaded := (finishLoad_cases hload).1
    refine ⟨hloaded.intents.2 ▸ h.asked, fun _ hpending => ?_, trivial⟩
    rw [hloaded.disk]
    exact hclean (hloaded.pending ▸ hpending)
  | notLoaded => exact ⟨h.asked, fun _ => hclean, trivial⟩
  | wrote =>
    refine ⟨h.asked, fun _ hpending => absurd (hwait.2.1.symm.trans hpending) (by decide), ?_⟩
    exact fun hintent _ => hfresh hintent
  | notWritten =>
    refine ⟨h.asked, fun _ hpending => absurd (hwait.2.1.symm.trans hpending) (by decide), ?_⟩
    exact fun _ hfailed => absurd rfl hfailed
  | afterLoad => exact ⟨h.asked, fun _ => hclean, afterLoad_fresh hclean hnow _ _⟩
  | afterSaveLoad => exact ⟨h.asked, fun _ => hclean, afterSaveLoad_fresh hclean hnow _⟩
  | @notSaved caller mutationVersion intentVersion =>
    refine ⟨h.asked, fun _ => hclean, ?_⟩
    cases caller with
    | load outcome => trivial
    | save => exact fun _ hfailed => absurd rfl hfailed
  | @saved caller outcome mutationVersion intentVersion houtcome =>
    -- the write that went through is the one that was asked for last
    have hcleaned : Clean P (noteSaved file outcome mutationVersion intentVersion) := by
      intro hpending
      have hdone := completed_of_not_pending hpending
      have hmax : (noteSaved file outcome mutationVersion
          intentVersion).persistence.completedSaveIntentVersion = intentVersion :=
        max_eq_right hwait.2.2.1
      rw [hmax] at hdone
      exact hfresh (h.asked.trans hdone) houtcome
    exact ⟨h.asked, fun _ => hcleaned, flush_fresh hcleaned hnow _ _ _⟩
  | @flushed caller outcome =>
    refine ⟨h.asked, fun _ => hclean, ?_⟩
    cases caller with
    | load outcome => trivial
    | save =>
      intro hticket hne
      refine hfresh hticket fun hfailed => hne ?_
      rw [hfailed, Option.some_or, Option.getD_some]
  | returned => exact ⟨h.asked, fun _ => hclean, trivial⟩

theorem FileStep.fresh {nextTicket : Nat} {file' : FileState}
    (hstep : FileStep state nextTicket file file') (hsound : Sound file)
    (h : Fresh P intent ticket file) (hmono : ∀ disk, P disk → P' disk)
    (hnow : ∀ disk, DiskHolds disk file' → P' disk) : Fresh P' intent ticket file' := by
  have h := h.mono hmono
  cases hstep with
  | same => exact h
  | edit fileMap hdistinct =>
    refine ⟨h.asked, fun hdone hpending => h.clean hdone ?_, h.waits⟩
    exact (pending_noteMarkerMutation { file with markers := some fileMap }
      hsound.versions.requested file.markers false).symm.trans hpending
  | clear =>
    refine ⟨h.asked, fun hdone hpending => h.clean hdone ?_, h.waits⟩
    exact (pending_noteMarkerMutation
      { file with markers := none, clearRevision := file.clearRevision + 1 }
      hsound.versions.requested file.markers true).symm.trans hpending
  | load =>
    refine enqueue_fresh h (fun disk hholds => hnow disk ?_) _
    exact hholds.trans (enqueue_shown ..).symm
  | save =>
    have hnoted : Fresh P' intent ticket (noteSaveIntent file) :=
      ⟨h.asked.trans (Nat.le_succ _), fun _ hpending => absurd
        ((noteSaveIntent_pending hsound.versions).symm.trans hpending) (by decide), h.waits⟩
    refine enqueue_fresh hnoted (fun disk hholds => hnow disk ?_) _
    exact hholds.trans (enqueue_shown ..).symm
  | @goOn running next awaiting found hfind hgoes =>
    obtain ⟨honly, hticket, -⟩ := running_of_find hsound.serial hfind
    have hrun : running ∈ file.running := by
      rw [honly]
      exact List.mem_singleton_self running
    have hwait := hsound.waits running hrun
    obtain ⟨hversions, hsame, -, -⟩ := goes_sound hsound.versions hrun hwait hgoes
    have hnow' : ∀ disk, DiskHolds disk next → P' disk := hnow
    obtain ⟨hasked, hclean, hfresh⟩ := goes_fresh h hrun hwait hnow' hgoes
    refine ⟨hasked, hclean, fun running' hmem => ?_⟩
    rw [goOn_running (hsame.trans honly) hticket, List.mem_singleton] at hmem
    rw [hmem]
    exact hfresh
  | settle hfind =>
    refine runNext_fresh ⟨h.asked, h.clean, fun running hmem => ?_⟩ fun disk hholds => hnow disk ?_
    · exact h.waits running (List.mem_of_mem_filter hmem)
    · exact hholds.trans (runNext_shown ..).symm

theorem call_fresh (hsound : Sound file)
    (htickets : ∀ operation ∈ file.requests, operation.ticket < state.nextTicket)
    (hnow : ∀ disk, DiskHolds disk file → P disk) :
    Fresh P (file.persistence.saveIntentVersion + 1) state.nextTicket
      (enqueueMarkerOperation state (noteSaveIntent file) .save) := by
  have hnoted : Fresh P (file.persistence.saveIntentVersion + 1) state.nextTicket
      (noteSaveIntent file) := by
    refine ⟨le_rfl, fun _ hpending => absurd
      ((noteSaveIntent_pending hsound.versions).symm.trans hpending) (by decide), ?_⟩
    intro running hmem
    have hwait := hsound.waits running hmem
    have hticket : running.operation.ticket ≠ state.nextTicket :=
      Nat.ne_of_lt (htickets _ (List.mem_append_left _ (List.mem_map_of_mem hmem)))
    obtain ⟨operation, awaiting⟩ := running
    cases awaiting with
    | read => trivial
    | loaded => trivial
    | write => exact fun hintent => absurd (hintent.trans hwait.2.2.2) (Nat.not_succ_le_self _)
    | written => exact fun hintent => absurd (hintent.trans hwait.2.2.2) (Nat.not_succ_le_self _)
    | flushed caller outcome =>
      cases caller with
      | load loadOutcome => trivial
      | save => exact fun heq => absurd heq hticket
    | returned outcome =>
      cases outcome with
      | load loadOutcome => trivial
      | save saveOutcome => exact fun heq => absurd heq hticket
    | settling => trivial
  exact enqueue_fresh hnoted hnow .save

end Fresh

end MarkerStore
end CmTrace
