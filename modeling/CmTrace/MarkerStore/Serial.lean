import CmTrace.MarkerStore.Steps

/-!
# One operation at a time

A file has one running operation at most, and what that operation waits for agrees with
the versions the file counts: nothing is written before it is loaded, and a save that
failed is still pending.
-/

namespace CmTrace
namespace MarkerStore

open Collections Js

/-- The requests of a file that are running or queued. -/
def FileState.requests (file : FileState) : List Operation :=
  file.running.map (·.operation) ++ file.persistence.operations

/-- A file that is not loaded: all that is there are edits, and nothing is written. -/
structure Unread (file : FileState) : Prop where
  baseline : file.persistence.preLoadMutationBaseline.getD ∅ = ∅
  clean : file.persistence.preLoadMutationBaseline = none → file.markers.getD ∅ = ∅
  distinct : Distinct (file.markers.getD ∅)
  unsaved : file.persistence.completedSaveIntentVersion = 0

/-- What the versions of a file say at any time. -/
structure Versions (file : FileState) : Prop where
  unread : file.persistence.loadState ≠ .ready → Unread file
  requested : file.persistence.requestedMutationVersion ≤ file.persistence.mutationVersion
  completed : file.persistence.completedSaveIntentVersion ≤ file.persistence.saveIntentVersion
  saved : 0 < file.persistence.completedSaveIntentVersion →
    ∃ outcome, file.persistence.lastSaveOutcome = some outcome ∧ outcome ≠ .failed
  asked : ∀ operation ∈ file.requests, operation.request = .save →
    0 < file.persistence.saveIntentVersion

def Awaiting.Sound (file : FileState) : Awaiting → Prop
  | .read initial _ clearRevision _ =>
    file.persistence.loadState ≠ .ready ∧ initial = ∅ ∧ clearRevision ≤ file.clearRevision
  | .write _ _ _ intentVersion | .written _ _ _ intentVersion =>
    file.persistence.loadState = .ready ∧ hasPendingMarkerSave file.persistence = true ∧
      file.persistence.completedSaveIntentVersion ≤ intentVersion ∧
      intentVersion ≤ file.persistence.saveIntentVersion
  | .flushed caller outcome =>
    (outcome = some .failed → hasPendingMarkerSave file.persistence = true) ∧
      (caller = .save → outcome = none → 0 < file.persistence.completedSaveIntentVersion)
  | .returned outcome => outcome = .save .failed → hasPendingMarkerSave file.persistence = true
  | .loaded _ | .settling => True

/-- The queue of a file: it is idle and empty, or it runs one operation. -/
def Serial (file : FileState) : Prop :=
  (file.running = [] ∧ file.persistence.operationRunning = false ∧
    file.persistence.operations = []) ∨
  ∃ running, file.running = [running] ∧ file.persistence.operationRunning = true

structure Sound (file : FileState) : Prop where
  serial : Serial file
  versions : Versions file
  waits : ∀ running ∈ file.running, running.awaiting.Sound file

theorem sound_initial (disk : Option MarkerFile) : Sound { disk := disk } where
  serial := .inl ⟨rfl, rfl, rfl⟩
  versions :=
    { unread    := fun _ => ⟨rfl, fun _ => rfl, distinct_empty, rfl⟩
      requested := le_rfl
      completed := le_rfl
      saved     := fun h => absurd h (Nat.lt_irrefl 0)
      asked     := fun _ h => (nomatch h) }
  waits := fun _ h => (nomatch h)

/-! ## Pending saves -/

theorem pending_iff (p : MarkerFilePersistenceState) : hasPendingMarkerSave p = true ↔
    p.completedSaveIntentVersion < p.saveIntentVersion ∨
      p.savedMutationVersion < p.requestedMutationVersion := by
  rw [hasPendingMarkerSave, Bool.or_eq_true, decide_eq_true_eq, decide_eq_true_eq]

theorem completed_of_not_pending {p : MarkerFilePersistenceState}
    (h : hasPendingMarkerSave p = false) : p.saveIntentVersion ≤ p.completedSaveIntentVersion := by
  rw [Bool.eq_false_iff, Ne, pending_iff, not_or, Nat.not_lt] at h
  exact h.1

theorem pending_noteMarkerMutation (file : FileState)
    (hrequested : file.persistence.requestedMutationVersion ≤ file.persistence.mutationVersion)
    (baseline : Option FileMap) (clearsFile : Bool) :
    hasPendingMarkerSave (file.noteMarkerMutation baseline clearsFile).persistence =
      hasPendingMarkerSave file.persistence := by
  rw [Bool.eq_iff_iff, pending_iff, pending_iff]
  dsimp only [FileState.noteMarkerMutation]
  split
  · rename_i hpending
    rw [pending_iff] at hpending
    omega
  · rfl

/-- A wait goes on to say what it says when the versions it speaks of stay or the
counts of what was asked rise. -/
theorem Awaiting.Sound.mono {file file' : FileState} {awaiting : Awaiting} (h : awaiting.Sound file)
    (hload : file'.persistence.loadState = file.persistence.loadState)
    (hpending : hasPendingMarkerSave file.persistence = true →
      hasPendingMarkerSave file'.persistence = true)
    (hcompleted : file'.persistence.completedSaveIntentVersion =
      file.persistence.completedSaveIntentVersion)
    (hintent : file.persistence.saveIntentVersion ≤ file'.persistence.saveIntentVersion)
    (hclear : file.clearRevision ≤ file'.clearRevision) : awaiting.Sound file' := by
  cases awaiting with
  | read initial categories clearRevision discard =>
    exact ⟨hload ▸ h.1, h.2.1, h.2.2.trans hclear⟩
  | write caller content mutationVersion intentVersion =>
    exact ⟨hload ▸ h.1, hpending h.2.1, hcompleted ▸ h.2.2.1, h.2.2.2.trans hintent⟩
  | written caller outcome mutationVersion intentVersion =>
    exact ⟨hload ▸ h.1, hpending h.2.1, hcompleted ▸ h.2.2.1, h.2.2.2.trans hintent⟩
  | flushed caller outcome => exact ⟨fun ho => hpending (h.1 ho), hcompleted ▸ h.2⟩
  | returned outcome => exact fun ho => hpending (h ho)
  | loaded outcome => trivial
  | settling => trivial

/-! ## The start of an operation -/

def FileState.withQueue (file : FileState) (running : List Running) (operationRunning : Bool)
    (operations : List Operation) : FileState :=
  { file with
    persistence := { file.persistence with
      operationRunning := operationRunning, operations := operations }
    running     := running }

theorem Versions.withQueue {file : FileState} (h : Versions file) (running : List Running)
    (operationRunning : Bool) (operations : List Operation)
    (hasked : ∀ operation ∈ running.map (·.operation) ++ operations, operation.request = .save →
      0 < file.persistence.saveIntentVersion) :
    Versions (file.withQueue running operationRunning operations) where
  unread hready :=
    have hunread := h.unread hready
    ⟨hunread.baseline, hunread.clean, hunread.distinct, hunread.unsaved⟩
  requested := h.requested
  completed := h.completed
  saved := h.saved
  asked := hasked

section Start

variable {state : MarkerState} {file : FileState}

theorem flush_sound (hversions : Versions file) (hready : file.persistence.loadState = .ready)
    {caller : Caller} {lastOutcome : Option MarkerSaveOutcome} (hlast : lastOutcome ≠ some .failed)
    (hsave : caller = .save → lastOutcome = none → 0 < file.persistence.saveIntentVersion) :
    (flushPendingMarkerSave state file caller lastOutcome).Sound file := by
  rw [flushPendingMarkerSave]
  split
  · rename_i hpending
    exact ⟨hready, hpending, hversions.completed, le_rfl⟩
  · rename_i hpending
    refine ⟨fun h => absurd h hlast, fun hcaller hnone => ?_⟩
    have hdone := completed_of_not_pending (Bool.eq_false_iff.mpr hpending)
    exact (hsave hcaller hnone).trans_le hdone

theorem read_sound (hversions : Versions file) (hready : file.persistence.loadState ≠ .ready) :
    (loadMarkerFileIntoStore state file).Sound file := by
  have hunread := hversions.unread hready
  refine ⟨hready, ?_, le_rfl⟩
  cases hbaseline : file.persistence.preLoadMutationBaseline with
  | none => rw [Option.getD_none, hunread.clean hbaseline]
  | some baseline =>
    have hempty := hunread.baseline
    rwa [hbaseline] at hempty

theorem afterLoad_sound (hversions : Versions file) (outcome : MarkerLoadOutcome) :
    (afterLoad state file outcome).Sound file := by
  rw [afterLoad]
  split
  · rename_i h
    exact flush_sound hversions h.1 (by decide) fun hcaller => nomatch hcaller
  · exact fun h => nomatch h

theorem afterSaveLoad_sound (hversions : Versions file)
    (hasked : 0 < file.persistence.saveIntentVersion) : (afterSaveLoad state file).Sound file := by
  rw [afterSaveLoad]
  split
  · rename_i hready
    intro _
    rw [pending_iff, (hversions.unread hready).unsaved]
    exact .inl hasked
  · rename_i hready
    exact flush_sound hversions (not_not.mp hready) (by decide) fun _ _ => hasked

theorem start_sound (hversions : Versions file) {operation : Operation}
    (hmem : operation ∈ file.requests) : (operation.start state file).Sound file := by
  rw [Operation.start]
  split
  · rw [performMarkerLoadRequest]
    split
    · exact afterLoad_sound hversions _
    · rename_i hready
      exact read_sound hversions hready
  · rename_i hrequest
    rw [performMarkerSaveRequest]
    split
    · rename_i hready
      exact read_sound hversions hready
    · exact afterSaveLoad_sound hversions (hversions.asked operation hmem hrequest)

theorem runNext_sound (hversions : Versions file) (hrunning : file.running = [])
    (hidle : file.persistence.operationRunning = false) :
    Sound (runNextMarkerOperation state file) := by
  rw [runNextMarkerOperation, if_neg (by rw [hidle]; decide)]
  split
  · rename_i hempty
    refine ⟨.inl ⟨hrunning, hidle, hempty⟩, hversions, fun running hmem => ?_⟩
    rw [hrunning] at hmem
    cases hmem
  · rename_i operation operations hqueue
    have hmem : operation ∈ file.requests := by
      rw [FileState.requests, hrunning, hqueue]
      exact List.mem_cons_self ..
    refine ⟨.inr ⟨_, by rw [hrunning]; rfl, rfl⟩, hversions.withQueue _ _ _ fun operation' hmem' => ?_,
      fun running hrun => ?_⟩
    · refine hversions.asked operation' ?_
      rw [hrunning] at hmem'
      rw [FileState.requests, hrunning, hqueue]
      exact hmem'
    · rw [hrunning, List.nil_append, List.mem_singleton] at hrun
      rw [hrun]
      exact start_sound hversions hmem

theorem enqueue_sound (h : Sound file) {request : Request}
    (hasked : request = .save → 0 < file.persistence.saveIntentVersion) :
    Sound (enqueueMarkerOperation state file request) := by
  have hversions : Versions (file.withQueue file.running file.persistence.operationRunning
      (file.persistence.operations ++ [⟨request, state.nextTicket⟩])) := by
    refine h.versions.withQueue _ _ _ fun operation hmem hsave => ?_
    rw [← List.append_assoc] at hmem
    rcases List.mem_append.mp hmem with hold | hnew
    · exact h.versions.asked operation hold hsave
    · rw [List.mem_singleton.mp hnew] at hsave
      exact hasked hsave
  rw [enqueueMarkerOperation]
  rcases h.serial with ⟨hrunning, hidle, -⟩ | ⟨running, hrunning, hbusy⟩
  · exact runNext_sound hversions hrunning hidle
  · rw [runNextMarkerOperation, if_pos hbusy]
    exact ⟨.inr ⟨running, hrunning, hbusy⟩, hversions, h.waits⟩

end Start

/-! ## Steps -/

theorem noteSaveIntent_sound {file : FileState} (h : Sound file) : Sound (noteSaveIntent file) := by
  have hpending : hasPendingMarkerSave file.persistence = true →
      hasPendingMarkerSave (noteSaveIntent file).persistence = true := by
    intro hpending
    rw [pending_iff] at hpending ⊢
    dsimp only [noteSaveIntent]
    omega
  refine ⟨h.serial, ⟨fun hready => ?_, ?_, ?_, h.versions.saved, fun _ _ _ => Nat.succ_pos _⟩, ?_⟩
  · have hunread := h.versions.unread hready
    exact ⟨hunread.baseline, hunread.clean, hunread.distinct, hunread.unsaved⟩
  · exact max_le h.versions.requested le_rfl
  · exact h.versions.completed.trans (Nat.le_succ _)
  · intro running hmem
    exact (h.waits running hmem).mono rfl hpending rfl (Nat.le_succ _) le_rfl

theorem mutation_sound {file : FileState} (h : Sound file) (markers : Option FileMap)
    (clearRevision : Nat) (hclear : file.clearRevision ≤ clearRevision) (clearsFile : Bool)
    (hdistinct : Distinct (file.markers.getD ∅) → Distinct (markers.getD ∅)) :
    Sound ({ file with markers := markers, clearRevision := clearRevision }.noteMarkerMutation
      file.markers clearsFile) := by
  have hversions := h.versions
  have hpending := pending_noteMarkerMutation
    { file with markers := markers, clearRevision := clearRevision } hversions.requested
    file.markers clearsFile
  refine ⟨h.serial, ⟨fun hready => ?_, ?_, hversions.completed, hversions.saved, hversions.asked⟩,
    fun running hmem => ?_⟩
  · have hunread := hversions.unread hready
    have hbaseline : (if file.persistence.loadState ≠ .ready ∧
        file.persistence.preLoadMutationBaseline = none then some (file.markers.getD ∅)
        else file.persistence.preLoadMutationBaseline) = some ∅ := by
      cases hbefore : file.persistence.preLoadMutationBaseline with
      | none => rw [if_pos ⟨hready, rfl⟩, hunread.clean hbefore]
      | some baseline =>
        have hempty := hunread.baseline
        rw [hbefore, Option.getD_some] at hempty
        rw [if_neg (by simp), hempty]
    refine ⟨?_, fun hnone => ?_, hdistinct hunread.distinct, hunread.unsaved⟩
    · exact (congrArg (Option.getD · ∅) hbaseline).trans rfl
    · exact absurd (hbaseline.symm.trans hnone) (by simp)
  · dsimp only [FileState.noteMarkerMutation]
    split
    · exact le_rfl
    · exact hversions.requested.trans (Nat.le_succ _)
  · exact (h.waits running hmem).mono rfl (fun hp => hpending.trans hp) rfl le_rfl hclear

/-- A load that is answered leaves all of a file but its markers and what it says of
the load. -/
structure Loaded (file next : FileState) : Prop where
  ready : next.persistence.loadState = .ready
  running : next.running = file.running
  clearRevision : next.clearRevision = file.clearRevision
  disk : next.disk = file.disk
  queue : next.persistence.operationRunning = file.persistence.operationRunning ∧
    next.persistence.operations = file.persistence.operations
  requested : next.persistence.requestedMutationVersion = file.persistence.requestedMutationVersion ∧
    next.persistence.mutationVersion = file.persistence.mutationVersion
  intents : next.persistence.completedSaveIntentVersion =
      file.persistence.completedSaveIntentVersion ∧
    next.persistence.saveIntentVersion = file.persistence.saveIntentVersion
  lastSave : next.persistence.lastSaveOutcome = file.persistence.lastSaveOutcome
  pending : hasPendingMarkerSave next.persistence = hasPendingMarkerSave file.persistence

/-- The markers of a file whose load is answered: as they were when it was cleared
meanwhile, else merged with what was loaded. -/
theorem finishLoad_cases {file next : FileState} {initial : FileMap} {clearRevision : Nat}
    {discard : Bool} {outcome : MarkerLoadOutcome}
    (h : finishLoad file initial clearRevision discard = some (next, outcome)) :
    Loaded file next ∧
      ((file.clearRevision ≠ clearRevision ∧ next.markers = file.markers) ∨
        (file.clearRevision = clearRevision ∧ ∃ read merged,
          loadFileMap ((file.disk.map (·.markers)).getD []) = some read ∧
          mergeLoadedFileMarkers (if discard then ∅ else read) initial file.markers = some merged ∧
          next.markers = some merged)) := by
  obtain ⟨read, hread, h⟩ := Option.bind_eq_some_iff.mp h
  split at h
  · rename_i hcleared
    cases h
    exact ⟨⟨rfl, rfl, rfl, rfl, ⟨rfl, rfl⟩, ⟨rfl, rfl⟩, ⟨rfl, rfl⟩, rfl, rfl⟩, .inl ⟨hcleared, rfl⟩⟩
  · rename_i hkept
    obtain ⟨merged, hmerged, h⟩ := Option.map_eq_some_iff.mp h
    cases h
    exact ⟨⟨rfl, rfl, rfl, rfl, ⟨rfl, rfl⟩, ⟨rfl, rfl⟩, ⟨rfl, rfl⟩, rfl, rfl⟩,
      .inr ⟨not_not.mp hkept, read, merged, hread, hmerged, rfl⟩⟩

theorem Loaded.versions {file next : FileState} (h : Loaded file next) (hversions : Versions file) :
    Versions next where
  unread hready := absurd h.ready hready
  requested := by
    rw [h.requested.1, h.requested.2]
    exact hversions.requested
  completed := by
    rw [h.intents.1, h.intents.2]
    exact hversions.completed
  saved := by
    rw [h.intents.1, h.lastSave]
    exact hversions.saved
  asked := by
    rw [FileState.requests, h.running, h.queue.2, h.intents.2]
    exact hversions.asked

theorem Versions.notLoaded {file : FileState} (hversions : Versions file)
    (hready : file.persistence.loadState ≠ .ready) :
    Versions { file with persistence := { file.persistence with loadState := .failed } } where
  unread _ :=
    have hunread := hversions.unread hready
    ⟨hunread.baseline, hunread.clean, hunread.distinct, hunread.unsaved⟩
  requested := hversions.requested
  completed := hversions.completed
  saved := hversions.saved
  asked := hversions.asked

theorem Versions.withDisk {file : FileState} (hversions : Versions file) (disk : Option MarkerFile) :
    Versions { file with disk := disk } where
  unread hready :=
    have hunread := hversions.unread hready
    ⟨hunread.baseline, hunread.clean, hunread.distinct, hunread.unsaved⟩
  requested := hversions.requested
  completed := hversions.completed
  saved := hversions.saved
  asked := hversions.asked

theorem Versions.noteSaved {file : FileState} (hversions : Versions file)
    (hready : file.persistence.loadState = .ready) {outcome : MarkerSaveOutcome}
    (houtcome : outcome ≠ .failed) (mutationVersion : Nat) {intentVersion : Nat}
    (hintent : intentVersion ≤ file.persistence.saveIntentVersion) :
    Versions (noteSaved file outcome mutationVersion intentVersion) where
  unread hnot := absurd hready hnot
  requested := hversions.requested
  completed := max_le hversions.completed hintent
  saved _ := ⟨outcome, rfl, houtcome⟩
  asked := hversions.asked

theorem flushOutcome_sound {file : FileState} (hversions : Versions file) {caller : Caller}
    {outcome : Option MarkerSaveOutcome} (h : (Awaiting.flushed caller outcome).Sound file) :
    (Awaiting.returned (flushOutcome file caller outcome)).Sound file := by
  intro hfailed
  cases caller with
  | load loadOutcome => cases hfailed
  | save =>
    rw [flushOutcome] at hfailed
    injection hfailed with hfailed
    cases outcome with
    | none =>
      obtain ⟨last, hlast, hne⟩ := hversions.saved (h.2 rfl rfl)
      rw [hlast, Option.none_or, Option.getD_some] at hfailed
      exact absurd hfailed hne
    | some outcome =>
      rw [Option.some_or, Option.getD_some] at hfailed
      exact h.1 (congrArg some hfailed)

theorem goes_sound {state : MarkerState} {file next : FileState} {running : Running}
    {awaiting : Awaiting} (hversions : Versions file) (hmem : running ∈ file.running)
    (hwait : running.awaiting.Sound file)
    (h : Goes state file running.operation.request running.awaiting next awaiting) :
    Versions next ∧ next.running = file.running ∧
      next.persistence.operationRunning = file.persistence.operationRunning ∧
      awaiting.Sound next := by
  have hrequest : running.operation ∈ file.requests :=
    List.mem_append_left _ (List.mem_map_of_mem hmem)
  generalize hawaiting : running.awaiting = before at h hwait
  cases h with
  | loaded hload =>
    have hloaded := (finishLoad_cases hload).1
    exact ⟨hloaded.versions hversions, hloaded.running, hloaded.queue.1, trivial⟩
  | notLoaded => exact ⟨hversions.notLoaded hwait.1, rfl, rfl, trivial⟩
  | wrote => exact ⟨hversions.withDisk _, rfl, rfl, hwait⟩
  | notWritten => exact ⟨hversions.withDisk _, rfl, rfl, hwait⟩
  | afterLoad => exact ⟨hversions, rfl, rfl, afterLoad_sound hversions _⟩
  | afterSaveLoad hsave =>
    exact ⟨hversions, rfl, rfl, afterSaveLoad_sound hversions (hversions.asked _ hrequest hsave)⟩
  | notSaved => exact ⟨hversions, rfl, rfl, fun _ => hwait.2.1, fun _ hnone => nomatch hnone⟩
  | @saved caller outcome mutationVersion intentVersion houtcome =>
    have hsaved := hversions.noteSaved hwait.1 houtcome mutationVersion hwait.2.2.2
    exact ⟨hsaved, rfl, rfl, flush_sound hsaved hwait.1
      (fun hfailed => houtcome (Option.some_inj.mp hfailed)) fun _ hnone => nomatch hnone⟩
  | flushed => exact ⟨hversions, rfl, rfl, flushOutcome_sound hversions hwait⟩
  | returned => exact ⟨hversions, rfl, rfl, trivial⟩

/-! ## The running operation -/

section Running

variable {state : MarkerState} {file : FileState} {running : Running} {ticket : Nat}

theorem running_of_find (h : Serial file) (hfind : file.find ticket = some running) :
    file.running = [running] ∧ running.operation.ticket = ticket ∧
      file.persistence.operationRunning = true := by
  have hmem := List.mem_of_find?_eq_some hfind
  have hticket := List.find?_some hfind
  rw [decide_eq_true_eq] at hticket
  rcases h with ⟨hnone, -, -⟩ | ⟨only, honly, hbusy⟩
  · rw [hnone] at hmem
    cases hmem
  · rw [honly, List.mem_singleton] at hmem
    rw [hmem]
    exact ⟨honly, hmem ▸ hticket, hbusy⟩

theorem goOn_running {next : FileState} (hrunning : next.running = [running])
    (hticket : running.operation.ticket = ticket) (awaiting : Awaiting) :
    (next.goOn ticket awaiting).running = [{ running with awaiting := awaiting }] := by
  rw [FileState.goOn, hrunning, List.map_singleton, if_pos hticket]

theorem goOn_sound (h : Sound file) (hfind : file.find ticket = some running) {next : FileState}
    {awaiting : Awaiting}
    (hgoes : Goes state file running.operation.request running.awaiting next awaiting) :
    Sound (next.goOn ticket awaiting) := by
  obtain ⟨honly, hticket, hbusy⟩ := running_of_find h.serial hfind
  have hmem : running ∈ file.running := by
    rw [honly]
    exact List.mem_singleton_self running
  obtain ⟨hversions, hsame, hflag, hwait⟩ := goes_sound h.versions hmem (h.waits running hmem) hgoes
  have hrunning := goOn_running (hsame.trans honly) hticket awaiting
  refine ⟨.inr ⟨_, hrunning, hflag.trans hbusy⟩, ?_, fun running' hmem' => ?_⟩
  · refine hversions.withQueue (next.goOn ticket awaiting).running
      next.persistence.operationRunning next.persistence.operations fun operation hoperation => ?_
    refine hversions.asked operation ?_
    rw [hrunning] at hoperation
    rw [FileState.requests, hsame, honly]
    exact hoperation
  · rw [hrunning, List.mem_singleton] at hmem'
    rw [hmem']
    exact hwait

theorem settle_sound (h : Sound file) (hfind : file.find ticket = some running) :
    Sound (settle state file ticket) := by
  obtain ⟨honly, hticket, -⟩ := running_of_find h.serial hfind
  have hempty : (file.running.filter fun running => running.operation.ticket ≠ ticket) = [] := by
    rw [honly, List.filter_singleton, hticket]
    simp
  have hversions : Versions (file.withQueue
      (file.running.filter fun running => running.operation.ticket ≠ ticket) false
      file.persistence.operations) := by
    refine h.versions.withQueue _ _ _ fun operation hoperation => h.versions.asked operation ?_
    rw [hempty] at hoperation
    exact List.mem_append_right _ hoperation
  exact runNext_sound hversions hempty rfl

end Running

theorem FileStep.sound {state : MarkerState} {nextTicket : Nat} {file file' : FileState}
    (hstep : FileStep state nextTicket file file') (h : Sound file) : Sound file' := by
  cases hstep with
  | same => exact h
  | edit fileMap hdistinct =>
    exact mutation_sound h (some fileMap) file.clearRevision le_rfl false hdistinct
  | clear =>
    exact mutation_sound h none (file.clearRevision + 1) (Nat.le_succ _) true fun _ => distinct_empty
  | load => exact enqueue_sound h fun hsave => nomatch hsave
  | save => exact enqueue_sound (noteSaveIntent_sound h) fun _ => Nat.succ_pos _
  | goOn hfind hgoes => exact goOn_sound h hfind hgoes
  | settle hfind => exact settle_sound h hfind

theorem run_sound {disk : JsString → Option MarkerFile} {clock : JsString} {events : List Event}
    {state : MarkerState} (h : (MarkerState.initial disk clock).run events = some state)
    (filePath : JsString) : Sound (state.files filePath) :=
  runFrom_keeps (P := fun state => ∀ filePath, Sound (state.files filePath))
    (fun filePath => sound_initial (disk filePath))
    (fun hsound hstep filePath => (step_file hstep filePath).sound (hsound filePath)) h filePath

end MarkerStore
end CmTrace
