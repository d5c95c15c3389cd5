import CmTrace.MarkerStore.Saved

/-!
# No edit of a marker is lost

What holds in every run of the store, whatever the order of edits, requests and
answers.
-/

namespace CmTrace
namespace MarkerStore

open Collections Js

def Event.edits (filePath : JsString) : Event → Bool
  | .toggleMarker edited _ _ | .setMarkerCategory edited _ _ _ | .removeMarker edited _ _
  | .clearMarkersForFile edited => edited = filePath
  | .tick _ | .setActiveCategory _ | .addCategory _ | .loadMarkers _ | .saveMarkers _ | .answer _ _ _
  | .resume _ _ => false

def Awaiting.writes : Awaiting → Bool
  | write .. => true
  | _ => false

def Awaiting.reads : Awaiting → Bool
  | read .. => true
  | _ => false

def LoadSucceeds (state : MarkerState) (filePath : JsString) (event : Event) : Prop :=
  ∃ ticket running, event = .answer filePath ticket .succeeds ∧
    (state.files filePath).find ticket = some running ∧ running.awaiting.reads = true

def Resolves (state : MarkerState) (filePath : JsString) (ticket : Nat) (outcome : Outcome)
    (state' : MarkerState) : Prop :=
  state.step (.resume filePath ticket) = some state' ∧
    state'.results = state.results ++ [(ticket, outcome)]

/-- A disk holds what the markers of a file were at some moment of a run, at a version
not before one. -/
def HeldSince (start : MarkerState) (events : List Event) (filePath : JsString) (version : Nat)
    (disk : Option MarkerFile) : Prop :=
  ∃ before after moment, events = before ++ after ∧ start.run before = some moment ∧
    version ≤ (moment.files filePath).persistence.mutationVersion ∧
    DiskHolds disk (moment.files filePath)

def EditsKept (file file' : FileState) : Prop :=
  ∀ k marker, (file.markers.getD ∅).get? k = some marker →
    EditSurvives (file'.markers.getD ∅) marker ∨ GivesWay (file'.markers.getD ∅) k marker

def NothingNew (file file' : FileState) : Prop :=
  ∀ k marker, (file'.markers.getD ∅).get? k = some marker →
    ∃ k' edit, (file.markers.getD ∅).get? k' = some edit ∧ marker.withLineId edit.lineId = edit

/-! ## What only edits and loads change -/

/-- How a step that is no edit leaves the markers of a file. -/
inductive MarkersStep (file file' : FileState) : Prop where
  | same (h : file'.markers = file.markers)
  | merged {ticket : Nat} {running : Running} {initial : FileMap} {categories : List MarkerCategory}
      {discard : Bool} {read merged : FileMap} (hfind : file.find ticket = some running)
      (hread : running.awaiting = .read initial categories file.clearRevision discard)
      (hmerged : mergeLoadedFileMarkers (if discard then ∅ else read) initial file.markers = some merged)
      (h : file'.markers = some merged)

theorem runNext_markers (state : MarkerState) (file : FileState) :
    (runNextMarkerOperation state file).markers = file.markers := by
  rw [runNextMarkerOperation]
  split
  · rfl
  · split <;> rfl

theorem goes_markers {state : MarkerState} {file next : FileState} {request : Request}
    {running : Running} {awaiting : Awaiting} {ticket : Nat} (hfind : file.find ticket = some running)
    (h : Goes state file request running.awaiting next awaiting) : MarkersStep file next := by
  generalize hawaiting : running.awaiting = before at h
  cases h with
  | loaded hload =>
    obtain ⟨-, ⟨-, hsame⟩ | ⟨hrevision, read, merged, -, hmerged, hnext⟩⟩ := finishLoad_cases hload
    · exact .same hsame
    · exact .merged hfind (hrevision ▸ hawaiting) hmerged hnext
  | notLoaded => exact .same rfl
  | wrote => exact .same rfl
  | notWritten => exact .same rfl
  | afterLoad => exact .same rfl
  | afterSaveLoad => exact .same rfl
  | notSaved => exact .same rfl
  | saved => exact .same rfl
  | flushed => exact .same rfl
  | returned => exact .same rfl

theorem step_markers {state state' : MarkerState} {event : Event} {filePath : JsString}
    (h : state.step event = some state') (hedits : event.edits filePath = false) :
    MarkersStep (state.files filePath) (state'.files filePath) := by
  have hother : ∀ {edited : JsString} {file : FileState}, decide (edited = filePath) = false →
      MarkersStep (state.files filePath) ((state.setFile edited file).files filePath) := by
    intro edited file hne
    rw [files_setFile, if_neg fun heq => of_decide_eq_false hne heq.symm]
    exact .same rfl
  have hset : ∀ (before : MarkerState) {asked : JsString} {file : FileState},
      before.files = state.files → MarkersStep (state.files asked) file →
      MarkersStep (state.files filePath) ((before.setFile asked file).files filePath) := by
    intro before asked file hfiles hstep
    rw [files_setFile, hfiles]
    split
    · rename_i heq
      rw [heq]
      exact hstep
    · exact .same rfl
  cases event with
  | tick clock =>
    cases h
    exact .same rfl
  | setActiveCategory category =>
    cases h
    exact .same rfl
  | addCategory category =>
    cases h
    exact .same rfl
  | toggleMarker edited lineId identity =>
    obtain ⟨file, -, rfl⟩ := Option.map_eq_some_iff.mp h
    exact hother hedits
  | setMarkerCategory edited lineId category identity =>
    cases h
    exact hother hedits
  | removeMarker edited lineId identity =>
    cases h
    exact hother hedits
  | clearMarkersForFile edited =>
    cases h
    exact hother hedits
  | loadMarkers asked =>
    cases h
    exact hset { state with nextTicket := state.nextTicket + 1 } rfl (.same (runNext_markers ..))
  | saveMarkers asked =>
    cases h
    exact hset { state with nextTicket := state.nextTicket + 1 } rfl (.same (runNext_markers ..))
  | answer asked ticket reply =>
    obtain ⟨running, hfind, h⟩ := Option.bind_eq_some_iff.mp h
    obtain ⟨next, hnext, rfl⟩ := Option.map_eq_some_iff.mp h
    have hgoes : Goes state (state.files asked) .load running.awaiting next.1 next.2 :=
      answered_goes hnext
    have hmarkers := goes_markers hfind hgoes
    refine hset { state with
      categories := answeredCategories state (state.files asked) running.awaiting next.2 } rfl ?_
    cases hmarkers with
    | same h => exact .same h
    | merged hfind hread hmerged h => exact .merged hfind hread hmerged h
  | resume asked ticket =>
    obtain ⟨running, hfind, h⟩ := Option.bind_eq_some_iff.mp h
    split at h
    · cases h
      exact hset state rfl (.same (runNext_markers ..))
    · obtain ⟨next, hnext, rfl⟩ := Option.map_eq_some_iff.mp h
      have hgoes := goes_markers hfind (resumed_goes hnext)
      refine hset { state with results := resumedResults state ticket running.awaiting } rfl ?_
      cases hgoes with
      | same h => exact .same h
      | merged hfind hread hmerged h => exact .merged hfind hread hmerged h

theorem editsKept_of_markersStep {file file' : FileState} (hsound : Sound file)
    (h : MarkersStep file file') : EditsKept file file' := by
  intro k marker hget
  cases h with
  | same h =>
    rw [h]
    exact .inl ⟨k, marker, hget, rfl⟩
  | @merged ticket running initial categories discard read merged hfind hread hmerged h =>
    obtain ⟨hready, hinitial, -⟩ : (Awaiting.read initial categories file.clearRevision
        discard).Sound file := hread ▸ hsound.waits running (List.mem_of_find?_eq_some hfind)
    rw [hinitial] at hmerged
    rw [h, Option.getD_some]
    exact edits_survive (hsound.versions.unread hready).distinct hmerged hget

/-! ## Files that were cleared -/

/-- A file that was cleared: it is loaded, or what its load reads is dropped. -/
def Cleared (file : FileState) : Prop :=
  file.persistence.loadState = .ready ∨
    (file.persistence.discardLoadedMarkers = true ∧ ∀ running ∈ file.running,
      ∀ initial categories clearRevision discard,
        running.awaiting = .read initial categories clearRevision discard →
          clearRevision < file.clearRevision ∨ discard = true)

theorem clear_cleared {file : FileState} (hsound : Sound file) :
    Cleared (clearMarkersForFile file) := by
  by_cases hready : file.persistence.loadState = .ready
  · exact .inl hready
  · refine .inr ⟨?_, fun running hmem initial categories clearRevision discard hread => .inl ?_⟩
    · show (file.persistence.discardLoadedMarkers ||
        (true && decide (file.persistence.loadState ≠ .ready))) = true
      rw [decide_eq_true hready, Bool.and_self, Bool.or_true]
    · have hwait := hsound.waits running hmem
      rw [hread] at hwait
      exact Nat.lt_succ_of_le hwait.2.2

theorem flush_reads (state : MarkerState) (file : FileState) (caller : Caller)
    (lastOutcome : Option MarkerSaveOutcome) :
    (flushPendingMarkerSave state file caller lastOutcome).reads = false := by
  rw [flushPendingMarkerSave]
  split <;> rfl

theorem afterLoad_reads (state : MarkerState) (file : FileState) (outcome : MarkerLoadOutcome) :
    (afterLoad state file outcome).reads = false := by
  rw [afterLoad]
  split
  · exact flush_reads ..
  · rfl

theorem afterSaveLoad_reads (state : MarkerState) (file : FileState) :
    (afterSaveLoad state file).reads = false := by
  rw [afterSaveLoad]
  split
  · rfl
  · exact flush_reads ..

theorem start_discard {state : MarkerState} {file : FileState} {operation : Operation}
    {initial : FileMap} {categories : List MarkerCategory} {clearRevision : Nat} {discard : Bool}
    (h : operation.start state file = .read initial categories clearRevision discard) :
    discard = file.persistence.discardLoadedMarkers := by
  have hnot : ∀ {awaiting : Awaiting}, awaiting.reads = false →
      awaiting ≠ .read initial categories clearRevision discard := by
    rintro awaiting hreads rfl
    cases hreads
  rw [Operation.start] at h
  split at h
  · rw [performMarkerLoadRequest] at h
    split at h
    · exact absurd h (hnot (afterLoad_reads ..))
    · cases h
      rfl
  · rw [performMarkerSaveRequest] at h
    split at h
    · cases h
      rfl
    · exact absurd h (hnot (afterSaveLoad_reads ..))

theorem runNext_cleared {state : MarkerState} {file : FileState} (h : Cleared file) :
    Cleared (runNextMarkerOperation state file) := by
  rw [runNextMarkerOperation]
  split
  · exact h
  · split
    · exact h
    · rename_i operation operations hqueue
      rcases h with hready | ⟨hdiscard, hreads⟩
      · exact .inl hready
      · refine .inr ⟨hdiscard, fun running hmem initial categories clearRevision discard hread => ?_⟩
        rcases List.mem_append.mp hmem with hold | hnew
        · exact hreads running hold initial categories clearRevision discard hread
        · rw [List.mem_singleton.mp hnew] at hread
          exact .inr ((start_discard hread).trans hdiscard)

theorem goes_cleared {state : MarkerState} {file next : FileState} {request : Request}
    {before awaiting : Awaiting} (h : Goes state file request before next awaiting)
    (hwait : before.Sound file) (hcleared : Cleared file) :
    next.persistence.loadState = .ready ∨
      (next.persistence.discardLoadedMarkers = true ∧ awaiting.reads = false) := by
  cases h with
  | loaded hload => exact .inl (finishLoad_cases hload).1.ready
  | notLoaded => exact .inr ⟨(hcleared.resolve_left hwait.1).1, rfl⟩
  | wrote => exact hcleared.imp_right fun h => ⟨h.1, rfl⟩
  | notWritten => exact hcleared.imp_right fun h => ⟨h.1, rfl⟩
  | afterLoad => exact hcleared.imp_right fun h => ⟨h.1, afterLoad_reads ..⟩
  | afterSaveLoad => exact hcleared.imp_right fun h => ⟨h.1, afterSaveLoad_reads ..⟩
  | notSaved => exact hcleared.imp_right fun h => ⟨h.1, rfl⟩
  | saved => exact hcleared.imp_right fun h => ⟨h.1, flush_reads ..⟩
  | flushed => exact hcleared.imp_right fun h => ⟨h.1, rfl⟩
  | returned => exact hcleared.imp_right fun h => ⟨h.1, rfl⟩

theorem FileStep.cleared {state : MarkerState} {nextTicket : Nat} {file file' : FileState}
    (hstep : FileStep state nextTicket file file') (hsound : Sound file) (h : Cleared file) :
    Cleared file' := by
  cases hstep with
  | same => exact h
  | edit fileMap hdistinct =>
    refine h.imp_right fun hdrop => ⟨?_, hdrop.2⟩
    show (file.persistence.discardLoadedMarkers ||
      (false && decide (file.persistence.loadState ≠ .ready))) = true
    rw [hdrop.1, Bool.true_or]
  | clear => exact clear_cleared hsound
  | load => exact runNext_cleared h
  | save => exact runNext_cleared h
  | @goOn running next awaiting ticket hfind hgoes =>
    obtain ⟨honly, hticket, -⟩ := running_of_find hsound.serial hfind
    have hrun : running ∈ file.running := by
      rw [honly]
      exact List.mem_singleton_self running
    have hwait := hsound.waits running hrun
    obtain ⟨-, hsame, -, -⟩ := goes_sound hsound.versions hrun hwait hgoes
    refine (goes_cleared hgoes hwait h).imp_right fun hdrop => ⟨hdrop.1, fun running' hmem => ?_⟩
    rw [goOn_running (hsame.trans honly) hticket, List.mem_singleton] at hmem
    rw [hmem]
    rintro initial categories clearRevision discard rfl
    cases hdrop.2
  | settle hfind =>
    refine runNext_cleared (h.imp_right fun hdrop => ⟨hdrop.1, fun running hmem => ?_⟩)
    exact hdrop.2 running (List.mem_of_mem_filter hmem)

theorem nothingNew_of_markersStep {file file' : FileState} (hsound : Sound file)
    (hcleared : Cleared file) (h : MarkersStep file file') : NothingNew file file' := by
  intro k marker hget
  cases h with
  | same h =>
    rw [h] at hget
    exact ⟨k, marker, hget, rfl⟩
  | @merged ticket running initial categories discard read merged hfind hread hmerged h =>
    have hmem := List.mem_of_find?_eq_some hfind
    obtain ⟨hready, hinitial, -⟩ : (Awaiting.read initial categories file.clearRevision
        discard).Sound file := hread ▸ hsound.waits running hmem
    have hdiscard : discard = true := by
      refine ((hcleared.resolve_left hready).2 running hmem _ _ _ _ hread).resolve_left ?_
      exact Nat.lt_irrefl _
    rw [hinitial, if_pos hdiscard] at hmerged
    rw [h, Option.getD_some] at hget
    rcases merged_only hmerged hget with hloaded | ⟨k', edit, hedit, rfl⟩
    · cases hloaded
    · exact ⟨k', edit, hedit, rfl⟩

/-! ## Files that are loaded -/

theorem runNext_loadState (state : MarkerState) (file : FileState) :
    (runNextMarkerOperation state file).persistence.loadState = file.persistence.loadState := by
  rw [runNextMarkerOperation]
  split
  · rfl
  · split <;> rfl

theorem goes_loadState {state : MarkerState} {file next : FileState} {request : Request}
    {before awaiting : Awaiting} (h : Goes state file request before next awaiting)
    (hready : next.persistence.loadState = .ready) :
    file.persistence.loadState = .ready ∨ before.reads = true := by
  cases h with
  | loaded => exact .inr rfl
  | notLoaded => exact .inr rfl
  | wrote => exact .inl hready
  | notWritten => exact .inl hready
  | afterLoad => exact .inl hready
  | afterSaveLoad => exact .inl hready
  | notSaved => exact .inl hready
  | saved => exact .inl hready
  | flushed => exact .inl hready
  | returned => exact .inl hready

theorem toggleMarker_loadState {state : MarkerState} {lineId : Nat} {identity : Option JsString}
    {file file' : FileState} (h : toggleMarker state lineId identity file = some file') :
    file'.persistence.loadState = file.persistence.loadState := by
  rw [toggleMarker] at h
  split at h
  · cases h
    rfl
  · obtain ⟨storedLineId, -, rfl⟩ := Option.map_eq_some_iff.mp h
    rfl

theorem setMarkerCategory_loadState (state : MarkerState) (lineId : Nat) (category : JsString)
    (identity : Option JsString) (file : FileState) :
    (setMarkerCategory state lineId category identity file).persistence.loadState =
      file.persistence.loadState := by
  rw [setMarkerCategory]
  split <;> rfl

theorem removeMarker_loadState (lineId : Nat) (identity : Option JsString) (file : FileState) :
    (removeMarker lineId identity file).persistence.loadState = file.persistence.loadState := by
  rw [removeMarker]
  split
  · rfl
  · split <;> rfl

theorem step_ready {state state' : MarkerState} {event : Event} {filePath : JsString}
    (h : state.step event = some state')
    (hready : (state'.files filePath).persistence.loadState = .ready) :
    (state.files filePath).persistence.loadState = .ready ∨ LoadSucceeds state filePath event := by
  have hset : ∀ (before : MarkerState) {asked : JsString} {file : FileState},
      before.files = state.files →
      (file.persistence.loadState = .ready → (state.files asked).persistence.loadState = .ready) →
      ((before.setFile asked file).files filePath).persistence.loadState = .ready →
      (state.files filePath).persistence.loadState = .ready := by
    intro before asked file hfiles hsame hnow
    rw [files_setFile, hfiles] at hnow
    split at hnow
    · rename_i heq
      rw [heq]
      exact hsame hnow
    · exact hnow
  cases event with
  | tick clock =>
    cases h
    exact .inl hready
  | setActiveCategory category =>
    cases h
    exact .inl hready
  | addCategory category =>
    cases h
    exact .inl hready
  | toggleMarker edited lineId identity =>
    obtain ⟨file, hfile, rfl⟩ := Option.map_eq_some_iff.mp h
    exact .inl (hset state rfl (toggleMarker_loadState hfile).symm.trans hready)
  | setMarkerCategory edited lineId category identity =>
    cases h
    exact .inl (hset state rfl (setMarkerCategory_loadState ..).symm.trans hready)
  | removeMarker edited lineId identity =>
    cases h
    exact .inl (hset state rfl (removeMarker_loadState ..).symm.trans hready)
  | clearMarkersForFile edited =>
    cases h
    refine .inl (hset state rfl (fun hnow => ?_) hready)
    exact hnow
  | loadMarkers asked =>
    cases h
    refine .inl (hset { state with nextTicket := state.nextTicket + 1 } rfl (fun hnow => ?_) hready)
    rw [enqueueMarkerOperation, runNext_loadState] at hnow
    exact hnow
  | saveMarkers asked =>
    cases h
    refine .inl (hset { state with nextTicket := state.nextTicket + 1 } rfl (fun hnow => ?_) hready)
    rw [enqueueMarkerOperation, runNext_loadState] at hnow
    exact hnow
  | answer asked ticket reply =>
    obtain ⟨running, hfind, h⟩ := Option.bind_eq_some_iff.mp h
    obtain ⟨next, hnext, rfl⟩ := Option.map_eq_some_iff.mp h
    by_cases heq : filePath = asked
    · subst heq
      have hnow : next.1.persistence.loadState = .ready := by
        rw [files_setFile, if_pos rfl] at hready
        exact hready
      have hgoes : Goes state (state.files filePath) .load running.awaiting next.1 next.2 :=
        answered_goes hnext
      refine (goes_loadState hgoes hnow).imp_right fun hreads => ⟨ticket, running, ?_, hfind, hreads⟩
      cases reply with
      | succeeds => rfl
      | fails left =>
        cases hawaiting : running.awaiting with
        | read =>
          rw [hawaiting] at hnext
          cases hnext
          cases hnow
        | _ =>
          rw [hawaiting] at hreads
          cases hreads
    · rw [files_setFile, if_neg heq] at hready
      exact .inl hready
  | resume asked ticket =>
    obtain ⟨running, hfind, h⟩ := Option.bind_eq_some_iff.mp h
    split at h
    · cases h
      refine .inl (hset state rfl (fun hnow => ?_) hready)
      rw [settle, runNext_loadState] at hnow
      exact hnow
    · obtain ⟨next, hnext, rfl⟩ := Option.map_eq_some_iff.mp h
      refine .inl (hset { state with results := resumedResults state ticket running.awaiting } rfl
        (fun hnow => ?_) hready)
      refine (goes_loadState (resumed_goes hnext) hnow).resolve_right fun hreads => ?_
      cases hawaiting : running.awaiting with
      | read =>
        rw [hawaiting] at hnext
        cases hnext
      | _ =>
        rw [hawaiting] at hreads
        cases hreads

/-! ## Runs -/

section Runs

variable {disk : JsString → Option MarkerFile} {clock : JsString} {events : List Event}
  {state state' : MarkerState} {filePath : JsString}

theorem loaded_first (h : (MarkerState.initial disk clock).run events = some state)
    (hready : (state.files filePath).persistence.loadState = .ready) :
    ∃ before event after asked, events = before ++ event :: after ∧
      (MarkerState.initial disk clock).run before = some asked ∧
      LoadSucceeds asked filePath event := by
  refine runFrom_induct (P := fun events state =>
    (state.files filePath).persistence.loadState = .ready →
      ∃ before event after asked, events = before ++ event :: after ∧
        (MarkerState.initial disk clock).run before = some asked ∧
        LoadSucceeds asked filePath event) (fun hready => by cases hready) ?_ h hready
  intro events event asked answered hrun ih hstep hready
  rcases step_ready hstep hready with hbefore | hloads
  · obtain ⟨before, loads, after, moment, rfl, hmoment, hloads⟩ := ih hbefore
    exact ⟨before, loads, after ++ [event], moment, by simp, hmoment, hloads⟩
  · exact ⟨events, event, [], asked, rfl, hrun, hloads⟩

theorem FileStep.version {nextTicket : Nat} {file file' : FileState}
    (hstep : FileStep state nextTicket file file') :
    file.persistence.mutationVersion ≤ file'.persistence.mutationVersion := by
  have hnext : ∀ file : FileState, (runNextMarkerOperation state file).persistence.mutationVersion =
      file.persistence.mutationVersion := by
    intro file
    rw [runNextMarkerOperation]
    split
    · rfl
    · split <;> rfl
  cases hstep with
  | same => exact le_rfl
  | edit fileMap hdistinct => exact Nat.le_succ _
  | clear => exact Nat.le_succ _
  | load =>
    rw [enqueueMarkerOperation, hnext]
  | save =>
    rw [enqueueMarkerOperation, hnext]
    exact le_rfl
  | @goOn running next awaiting ticket hfind hgoes =>
    refine le_of_eq ?_
    show file.persistence.mutationVersion = next.persistence.mutationVersion
    generalize running.awaiting = before at hgoes
    cases hgoes with
    | loaded hload => exact (finishLoad_cases hload).1.requested.2.symm
    | _ => rfl
  | settle hfind =>
    rw [MarkerStore.settle, hnext]

theorem resolves_returned {ticket : Nat} {outcome : Outcome}
    (h : Resolves state filePath ticket outcome state') :
    ∃ running, (state.files filePath).find ticket = some running ∧
      running.awaiting = .returned outcome ∧
      (state'.files filePath).disk = (state.files filePath).disk ∧
      (state'.files filePath).persistence = (state.files filePath).persistence := by
  obtain ⟨hstep, hresults⟩ := h
  obtain ⟨running, hfind, hstep⟩ := Option.bind_eq_some_iff.mp hstep
  refine ⟨running, hfind, ?_⟩
  split at hstep
  · cases hstep
    exact absurd hresults (by simp [MarkerState.setFile])
  · obtain ⟨next, hnext, rfl⟩ := Option.map_eq_some_iff.mp hstep
    have hlist : resumedResults state ticket running.awaiting = state.results ++ [(ticket, outcome)] :=
      hresults
    cases hawaiting : running.awaiting with
    | returned returned =>
      rw [hawaiting, resumedResults, List.append_cancel_left_eq] at hlist
      cases hlist
      rw [hawaiting] at hnext
      cases hnext
      rw [files_setFile, if_pos rfl]
      exact ⟨rfl, rfl, rfl⟩
    | _ =>
      rw [hawaiting, resumedResults] at hlist
      · exact absurd hlist (by simp)
      all_goals exact fun _ hreturned => nomatch hreturned

theorem fresh_since (h : (MarkerState.initial disk clock).run events = some state)
    {asked : MarkerState} (hasked : state.step (.saveMarkers filePath) = some asked)
    {events' : List Event} {waiting : MarkerState} (hrun : asked.run events' = some waiting) :
    Fresh (HeldSince asked events' filePath (state.files filePath).persistence.mutationVersion)
      ((state.files filePath).persistence.saveIntentVersion + 1) state.nextTicket
      (waiting.files filePath) := by
  have hsound := run_sound h
  have hversion := (step_file hasked filePath).version
  have hfile : asked.files filePath =
      enqueueMarkerOperation state (noteSaveIntent (state.files filePath)) .save := by
    cases hasked
    exact (files_setFile ..).trans (if_pos rfl)
  refine (runFrom_induct (P := fun events' waiting => (∀ path, Sound (waiting.files path)) ∧
    (state.files filePath).persistence.mutationVersion ≤
      (waiting.files filePath).persistence.mutationVersion ∧
    Fresh (HeldSince asked events' filePath (state.files filePath).persistence.mutationVersion)
      ((state.files filePath).persistence.saveIntentVersion + 1) state.nextTicket
      (waiting.files filePath)) ?_ ?_ hrun).2.2
  · refine ⟨fun path => (step_file hasked path).sound (hsound path), hversion, ?_⟩
    rw [hfile]
    refine call_fresh (hsound filePath) (tickets_below h filePath) fun disk hholds => ?_
    have hshown : (asked.files filePath).shown = (state.files filePath).shown := by
      rw [hfile]
      exact enqueue_shown state (noteSaveIntent (state.files filePath)) .save
    exact ⟨[], [], asked, rfl, rfl, hversion, hholds.trans hshown.symm⟩
  · rintro events' event waiting waiting' hrun ⟨hsound, hversion, hfresh⟩ hstep
    have hstepped := step_file hstep filePath
    have hversion' := hversion.trans hstepped.version
    refine ⟨fun path => (step_file hstep path).sound (hsound path), hversion', ?_⟩
    refine hstepped.fresh (hsound filePath) hfresh (fun disk hheld => ?_) fun disk hholds => ?_
    · obtain ⟨before, after, moment, rfl, hmoment, hafter⟩ := hheld
      exact ⟨before, after ++ [event], moment, by simp, hmoment, hafter⟩
    · exact ⟨events' ++ [event], [], waiting', by simp, runFrom_snoc.mpr ⟨waiting, hrun, hstep⟩,
        hversion', hholds⟩

theorem cleared_since (h : (MarkerState.initial disk clock).run events = some state)
    {cleared : MarkerState} (hclear : state.step (.clearMarkersForFile filePath) = some cleared)
    {events' : List Event} {later : MarkerState} (hrun : cleared.run events' = some later) :
    Sound (later.files filePath) ∧ Cleared (later.files filePath) := by
  have hsound := run_sound h
  have hfile : cleared.files filePath = clearMarkersForFile (state.files filePath) := by
    cases hclear
    exact (files_setFile ..).trans (if_pos rfl)
  refine runFrom_keeps (P := fun later => Sound (later.files filePath) ∧
    Cleared (later.files filePath)) ⟨(step_file hclear filePath).sound (hsound filePath), ?_⟩ ?_ hrun
  · rw [hfile]
    exact clear_cleared (hsound filePath)
  · rintro event later later' ⟨hsound, hcleared⟩ hstep
    exact ⟨(step_file hstep filePath).sound hsound, (step_file hstep filePath).cleared hsound hcleared⟩

end Runs

/-! ## No edit is lost -/

/-- What holds of a file in a state that a run has come to, and after it. -/
structure EditsDurable (disk : JsString → Option MarkerFile) (clock : JsString) (events : List Event)
    (state : MarkerState) (filePath : JsString) : Prop where
  serial : ((state.files filePath).running.filter fun running => running.awaiting.ofBackend).length ≤ 1
  loadedFirst : ∀ running ∈ (state.files filePath).running, running.awaiting.writes = true →
    ∃ before event after asked, events = before ++ event :: after ∧
      (MarkerState.initial disk clock).run before = some asked ∧ LoadSucceeds asked filePath event
  saved : ∀ events' asked waiting resolved outcome,
    state.step (.saveMarkers filePath) = some asked → asked.run events' = some waiting →
    Resolves waiting filePath state.nextTicket (.save outcome) resolved → outcome ≠ .failed →
    HeldSince asked events' filePath (state.files filePath).persistence.mutationVersion
      (resolved.files filePath).disk
  kept : ∀ event state', state.step event = some state' → event.edits filePath = false →
    EditsKept (state.files filePath) (state'.files filePath)
  cleared : ∀ events' event cleared before after,
    state.step (.clearMarkersForFile filePath) = some cleared → cleared.run events' = some before →
    before.step event = some after → event.edits filePath = false →
    NothingNew (before.files filePath) (after.files filePath)
  failed : ∀ ticket resolved, Resolves state filePath ticket (.save .failed) resolved →
    hasPendingMarkerSave (resolved.files filePath).persistence = true
  flushed : ∀ events' asked waiting,
    state.step (.saveMarkers filePath) = some asked → asked.run events' = some waiting →
    hasPendingMarkerSave (waiting.files filePath).persistence = false →
    HeldSince asked events' filePath (state.files filePath).persistence.mutationVersion
      (waiting.files filePath).disk

theorem marker_edits_durable (disk : JsString → Option MarkerFile) (clock : JsString)
    (events : List Event) (state : MarkerState)
    (h : (MarkerState.initial disk clock).run events = some state) (filePath : JsString) :
    EditsDurable disk clock events state filePath := by
  have hsound := run_sound h filePath
  constructor
  case serial =>
    refine (List.length_filter_le ..).trans ?_
    rcases hsound.serial with ⟨hnone, -, -⟩ | ⟨running, honly, -⟩
    · rw [hnone]
      exact Nat.zero_le 1
    · rw [honly]
      exact le_rfl
  case loadedFirst =>
    intro running hmem hwrites
    have hwait := hsound.waits running hmem
    cases hawaiting : running.awaiting with
    | write =>
      rw [hawaiting] at hwait
      exact loaded_first h hwait.1
    | _ =>
      rw [hawaiting] at hwrites
      cases hwrites
  case saved =>
    intro events' asked waiting resolved outcome hasked hrun hresolves houtcome
    obtain ⟨running, hfind, hreturned, hdisk, -⟩ := resolves_returned hresolves
    have hfresh := (fresh_since h hasked hrun).waits running (List.mem_of_find?_eq_some hfind)
    have hticket := List.find?_some hfind
    rw [decide_eq_true_eq] at hticket
    rw [Running.Fresh, hreturned] at hfresh
    rw [hdisk]
    exact hfresh hticket houtcome
  case kept =>
    intro event state' hstep hedits
    exact editsKept_of_markersStep hsound (step_markers hstep hedits)
  case cleared =>
    intro events' event cleared before after hclear hrun hstep hedits
    obtain ⟨hbefore, hcleared⟩ := cleared_since h hclear hrun
    exact nothingNew_of_markersStep hbefore hcleared (step_markers hstep hedits)
  case failed =>
    intro ticket resolved hresolves
    obtain ⟨running, hfind, hreturned, -, hpersistence⟩ := resolves_returned hresolves
    have hwait := hsound.waits running (List.mem_of_find?_eq_some hfind)
    rw [hreturned] at hwait
    rw [hpersistence]
    exact hwait rfl
  case flushed =>
    intro events' asked waiting hasked hrun hpending
    exact (fresh_since h hasked hrun).isClean hpending

section Examples

def markedFile : MarkerFile where
  created    := js "2026-01-01"
  markers    := [⟨42, some (js "record-number:7"), js "bug", js "#ef4444", js "2026-01-01"⟩]
  categories := defaultCategories

def markedDisk (filePath : JsString) : Option MarkerFile :=
  if filePath = js "a.log" then some markedFile else none

def toggledMarker : Marker := ⟨42, none, js "bug", js "#ef4444", js "2026-02-02"⟩

theorem marker_edits_durable_saved :
    ∃ state, (MarkerState.initial markedDisk (js "2026-02-02")).run
        [.loadMarkers (js "a.log"), .answer (js "a.log") 0 .succeeds] = some state ∧
      EditsDurable markedDisk (js "2026-02-02")
        [.loadMarkers (js "a.log"), .answer (js "a.log") 0 .succeeds] state (js "a.log") := by
  have hrun : ((MarkerState.initial markedDisk (js "2026-02-02")).run
      [.loadMarkers (js "a.log"), .answer (js "a.log") 0 .succeeds]).isSome = true := by
    decide +kernel
  obtain ⟨state, hstate⟩ := Option.isSome_iff_exists.mp hrun
  exact ⟨state, hstate, marker_edits_durable _ _ _ state hstate (js "a.log")⟩

/-- An edit without an identity is gone after a load that has a marker with an identity
on its line. -/
theorem identityless_edit_lost :
    ∃ state state', (MarkerState.initial markedDisk (js "2026-02-02")).run
        [.toggleMarker (js "a.log") 42 none, .loadMarkers (js "a.log")] = some state ∧
      state.step (.answer (js "a.log") 0 .succeeds) = some state' ∧
      ((state.files (js "a.log")).markers.getD ∅).get? 42 = some toggledMarker ∧
      ¬ EditSurvives ((state'.files (js "a.log")).markers.getD ∅) toggledMarker := by
  have hrun : ((MarkerState.initial markedDisk (js "2026-02-02")).run
      [.toggleMarker (js "a.log") 42 none, .loadMarkers (js "a.log")]).map
      (fun state => ((state.files (js "a.log")).markers.getD ∅).get? 42) = some (some toggledMarker) := by
    decide +kernel
  have hload : (((MarkerState.initial markedDisk (js "2026-02-02")).run
      [.toggleMarker (js "a.log") 42 none, .loadMarkers (js "a.log")]).bind
      (·.step (.answer (js "a.log") 0 .succeeds))).map
      (fun state => ((state.files (js "a.log")).markers.getD ∅).entries.all
        fun entry => entry.2.identity.isSome) = some true := by
    decide +kernel
  obtain ⟨state, hstate, hedit⟩ := Option.map_eq_some_iff.mp hrun
  rw [hstate, Option.bind_some] at hload
  obtain ⟨state', hstate', hall⟩ := Option.map_eq_some_iff.mp hload
  refine ⟨state, state', hstate, hstate', hedit, ?_⟩
  rintro ⟨lineId, held, hget, hsame⟩
  have hidentity := List.all_eq_true.mp hall _ ((InsertionMap.mem_entries ..).mpr hget)
  have hnone : held.identity = none := congrArg Marker.identity hsame
  rw [hnone] at hidentity
  cases hidentity

end Examples

end MarkerStore
end CmTrace
