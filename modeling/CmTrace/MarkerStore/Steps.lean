import CmTrace.MarkerStore.Edits

/-!
# What an event does to a file

Every event leaves a file as it is, edits its markers, queues a request, takes its
running operation one wait further, or ends it.
-/

namespace CmTrace
namespace MarkerStore

open Collections Js

/-! ## Edits keep identities apart -/

theorem distinct_empty : Distinct ∅ := by
  intro k k' m m' hget
  cases hget

theorem distinct_delete {fileMap : FileMap} (h : Distinct fileMap) (k : Nat) :
    Distinct (fileMap.delete k) := by
  have hget : ∀ {k' m}, (fileMap.delete k).get? k' = some m → fileMap.get? k' = some m := by
    intro k' m hm
    rw [InsertionMap.get?_delete] at hm
    split at hm
    · cases hm
    · exact hm
  intro k₁ k₂ m₁ m₂ h₁ h₂
  exact h k₁ k₂ m₁ m₂ (hget h₁) (hget h₂)

theorem distinct_set {fileMap : FileMap} (h : Distinct fileMap) {k : Nat} {marker : Marker}
    (hother : ∀ k' m, fileMap.get? k' = some m → m.identity.isSome →
      m.identity = marker.identity → k' = k) : Distinct (fileMap.set k marker) := by
  intro k₁ k₂ m₁ m₂ h₁ h₂ hsome heq
  rw [InsertionMap.get?_set] at h₁ h₂
  split at h₁
  · rename_i hk₁
    split at h₂
    · rename_i hk₂
      rw [hk₁, hk₂]
    · cases h₁
      rw [hk₁]
      exact (hother k₂ m₂ h₂ (heq ▸ hsome) heq.symm).symm
  · split at h₂
    · rename_i hk₂
      cases h₂
      rw [hk₂]
      exact hother k₁ m₁ h₁ hsome heq
    · exact h k₁ k₂ m₁ m₂ h₁ h₂ hsome heq

/-- What `findMarkerEntry` finds is there, and of the identity asked for or of none;
what has the identity is found. -/
theorem findMarkerEntry_eq_some {fileMap : FileMap} (hdistinct : Distinct fileMap) {lineId : Nat}
    {identity : Option JsString} {entry : Nat × Marker}
    (h : findMarkerEntry fileMap lineId identity none = some entry) :
    fileMap.get? entry.1 = some entry.2 ∧
      ∀ k m, fileMap.get? k = some m → m.identity.isSome →
        m.identity = identity.or entry.2.identity → k = entry.1 := by
  cases identity with
  | none =>
    rw [findMarkerEntry, Option.map_eq_some_iff] at h
    obtain ⟨marker, hget, rfl⟩ := h
    exact ⟨hget, fun k m hm hsome heq => hdistinct k lineId m marker hm hget hsome heq⟩
  | some identity =>
    rw [findMarkerEntry] at h
    cases hfind : fileMap.entries.find? fun entry => entry.2.identity = some identity with
    | some found =>
      rw [hfind, Option.some_or, Option.some_inj] at h
      subst h
      have hidentity := List.find?_some hfind
      rw [decide_eq_true_eq] at hidentity
      have hget := (fileMap.mem_entries ..).mp (List.mem_of_find?_eq_some hfind)
      refine ⟨hget, fun k m hm hsome heq => hdistinct k found.1 m found.2 hm hget hsome ?_⟩
      rw [heq, hidentity, Option.some_or]
    | none =>
      rw [hfind, Option.none_or] at h
      obtain ⟨rfl, hget, -⟩ := legacyEntry_eq_some h
      refine ⟨hget, fun k m hm _ heq => ?_⟩
      have hnot := List.find?_eq_none.mp hfind (k, m) ((fileMap.mem_entries ..).mpr hm)
      rw [Option.some_or] at heq
      exact absurd (decide_eq_true heq) hnot

theorem findMarkerEntry_eq_none {fileMap : FileMap} {lineId : Nat} {identity : Option JsString}
    (h : findMarkerEntry fileMap lineId identity none = none) {k : Nat} {m : Marker}
    (hm : fileMap.get? k = some m) (hsome : m.identity.isSome) : m.identity ≠ identity := by
  intro heq
  cases identity with
  | none =>
    rw [heq] at hsome
    cases hsome
  | some identity =>
    rw [findMarkerEntry, Option.or_eq_none_iff] at h
    exact List.find?_eq_none.mp h.1 (k, m) ((fileMap.mem_entries ..).mpr hm) (decide_eq_true heq)

/-! ## Steps of a file -/

/-- The running operation of a file goes from one wait to the next. -/
inductive Goes (state : MarkerState) (file : FileState) (request : Request) :
    Awaiting → FileState → Awaiting → Prop where
  | loaded {initial : FileMap} {categories : List MarkerCategory} {clearRevision : Nat}
      {discard : Bool} {next : FileState} {outcome : MarkerLoadOutcome}
      (h : finishLoad file initial clearRevision discard = some (next, outcome)) :
      Goes state file request (.read initial categories clearRevision discard) next (.loaded outcome)
  | notLoaded {initial : FileMap} {categories : List MarkerCategory} {clearRevision : Nat}
      {discard : Bool} :
      Goes state file request (.read initial categories clearRevision discard)
        { file with persistence := { file.persistence with loadState := .failed } } (.loaded .failed)
  | wrote {caller : Caller} {content : Option MarkerFile} {mutationVersion intentVersion : Nat} :
      Goes state file request (.write caller content mutationVersion intentVersion)
        { file with disk := content }
        (.written caller (if content.isSome then .saved else .deleted) mutationVersion intentVersion)
  | notWritten {caller : Caller} {content left : Option MarkerFile}
      {mutationVersion intentVersion : Nat} :
      Goes state file request (.write caller content mutationVersion intentVersion)
        { file with disk := left } (.written caller .failed mutationVersion intentVersion)
  | afterLoad {outcome : MarkerLoadOutcome} (h : request = .load) :
      Goes state file request (.loaded outcome) file (afterLoad state file outcome)
  | afterSaveLoad {outcome : MarkerLoadOutcome} (h : request = .save) :
      Goes state file request (.loaded outcome) file (afterSaveLoad state file)
  | notSaved {caller : Caller} {mutationVersion intentVersion : Nat} :
      Goes state file request (.written caller .failed mutationVersion intentVersion) file
        (.flushed caller (some .failed))
  | saved {caller : Caller} {outcome : MarkerSaveOutcome} {mutationVersion intentVersion : Nat}
      (h : outcome ≠ .failed) :
      Goes state file request (.written caller outcome mutationVersion intentVersion)
        (noteSaved file outcome mutationVersion intentVersion)
        (flushPendingMarkerSave state (noteSaved file outcome mutationVersion intentVersion) caller
          (some outcome))
  | flushed {caller : Caller} {outcome : Option MarkerSaveOutcome} :
      Goes state file request (.flushed caller outcome) file
        (.returned (flushOutcome file caller outcome))
  | returned {outcome : Outcome} : Goes state file request (.returned outcome) file .settling

/-- What an event may do to one file; `nextTicket` is the next ticket after it. -/
inductive FileStep (state : MarkerState) (nextTicket : Nat) (file : FileState) : FileState → Prop where
  | same : FileStep state nextTicket file file
  | edit (fileMap : FileMap) (h : Distinct (file.markers.getD ∅) → Distinct fileMap) :
      FileStep state nextTicket file (file.edit fileMap)
  | clear : FileStep state nextTicket file (clearMarkersForFile file)
  | load (h : nextTicket = state.nextTicket + 1) :
      FileStep state nextTicket file (enqueueMarkerOperation state file .load)
  | save (h : nextTicket = state.nextTicket + 1) :
      FileStep state nextTicket file (enqueueMarkerOperation state (noteSaveIntent file) .save)
  | goOn {running : Running} {next : FileState} {awaiting : Awaiting} {ticket : Nat}
      (hfind : file.find ticket = some running)
      (h : Goes state file running.operation.request running.awaiting next awaiting) :
      FileStep state nextTicket file (next.goOn ticket awaiting)
  | settle {running : Running} {ticket : Nat} (hfind : file.find ticket = some running)
      (h : running.awaiting = .settling) :
      FileStep state nextTicket file (settle state file ticket)

theorem answered_goes {state : MarkerState} {file next : FileState} {request : Request}
    {awaiting awaiting' : Awaiting} {reply : Reply}
    (h : answered file awaiting reply = some (next, awaiting')) :
    Goes state file request awaiting next awaiting' := by
  cases awaiting with
  | read initial categories clearRevision discard =>
    cases reply with
    | succeeds =>
      obtain ⟨result, hload, hresult⟩ := Option.map_eq_some_iff.mp h
      cases hresult
      exact .loaded hload
    | fails left =>
      cases h
      exact .notLoaded
  | write caller content mutationVersion intentVersion =>
    cases reply with
    | succeeds =>
      cases h
      exact .wrote
    | fails left =>
      cases h
      exact .notWritten
  | loaded outcome => cases h
  | written caller outcome mutationVersion intentVersion => cases h
  | flushed caller outcome => cases h
  | returned outcome => cases h
  | settling => cases h

theorem resumed_goes {state : MarkerState} {file next : FileState} {request : Request}
    {awaiting awaiting' : Awaiting} (h : resumed state file request awaiting = some (next, awaiting')) :
    Goes state file request awaiting next awaiting' := by
  cases awaiting with
  | read initial categories clearRevision discard => cases h
  | write caller content mutationVersion intentVersion => cases h
  | settling => cases h
  | loaded outcome =>
    cases request with
    | load =>
      cases h
      exact .afterLoad rfl
    | save =>
      cases h
      exact .afterSaveLoad rfl
  | written caller outcome mutationVersion intentVersion =>
    rw [resumed] at h
    split at h
    · rename_i houtcome
      cases h
      rw [houtcome]
      exact .notSaved
    · rename_i houtcome
      cases h
      exact .saved houtcome
  | flushed caller outcome =>
    cases h
    exact .flushed
  | returned outcome =>
    cases h
    exact .returned

theorem toggleMarker_step {state : MarkerState} {nextTicket lineId : Nat} {identity : Option JsString}
    {file file' : FileState} (h : toggleMarker state lineId identity file = some file') :
    FileStep state nextTicket file file' := by
  rw [toggleMarker] at h
  split at h
  · cases h
    exact .edit _ fun hdistinct => distinct_delete hdistinct _
  · rename_i hnone
    obtain ⟨storedLineId, -, rfl⟩ := Option.map_eq_some_iff.mp h
    refine .edit _ fun hdistinct => distinct_set hdistinct fun k m hm hsome heq => ?_
    exact absurd heq (findMarkerEntry_eq_none hnone hm hsome)

theorem setMarkerCategory_step (state : MarkerState) (nextTicket lineId : Nat) (category : JsString)
    (identity : Option JsString) (file : FileState) :
    FileStep state nextTicket file (setMarkerCategory state lineId category identity file) := by
  rw [setMarkerCategory]
  split
  · exact .same
  · rename_i existing hsome
    refine .edit _ fun hdistinct => distinct_set hdistinct ?_
    exact (findMarkerEntry_eq_some hdistinct hsome).2

theorem removeMarker_step (state : MarkerState) (nextTicket lineId : Nat) (identity : Option JsString)
    (file : FileState) : FileStep state nextTicket file (removeMarker lineId identity file) := by
  rw [removeMarker]
  split
  · exact .same
  · rename_i fileMap hmarkers
    split
    · exact .same
    · refine .edit _ fun hdistinct => distinct_delete ?_ _
      rwa [hmarkers, Option.getD_some] at hdistinct

theorem files_setFile (state : MarkerState) (filePath filePath' : JsString) (file : FileState) :
    (state.setFile filePath file).files filePath' =
      if filePath' = filePath then file else state.files filePath' :=
  Function.update_apply state.files filePath file filePath'

theorem setFile_step (state state' : MarkerState) {filePath : JsString} {file : FileState}
    (hfiles : state'.files = state.files)
    (h : FileStep state state'.nextTicket (state.files filePath) file) (filePath' : JsString) :
    FileStep state state'.nextTicket (state.files filePath')
      ((state'.setFile filePath file).files filePath') := by
  rw [files_setFile, hfiles]
  split
  · rename_i heq
    rw [heq]
    exact h
  · exact .same

theorem step_file {state state' : MarkerState} {event : Event} (h : state.step event = some state')
    (filePath : JsString) :
    FileStep state state'.nextTicket (state.files filePath) (state'.files filePath) := by
  cases event with
  | tick clock =>
    cases h
    exact .same
  | setActiveCategory category =>
    cases h
    exact .same
  | addCategory category =>
    cases h
    exact .same
  | toggleMarker edited lineId identity =>
    obtain ⟨file, hfile, rfl⟩ := Option.map_eq_some_iff.mp h
    exact setFile_step state state rfl (toggleMarker_step hfile) filePath
  | setMarkerCategory edited lineId category identity =>
    cases h
    exact setFile_step state state rfl (setMarkerCategory_step ..) filePath
  | removeMarker edited lineId identity =>
    cases h
    exact setFile_step state state rfl (removeMarker_step ..) filePath
  | clearMarkersForFile edited =>
    cases h
    exact setFile_step state state rfl .clear filePath
  | loadMarkers asked =>
    cases h
    exact setFile_step state { state with nextTicket := state.nextTicket + 1 } rfl (.load rfl) filePath
  | saveMarkers asked =>
    cases h
    exact setFile_step state { state with nextTicket := state.nextTicket + 1 } rfl (.save rfl) filePath
  | answer asked ticket reply =>
    obtain ⟨running, hfind, h⟩ := Option.bind_eq_some_iff.mp h
    obtain ⟨next, hnext, rfl⟩ := Option.map_eq_some_iff.mp h
    exact setFile_step state
      { state with
        categories := answeredCategories state (state.files asked) running.awaiting next.2 }
      rfl (.goOn hfind (answered_goes hnext)) filePath
  | resume asked ticket =>
    obtain ⟨running, hfind, h⟩ := Option.bind_eq_some_iff.mp h
    split at h
    · rename_i hsettling
      cases h
      exact setFile_step state state rfl (.settle hfind hsettling) filePath
    · obtain ⟨next, hnext, rfl⟩ := Option.map_eq_some_iff.mp h
      exact setFile_step state { state with results := resumedResults state ticket running.awaiting } rfl
        (.goOn hfind (resumed_goes hnext)) filePath

end MarkerStore
end CmTrace
