import CmTrace.MarkerStore.Markers

/-!
# Keeping markers on disk

The store of markers with what it asks of the backend.  Loads and saves of one file
queue up behind each other; each is a run of steps between which anything may
happen to the store, and the backend answers when it will.
-/

namespace CmTrace
namespace MarkerStore

open Collections Js

inductive MarkerLoadOutcome where
  | loaded
  | missing
  | failed
  | superseded
  deriving DecidableEq

inductive MarkerSaveOutcome where
  | saved
  | deleted
  | failed
  deriving DecidableEq

inductive MarkerFileLoadState where
  | unknown
  | ready
  | failed
  deriving DecidableEq

/-- What is on disk for a file, as far as a load reads it. -/
structure MarkerFile where
  created : JsString
  markers : List Marker
  categories : List MarkerCategory
  deriving DecidableEq

/-! ## Operations -/

inductive Request where
  | load
  | save
  deriving DecidableEq

/-- A request in the queue of its file; the ticket is that of its promise. -/
structure Operation where
  request : Request
  ticket : Nat
  deriving DecidableEq

inductive Outcome where
  | load (outcome : MarkerLoadOutcome)
  | save (outcome : MarkerSaveOutcome)
  deriving DecidableEq

/-- For whom a pending save is flushed. -/
inductive Caller where
  | load (outcome : MarkerLoadOutcome)
  | save
  deriving DecidableEq

/-- Where a running operation waits, with what it will go on with. -/
inductive Awaiting where
  | read (initial : FileMap) (initialCategories : List MarkerCategory) (clearRevision : Nat)
      (discardLoadedMarkers : Bool)
  | loaded (outcome : MarkerLoadOutcome)
  | write (caller : Caller) (content : Option MarkerFile) (mutationVersion intentVersion : Nat)
  | written (caller : Caller) (outcome : MarkerSaveOutcome) (mutationVersion intentVersion : Nat)
  | flushed (caller : Caller) (outcome : Option MarkerSaveOutcome)
  | returned (outcome : Outcome)
  | settling
  deriving DecidableEq

/-- Whether it is the backend that is waited for. -/
def Awaiting.ofBackend : Awaiting → Bool
  | read .. | write .. => true
  | loaded .. | written .. | flushed .. | returned .. | settling => false

structure Running where
  operation : Operation
  awaiting : Awaiting
  deriving DecidableEq

structure MarkerFilePersistenceState where
  loadState : MarkerFileLoadState := .unknown
  lastLoadOutcome : Option MarkerLoadOutcome := none
  preLoadMutationBaseline : Option FileMap := none
  discardLoadedMarkers : Bool := false
  mutationVersion : Nat := 0
  requestedMutationVersion : Nat := 0
  savedMutationVersion : Nat := 0
  saveIntentVersion : Nat := 0
  completedSaveIntentVersion : Nat := 0
  lastSaveOutcome : Option MarkerSaveOutcome := none
  operationRunning : Bool := false
  operations : List Operation := []
  deriving DecidableEq

def hasPendingMarkerSave (persistence : MarkerFilePersistenceState) : Bool :=
  decide (persistence.completedSaveIntentVersion < persistence.saveIntentVersion) ||
    decide (persistence.savedMutationVersion < persistence.requestedMutationVersion)

/-- All that belongs to one file: in the store, under way, and on disk. -/
structure FileState where
  markers : Option FileMap := none
  clearRevision : Nat := 0
  createdTimestamp : Option JsString := none
  persistence : MarkerFilePersistenceState := {}
  running : List Running := []
  disk : Option MarkerFile := none
  deriving DecidableEq

/-- The store; `clock` is the time now, and `results` are the promises that resolved. -/
structure MarkerState where
  files : JsString → FileState
  categories : List MarkerCategory
  activeCategory : JsString
  clock : JsString
  nextTicket : Nat
  results : List (Nat × Outcome)

def defaultCategories : List MarkerCategory :=
  [ ⟨js "bug",         js "Bug",         js "#ef4444"⟩
  , ⟨js "investigate", js "Investigate", js "#60a5fa"⟩
  , ⟨js "confirmed",   js "Confirmed",   js "#4ade80"⟩ ]

def MarkerState.initial (disk : JsString → Option MarkerFile) (clock : JsString) : MarkerState where
  files          := fun filePath => { disk := disk filePath }
  categories     := defaultCategories
  activeCategory := js "bug"
  clock          := clock
  nextTicket     := 0
  results        := []

def MarkerState.setFile (state : MarkerState) (filePath : JsString) (file : FileState) : MarkerState :=
  { state with files := Function.update state.files filePath file }

/-! ## Mutations -/

def FileState.noteMarkerMutation (file : FileState) (baseline : Option FileMap) (clearsFile : Bool) :
    FileState :=
  let p := file.persistence
  let version := p.mutationVersion + 1
  { file with persistence := { p with
      preLoadMutationBaseline :=
        if p.loadState ≠ .ready ∧ p.preLoadMutationBaseline = none then some (baseline.getD ∅)
        else p.preLoadMutationBaseline
      discardLoadedMarkers     := p.discardLoadedMarkers || (clearsFile && p.loadState ≠ .ready)
      mutationVersion          := version
      requestedMutationVersion :=
        if hasPendingMarkerSave p then version else p.requestedMutationVersion } }

def FileState.edit (file : FileState) (fileMap : FileMap) : FileState :=
  { file with markers := some fileMap }.noteMarkerMutation file.markers false

def categoryColor (categories : List MarkerCategory) (category : JsString) : Option JsString :=
  (categories.find? fun item => item.id = category).map (·.color)

/-- The markers of a file after a toggle; `none` is a search for a line that does not end. -/
def toggleMarker (state : MarkerState) (lineId : Nat) (identity : Option JsString)
    (file : FileState) : Option FileState :=
  let fileMap := file.markers.getD ∅
  match findMarkerEntry fileMap lineId identity none with
  | some existing => some (file.edit (fileMap.delete existing.1))
  | none =>
    (freeLineId fileMap lineId).map fun storedLineId =>
      file.edit <| fileMap.set storedLineId
        { lineId   := storedLineId
          identity := identity
          category := state.activeCategory
          color    := (categoryColor state.categories state.activeCategory).getD (js "#60a5fa")
          added    := state.clock }

def setMarkerCategory (state : MarkerState) (lineId : Nat) (category : JsString)
    (identity : Option JsString) (file : FileState) : FileState :=
  let fileMap := file.markers.getD ∅
  match findMarkerEntry fileMap lineId identity none with
  | none => file
  | some existing =>
    file.edit <| fileMap.set existing.1
      { existing.2.withIdentity identity with
        category := category
        color    := (categoryColor state.categories category).getD existing.2.color }

def removeMarker (lineId : Nat) (identity : Option JsString) (file : FileState) : FileState :=
  match file.markers with
  | none => file
  | some fileMap =>
    match findMarkerEntry fileMap lineId identity none with
    | none => file
    | some matched => file.edit (fileMap.delete matched.1)

def clearMarkersForFile (file : FileState) : FileState :=
  { file with markers := none, clearRevision := file.clearRevision + 1 }.noteMarkerMutation
    file.markers true

/-! ## Loading and saving -/

/-- The markers a save writes, or `none` when there are none and the file is deleted. -/
def markerFileSnapshot (state : MarkerState) (file : FileState) : Option MarkerFile :=
  match file.markers with
  | none => none
  | some fileMap =>
    if fileMap.size = 0 then none
    else some
      { created    := file.createdTimestamp.getD state.clock
        markers    := fileMap.values
        categories := state.categories }

def flushPendingMarkerSave (state : MarkerState) (file : FileState) (caller : Caller)
    (lastOutcome : Option MarkerSaveOutcome) : Awaiting :=
  if hasPendingMarkerSave file.persistence then
    .write caller (markerFileSnapshot state file) file.persistence.mutationVersion
      file.persistence.saveIntentVersion
  else .flushed caller lastOutcome

def loadMarkerFileIntoStore (state : MarkerState) (file : FileState) : Awaiting :=
  .read (file.persistence.preLoadMutationBaseline.getD (file.markers.getD ∅)) state.categories
    file.clearRevision file.persistence.discardLoadedMarkers

def afterLoad (state : MarkerState) (file : FileState) (outcome : MarkerLoadOutcome) : Awaiting :=
  if file.persistence.loadState = .ready ∧ hasPendingMarkerSave file.persistence then
    flushPendingMarkerSave state file (.load outcome) none
  else .returned (.load outcome)

def performMarkerLoadRequest (state : MarkerState) (file : FileState) : Awaiting :=
  if file.persistence.loadState = .ready then
    afterLoad state file (file.persistence.lastLoadOutcome.getD .missing)
  else loadMarkerFileIntoStore state file

/-- A save request whose file is loaded, or could not be. -/
def afterSaveLoad (state : MarkerState) (file : FileState) : Awaiting :=
  if file.persistence.loadState ≠ .ready then .returned (.save .failed)
  else flushPendingMarkerSave state file .save none

def performMarkerSaveRequest (state : MarkerState) (file : FileState) : Awaiting :=
  if file.persistence.loadState ≠ .ready then loadMarkerFileIntoStore state file
  else afterSaveLoad state file

def Operation.start (state : MarkerState) (file : FileState) (operation : Operation) : Awaiting :=
  match operation.request with
  | .load => performMarkerLoadRequest state file
  | .save => performMarkerSaveRequest state file

def runNextMarkerOperation (state : MarkerState) (file : FileState) : FileState :=
  if file.persistence.operationRunning then file
  else
    match file.persistence.operations with
    | [] => file
    | operation :: operations =>
      { file with
        persistence := { file.persistence with operationRunning := true, operations := operations }
        running     := file.running ++ [⟨operation, operation.start state file⟩] }

def enqueueMarkerOperation (state : MarkerState) (file : FileState) (request : Request) : FileState :=
  runNextMarkerOperation state { file with
    persistence := { file.persistence with
      operations := file.persistence.operations ++ [⟨request, state.nextTicket⟩] } }

def noteSaveIntent (file : FileState) : FileState :=
  let p := file.persistence
  { file with persistence := { p with
      saveIntentVersion        := p.saveIntentVersion + 1
      requestedMutationVersion := max p.requestedMutationVersion p.mutationVersion } }

/-! ## What the backend answers -/

/-- A failed write may leave anything on disk. -/
inductive Reply where
  | succeeds
  | fails (left : Option MarkerFile)

/-- The categories of a load, with those that were added during it. -/
def loadedCategories (categories initialCategories : List MarkerCategory) (result : MarkerFile) :
    List MarkerCategory :=
  if result.categories = [] then categories
  else
    result.categories ++ categories.filter fun category =>
      !(initialCategories.any fun initial => initial.id = category.id) &&
        !(result.categories.any fun loaded => loaded.id = category.id)

/-- What a load that was answered makes of a file; `none` is a merge that does not end. -/
def finishLoad (file : FileState) (initial : FileMap) (clearRevision : Nat) (discard : Bool) :
    Option (FileState × MarkerLoadOutcome) :=
  let loadOutcome : MarkerLoadOutcome := if file.disk.isSome then .loaded else .missing
  let persistence : MarkerFilePersistenceState :=
    { file.persistence with
      loadState               := .ready
      lastLoadOutcome         := some loadOutcome
      preLoadMutationBaseline := none
      discardLoadedMarkers    := false }
  (loadFileMap ((file.disk.map (·.markers)).getD [])).bind fun read =>
    if file.clearRevision ≠ clearRevision then
      some ({ file with persistence := persistence }, .superseded)
    else
      (mergeLoadedFileMarkers (if discard then ∅ else read) initial file.markers).map fun merged =>
        ({ file with
           markers          := some merged
           createdTimestamp :=
             ((file.disk.map (·.created)).filter fun created => created ≠ []).or file.createdTimestamp
           persistence      := persistence }, loadOutcome)

/-- A file and the wait of its operation when the backend has answered. -/
def answered (file : FileState) : Awaiting → Reply → Option (FileState × Awaiting)
  | .read initial _ clearRevision discard, .succeeds =>
    (finishLoad file initial clearRevision discard).map fun result => (result.1, .loaded result.2)
  | .read .., .fails _ =>
    some ({ file with persistence := { file.persistence with loadState := .failed } }, .loaded .failed)
  | .write caller content mutationVersion intentVersion, .succeeds =>
    let outcome : MarkerSaveOutcome := if content.isSome then .saved else .deleted
    some ({ file with disk := content }, .written caller outcome mutationVersion intentVersion)
  | .write caller _ mutationVersion intentVersion, .fails left =>
    some ({ file with disk := left }, .written caller .failed mutationVersion intentVersion)
  | _, _ => none

/-- The categories when the backend has answered: those of a file that was loaded. -/
def answeredCategories (state : MarkerState) (file : FileState) : Awaiting → Awaiting → List MarkerCategory
  | .read _ initialCategories _ _, .loaded .loaded =>
    (file.disk.map (loadedCategories state.categories initialCategories)).getD state.categories
  | _, _ => state.categories

/-! ## How an operation goes on -/

/-- A write that went through, as the flush takes note of it. -/
def noteSaved (file : FileState) (outcome : MarkerSaveOutcome) (mutationVersion intentVersion : Nat) :
    FileState :=
  let p := file.persistence
  { file with persistence := { p with
      savedMutationVersion       := max p.savedMutationVersion mutationVersion
      completedSaveIntentVersion := max p.completedSaveIntentVersion intentVersion
      lastSaveOutcome            := some outcome } }

/-- The outcome of an operation whose flush has returned. -/
def flushOutcome (file : FileState) (caller : Caller) (outcome : Option MarkerSaveOutcome) : Outcome :=
  match caller with
  | .load loadOutcome => .load loadOutcome
  | .save => .save ((outcome.or file.persistence.lastSaveOutcome).getD .failed)

/-- A file and the wait of its operation when what it waited for has resolved. -/
def resumed (state : MarkerState) (file : FileState) (request : Request) :
    Awaiting → Option (FileState × Awaiting)
  | .read .. | .write .. | .settling => none
  | .loaded outcome =>
    match request with
    | .load => some (file, afterLoad state file outcome)
    | .save => some (file, afterSaveLoad state file)
  | .written caller outcome mutationVersion intentVersion =>
    if outcome = .failed then some (file, .flushed caller (some .failed))
    else
      let saved := noteSaved file outcome mutationVersion intentVersion
      some (saved, flushPendingMarkerSave state saved caller (some outcome))
  | .flushed caller outcome => some (file, .returned (flushOutcome file caller outcome))
  | .returned _ => some (file, .settling)

/-- The promises that have resolved when an operation goes on. -/
def resumedResults (state : MarkerState) (ticket : Nat) : Awaiting → List (Nat × Outcome)
  | .returned outcome => state.results ++ [(ticket, outcome)]
  | _ => state.results

/-- The operation of a file is over and the next one starts. -/
def settle (state : MarkerState) (file : FileState) (ticket : Nat) : FileState :=
  runNextMarkerOperation state { file with
    persistence := { file.persistence with operationRunning := false }
    running     := file.running.filter fun running => running.operation.ticket ≠ ticket }

def FileState.find (file : FileState) (ticket : Nat) : Option Running :=
  file.running.find? fun running => running.operation.ticket = ticket

/-- A file with one of its running operations gone on to another wait. -/
def FileState.goOn (file : FileState) (ticket : Nat) (awaiting : Awaiting) : FileState :=
  { file with running := file.running.map fun running =>
      if running.operation.ticket = ticket then { running with awaiting := awaiting } else running }

/-- The backend answers what an operation waits for. -/
def answer (state : MarkerState) (filePath : JsString) (ticket : Nat) (reply : Reply) :
    Option MarkerState :=
  let file := state.files filePath
  (file.find ticket).bind fun running =>
    (answered file running.awaiting reply).map fun next =>
      { state with categories := answeredCategories state file running.awaiting next.2 }.setFile
        filePath (next.1.goOn ticket next.2)

/-- What an operation waits for, other than the backend, has resolved. -/
def resume (state : MarkerState) (filePath : JsString) (ticket : Nat) : Option MarkerState :=
  let file := state.files filePath
  (file.find ticket).bind fun running =>
    if running.awaiting = .settling then some (state.setFile filePath (settle state file ticket))
    else
      (resumed state file running.operation.request running.awaiting).map fun next =>
        { state with results := resumedResults state ticket running.awaiting }.setFile filePath
          (next.1.goOn ticket next.2)

/-! ## Runs -/

inductive Event where
  | tick (clock : JsString)
  | setActiveCategory (category : JsString)
  | addCategory (category : MarkerCategory)
  | toggleMarker (filePath : JsString) (lineId : Nat) (identity : Option JsString)
  | setMarkerCategory (filePath : JsString) (lineId : Nat) (category : JsString)
      (identity : Option JsString)
  | removeMarker (filePath : JsString) (lineId : Nat) (identity : Option JsString)
  | clearMarkersForFile (filePath : JsString)
  | loadMarkers (filePath : JsString)
  | saveMarkers (filePath : JsString)
  | answer (filePath : JsString) (ticket : Nat) (reply : Reply)
  | resume (filePath : JsString) (ticket : Nat)

def MarkerState.call (state : MarkerState) (filePath : JsString) (file : FileState)
    (request : Request) : MarkerState :=
  { state with nextTicket := state.nextTicket + 1 }.setFile filePath
    (enqueueMarkerOperation state file request)

def MarkerState.step (state : MarkerState) : Event → Option MarkerState
  | .tick clock => some { state with clock := clock }
  | .setActiveCategory category => some { state with activeCategory := category }
  | .addCategory category => some { state with categories := state.categories ++ [category] }
  | .toggleMarker filePath lineId identity =>
    (toggleMarker state lineId identity (state.files filePath)).map (state.setFile filePath)
  | .setMarkerCategory filePath lineId category identity =>
    some (state.setFile filePath
      (setMarkerCategory state lineId category identity (state.files filePath)))
  | .removeMarker filePath lineId identity =>
    some (state.setFile filePath (removeMarker lineId identity (state.files filePath)))
  | .clearMarkersForFile filePath =>
    some (state.setFile filePath (clearMarkersForFile (state.files filePath)))
  | .loadMarkers filePath => some (state.call filePath (state.files filePath) .load)
  | .saveMarkers filePath =>
    some (state.call filePath (noteSaveIntent (state.files filePath)) .save)
  | .answer filePath ticket reply => MarkerStore.answer state filePath ticket reply
  | .resume filePath ticket => MarkerStore.resume state filePath ticket

def MarkerState.run (state : MarkerState) (events : List Event) : Option MarkerState :=
  runFrom MarkerState.step state events

end MarkerStore
end CmTrace
