import CmTrace.Collections.InsertionMap
import CmTrace.Collections.Runs
import CmTrace.Js.Text

/-!
# The markers of a file

Markers by the line they stand at.  Two markers of one line go to different keys when
each has an identity, and a marker without one is the marker of its line.  What is
loaded is merged with what was edited meanwhile, against what was there before.
-/

namespace CmTrace
namespace MarkerStore

open Collections Js

structure Marker where
  lineId : Nat
  identity : Option JsString
  category : JsString
  color : JsString
  added : JsString
  deriving DecidableEq

structure MarkerCategory where
  id : JsString
  label : JsString
  color : JsString
  deriving DecidableEq

abbrev FileMap : Type := InsertionMap Nat Marker

def Marker.withLineId (marker : Marker) (lineId : Nat) : Marker := { marker with lineId := lineId }

def Marker.withIdentity (marker : Marker) (identity : Option JsString) : Marker :=
  { marker with identity := identity.or marker.identity }

def nextLineId (lineId : Nat) : Nat := (lineId + 1) % 2 ^ 32

def freeLineIdFrom (fileMap : FileMap) : Nat → Nat → Option Nat
  | 0, _ => none
  | tries + 1, lineId =>
    if fileMap.has lineId then freeLineIdFrom fileMap tries (nextLineId lineId) else some lineId

/-- The first free line id from one on; `none` is a search that does not end. -/
def freeLineId (fileMap : FileMap) (lineId : Nat) : Option Nat :=
  freeLineIdFrom fileMap (fileMap.size + 1) lineId

/-! ## Markers by identity -/

abbrev MarkerIdentityIndex : Type := InsertionMap JsString (Nat × Marker)

def updateMarkerIdentityIndex (index : MarkerIdentityIndex) (entry : Nat × Marker) :
    MarkerIdentityIndex :=
  match entry.2.identity with
  | some identity => index.set identity entry
  | none => index

def buildMarkerIdentityIndex (fileMap : FileMap) : MarkerIdentityIndex :=
  fileMap.entries.foldl (fun index entry =>
    match entry.2.identity with
    | some identity => if index.has identity then index else index.set identity entry
    | none => index) ∅

def removeMarkerIdentityIndex (index : MarkerIdentityIndex) (fileMap : FileMap)
    (entry : Nat × Marker) : MarkerIdentityIndex :=
  match entry.2.identity with
  | none => index
  | some identity =>
    if (index.get? identity).map Prod.fst ≠ some entry.1 then index
    else
      match fileMap.entries.find? fun candidate => candidate.2.identity = some identity with
      | some candidate => (index.delete identity).set identity candidate
      | none => index.delete identity

/-- The marker at a line if it has no identity. -/
def legacyEntry (fileMap : FileMap) (lineId : Nat) : Option (Nat × Marker) :=
  ((fileMap.get? lineId).filter fun candidate => candidate.identity.isNone).map (lineId, ·)

def findMarkerEntry (fileMap : FileMap) (lineId : Nat) (identity : Option JsString)
    (index : Option MarkerIdentityIndex) : Option (Nat × Marker) :=
  match identity with
  | none => (fileMap.get? lineId).map (lineId, ·)
  | some identity =>
    let indexed :=
      match index with
      | some index => index.get? identity
      | none => fileMap.entries.find? fun entry => entry.2.identity = some identity
    indexed.or (legacyEntry fileMap lineId)

def findMergeMarkerEntry (fileMap : FileMap) (lineId : Nat) (marker : Marker)
    (index : MarkerIdentityIndex) : Option (Nat × Marker) :=
  match marker.identity with
  | some _ => findMarkerEntry fileMap lineId marker.identity (some index)
  | none => legacyEntry fileMap lineId

/-! ## Merging -/

/-- What a merge has so far. -/
structure Merged where
  fileMap : FileMap
  index : MarkerIdentityIndex
  deriving DecidableEq

def Merged.put (merged : Merged) (lineId : Nat) (marker : Marker) : Merged where
  fileMap := merged.fileMap.set lineId (marker.withLineId lineId)
  index   := updateMarkerIdentityIndex merged.index (lineId, marker.withLineId lineId)

def addMergedMarker (merged : Merged) (marker : Marker) (preferredLineId : Nat) : Option Merged :=
  match findMergeMarkerEntry merged.fileMap preferredLineId marker merged.index with
  | some existing => some (merged.put existing.1 marker)
  | none =>
    if marker.identity.isNone &&
        (merged.fileMap.get? preferredLineId).any (fun held => held.identity.isSome) then some merged
    else (freeLineId merged.fileMap preferredLineId).map fun lineId => merged.put lineId marker

/-- The marker that an edit has in place of an initial one. -/
structure ChangedPair where
  initialKey : Nat
  initialMarker : Marker
  currentMarker : Marker
  deriving DecidableEq

structure MergeState where
  merged : Merged
  matchedCurrentKeys : List Nat
  changedPairs : List ChangedPair
  deriving DecidableEq

def mergeInitialMarker (current : FileMap) (currentIndex : MarkerIdentityIndex) (state : MergeState)
    (initial : Nat × Marker) : Option MergeState :=
  match findMergeMarkerEntry current initial.1 initial.2 currentIndex with
  | none =>
    match findMergeMarkerEntry state.merged.fileMap initial.1 initial.2 state.merged.index with
    | none => some state
    | some loaded =>
      let fileMap := state.merged.fileMap.delete loaded.1
      some { state with
        merged := ⟨fileMap, removeMarkerIdentityIndex state.merged.index fileMap loaded⟩ }
  | some entry =>
    let matchedCurrentKeys := entry.1 :: state.matchedCurrentKeys
    if initial.2 = entry.2 then
      match findMergeMarkerEntry state.merged.fileMap initial.1 initial.2 state.merged.index with
      | some _ => some { state with matchedCurrentKeys := matchedCurrentKeys }
      | none =>
        (addMergedMarker state.merged entry.2 entry.1).map fun merged =>
          { state with merged := merged, matchedCurrentKeys := matchedCurrentKeys }
    else
      some { state with
        matchedCurrentKeys := matchedCurrentKeys
        changedPairs       := state.changedPairs ++ [⟨initial.1, initial.2, entry.2⟩] }

def mergeChangedPair (merged : Merged) (pair : ChangedPair) : Option Merged :=
  match findMergeMarkerEntry merged.fileMap pair.initialKey pair.initialMarker merged.index with
  | some loaded => some (merged.put loaded.1 pair.currentMarker)
  | none => addMergedMarker merged pair.currentMarker pair.currentMarker.lineId

def mergeAddedMarker (matchedCurrentKeys : List Nat) (merged : Merged) (current : Nat × Marker) :
    Option Merged :=
  if current.1 ∈ matchedCurrentKeys then some merged
  else addMergedMarker merged current.2 current.1

/-- A file's markers as loaded, with what was edited between `initial` and `current`. -/
def mergeLoadedFileMarkers (loaded initial : FileMap) (current : Option FileMap) : Option FileMap := do
  let currentMap := current.getD ∅
  let start : MergeState := ⟨⟨loaded, buildMarkerIdentityIndex loaded⟩, [], []⟩
  let state ← runFrom (mergeInitialMarker currentMap (buildMarkerIdentityIndex currentMap)) start
    initial.entries
  let changed ← runFrom mergeChangedPair state.merged state.changedPairs
  let merged ← runFrom (mergeAddedMarker state.matchedCurrentKeys) changed currentMap.entries
  return merged.fileMap

/-- One marker of a file on disk put with those before it. -/
def addLoadedMarker (fileMap : FileMap) (marker : Marker) : Option FileMap :=
  match fileMap.get? marker.lineId with
  | none => some (fileMap.set marker.lineId marker)
  | some existing =>
    if existing.identity = marker.identity then some (fileMap.set marker.lineId marker)
    else if existing.identity.isSome && marker.identity.isNone then some fileMap
    else (freeLineId fileMap marker.lineId).map fun lineId =>
      fileMap.set lineId (marker.withLineId lineId)

def loadFileMap (markers : List Marker) : Option FileMap := runFrom addLoadedMarker ∅ markers

end MarkerStore
end CmTrace
