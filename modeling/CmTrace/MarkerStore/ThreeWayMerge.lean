import CmTrace.MarkerStore.Additions
import CmTrace.MarkerStore.Markers

/-!
# A merge against a baseline

The merge ends, and what was added or changed since the baseline is present, what was
removed is gone, and what was loaded under a name that nothing of these is looked for by
is as it was.
-/

namespace CmTrace
namespace MarkerStore

open Collections Js

/-! ## A free line is found -/

def triedLines : Nat → Nat → List Nat
  | 0, _ => []
  | tries + 1, lineId => lineId :: triedLines tries (nextLineId lineId)

theorem triedLines_next (tries lineId : Nat) : triedLines tries (nextLineId lineId) =
    (List.range tries).map fun i => (lineId + 1 + i) % 2 ^ 32 := by
  induction tries generalizing lineId with
  | zero => rfl
  | succ tries ih =>
    have hnext : nextLineId (nextLineId lineId) = nextLineId (lineId + 1) := by
      simp only [nextLineId]
      omega
    rw [triedLines, hnext, ih (lineId + 1), List.range_succ_eq_map, List.map_cons, List.map_map]
    refine congrArg₂ List.cons (by rw [nextLineId]) (List.map_congr_left fun i _ => ?_)
    simp only [Function.comp_apply]
    omega

theorem nodup_triedLines {tries : Nat} (h : tries < 2 ^ 32) (lineId : Nat) :
    (triedLines (tries + 1) lineId).Nodup := by
  rw [triedLines, triedLines_next, List.nodup_cons]
  constructor
  · rw [List.mem_map]
    rintro ⟨i, hi, heq⟩
    rw [List.mem_range] at hi
    omega
  · refine List.Nodup.map_on (fun i hi j hj heq => ?_) List.nodup_range
    rw [List.mem_range] at hi hj
    omega

theorem has_of_freeLineIdFrom_none {fileMap : FileMap} {tries lineId : Nat}
    (h : freeLineIdFrom fileMap tries lineId = none) :
    ∀ k ∈ triedLines tries lineId, (fileMap.get? k).isSome := by
  induction tries generalizing lineId with
  | zero => exact fun k hk => absurd hk List.not_mem_nil
  | succ tries ih =>
    rw [freeLineIdFrom] at h
    split at h
    · rename_i hhas
      intro k hk
      rcases List.mem_cons.mp hk with rfl | hk
      · exact hhas
      · exact ih h k hk
    · cases h

theorem freeLineId_isSome {fileMap : FileMap} (h : fileMap.size < 2 ^ 32) (lineId : Nat) :
    ∃ free, freeLineId fileMap lineId = some free := by
  cases hfree : freeLineId fileMap lineId with
  | some free => exact ⟨free, rfl⟩
  | none =>
    have hlength := fileMap.length_le_size (nodup_triedLines h lineId)
      (has_of_freeLineIdFrom_none hfree)
    rw [triedLines, triedLines_next, List.length_cons, List.length_map, List.length_range]
      at hlength
    omega

section Total

variable {merged : Merged} {marker : Marker} {lineId : Nat}

theorem size_put_le (merged : Merged) (lineId : Nat) (marker : Marker) :
    (merged.put lineId marker).fileMap.size ≤ merged.fileMap.size + 1 :=
  InsertionMap.size_set_le _ _ _

theorem addMergedMarker_total (h : merged.fileMap.size < 2 ^ 32) :
    ∃ merged', addMergedMarker merged marker lineId = some merged' ∧
      merged'.fileMap.size ≤ merged.fileMap.size + 1 := by
  rw [addMergedMarker]
  split
  · exact ⟨_, rfl, size_put_le _ _ _⟩
  · split
    · exact ⟨merged, rfl, Nat.le_succ _⟩
    · obtain ⟨free, hfree⟩ := freeLineId_isSome h lineId
      rw [hfree]
      exact ⟨_, rfl, size_put_le _ _ _⟩

theorem mergeInitialMarker_total {current : FileMap} {currentIndex : MarkerIdentityIndex}
    (state : MergeState) (initial : Nat × Marker)
    (h : state.merged.fileMap.size + state.changedPairs.length < 2 ^ 32) :
    ∃ state', mergeInitialMarker current currentIndex state initial = some state' ∧
      state'.merged.fileMap.size + state'.changedPairs.length ≤
        state.merged.fileMap.size + state.changedPairs.length + 1 := by
  rw [mergeInitialMarker]
  split
  · split
    · exact ⟨state, rfl, Nat.le_succ _⟩
    · rename_i loaded _
      refine ⟨_, rfl, ?_⟩
      have hsize := InsertionMap.size_delete_le state.merged.fileMap loaded.1
      dsimp only
      omega
  · dsimp only
    split
    · split
      · exact ⟨_, rfl, Nat.le_succ _⟩
      · rename_i entry _ _ _ _
        have hroom : state.merged.fileMap.size < 2 ^ 32 := by omega
        obtain ⟨merged', hadd, hsize⟩ := @addMergedMarker_total _ entry.2 entry.1 hroom
        rw [hadd]
        refine ⟨_, rfl, ?_⟩
        dsimp only
        omega
    · refine ⟨_, rfl, ?_⟩
      dsimp only
      rw [List.length_append, List.length_singleton]
      omega

theorem mergeChangedPair_total (merged : Merged) (pair : ChangedPair)
    (h : merged.fileMap.size < 2 ^ 32) : ∃ merged', mergeChangedPair merged pair = some merged' ∧
      merged'.fileMap.size ≤ merged.fileMap.size + 1 := by
  rw [mergeChangedPair]
  split
  · exact ⟨_, rfl, size_put_le _ _ _⟩
  · exact addMergedMarker_total h

theorem mergeAddedMarker_total (matchedCurrentKeys : List Nat) (merged : Merged)
    (current : Nat × Marker) (h : merged.fileMap.size < 2 ^ 32) :
    ∃ merged', mergeAddedMarker matchedCurrentKeys merged current = some merged' ∧
      merged'.fileMap.size ≤ merged.fileMap.size + 1 := by
  rw [mergeAddedMarker]
  split
  · exact ⟨merged, rfl, Nat.le_succ _⟩
  · exact addMergedMarker_total h

end Total

/-! ## What a merge does -/

/-- A name by which something that was removed, changed or added since the baseline is
looked for among what was loaded. -/
def Touched (loaded initial current : FileMap) (name : MarkerName) : Prop :=
  (∃ k m, Removed initial current k m ∧ IsLookedFor loaded k m name) ∨
    (∃ k m entry, Changed initial current k m entry ∧
      (IsLookedFor loaded k m name ∨ IsLookedFor loaded entry.1 entry.2 name)) ∨
    ∃ k m, Added initial current k m ∧ IsLookedFor loaded k m name

/-- What was done since the baseline is done to what was loaded. -/
structure MergedSince (loaded initial current merged : FileMap) : Prop where
  wellFormed : WellFormed merged
  added : ∀ k m, Added initial current k m → Present initial current merged k m
  changed : ∀ k m entry, Changed initial current k m entry →
    m.identity = none ∨ entry.2.identity.isSome → Present initial current merged entry.1 entry.2
  removed : ∀ k m, Removed initial current k m → Gone initial current merged k m
  kept : KeptBut loaded (Touched loaded initial current) merged

section Merge

variable {loaded initial current : FileMap}

theorem mergeLoadedFileMarkers_total (loaded initial : FileMap) (current : Option FileMap)
    (h : loaded.size + initial.size + (current.getD ∅).size < 2 ^ 32) :
    ∃ state changed merged,
      runFrom (mergeInitialMarker (current.getD ∅) (buildMarkerIdentityIndex (current.getD ∅)))
        ⟨⟨loaded, buildMarkerIdentityIndex loaded⟩, [], []⟩ initial.entries = some state ∧
      runFrom mergeChangedPair state.merged state.changedPairs = some changed ∧
      runFrom (mergeAddedMarker state.matchedCurrentKeys) changed (current.getD ∅).entries =
        some merged ∧
      mergeLoadedFileMarkers loaded initial current = some merged.fileMap := by
  let currentIndex := buildMarkerIdentityIndex (current.getD ∅)
  let start : MergeState := ⟨⟨loaded, buildMarkerIdentityIndex loaded⟩, [], []⟩
  have hroom : start.merged.fileMap.size + start.changedPairs.length + initial.entries.length ≤
      2 ^ 32 := by
    have hstart : start.merged.fileMap.size + start.changedPairs.length = loaded.size := rfl
    have hinitial : initial.entries.length = initial.size := rfl
    omega
  obtain ⟨state, hstate, hsize⟩ := runFrom_total
    (f := fun state : MergeState => state.merged.fileMap.size + state.changedPairs.length)
    (@mergeInitialMarker_total (current.getD ∅) currentIndex) initial.entries hroom
  have hsizes : state.merged.fileMap.size + state.changedPairs.length ≤
    loaded.size + initial.size := hsize
  obtain ⟨changed, hchanged, hsize'⟩ := runFrom_total
    (f := fun merged : Merged => merged.fileMap.size) mergeChangedPair_total state.changedPairs
    (show state.merged.fileMap.size + state.changedPairs.length ≤ 2 ^ 32 by omega)
  have hroom' : changed.fileMap.size + (current.getD ∅).entries.length ≤ 2 ^ 32 := by
    have hcurrent : (current.getD ∅).entries.length = (current.getD ∅).size := rfl
    omega
  obtain ⟨merged, hmerged, -⟩ := runFrom_total (f := fun merged : Merged => merged.fileMap.size)
    (mergeAddedMarker_total state.matchedCurrentKeys) (current.getD ∅).entries hroom'
  refine ⟨state, changed, merged, hstate, hchanged, hmerged, ?_⟩
  exact Option.bind_eq_some_iff.mpr ⟨state, hstate,
    Option.bind_eq_some_iff.mpr ⟨changed, hchanged,
      Option.bind_eq_some_iff.mpr ⟨merged, hmerged, rfl⟩⟩⟩

theorem changed_merged (hinitial : WellFormed initial) (hcurrent : WellFormed current)
    {state : MergeState} {changed : Merged}
    (hbaseline : BaselineMerged loaded initial current initial.entries state)
    (hrun : runFrom mergeChangedPair state.merged state.changedPairs = some changed) :
    Progress loaded initial current (Lost state.changedPairs)
      (fun name => RemovedTouch loaded current initial.entries name ∨
        ChangedTouch loaded state.changedPairs name) (ChangedThere state.changedPairs) changed := by
  have hall : ∀ p ∈ state.changedPairs, IsChanged initial current p := fun p hp =>
    isChanged_of_mem hcurrent (hbaseline.pairs ▸ hp)
  refine runFrom_induct (P := fun done merged => (∀ p ∈ done, IsChanged initial current p) →
    (done.Pairwise fun a b => a.initialKey ≠ b.initialKey) →
    Progress loaded initial current (Lost done)
      (fun name => RemovedTouch loaded current initial.entries name ∨
        ChangedTouch loaded done name) (ChangedThere done) merged) ?_ ?_ hrun hall
    (hbaseline.pairs ▸ pairwise_changedPairs)
  · intro _ _
    refine ⟨hbaseline.tracks.but.mono fun _ hfalse => hfalse.elim, fun k m hremoved => ?_,
      hbaseline.kept.mono fun _ hname => .inl hname, fun k m hthere => ?_⟩
    · exact hbaseline.gone (k, m) ((initial.mem_entries k m).mpr hremoved.1) hremoved.2
    · obtain ⟨p, hp, -⟩ := hthere
      exact absurd hp List.not_mem_nil
  · intro done pair merged merged' _ ih hstep hmem hpairwise
    have hdone : ∀ p ∈ done, IsChanged initial current p := fun p hp =>
      hmem p (List.mem_append_left _ hp)
    exact (ih hdone (List.pairwise_append.mp hpairwise).1).changed hinitial hcurrent
      (hmem pair (List.mem_append_right _ (List.mem_singleton_self pair)))
      (fun p hp => ⟨hdone p hp, ne_of_pairwise_snoc hpairwise hp⟩) hstep

theorem added_merged (hcurrent : WellFormed current) {state : MergeState} {changed merged : Merged}
    (hbaseline : BaselineMerged loaded initial current initial.entries state)
    (hchanged : Progress loaded initial current (Lost state.changedPairs)
      (fun name => RemovedTouch loaded current initial.entries name ∨
        ChangedTouch loaded state.changedPairs name) (ChangedThere state.changedPairs) changed)
    (hrun : runFrom (mergeAddedMarker state.matchedCurrentKeys) changed current.entries =
      some merged) :
    Progress loaded initial current (Lost state.changedPairs)
      (fun name => (RemovedTouch loaded current initial.entries name ∨
        ChangedTouch loaded state.changedPairs name) ∨
        AddedTouch loaded initial current current.entries name)
      (fun k m => ChangedThere state.changedPairs k m ∨
        AddedThere initial current current.entries k m) merged := by
  have hall : ∀ p ∈ state.changedPairs, IsChanged initial current p := fun p hp =>
    isChanged_of_mem hcurrent (hbaseline.pairs ▸ hp)
  have hkeys : ∀ k m, current.get? k = some m →
      (k ∉ state.matchedCurrentKeys ↔ Added initial current k m) := by
    intro k m hget
    rw [hbaseline.matched]
    constructor
    · intro hnot
      refine ⟨hget, fun k' m' entry hm' hmatch hentry => hnot ⟨(k', m'), ?_, entry, hmatch, hentry⟩⟩
      exact (initial.mem_entries k' m').mpr hm'
    · rintro hadded ⟨origin, hmem, entry, hmatch, hentry⟩
      exact hadded.2 _ _ entry ((initial.mem_entries origin.1 origin.2).mp hmem) hmatch hentry
  refine runFrom_induct (P := fun done merged => (∀ e ∈ done, current.get? e.1 = some e.2) →
    (done.Pairwise fun a b => a.1 ≠ b.1) →
    Progress loaded initial current (Lost state.changedPairs)
      (fun name => (RemovedTouch loaded current initial.entries name ∨
        ChangedTouch loaded state.changedPairs name) ∨ AddedTouch loaded initial current done name)
      (fun k m => ChangedThere state.changedPairs k m ∨ AddedThere initial current done k m)
      merged) ?_ ?_ hrun
    (fun e he => (current.mem_entries e.1 e.2).mp he) (pairwise_entries current)
  · intro _ _
    refine ⟨hchanged.tracks, hchanged.gone, hchanged.kept.mono fun _ hname => .inl hname, ?_⟩
    rintro k m (hthere | ⟨hk, -⟩)
    · exact hchanged.present k m hthere
    · exact absurd hk List.not_mem_nil
  · intro done origin merged merged' _ ih hstep hmem hpairwise
    have hdone : ∀ e ∈ done, current.get? e.1 = some e.2 := fun e he =>
      hmem e (List.mem_append_left _ he)
    have horigin := hmem origin (List.mem_append_right _ (List.mem_singleton_self origin))
    exact (ih hdone (List.pairwise_append.mp hpairwise).1).added hcurrent hall horigin
      (fun e he => ⟨hdone e he, ne_of_pairwise_snoc hpairwise he⟩) (hkeys _ _ horigin) hstep

theorem touched_of (hcurrent : WellFormed current) {name : MarkerName}
    (h : (RemovedTouch loaded current initial.entries name ∨
      ChangedTouch loaded (initial.entries.filterMap (changedPair current)) name) ∨
      AddedTouch loaded initial current current.entries name) :
    Touched loaded initial current name := by
  rcases h with (⟨origin, hmem, hnone, hlooked⟩ | ⟨p, hp, hlooked⟩) | ⟨origin, -, hadded, hlooked⟩
  · exact .inl ⟨_, _, ⟨(initial.mem_entries origin.1 origin.2).mp hmem, hnone⟩, hlooked⟩
  · exact .inr (.inl ⟨_, _, p.entry, isChanged_of_mem hcurrent hp, hlooked⟩)
  · exact .inr (.inr ⟨_, _, hadded, hlooked⟩)

end Merge

/-- A merge does to what was loaded what was done since the baseline. -/
theorem mergeLoadedFileMarkers_since (loaded initial : FileMap) (current : Option FileMap)
    (hloaded : WellFormed loaded) (hinitial : WellFormed initial)
    (hcurrent : WellFormed (current.getD ∅))
    (hsize : loaded.size + initial.size + (current.getD ∅).size < 2 ^ 32) :
    ∃ merged, mergeLoadedFileMarkers loaded initial current = some merged ∧
      MergedSince loaded initial (current.getD ∅) merged := by
  obtain ⟨state, changed, merged, hstate, hchanged, hadded, hmerge⟩ :=
    mergeLoadedFileMarkers_total loaded initial current hsize
  have hbaseline := baseline_merged hloaded hinitial hcurrent hstate
  have hprogress := added_merged hcurrent hbaseline
    (changed_merged hinitial hcurrent hbaseline hchanged) hadded
  rw [hbaseline.pairs] at hprogress
  refine ⟨merged.fileMap, hmerge, hprogress.tracks.wellFormed, fun k m h => ?_,
    fun k m entry h hkeeps => ?_, hprogress.gone, hprogress.kept.mono fun _ => touched_of hcurrent⟩
  · exact (hprogress.present k m
      (.inr ⟨(InsertionMap.mem_entries _ k m).mpr h.1, h⟩)).2
  · have hline := hcurrent.lineIds _ _ (currentMatch_some hcurrent h.2.1).get
    refine (hprogress.present _ _ (.inl ⟨_, mem_changedPairs h, hkeeps, ?_⟩)).2
    rw [ChangedPair.entry, hline]

def sampleMarker (category : String) (lineId : Nat) (identity : Option JsString) : Marker :=
  ⟨lineId, identity, js category, js "#f59e0b", js "2026-02-02"⟩

def sampleMap (markers : List (Nat × Marker)) : FileMap := InsertionMap.setAll ∅ markers

/-- A marker of the baseline is removed, one is changed and one is added on the line of a
loaded one. -/
def baselineSample : FileMap :=
  sampleMap [(1, sampleMarker "bug" 1 (some (js "a"))), (2, sampleMarker "bug" 2 none)]

def currentSample : FileMap :=
  sampleMap [(2, sampleMarker "confirmed" 2 none), (3, sampleMarker "bug" 3 (some (js "c")))]

def loadedSample : FileMap :=
  sampleMap [(1, sampleMarker "bug" 1 (some (js "a"))), (2, sampleMarker "bug" 2 none),
    (3, sampleMarker "bug" 3 (some (js "d")))]

theorem wellFormed_of_entries {fileMap : FileMap}
    (hline : ∀ entry ∈ fileMap.entries, entry.2.lineId = entry.1)
    (hdistinct : ∀ entry ∈ fileMap.entries, ∀ entry' ∈ fileMap.entries,
      entry.2.identity.isSome → entry.2.identity = entry'.2.identity → entry.1 = entry'.1) :
    WellFormed fileMap := by
  refine ⟨fun k m hget => ?_, fun k k' m m' hget hget' => ?_⟩
  · exact hline (k, m) ((fileMap.mem_entries k m).mpr hget)
  · exact hdistinct (k, m) ((fileMap.mem_entries k m).mpr hget) (k', m')
      ((fileMap.mem_entries k' m').mpr hget')

theorem mergeLoadedFileMarkers_since_sample :
    ∃ merged,
      mergeLoadedFileMarkers loadedSample baselineSample (some currentSample) = some merged ∧
      MergedSince loadedSample baselineSample currentSample merged :=
  mergeLoadedFileMarkers_since loadedSample baselineSample (some currentSample)
    (wellFormed_of_entries (by decide) (by decide)) (wellFormed_of_entries (by decide) (by decide))
    (wellFormed_of_entries (by decide) (by decide)) (by decide)

example : mergeLoadedFileMarkers loadedSample baselineSample (some currentSample) =
    some (sampleMap [(2, sampleMarker "confirmed" 2 none),
      (3, sampleMarker "bug" 3 (some (js "d"))), (4, sampleMarker "bug" 4 (some (js "c")))]) := by decide

def Dropped (merged : FileMap) (marker : Marker) : Prop :=
  ∀ lineId, merged.get? lineId ≠ some (marker.withLineId lineId)

theorem dropped_of_entries {fileMap : FileMap} {marker : Marker}
    (h : ∀ entry ∈ fileMap.entries, entry.2 ≠ marker.withLineId entry.1) :
    Dropped fileMap marker :=
  fun _ hget => h _ ((fileMap.mem_entries ..).mpr hget) rfl

/-- An added marker without an identity is dropped from the line of one that has an
identity, a marker that has lost its own is written over, and of two loaded markers with
one identity both stay. -/
theorem merge_drops_markers :
    (Added ∅ (sampleMap [(5, sampleMarker "bug" 5 none)]) 5 (sampleMarker "bug" 5 none) ∧
      ∃ merged, mergeLoadedFileMarkers (sampleMap [(5, sampleMarker "bug" 5 (some (js "a")))]) ∅
          (some (sampleMap [(5, sampleMarker "bug" 5 none)])) = some merged ∧
        Dropped merged (sampleMarker "bug" 5 none)) ∧
    (Changed (sampleMap [(5, sampleMarker "bug" 5 (some (js "a")))])
        (sampleMap [(5, sampleMarker "confirmed" 5 none), (9, sampleMarker "bug" 9 none)])
        5 (sampleMarker "bug" 5 (some (js "a"))) (5, sampleMarker "confirmed" 5 none) ∧
      ∃ merged, mergeLoadedFileMarkers (sampleMap [(9, sampleMarker "bug" 9 (some (js "a")))])
          (sampleMap [(5, sampleMarker "bug" 5 (some (js "a")))])
          (some (sampleMap [(5, sampleMarker "confirmed" 5 none),
            (9, sampleMarker "bug" 9 none)])) = some merged ∧
        Dropped merged (sampleMarker "confirmed" 5 none)) ∧
    ∃ merged, mergeLoadedFileMarkers (sampleMap [(5, sampleMarker "bug" 5 (some (js "a"))),
        (9, sampleMarker "bug" 9 (some (js "a")))]) ∅ none = some merged ∧ ¬ Distinct merged := by
  refine ⟨⟨⟨by decide, fun k m entry h => ?_⟩, _, rfl, dropped_of_entries (by decide)⟩,
    ⟨⟨by decide, by decide, by decide⟩, _, rfl, dropped_of_entries (by decide)⟩, _, rfl,
    fun hdistinct => ?_⟩
  · cases h
  · exact absurd (hdistinct 5 9 _ _ rfl rfl rfl rfl) (by decide)

end MarkerStore
end CmTrace
