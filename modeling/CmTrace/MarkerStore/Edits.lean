import CmTrace.MarkerStore.Persistence

/-!
# Edits through a merge

What was edited while a file was loading is found again after the merge, on its line
or on a free one, unless it has no identity and a marker with an identity is on its
line.  Nothing comes in that was neither loaded nor edited.
-/

namespace CmTrace
namespace MarkerStore

open Collections Js

def Distinct (fileMap : FileMap) : Prop :=
  ∀ k k' m m', fileMap.get? k = some m → fileMap.get? k' = some m' → m.identity.isSome →
    m.identity = m'.identity → k = k'

/-- Whether a line is that of a marker with an identity. -/
def HeldByIdentity (fileMap : FileMap) (lineId : Nat) : Prop :=
  ∃ held, fileMap.get? lineId = some held ∧ held.identity.isSome

/-- A marker is there after a merge, perhaps on another line. -/
def EditSurvives (after : FileMap) (marker : Marker) : Prop :=
  ∃ lineId held, after.get? lineId = some held ∧ held.withLineId marker.lineId = marker

/-- A marker without an identity has given way to one that has one. -/
def GivesWay (after : FileMap) (lineId : Nat) (marker : Marker) : Prop :=
  marker.identity = none ∧ HeldByIdentity after lineId

@[simp]
theorem withLineId_identity (marker : Marker) (lineId : Nat) :
    (marker.withLineId lineId).identity = marker.identity := rfl

@[simp]
theorem withLineId_withLineId (marker : Marker) (lineId lineId' : Nat) :
    (marker.withLineId lineId).withLineId lineId' = marker.withLineId lineId' := rfl

theorem freeLineIdFrom_free {fileMap : FileMap} {tries lineId free : Nat}
    (h : freeLineIdFrom fileMap tries lineId = some free) : fileMap.get? free = none := by
  induction tries generalizing lineId with
  | zero => cases h
  | succ tries ih =>
    rw [freeLineIdFrom] at h
    split at h
    · exact ih h
    · rename_i hfree
      rw [← Option.some_inj.mp h]
      exact InsertionMap.has_eq_false.mp (Bool.eq_false_iff.mpr hfree)

theorem freeLineId_free {fileMap : FileMap} {lineId free : Nat}
    (h : freeLineId fileMap lineId = some free) : fileMap.get? free = none :=
  freeLineIdFrom_free h

theorem freeLineId_of_free {fileMap : FileMap} {lineId : Nat} (h : fileMap.get? lineId = none) :
    freeLineId fileMap lineId = some lineId := by
  rw [freeLineId, freeLineIdFrom, if_neg (by rw [InsertionMap.has_eq_false.mpr h]; decide)]

theorem legacyEntry_eq_some {fileMap : FileMap} {lineId : Nat} {entry : Nat × Marker}
    (h : legacyEntry fileMap lineId = some entry) :
    entry.1 = lineId ∧ fileMap.get? lineId = some entry.2 ∧ entry.2.identity = none := by
  rw [legacyEntry, Option.map_eq_some_iff] at h
  obtain ⟨marker, hmarker, rfl⟩ := h
  rw [Option.filter_eq_some_iff] at hmarker
  exact ⟨rfl, hmarker.1, Option.isNone_iff_eq_none.mp hmarker.2⟩

theorem legacyEntry_eq_none {fileMap : FileMap} {lineId : Nat}
    (h : legacyEntry fileMap lineId = none) {marker : Marker}
    (hmarker : fileMap.get? lineId = some marker) : marker.identity.isSome := by
  rw [legacyEntry, Option.map_eq_none_iff, hmarker, Option.filter_some] at h
  cases hidentity : marker.identity with
  | none =>
    rw [hidentity] at h
    cases h
  | some identity => rfl

/-! ## The index -/

/-- What the index says of an identity is in the map. -/
def Merged.Sound (merged : Merged) : Prop :=
  ∀ identity entry, merged.index.get? identity = some entry →
    merged.fileMap.get? entry.1 = some entry.2 ∧ entry.2.identity = some identity

theorem buildMarkerIdentityIndex_eq (fileMap : FileMap) :
    buildMarkerIdentityIndex fileMap = fileMap.entries.foldl (fun index entry =>
      entry.2.identity.elim index fun identity =>
        if index.has identity then index else index.set identity entry) ∅ := by
  refine congrArg (fun f => fileMap.entries.foldl f ∅) (funext fun index => funext fun entry => ?_)
  cases entry.2.identity <;> rfl

theorem sound_build (fileMap : FileMap) :
    (⟨fileMap, buildMarkerIdentityIndex fileMap⟩ : Merged).Sound := by
  have hfold : ∀ (entries : List (Nat × Marker)) (index : MarkerIdentityIndex),
      (∀ entry ∈ entries, fileMap.get? entry.1 = some entry.2) →
      (⟨fileMap, index⟩ : Merged).Sound →
      (⟨fileMap, entries.foldl (fun index entry => entry.2.identity.elim index fun identity =>
        if index.has identity then index else index.set identity entry) index⟩ : Merged).Sound := by
    intro entries
    induction entries with
    | nil => exact fun _ _ h => h
    | cons entry entries ih =>
      intro index hmem hsound
      rw [List.foldl_cons]
      refine ih _ (fun e he => hmem e (List.mem_cons_of_mem _ he)) ?_
      cases hidentity : entry.2.identity with
      | none => exact hsound
      | some identity =>
        rw [Option.elim_some]
        split
        · exact hsound
        · intro identity' entry' hget
          dsimp only at hget ⊢
          rw [InsertionMap.get?_set] at hget
          split at hget
          · rename_i heq
            rw [← Option.some_inj.mp hget]
            exact ⟨hmem entry (List.mem_cons_self ..), hidentity.trans (congrArg some heq.symm)⟩
          · exact hsound identity' entry' hget
  rw [buildMarkerIdentityIndex_eq]
  refine hfold fileMap.entries ∅ (fun entry he => (fileMap.mem_entries entry.1 entry.2).mp he) ?_
  intro identity entry hget
  cases hget

/-! ## One marker -/

/-- A marker is put on a line that was free, or in place of its own or of one without
an identity. -/
structure Placed (merged merged' : Merged) (marker : Marker) (preferredLineId lineId : Nat) : Prop where
  put : merged' = merged.put lineId marker
  replaces : ∀ old, merged.fileMap.get? lineId = some old →
    old.identity = marker.identity ∨ old.identity = none
  legacy : ∀ old, merged.fileMap.get? lineId = some old → old.identity = none →
    lineId = preferredLineId
  own : marker.identity = none → lineId = preferredLineId

theorem placed_of_free {merged : Merged} {marker : Marker} {preferredLineId lineId : Nat}
    (hfree : merged.fileMap.get? lineId = none)
    (hown : marker.identity = none → lineId = preferredLineId) :
    Placed merged (merged.put lineId marker) marker preferredLineId lineId where
  put := rfl
  replaces := by
    intro old hold
    rw [hfree] at hold
    cases hold
  legacy := by
    intro old hold
    rw [hfree] at hold
    cases hold
  own := hown

theorem placed_of_legacy {merged : Merged} {marker : Marker} {lineId : Nat}
    {entry : Nat × Marker} (h : legacyEntry merged.fileMap lineId = some entry) :
    Placed merged (merged.put entry.1 marker) marker lineId entry.1 := by
  obtain ⟨rfl, hget, hnone⟩ := legacyEntry_eq_some h
  refine ⟨rfl, fun old hold => .inr ?_, fun _ _ _ => rfl, fun _ => rfl⟩
  rw [hget, Option.some_inj] at hold
  rw [← hold, hnone]

theorem addMergedMarker_cases {merged merged' : Merged} {marker : Marker} {preferredLineId : Nat}
    (hsound : merged.Sound) (h : addMergedMarker merged marker preferredLineId = some merged') :
    (merged' = merged ∧ GivesWay merged.fileMap preferredLineId marker) ∨
      ∃ lineId, Placed merged merged' marker preferredLineId lineId := by
  rw [addMergedMarker, findMergeMarkerEntry] at h
  cases hidentity : marker.identity with
  | none =>
    rw [hidentity] at h
    dsimp only at h
    cases hlegacy : legacyEntry merged.fileMap preferredLineId with
    | some entry =>
      rw [hlegacy] at h
      rw [← Option.some_inj.mp h]
      exact .inr ⟨_, placed_of_legacy hlegacy⟩
    | none =>
      rw [hlegacy] at h
      dsimp only at h
      cases hget : merged.fileMap.get? preferredLineId with
      | some held =>
        have hheld := legacyEntry_eq_none hlegacy hget
        rw [hget, if_pos (by rw [Option.any_some, hheld]; rfl)] at h
        exact .inl ⟨(Option.some_inj.mp h).symm, hidentity, held, hget, hheld⟩
      | none =>
        rw [hget, if_neg (by decide), freeLineId_of_free hget, Option.map_some, Option.some_inj] at h
        rw [← h]
        exact .inr ⟨_, placed_of_free hget fun _ => rfl⟩
  | some identity =>
    rw [hidentity] at h
    dsimp only [findMarkerEntry] at h
    cases hindexed : merged.index.get? identity with
    | some entry =>
      obtain ⟨hget, hentry⟩ := hsound identity entry hindexed
      rw [hindexed, Option.some_or] at h
      dsimp only at h
      rw [← Option.some_inj.mp h]
      refine .inr ⟨entry.1, rfl, fun old hold => .inl ?_, fun old hold hnone => ?_, fun hnone => ?_⟩
      · rw [hget, Option.some_inj] at hold
        rw [← hold, hentry, hidentity]
      · rw [hget, Option.some_inj] at hold
        rw [← hold, hentry] at hnone
        cases hnone
      · rw [hidentity] at hnone
        cases hnone
    | none =>
      rw [hindexed, Option.none_or] at h
      cases hlegacy : legacyEntry merged.fileMap preferredLineId with
      | some entry =>
        rw [hlegacy] at h
        rw [← Option.some_inj.mp h]
        exact .inr ⟨_, placed_of_legacy hlegacy⟩
      | none =>
        rw [hlegacy] at h
        dsimp only at h
        rw [if_neg (by simp), Option.map_eq_some_iff] at h
        obtain ⟨lineId, hfree, rfl⟩ := h
        refine .inr ⟨lineId, placed_of_free (freeLineId_free hfree) fun hnone => ?_⟩
        rw [hidentity] at hnone
        cases hnone

/-! ## What a placed marker leaves as it was -/

/-- An edit that is there, on its own line if it has no identity, or has given way. -/
def Kept (fileMap : FileMap) (edit : Nat × Marker) : Prop :=
  (∃ lineId, fileMap.get? lineId = some (edit.2.withLineId lineId) ∧
    (edit.2.identity = none → lineId = edit.1)) ∨ GivesWay fileMap edit.1 edit.2

section Placed

variable {merged merged' : Merged} {marker : Marker} {preferredLineId lineId : Nat}

theorem Placed.get? (h : Placed merged merged' marker preferredLineId lineId) (k : Nat) :
    merged'.fileMap.get? k =
      if k = lineId then some (marker.withLineId lineId) else merged.fileMap.get? k := by
  rw [h.put, Merged.put]
  exact InsertionMap.get?_set ..

theorem Placed.sound (h : Placed merged merged' marker preferredLineId lineId)
    (hsound : merged.Sound) : merged'.Sound := by
  have hold : ∀ identity entry, merged.index.get? identity = some entry →
      marker.identity ≠ some identity →
      merged'.fileMap.get? entry.1 = some entry.2 ∧ entry.2.identity = some identity := by
    intro identity entry hget hne
    obtain ⟨hentry, hidentity⟩ := hsound identity entry hget
    refine ⟨?_, hidentity⟩
    rw [h.get?, if_neg, hentry]
    intro heq
    rw [heq] at hentry
    rcases h.replaces _ hentry with hsame | hnone
    · exact hne (hsame ▸ hidentity)
    · rw [hidentity] at hnone
      cases hnone
  intro identity entry hget
  have hput := hget
  rw [h.put, Merged.put, updateMarkerIdentityIndex] at hput
  dsimp only [withLineId_identity] at hput
  cases hmarker : marker.identity with
  | none =>
    rw [hmarker] at hput
    exact hold identity entry hput (by rw [hmarker]; exact fun hn => nomatch hn)
  | some own =>
    rw [hmarker] at hput
    dsimp only at hput
    rw [InsertionMap.get?_set] at hput
    split at hput
    · rename_i heq
      rw [← Option.some_inj.mp hput, h.get?, if_pos rfl]
      exact ⟨rfl, hmarker.trans (congrArg some heq.symm)⟩
    · rename_i hne
      exact hold identity entry hput (by rw [hmarker]; exact fun hs => hne (Option.some_inj.mp hs).symm)

theorem Placed.heldByIdentity (h : Placed merged merged' marker preferredLineId lineId) {k : Nat}
    (hheld : HeldByIdentity merged.fileMap k) : HeldByIdentity merged'.fileMap k := by
  obtain ⟨held, hget, hidentity⟩ := hheld
  by_cases hk : k = lineId
  · subst hk
    refine ⟨marker.withLineId k, by rw [h.get?, if_pos rfl], ?_⟩
    rcases h.replaces held hget with hsame | hnone
    · rw [withLineId_identity, ← hsame, hidentity]
    · rw [hnone] at hidentity
      cases hidentity
  · exact ⟨held, by rw [h.get?, if_neg hk, hget], hidentity⟩

theorem Placed.kept_self (h : Placed merged merged' marker preferredLineId lineId) :
    Kept merged'.fileMap (preferredLineId, marker) :=
  .inl ⟨lineId, by rw [h.get?, if_pos rfl], h.own⟩

/-- An edit of another line and another identity is not what a marker is put in place
of: by identity it would be its own, and without one it is on its own line. -/
theorem Placed.kept_other (h : Placed merged merged' marker preferredLineId lineId)
    {edit : Nat × Marker} (hline : edit.1 ≠ preferredLineId)
    (hidentity : edit.2.identity.isSome → edit.2.identity ≠ marker.identity)
    (hkept : Kept merged.fileMap edit) : Kept merged'.fileMap edit := by
  rcases hkept with ⟨k, hget, hown⟩ | ⟨hnone, hheld⟩
  · refine .inl ⟨k, ?_, hown⟩
    rw [h.get?, if_neg, hget]
    intro hk
    rw [hk] at hget
    cases hedit : edit.2.identity with
    | none =>
      exact hline ((hown hedit).symm.trans (hk.trans (h.legacy _ hget hedit)))
    | some identity =>
      rcases h.replaces _ hget with hsame | hnone
      · exact hidentity (by rw [hedit]; rfl) hsame
      · rw [withLineId_identity, hedit] at hnone
        cases hnone
  · exact .inr ⟨hnone, h.heldByIdentity hheld⟩

end Placed

/-! ## All edits -/

/-- Edits of different lines and different identities. -/
def Apart (edits : List (Nat × Marker)) : Prop :=
  edits.Pairwise fun e e' =>
    e.1 ≠ e'.1 ∧ (e.2.identity.isSome → e.2.identity ≠ e'.2.identity)

theorem apart_of_distinct {fileMap : FileMap} (h : Distinct fileMap) : Apart fileMap.entries := by
  have hkeys := List.pairwise_map.mp fileMap.nodup
  refine hkeys.imp_of_mem fun {e e'} he he' hne => ⟨hne, fun hsome heq => hne ?_⟩
  exact h e.1 e'.1 e.2 e'.2 ((fileMap.mem_entries ..).mp he) ((fileMap.mem_entries ..).mp he') hsome
    heq

/-- A merge of edits so far: every one is kept, and there is nothing else but what was
there before. -/
structure EditsMerged (loaded : FileMap) (edits : List (Nat × Marker)) (merged : Merged) : Prop where
  sound : merged.Sound
  kept : Apart edits → ∀ edit ∈ edits, Kept merged.fileMap edit
  only : ∀ k marker, merged.fileMap.get? k = some marker →
    loaded.get? k = some marker ∨ ∃ edit ∈ edits, marker = edit.2.withLineId k

theorem EditsMerged.add {loaded : FileMap} {edits : List (Nat × Marker)} {merged merged' : Merged}
    (h : EditsMerged loaded edits merged) {edit : Nat × Marker}
    (hadd : addMergedMarker merged edit.2 edit.1 = some merged') :
    EditsMerged loaded (edits ++ [edit]) merged' := by
  have hmore : ∀ k marker, merged.fileMap.get? k = some marker →
      loaded.get? k = some marker ∨ ∃ e ∈ edits ++ [edit], marker = e.2.withLineId k := by
    intro k marker hget
    refine (h.only k marker hget).imp_right ?_
    rintro ⟨e, he, hmarker⟩
    exact ⟨e, List.mem_append_left _ he, hmarker⟩
  rcases addMergedMarker_cases h.sound hadd with ⟨rfl, hgives⟩ | ⟨lineId, hplaced⟩
  · refine ⟨h.sound, fun hapart e he => ?_, hmore⟩
    rcases List.mem_append.mp he with hold | hnew
    · exact h.kept (List.pairwise_append.mp hapart).1 e hold
    · rw [List.mem_singleton.mp hnew]
      exact .inr hgives
  · refine ⟨hplaced.sound h.sound, fun hapart e he => ?_, fun k marker hget => ?_⟩
    · obtain ⟨hbefore, -, hacross⟩ := List.pairwise_append.mp hapart
      rcases List.mem_append.mp he with hold | hnew
      · have hne := hacross e hold edit (List.mem_singleton_self edit)
        exact hplaced.kept_other hne.1 hne.2 (h.kept hbefore e hold)
      · rw [List.mem_singleton.mp hnew]
        exact hplaced.kept_self
    · rw [hplaced.get?] at hget
      split at hget
      · rename_i hk
        exact .inr ⟨edit, List.mem_append_right _ (List.mem_singleton_self edit),
          hk ▸ (Option.some_inj.mp hget).symm⟩
      · exact hmore k marker hget

theorem mergeEdits {loaded : FileMap} {merged' : Merged} {edits : List (Nat × Marker)}
    (h : runFrom (mergeAddedMarker []) ⟨loaded, buildMarkerIdentityIndex loaded⟩ edits = some merged') :
    EditsMerged loaded edits merged' := by
  refine runFrom_induct (P := EditsMerged loaded) ?_ ?_ h
  · exact ⟨sound_build loaded, fun _ _ he => (nomatch he), fun _ _ hget => .inl hget⟩
  · intro edits edit merged merged' _ hmerged hstep
    rw [mergeAddedMarker, if_neg List.not_mem_nil] at hstep
    exact hmerged.add hstep

theorem mergeLoadedFileMarkers_edits {loaded merged : FileMap} {current : Option FileMap}
    (h : mergeLoadedFileMarkers loaded ∅ current = some merged) :
    ∃ merged', EditsMerged loaded (current.getD ∅).entries merged' ∧ merged'.fileMap = merged := by
  rw [mergeLoadedFileMarkers] at h
  obtain ⟨state, hstate, h⟩ := Option.bind_eq_some_iff.mp h
  cases hstate
  obtain ⟨changed, hchanged, h⟩ := Option.bind_eq_some_iff.mp h
  cases hchanged
  obtain ⟨merged', hrun, hmerged⟩ := Option.bind_eq_some_iff.mp h
  exact ⟨merged', mergeEdits hrun, Option.some_inj.mp hmerged⟩

theorem edits_survive {loaded merged : FileMap} {current : Option FileMap}
    (hdistinct : Distinct (current.getD ∅))
    (h : mergeLoadedFileMarkers loaded ∅ current = some merged) {k : Nat} {marker : Marker}
    (hedit : (current.getD ∅).get? k = some marker) :
    EditSurvives merged marker ∨ GivesWay merged k marker := by
  obtain ⟨merged', hmerged, rfl⟩ := mergeLoadedFileMarkers_edits h
  have hkept := hmerged.kept (apart_of_distinct hdistinct) (k, marker)
    ((InsertionMap.mem_entries ..).mpr hedit)
  refine hkept.imp_left ?_
  rintro ⟨lineId, hget, -⟩
  exact ⟨lineId, _, hget, rfl⟩

theorem merged_only {loaded merged : FileMap} {current : Option FileMap}
    (h : mergeLoadedFileMarkers loaded ∅ current = some merged) {k : Nat} {marker : Marker}
    (hget : merged.get? k = some marker) :
    loaded.get? k = some marker ∨
      ∃ k' edit, (current.getD ∅).get? k' = some edit ∧ marker = edit.withLineId k := by
  obtain ⟨merged', hmerged, rfl⟩ := mergeLoadedFileMarkers_edits h
  refine (hmerged.only k marker hget).imp_right ?_
  rintro ⟨edit, hedit, hmarker⟩
  exact ⟨edit.1, edit.2, (InsertionMap.mem_entries ..).mp hedit, hmarker⟩

end MarkerStore
end CmTrace
