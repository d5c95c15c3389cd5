import CmTrace.MarkerStore.Edits

/-!
# Markers by their names

A marker goes by its identity, or by its line when it has none.  As long as lines are
keys and no two markers have one identity, a name is that of one marker, and the index
finds it.
-/

namespace CmTrace
namespace MarkerStore

open Collections Js

inductive MarkerName where
  | identity (identity : JsString)
  | line (lineId : Nat)
  deriving DecidableEq

def nameOf (lineId : Nat) (marker : Marker) : MarkerName :=
  match marker.identity with
  | some identity => .identity identity
  | none => .line lineId

structure WellFormed (fileMap : FileMap) : Prop where
  lineIds : ∀ k m, fileMap.get? k = some m → m.lineId = k
  distinct : Distinct fileMap

def Absent (fileMap : FileMap) (identity : JsString) : Prop :=
  ∀ k m, fileMap.get? k = some m → m.identity ≠ some identity

/-- The names by which a marker is looked for: its own and, as it may have been stored
without its identity, its line when no marker has that. -/
def IsLookedFor (fileMap : FileMap) (lineId : Nat) (marker : Marker) (name : MarkerName) : Prop :=
  name = nameOf lineId marker ∨ (name = .line lineId ∧
    ∀ identity, marker.identity = some identity → Absent fileMap identity)

theorem nameOf_eq_identity {lineId : Nat} {marker : Marker} {identity : JsString} :
    nameOf lineId marker = .identity identity ↔ marker.identity = some identity := by
  rw [nameOf]
  cases marker.identity <;> simp

theorem nameOf_eq_line {lineId k : Nat} {marker : Marker} :
    nameOf lineId marker = .line k ↔ marker.identity = none ∧ lineId = k := by
  rw [nameOf]
  cases marker.identity <;> simp

theorem nameOf_of_none {lineId : Nat} {marker : Marker} (h : marker.identity = none) :
    nameOf lineId marker = .line lineId := by
  rw [nameOf, h]

theorem nameOf_of_some {lineId : Nat} {marker : Marker} {identity : JsString}
    (h : marker.identity = some identity) : nameOf lineId marker = .identity identity := by
  rw [nameOf, h]

theorem WellFormed.withLineId {fileMap : FileMap} (h : WellFormed fileMap) {k : Nat} {m : Marker}
    (hget : fileMap.get? k = some m) : m.withLineId k = m := by
  rw [Marker.withLineId, ← h.lineIds k m hget]

/-! ## What the index finds -/

/-- Lines are keys, and the index has each identity that is there.  What it says of
other identities holds too, but for some that are stale. -/
structure Tracks (stale : JsString → Prop) (merged : Merged) : Prop where
  lineIds : ∀ k m, merged.fileMap.get? k = some m → m.lineId = k
  sound : ∀ identity entry, ¬ stale identity → merged.index.get? identity = some entry →
    merged.fileMap.get? entry.1 = some entry.2 ∧ entry.2.identity = some identity
  complete : ∀ k m identity, merged.fileMap.get? k = some m → m.identity = some identity →
    ¬ stale identity ∧ (merged.index.get? identity).map Prod.fst = some k

/-- The index is sound but for some identities at most. -/
def TracksBut (mayBeStale : JsString → Prop) (merged : Merged) : Prop :=
  ∃ stale, (∀ identity, stale identity → mayBeStale identity) ∧ Tracks stale merged

section Tracks

variable {stale mayBeStale : JsString → Prop} {merged merged' : Merged}

theorem Tracks.wellFormed (h : Tracks stale merged) : WellFormed merged.fileMap := by
  refine ⟨h.lineIds, fun k k' m m' hget hget' hsome heq => ?_⟩
  obtain ⟨identity, hidentity⟩ := Option.isSome_iff_exists.mp hsome
  have hk := (h.complete k m identity hget hidentity).2
  have hk' := (h.complete k' m' identity hget' (heq ▸ hidentity)).2
  exact Option.some.inj (hk.symm.trans hk')

theorem Tracks.index_none (h : Tracks stale merged) {identity : JsString}
    (hget : merged.index.get? identity = none) : Absent merged.fileMap identity := by
  intro k m hm hidentity
  have hk := (h.complete k m identity hm hidentity).2
  rw [hget] at hk
  cases hk

theorem tracks_build {fileMap : FileMap} (h : WellFormed fileMap) :
    Tracks (fun _ => False) ⟨fileMap, buildMarkerIdentityIndex fileMap⟩ := by
  have hsound := sound_build fileMap
  have hkeep : ∀ (entries : List (Nat × Marker)) (index : MarkerIdentityIndex)
      (identity : JsString),
      (index.get? identity).isSome ∨ (∃ entry ∈ entries, entry.2.identity = some identity) →
      ((entries.foldl (fun index entry => entry.2.identity.elim index fun identity =>
        if index.has identity then index else index.set identity entry) index).get?
          identity).isSome := by
    intro entries
    induction entries with
    | nil =>
      rintro index identity (h | ⟨entry, hentry, -⟩)
      · exact h
      · exact absurd hentry List.not_mem_nil
    | cons entry entries ih =>
      intro index identity h
      rw [List.foldl_cons]
      refine ih _ identity ?_
      rcases h with h | ⟨e, he, hidentity⟩
      · left
        cases entry.2.identity with
        | none => exact h
        | some own =>
          rw [Option.elim_some]
          split
          · exact h
          · rw [InsertionMap.get?_set]
            split
            · rfl
            · exact h
      · rcases List.mem_cons.mp he with rfl | he
        · left
          rw [hidentity, Option.elim_some]
          split
          · assumption
          · rw [InsertionMap.get?_set_self]
            rfl
        · exact .inr ⟨e, he, hidentity⟩
  refine ⟨h.lineIds, fun identity entry _ => hsound identity entry, ?_⟩
  intro k m identity hget hidentity
  have hsome : ((buildMarkerIdentityIndex fileMap).get? identity).isSome := by
    rw [buildMarkerIdentityIndex_eq]
    exact hkeep _ _ _ (.inr ⟨(k, m), (fileMap.mem_entries k m).mpr hget, hidentity⟩)
  obtain ⟨entry, hentry⟩ := Option.isSome_iff_exists.mp hsome
  obtain ⟨hget', hidentity'⟩ := hsound identity entry hentry
  refine ⟨not_false, ?_⟩
  have hindex : (⟨fileMap, buildMarkerIdentityIndex fileMap⟩ : Merged).index.get? identity =
      some entry := hentry
  rw [hindex, Option.map_some, Option.some_inj]
  exact h.distinct entry.1 k entry.2 m hget' hget (by rw [hidentity']; rfl)
    (hidentity'.trans hidentity.symm)

end Tracks

/-! ## What a search finds -/

/-- The entry that a marker is found at: it has the identity that is looked for, or it
has none and stands on the line, and no marker has that identity. -/
structure FoundAt (fileMap : FileMap) (lineId : Nat) (marker : Marker) (entry : Nat × Marker) :
    Prop where
  get : fileMap.get? entry.1 = some entry.2
  lookedFor : IsLookedFor fileMap lineId marker (nameOf entry.1 entry.2)

/-- A marker that is not found. -/
structure NotFound (fileMap : FileMap) (lineId : Nat) (marker : Marker) : Prop where
  absent : ∀ identity, marker.identity = some identity → Absent fileMap identity
  line : ∀ old, fileMap.get? lineId = some old → old.identity.isSome

section Find

variable {stale : JsString → Prop} {merged : Merged} {lineId : Nat} {marker : Marker}

theorem foundAt_of_legacy {fileMap : FileMap} {entry : Nat × Marker}
    (h : legacyEntry fileMap lineId = some entry)
    (habsent : ∀ identity, marker.identity = some identity → Absent fileMap identity) :
    FoundAt fileMap lineId marker entry := by
  obtain ⟨rfl, hget, hnone⟩ := legacyEntry_eq_some h
  exact ⟨hget, .inr ⟨nameOf_of_none hnone, habsent⟩⟩

theorem findMergeMarkerEntry_some (h : Tracks stale merged)
    (hstale : ∀ identity, marker.identity = some identity → ¬ stale identity)
    {entry : Nat × Marker}
    (hfind : findMergeMarkerEntry merged.fileMap lineId marker merged.index = some entry) :
    FoundAt merged.fileMap lineId marker entry := by
  rw [findMergeMarkerEntry] at hfind
  cases hidentity : marker.identity with
  | none =>
    rw [hidentity] at hfind
    exact foundAt_of_legacy hfind fun identity h => by rw [hidentity] at h; cases h
  | some identity =>
    rw [hidentity] at hfind
    dsimp only [findMarkerEntry] at hfind
    cases hindex : merged.index.get? identity with
    | some indexed =>
      rw [hindex, Option.some_or, Option.some_inj] at hfind
      subst hfind
      obtain ⟨hget, hown⟩ := h.sound identity indexed (hstale identity hidentity) hindex
      exact ⟨hget, .inl (by rw [nameOf_of_some hown, nameOf_of_some hidentity])⟩
    | none =>
      rw [hindex, Option.none_or] at hfind
      refine foundAt_of_legacy hfind fun identity' h' => ?_
      rw [hidentity, Option.some_inj] at h'
      exact h' ▸ h.index_none hindex

theorem findMergeMarkerEntry_none (h : Tracks stale merged)
    (hfind : findMergeMarkerEntry merged.fileMap lineId marker merged.index = none) :
    NotFound merged.fileMap lineId marker := by
  rw [findMergeMarkerEntry] at hfind
  cases hidentity : marker.identity with
  | none =>
    rw [hidentity] at hfind
    exact ⟨fun identity h => (by rw [hidentity] at h; cases h),
      fun old hold => legacyEntry_eq_none hfind hold⟩
  | some identity =>
    rw [hidentity] at hfind
    dsimp only [findMarkerEntry] at hfind
    obtain ⟨hindex, hlegacy⟩ := Option.or_eq_none_iff.mp hfind
    refine ⟨fun identity' h' => ?_, fun old hold => legacyEntry_eq_none hlegacy hold⟩
    rw [hidentity, Option.some_inj] at h'
    exact h' ▸ h.index_none hindex

theorem FoundAt.only {fileMap : FileMap} {entry : Nat × Marker} (hwf : WellFormed fileMap)
    (h : FoundAt fileMap lineId marker entry) {identity : JsString}
    (hidentity : marker.identity = some identity) {k : Nat} {m : Marker}
    (hget : fileMap.get? k = some m) (hm : m.identity = some identity) : k = entry.1 := by
  rcases h.lookedFor with hname | ⟨-, habsent⟩
  · rw [nameOf_of_some hidentity, nameOf_eq_identity] at hname
    exact hwf.distinct k entry.1 m entry.2 hget h.get (by rw [hm]; rfl) (hm.trans hname.symm)
  · exact absurd hm (habsent identity hidentity k m hget)

end Find

/-! ## What a write leaves tracked -/

section Write

variable {stale mayBeStale : JsString → Prop} {merged : Merged} {lineId : Nat} {marker : Marker}

theorem get?_put (merged : Merged) (lineId : Nat) (marker : Marker) (k : Nat) :
    (merged.put lineId marker).fileMap.get? k =
      if k = lineId then some (marker.withLineId lineId) else merged.fileMap.get? k :=
  InsertionMap.get?_set ..

theorem index_put_own {identity : JsString} (h : marker.identity = some identity) :
    (merged.put lineId marker).index.get? identity =
      some (lineId, marker.withLineId lineId) := by
  rw [Merged.put, updateMarkerIdentityIndex]
  dsimp only [withLineId_identity]
  rw [h]
  exact InsertionMap.get?_set_self ..

theorem index_put_other {identity : JsString} (h : marker.identity ≠ some identity) :
    (merged.put lineId marker).index.get? identity = merged.index.get? identity := by
  rw [Merged.put, updateMarkerIdentityIndex]
  dsimp only [withLineId_identity]
  cases hown : marker.identity with
  | none => rfl
  | some own => exact InsertionMap.get?_set_of_ne _ (fun heq => h (by rw [hown, heq])) _

/-- The identity that a written marker does not have and the one it replaces had goes
stale. -/
theorem Tracks.put (h : Tracks stale merged)
    (hown : ∀ identity, marker.identity = some identity → ∀ k m,
      merged.fileMap.get? k = some m → m.identity = some identity → k = lineId)
    (hlive : ∀ identity, marker.identity = some identity → ¬ stale identity) :
    Tracks (fun identity => stale identity ∨ (marker.identity ≠ some identity ∧
      ∃ old, merged.fileMap.get? lineId = some old ∧ old.identity = some identity))
      (merged.put lineId marker) := by
  refine ⟨fun k m hget => ?_, fun identity entry hstale hindex => ?_,
    fun k m identity hget hidentity => ?_⟩
  · rw [get?_put] at hget
    split at hget
    · rename_i hk
      rw [← Option.some_inj.mp hget, hk]
      rfl
    · exact h.lineIds k m hget
  · by_cases hmarker : marker.identity = some identity
    · rw [index_put_own hmarker, Option.some_inj] at hindex
      rw [← hindex, get?_put, if_pos rfl]
      exact ⟨rfl, hmarker⟩
    · rw [index_put_other hmarker] at hindex
      obtain ⟨hget, hidentity⟩ := h.sound identity entry (fun hs => hstale (.inl hs)) hindex
      have hne : entry.1 ≠ lineId := fun heq =>
        hstale (.inr ⟨hmarker, entry.2, heq ▸ hget, hidentity⟩)
      rw [get?_put, if_neg hne]
      exact ⟨hget, hidentity⟩
  · rw [get?_put] at hget
    split at hget
    · rename_i hk
      rw [← Option.some_inj.mp hget, withLineId_identity] at hidentity
      refine ⟨?_, by rw [index_put_own hidentity, hk]; rfl⟩
      rintro (hs | ⟨hne, -⟩)
      · exact hlive identity hidentity hs
      · exact hne hidentity
    · rename_i hk
      obtain ⟨hstale, hindex⟩ := h.complete k m identity hget hidentity
      have hmarker : marker.identity ≠ some identity := fun hmarker =>
        hk (hown identity hmarker k m hget hidentity)
      refine ⟨?_, by rw [index_put_other hmarker, hindex]⟩
      rintro (hs | ⟨-, old, hold, hsame⟩)
      · exact hstale hs
      · exact hk (h.wellFormed.distinct k lineId m old hget hold (by rw [hidentity]; rfl)
          (hidentity.trans hsame.symm))

theorem TracksBut.put (h : TracksBut mayBeStale merged)
    (hown : ∀ identity, marker.identity = some identity → ∀ k m,
      merged.fileMap.get? k = some m → m.identity = some identity → k = lineId)
    (hlive : ∀ identity, marker.identity = some identity → ¬ mayBeStale identity)
    (hold : ∀ old identity, merged.fileMap.get? lineId = some old →
      old.identity = some identity → marker.identity = some identity ∨ mayBeStale identity) :
    TracksBut mayBeStale (merged.put lineId marker) := by
  obtain ⟨stale, hmay, htracks⟩ := h
  refine ⟨_, fun identity hidentity => ?_,
    htracks.put hown fun identity hidentity hs => hlive identity hidentity (hmay identity hs)⟩
  rcases hidentity with hs | ⟨hne, old, hget, hsame⟩
  · exact hmay identity hs
  · exact (hold old identity hget hsame).resolve_left hne

theorem TracksBut.mono {mayBeStale' : JsString → Prop} (h : TracksBut mayBeStale merged)
    (hmore : ∀ identity, mayBeStale identity → mayBeStale' identity) :
    TracksBut mayBeStale' merged := by
  obtain ⟨stale, hmay, htracks⟩ := h
  exact ⟨stale, fun identity hs => hmore identity (hmay identity hs), htracks⟩

theorem Tracks.but (h : Tracks stale merged) : TracksBut stale merged :=
  ⟨stale, fun _ hs => hs, h⟩

theorem TracksBut.tracks (h : TracksBut (fun _ => False) merged) :
    Tracks (fun _ => False) merged := by
  obtain ⟨stale, hmay, htracks⟩ := h
  have hnone : stale = fun _ => False := funext fun identity => eq_false (hmay identity)
  exact hnone ▸ htracks

theorem Tracks.delete {entry : Nat × Marker} (h : Tracks (fun _ => False) merged)
    (hget : merged.fileMap.get? entry.1 = some entry.2) :
    Tracks (fun _ => False) ⟨merged.fileMap.delete entry.1,
      removeMarkerIdentityIndex merged.index (merged.fileMap.delete entry.1) entry⟩ := by
  have hrest : ∀ k m, (merged.fileMap.delete entry.1).get? k = some m →
      k ≠ entry.1 ∧ merged.fileMap.get? k = some m := by
    intro k m hk
    rw [InsertionMap.get?_delete] at hk
    split at hk
    · cases hk
    · rename_i hne
      exact ⟨hne, hk⟩
  have hindex : ∀ identity,
      (removeMarkerIdentityIndex merged.index (merged.fileMap.delete entry.1) entry).get?
        identity = if entry.2.identity = some identity then none
          else merged.index.get? identity := by
    intro identity
    rw [removeMarkerIdentityIndex]
    cases hidentity : entry.2.identity with
    | none => rfl
    | some own =>
      have hown := (h.complete entry.1 entry.2 own hget hidentity).2
      have hnone : (merged.fileMap.delete entry.1).entries.find?
          (fun candidate => candidate.2.identity = some own) = none := by
        rw [List.find?_eq_none]
        intro candidate hmem hcandidate
        obtain ⟨hne, hget'⟩ := hrest _ _ ((InsertionMap.mem_entries ..).mp hmem)
        exact hne (h.wellFormed.distinct _ _ _ _ hget' hget
          (by rw [of_decide_eq_true hcandidate]; rfl)
          ((of_decide_eq_true hcandidate).trans hidentity.symm))
      dsimp only
      rw [if_neg (not_not.mpr hown), hnone]
      dsimp only
      rw [InsertionMap.get?_delete]
      by_cases heq : identity = own
      · rw [if_pos heq, if_pos (by rw [heq])]
      · rw [if_neg heq, if_neg fun h' => heq (Option.some_inj.mp h').symm]
  refine ⟨fun k m hk => h.lineIds k m (hrest k m hk).2, fun identity found _ hfound => ?_,
    fun k m identity hk hidentity => ⟨not_false, ?_⟩⟩
  · dsimp only at hfound
    rw [hindex] at hfound
    split at hfound
    · cases hfound
    · rename_i hne
      obtain ⟨hget', hidentity⟩ := h.sound identity found not_false hfound
      refine ⟨?_, hidentity⟩
      rw [InsertionMap.get?_delete, if_neg, hget']
      intro heq
      rw [heq, hget, Option.some_inj] at hget'
      exact hne (hget' ▸ hidentity)
  · obtain ⟨hne, hget'⟩ := hrest k m hk
    dsimp only
    rw [hindex, if_neg, (h.complete k m identity hget' hidentity).2]
    intro heq
    exact hne (h.wellFormed.distinct k entry.1 m entry.2 hget' hget (by rw [hidentity]; rfl)
      (hidentity.trans heq.symm))

end Write

end MarkerStore
end CmTrace
