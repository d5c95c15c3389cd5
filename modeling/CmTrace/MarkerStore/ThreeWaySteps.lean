import CmTrace.MarkerStore.Names

/-!
# Steps of a merge against a baseline

Against what was there before, a marker has been added, changed or removed.  A step of
the merge writes or takes out one marker, under a name by which the step's own marker is
looked for, and leaves all other names as they were.
-/

namespace CmTrace
namespace MarkerStore

open Collections Js

/-! ## What was done since the baseline -/

section Since

variable (initial current : FileMap)

/-- The entry that a marker of the baseline has become. -/
def currentMatch (current : FileMap) (entry : Nat × Marker) : Option (Nat × Marker) :=
  findMergeMarkerEntry current entry.1 entry.2 (buildMarkerIdentityIndex current)

def Removed (k : Nat) (m : Marker) : Prop :=
  initial.get? k = some m ∧ currentMatch current (k, m) = none

def Changed (k : Nat) (m : Marker) (entry : Nat × Marker) : Prop :=
  initial.get? k = some m ∧ currentMatch current (k, m) = some entry ∧ m ≠ entry.2

def Added (k : Nat) (m : Marker) : Prop :=
  current.get? k = some m ∧ ∀ k' m' entry, initial.get? k' = some m' →
    currentMatch current (k', m') = some entry → entry.1 ≠ k

/-- A marker that had an identity in the baseline and has none now, on a line. -/
def LostIdentity (lineId : Nat) (marker : Marker) : Prop :=
  ∃ k m entry, Changed initial current k m entry ∧ m.identity.isSome ∧
    entry.2.identity = none ∧ marker = entry.2.withLineId lineId

/-- A marker of now on a line: on its own, if it has no identity and has not lost one. -/
def ComesFromCurrent (lineId : Nat) (marker : Marker) : Prop :=
  ∃ k m, current.get? k = some m ∧ marker = m.withLineId lineId ∧
    (m.identity = none → lineId = k ∨ LostIdentity initial current lineId marker)

/-! ## What a step leaves -/

/-- What has a name that is not clobbered stays, and what is new is of now. -/
structure Effect (clobbers : MarkerName → Prop) (before after : FileMap) : Prop where
  old : ∀ k m, before.get? k = some m → ¬ clobbers (nameOf k m) → after.get? k = some m
  new : ∀ k m, after.get? k = some m →
    before.get? k = some m ∨ ComesFromCurrent initial current k m

def Occupies (before after : FileMap) : Prop :=
  ∀ k m, before.get? k = some m → ∃ m', after.get? k = some m'

/-- A marker of now is there: on any line, if it has an identity; and if it has none,
its line is held by it, by a marker with an identity or by one that has lost its own. -/
structure Present (fileMap : FileMap) (k : Nat) (m : Marker) : Prop where
  identity : m.identity.isSome → ∃ lineId, fileMap.get? lineId = some (m.withLineId lineId)
  line : m.identity = none → ∃ held, fileMap.get? k = some held ∧
    (held.identity.isSome ∨ LostIdentity initial current k held ∨ held = m)

/-- A marker is not there: no marker has its identity, and if it has none, no marker
without an identity is on its line but one that has lost its own. -/
structure Gone (fileMap : FileMap) (k : Nat) (m : Marker) : Prop where
  identity : ∀ identity, m.identity = some identity → Absent fileMap identity
  line : m.identity = none → ∀ held, fileMap.get? k = some held → held.identity = none →
    LostIdentity initial current k held

end Since

section Effects

variable {initial current before after : FileMap} {clobbers : MarkerName → Prop}
variable {k : Nat} {m : Marker}

theorem Effect.refl (clobbers : MarkerName → Prop) (fileMap : FileMap) :
    Effect initial current clobbers fileMap fileMap :=
  ⟨fun _ _ h _ => h, fun _ _ h => .inl h⟩

theorem Effect.mono {clobbers' : MarkerName → Prop}
    (h : Effect initial current clobbers before after)
    (hmore : ∀ name, clobbers name → clobbers' name) :
    Effect initial current clobbers' before after :=
  ⟨fun k m hget hnot => h.old k m hget fun hc => hnot (hmore _ hc), h.new⟩

theorem occupies_refl (fileMap : FileMap) : Occupies fileMap fileMap := fun _ m h => ⟨m, h⟩

theorem Effect.put {merged : Merged} {lineId : Nat} {marker : Marker}
    (hold : ∀ old, merged.fileMap.get? lineId = some old → clobbers (nameOf lineId old))
    (hcomes : ComesFromCurrent initial current lineId (marker.withLineId lineId)) :
    Effect initial current clobbers merged.fileMap (merged.put lineId marker).fileMap := by
  refine ⟨fun k m hget hnot => ?_, fun k m hget => ?_⟩
  · rw [get?_put, if_neg, hget]
    intro hk
    exact hnot (hk ▸ hold m (hk ▸ hget))
  · rw [get?_put] at hget
    split at hget
    · rename_i hk
      rw [← Option.some_inj.mp hget, hk]
      exact .inr hcomes
    · exact .inl hget

theorem occupies_put (merged : Merged) (lineId : Nat) (marker : Marker) :
    Occupies merged.fileMap (merged.put lineId marker).fileMap := by
  intro k m hget
  by_cases hk : k = lineId
  · exact ⟨_, by rw [get?_put, if_pos hk]⟩
  · exact ⟨m, by rw [get?_put, if_neg hk, hget]⟩

theorem Effect.delete {fileMap : FileMap} {entry : Nat × Marker}
    (hget : fileMap.get? entry.1 = some entry.2) (hclobbers : clobbers (nameOf entry.1 entry.2)) :
    Effect initial current clobbers fileMap (fileMap.delete entry.1) := by
  refine ⟨fun k m hk hnot => ?_, fun k m hk => ?_⟩
  · rw [InsertionMap.get?_delete, if_neg, hk]
    intro heq
    rw [heq, hget, Option.some_inj] at hk
    exact hnot (by rwa [heq, ← hk])
  · rw [InsertionMap.get?_delete] at hk
    split at hk
    · cases hk
    · exact .inl hk

theorem Present.effect (h : Present initial current before k m) (hcurrent : WellFormed current)
    (hm : current.get? k = some m) (heffect : Effect initial current clobbers before after)
    (hoccupies : Occupies before after)
    (hnot : ∀ identity, m.identity = some identity → ¬ clobbers (.identity identity)) :
    Present initial current after k m := by
  refine ⟨fun hsome => ?_, fun hnone => ?_⟩
  · obtain ⟨identity, hidentity⟩ := Option.isSome_iff_exists.mp hsome
    obtain ⟨lineId, hget⟩ := h.identity hsome
    refine ⟨lineId, heffect.old lineId _ hget ?_⟩
    rw [nameOf_of_some ((withLineId_identity m lineId).trans hidentity)]
    exact hnot identity hidentity
  · obtain ⟨held, hget, hheld⟩ := h.line hnone
    obtain ⟨held', hget'⟩ := hoccupies k held hget
    refine ⟨held', hget', ?_⟩
    rcases heffect.new k held' hget' with hsame | ⟨k', m', hm', rfl, hcomes⟩
    · rw [hget, Option.some_inj] at hsame
      exact hsame ▸ hheld
    · cases hidentity : m'.identity with
      | some identity => exact .inl (by rw [withLineId_identity, hidentity]; rfl)
      | none =>
        rcases hcomes hidentity with rfl | hlost
        · rw [hm, Option.some_inj] at hm'
          subst hm'
          exact .inr (.inr (hcurrent.withLineId hm))
        · exact .inr (.inl hlost)

theorem Gone.effect (h : Gone initial current before k m)
    (habsent : ∀ identity, m.identity = some identity → Absent current identity)
    (hline : m.identity = none → ∀ held, current.get? k = some held → held.identity.isSome)
    (heffect : Effect initial current clobbers before after) : Gone initial current after k m := by
  refine ⟨fun identity hidentity => ?_, fun hnone held hget hheld => ?_⟩
  · intro k' m' hget hsame
    rcases heffect.new k' m' hget with hold | ⟨k'', m'', hm'', rfl, -⟩
    · exact h.identity identity hidentity k' m' hold hsame
    · exact habsent identity hidentity k'' m'' hm'' hsame
  · rcases heffect.new k held hget with hold | ⟨k', m', hm', rfl, hcomes⟩
    · exact h.line hnone held hold hheld
    · rcases hcomes hheld with rfl | hlost
      · have hsome := hline hnone m' hm'
        rw [withLineId_identity] at hheld
        rw [hheld] at hsome
        cases hsome
      · exact hlost

end Effects

/-! ## Matches -/

section Match

variable {initial current : FileMap} {k : Nat} {m : Marker} {entry : Nat × Marker}

theorem currentMatch_some (hcurrent : WellFormed current)
    (h : currentMatch current (k, m) = some entry) : FoundAt current k m entry :=
  findMergeMarkerEntry_some (tracks_build hcurrent) (fun _ _ => not_false) h

theorem currentMatch_none (hcurrent : WellFormed current)
    (h : currentMatch current (k, m) = none) : NotFound current k m :=
  findMergeMarkerEntry_none (tracks_build hcurrent) h

theorem FoundAt.cases {fileMap : FileMap} (h : FoundAt fileMap k m entry) :
    (entry.2.identity = m.identity ∧ m.identity.isSome) ∨
      (entry.2.identity = none ∧ entry.1 = k) := by
  rcases h.lookedFor with hname | ⟨hname, -⟩
  · cases hm : m.identity with
    | some identity =>
      rw [nameOf_of_some hm] at hname
      exact .inl ⟨nameOf_eq_identity.mp hname, rfl⟩
    | none =>
      rw [nameOf_of_none hm] at hname
      exact .inr (nameOf_eq_line.mp hname)
  · exact .inr (nameOf_eq_line.mp hname)

theorem FoundAt.line_eq {fileMap : FileMap} (h : FoundAt fileMap k m entry)
    (hnone : m.identity = none) : entry.1 = k := by
  rcases h.cases with ⟨-, hsome⟩ | ⟨-, hline⟩
  · rw [hnone] at hsome
    cases hsome
  · exact hline

end Match

/-! ## What each step of a merge does

A step for a removed marker takes out what is found of it, a step for an unchanged one
adds it when nothing is found of it, and steps for changed and added ones leave them
present.
-/

section Steps

variable {initial current : FileMap} {mayBeStale : JsString → Prop} {merged merged' : Merged}
variable {k : Nat} {m : Marker} {entry : Nat × Marker}

theorem TracksBut.wellFormed (h : TracksBut mayBeStale merged) : WellFormed merged.fileMap := by
  obtain ⟨stale, -, htracks⟩ := h
  exact htracks.wellFormed

theorem TracksBut.find_some (h : TracksBut mayBeStale merged)
    (hlive : ∀ identity, m.identity = some identity → ¬ mayBeStale identity)
    (hfind : findMergeMarkerEntry merged.fileMap k m merged.index = some entry) :
    FoundAt merged.fileMap k m entry := by
  obtain ⟨stale, hmay, htracks⟩ := h
  exact findMergeMarkerEntry_some htracks
    (fun identity hidentity hs => hlive identity hidentity (hmay identity hs)) hfind

theorem TracksBut.find_none (h : TracksBut mayBeStale merged)
    (hfind : findMergeMarkerEntry merged.fileMap k m merged.index = none) :
    NotFound merged.fileMap k m := by
  obtain ⟨stale, -, htracks⟩ := h
  exact findMergeMarkerEntry_none htracks hfind

/-- What a step that writes a marker of now leaves. -/
structure Writes (initial current : FileMap) (mayBeStale : JsString → Prop)
    (clobbers : MarkerName → Prop) (merged merged' : Merged) : Prop where
  tracks : TracksBut mayBeStale merged'
  effect : Effect initial current clobbers merged.fileMap merged'.fileMap
  occupies : Occupies merged.fileMap merged'.fileMap

theorem Writes.mono {clobbers clobbers' : MarkerName → Prop}
    (h : Writes initial current mayBeStale clobbers merged merged')
    (hmore : ∀ name, clobbers name → clobbers' name) :
    Writes initial current mayBeStale clobbers' merged merged' :=
  ⟨h.tracks, h.effect.mono hmore, h.occupies⟩

theorem add_notFound (hcurrent : WellFormed current) (h : TracksBut mayBeStale merged)
    (hm : current.get? k = some m)
    (hlive : ∀ identity, m.identity = some identity → ¬ mayBeStale identity)
    (hfind : findMergeMarkerEntry merged.fileMap k m merged.index = none)
    (hadd : addMergedMarker merged m k = some merged') :
    Writes initial current mayBeStale (fun _ => False) merged merged' ∧
      Present initial current merged'.fileMap k m := by
  have hnot := h.find_none hfind
  rw [addMergedMarker, hfind] at hadd
  dsimp only at hadd
  split at hadd
  · rename_i hguard
    rw [Bool.and_eq_true, Option.isNone_iff_eq_none, Option.any_eq_true] at hguard
    obtain ⟨hnone, held, hget, hheld⟩ := hguard
    rw [← Option.some_inj.mp hadd]
    refine ⟨⟨h, .refl _ _, occupies_refl _⟩, fun hsome => ?_, fun _ => ?_⟩
    · rw [hnone] at hsome
      cases hsome
    · exact ⟨held, hget, .inl hheld⟩
  · rename_i hguard
    rw [Option.map_eq_some_iff] at hadd
    obtain ⟨lineId, hfree, rfl⟩ := hadd
    have hempty := freeLineId_free hfree
    have hown : m.identity = none → lineId = k := by
      intro hnone
      have hget : merged.fileMap.get? k = none := by
        cases hget : merged.fileMap.get? k with
        | none => rfl
        | some old =>
          refine absurd ?_ hguard
          rw [hnone, hget, Option.any_some, hnot.line old hget]
          rfl
      rw [freeLineId_of_free hget, Option.some_inj] at hfree
      exact hfree.symm
    have hcomes : ComesFromCurrent initial current lineId (m.withLineId lineId) :=
      ⟨k, m, hm, rfl, fun hnone => .inl (hown hnone)⟩
    refine ⟨⟨?_, ?_, occupies_put _ _ _⟩, fun _ => ?_, fun hnone => ?_⟩
    · refine h.put (fun identity hidentity k' m' hget hsame => ?_) hlive
        fun old _ hold _ => ?_
      · exact absurd hsame (hnot.absent identity hidentity k' m' hget)
      · rw [hempty] at hold
        cases hold
    · refine Effect.put (fun old hold => ?_) hcomes
      rw [hempty] at hold
      cases hold
    · exact ⟨lineId, by rw [get?_put, if_pos rfl]⟩
    · obtain rfl := hown hnone
      exact ⟨m.withLineId lineId, by rw [get?_put, if_pos rfl],
        .inr (.inr (hcurrent.withLineId hm))⟩

theorem add_current (hcurrent : WellFormed current) (h : TracksBut mayBeStale merged)
    (hm : current.get? k = some m)
    (hlive : ∀ identity, m.identity = some identity → ¬ mayBeStale identity)
    (hadd : addMergedMarker merged m k = some merged') :
    Writes initial current mayBeStale (IsLookedFor merged.fileMap k m) merged merged' ∧
      Present initial current merged'.fileMap k m := by
  cases hfind : findMergeMarkerEntry merged.fileMap k m merged.index with
  | none =>
    obtain ⟨hwrites, hpresent⟩ := add_notFound hcurrent h hm hlive hfind hadd
    exact ⟨hwrites.mono fun _ hfalse => hfalse.elim, hpresent⟩
  | some entry =>
    have hfound := h.find_some hlive hfind
    rw [addMergedMarker, hfind] at hadd
    rw [← Option.some_inj.mp hadd]
    have hown : m.identity = none → entry.1 = k := hfound.line_eq
    refine ⟨⟨?_, ?_, occupies_put _ _ _⟩, fun _ => ?_, fun hnone => ?_⟩
    · refine h.put (fun identity hidentity k' m' hget hsame => ?_) hlive
        fun old identity hold hidentity => .inl ?_
      · exact hfound.only h.wellFormed hidentity hget hsame
      · rw [hfound.get, Option.some_inj] at hold
        subst hold
        rcases hfound.cases with ⟨hsame, -⟩ | ⟨hnone, -⟩
        · rw [← hsame, hidentity]
        · rw [hnone] at hidentity
          cases hidentity
    · refine Effect.put (fun old hold => ?_) ⟨k, m, hm, rfl, fun hnone => .inl (hown hnone)⟩
      rw [hfound.get, Option.some_inj] at hold
      exact hold ▸ hfound.lookedFor
    · exact ⟨entry.1, by rw [get?_put, if_pos rfl]⟩
    · refine ⟨m.withLineId entry.1, by rw [get?_put, if_pos (hown hnone).symm], ?_⟩
      rw [hown hnone]
      exact .inr (.inr (hcurrent.withLineId hm))

theorem changed_step (hcurrent : WellFormed current) (h : TracksBut mayBeStale merged)
    (hchanged : Changed initial current k m entry)
    (hlive : ∀ identity, m.identity = some identity → ¬ mayBeStale identity)
    (hstep : mergeChangedPair merged ⟨k, m, entry.2⟩ = some merged') :
    Writes initial current
        (fun identity => mayBeStale identity ∨
          (m.identity = some identity ∧ entry.2.identity = none))
        (fun name => IsLookedFor merged.fileMap k m name ∨
          IsLookedFor merged.fileMap entry.1 entry.2 name) merged merged' ∧
      (m.identity = none ∨ entry.2.identity.isSome →
        Present initial current merged'.fileMap entry.1 entry.2) := by
  obtain ⟨hm, hmatch, hne⟩ := hchanged
  have hbecame := currentMatch_some hcurrent hmatch
  have hlive' : ∀ identity, entry.2.identity = some identity →
      m.identity = some identity ∧ ¬ (mayBeStale identity ∨
        (m.identity = some identity ∧ entry.2.identity = none)) := by
    intro identity hidentity
    rcases hbecame.cases with ⟨hsame, -⟩ | ⟨hnone, -⟩
    · rw [hidentity] at hsame
      refine ⟨hsame.symm, ?_⟩
      rintro (hstale | ⟨-, hnone⟩)
      · exact hlive identity hsame.symm hstale
      · rw [hidentity] at hnone
        cases hnone
    · rw [hnone] at hidentity
      cases hidentity
  rw [mergeChangedPair] at hstep
  dsimp only at hstep
  cases hfind : findMergeMarkerEntry merged.fileMap k m merged.index with
  | none =>
    rw [hfind] at hstep
    dsimp only at hstep
    rw [hcurrent.lineIds entry.1 entry.2 hbecame.get] at hstep
    obtain ⟨hwrites, hpresent⟩ := add_current hcurrent
      (h.mono fun identity hs => .inl hs) hbecame.get
      (fun identity hidentity => (hlive' identity hidentity).2) hstep
    exact ⟨hwrites.mono fun _ hname => .inr hname, fun _ => hpresent⟩
  | some loaded =>
    have hfound := h.find_some hlive hfind
    rw [hfind] at hstep
    rw [← Option.some_inj.mp hstep]
    have hcomes : ComesFromCurrent initial current loaded.1 (entry.2.withLineId loaded.1) := by
      refine ⟨entry.1, entry.2, hbecame.get, rfl, fun hnone => ?_⟩
      cases hidentity : m.identity with
      | none => exact .inl ((hfound.line_eq hidentity).trans (hbecame.line_eq hidentity).symm)
      | some identity =>
        exact .inr ⟨k, m, entry, ⟨hm, hmatch, hne⟩, by rw [hidentity]; rfl, hnone, rfl⟩
    refine ⟨⟨?_, ?_, occupies_put _ _ _⟩, fun hkeeps => ⟨fun _ => ?_, fun hnone => ?_⟩⟩
    · refine (h.mono fun identity hs => .inl hs).put
        (fun identity hidentity k' m' hget hsame => ?_)
        (fun identity hidentity => (hlive' identity hidentity).2)
        fun old identity hold hidentity => ?_
      · exact hfound.only h.wellFormed (hlive' identity hidentity).1 hget hsame
      · rw [hfound.get, Option.some_inj] at hold
        subst hold
        rcases hfound.cases with ⟨hsame, -⟩ | ⟨hnone, -⟩
        · rw [hidentity] at hsame
          rcases hbecame.cases with ⟨hentry, -⟩ | ⟨hnone, -⟩
          · exact .inl (hentry.trans hsame.symm)
          · exact .inr (.inr ⟨hsame.symm, hnone⟩)
        · rw [hnone] at hidentity
          cases hidentity
    · refine Effect.put (fun old hold => ?_) hcomes
      rw [hfound.get, Option.some_inj] at hold
      exact .inl (hold ▸ hfound.lookedFor)
    · exact ⟨loaded.1, by rw [get?_put, if_pos rfl]⟩
    · have hidentity : m.identity = none := hkeeps.resolve_right (by rw [hnone]; decide)
      have hsame : entry.1 = loaded.1 :=
        (hbecame.line_eq hidentity).trans (hfound.line_eq hidentity).symm
      refine ⟨entry.2.withLineId loaded.1, by rw [get?_put, if_pos hsame], .inr (.inr ?_)⟩
      rw [← hsame]
      exact hcurrent.withLineId hbecame.get

/-! ## The baseline -/

theorem unchanged_step (hinitial : WellFormed initial) (hcurrent : WellFormed current)
    (h : TracksBut (fun _ => False) merged) (hm : initial.get? k = some m)
    (hmatch : currentMatch current (k, m) = some entry) (hsame : m = entry.2)
    (hfind : findMergeMarkerEntry merged.fileMap k m merged.index = none)
    (hadd : addMergedMarker merged entry.2 entry.1 = some merged') :
    Writes initial current (fun _ => False) (fun _ => False) merged merged' := by
  have hbecame := currentMatch_some hcurrent hmatch
  have hline : entry.1 = k := by
    rw [← hcurrent.lineIds entry.1 entry.2 hbecame.get, ← hsame, hinitial.lineIds k m hm]
  rw [hline, ← hsame] at hadd
  have hget : current.get? k = some m := by rw [← hline, hbecame.get, hsame]
  exact (add_notFound hcurrent h hget (fun _ _ => not_false) hfind hadd).1

theorem removed_step (h : Tracks (fun _ => False) merged)
    (hfind : findMergeMarkerEntry merged.fileMap k m merged.index = some entry) :
    Tracks (fun _ => False) ⟨merged.fileMap.delete entry.1,
        removeMarkerIdentityIndex merged.index (merged.fileMap.delete entry.1) entry⟩ ∧
      Effect initial current (IsLookedFor merged.fileMap k m) merged.fileMap
        (merged.fileMap.delete entry.1) ∧
      Gone initial current (merged.fileMap.delete entry.1) k m := by
  have hfound := findMergeMarkerEntry_some h (fun _ _ => not_false) hfind
  refine ⟨h.delete hfound.get,
    Effect.delete hfound.get hfound.lookedFor, fun identity hidentity k' m' hget hsame => ?_,
    fun hnone held hget _ => ?_⟩
  · rw [InsertionMap.get?_delete] at hget
    split at hget
    · cases hget
    · rename_i hne
      exact hne (hfound.only h.wellFormed hidentity hget hsame)
  · rw [InsertionMap.get?_delete, if_pos (hfound.line_eq hnone).symm] at hget
    cases hget

theorem notFound_gone (h : NotFound merged.fileMap k m) :
    Gone initial current merged.fileMap k m := by
  refine ⟨h.absent, fun _ held hget hheld => ?_⟩
  have hsome := h.line held hget
  rw [hheld] at hsome
  cases hsome

end Steps

end MarkerStore
end CmTrace
