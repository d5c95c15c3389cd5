import CmTrace.MarkerStore.ThreeWaySteps

/-!
# The baseline of a merge

Each marker of the baseline is matched with one of now, and has been removed, has
changed, or is unchanged.  What is loaded under a name by which no removed marker is
looked for is kept.
-/

namespace CmTrace
namespace MarkerStore

open Collections Js

/-! ## What was loaded and is kept -/

/-- What was loaded under a name that is not touched is as it was. -/
def KeptBut (loaded : FileMap) (touched : MarkerName → Prop) (fileMap : FileMap) : Prop :=
  ∀ k m, loaded.get? k = some m → ¬ touched (nameOf k m) → fileMap.get? k = some m

section Kept

variable {loaded initial current before after : FileMap} {touched touched' : MarkerName → Prop}
variable {clobbers : MarkerName → Prop} {k : Nat} {m : Marker}

theorem KeptBut.mono (h : KeptBut loaded touched before)
    (hmore : ∀ name, touched name → touched' name) : KeptBut loaded touched' before :=
  fun k m hget hnot => h k m hget fun hname => hnot (hmore _ hname)

theorem KeptBut.effect (h : KeptBut loaded touched before)
    (heffect : Effect initial current clobbers before after) :
    KeptBut loaded (fun name => touched name ∨ clobbers name) after :=
  fun k m hget hnot => heffect.old k m (h k m hget fun hname => hnot (.inl hname))
    fun hname => hnot (.inr hname)

theorem KeptBut.absent (h : KeptBut loaded touched before) {identity : JsString}
    (hnot : ¬ touched (.identity identity)) (habsent : Absent before identity) :
    Absent loaded identity := by
  intro k m hget hidentity
  refine habsent k m (h k m hget ?_) hidentity
  rwa [nameOf_of_some hidentity]

theorem KeptBut.isLookedFor (h : KeptBut loaded touched before)
    (hnot : ∀ identity, m.identity = some identity → ¬ touched (.identity identity))
    {name : MarkerName} (hname : IsLookedFor before k m name) : IsLookedFor loaded k m name := by
  rcases hname with hname | ⟨hname, habsent⟩
  · exact .inl hname
  · exact .inr ⟨hname, fun identity hidentity =>
      h.absent (hnot identity hidentity) (habsent identity hidentity)⟩

theorem isLookedFor_identity {fileMap : FileMap} {identity : JsString} :
    IsLookedFor fileMap k m (.identity identity) ↔ m.identity = some identity := by
  rw [IsLookedFor, eq_comm, nameOf_eq_identity]
  simp

theorem WellFormed.identity_ne {fileMap : FileMap} (h : WellFormed fileMap) {k' : Nat} {m' : Marker}
    {identity : JsString} (hm : fileMap.get? k = some m) (hm' : fileMap.get? k' = some m')
    (hidentity : m.identity = some identity) (hne : k ≠ k') : m'.identity ≠ some identity :=
  fun hsame => hne (h.distinct k k' m m' hm hm' (by rw [hidentity]; rfl)
    (hidentity.trans hsame.symm))

theorem pairwise_entries (fileMap : FileMap) :
    fileMap.entries.Pairwise fun a b => a.1 ≠ b.1 :=
  List.pairwise_map.mp fileMap.nodup

theorem ne_of_pairwise_snoc {α β : Type} {f : α → β} {l : List α} {a b : α}
    (h : (l ++ [a]).Pairwise fun a b => f a ≠ f b) (hb : b ∈ l) : f b ≠ f a :=
  (List.pairwise_append.mp h).2.2 b hb a (List.mem_singleton_self a)

end Kept

/-! ## The baseline -/

/-- What a marker of the baseline adds to the changed pairs. -/
def changedPair (current : FileMap) (initial : Nat × Marker) : Option ChangedPair :=
  (currentMatch current initial).bind fun entry =>
    if initial.2 = entry.2 then none else some ⟨initial.1, initial.2, entry.2⟩

/-- The names by which the removed of some markers of the baseline are looked for. -/
def RemovedTouch (loaded current : FileMap) (done : List (Nat × Marker)) (name : MarkerName) :
    Prop :=
  ∃ origin ∈ done, currentMatch current origin = none ∧
    IsLookedFor loaded origin.1 origin.2 name

/-- A merge of some markers of the baseline. -/
structure BaselineMerged (loaded initial current : FileMap) (done : List (Nat × Marker))
    (state : MergeState) : Prop where
  tracks : Tracks (fun _ => False) state.merged
  matched : ∀ k, k ∈ state.matchedCurrentKeys ↔
    ∃ origin ∈ done, ∃ entry, currentMatch current origin = some entry ∧ entry.1 = k
  pairs : state.changedPairs = done.filterMap (changedPair current)
  kept : KeptBut loaded (RemovedTouch loaded current done) state.merged.fileMap
  gone : ∀ origin ∈ done, currentMatch current origin = none →
    Gone initial current state.merged.fileMap origin.1 origin.2

section Baseline

variable {loaded initial current : FileMap} {done : List (Nat × Marker)}
variable {state state' : MergeState} {origin : Nat × Marker}

theorem gone_of_effect {clobbers : MarkerName → Prop} {before after : FileMap}
    (hcurrent : WellFormed current) (hmatch : currentMatch current origin = none)
    (h : Gone initial current before origin.1 origin.2)
    (heffect : Effect initial current clobbers before after) :
    Gone initial current after origin.1 origin.2 :=
  h.effect (currentMatch_none hcurrent hmatch).absent
    (fun _ => (currentMatch_none hcurrent hmatch).line) heffect

theorem BaselineMerged.next (hcurrent : WellFormed current)
    (h : BaselineMerged loaded initial current done state) {clobbers : MarkerName → Prop}
    (hnew : ∀ identity, origin.2.identity = some identity →
      ¬ RemovedTouch loaded current done (.identity identity))
    (htracks : Tracks (fun _ => False) state'.merged)
    (hkeys : ∀ k, k ∈ state'.matchedCurrentKeys ↔ k ∈ state.matchedCurrentKeys ∨
      ∃ entry, currentMatch current origin = some entry ∧ entry.1 = k)
    (hpairs : state'.changedPairs = state.changedPairs ++ (changedPair current origin).toList)
    (heffect : Effect initial current clobbers state.merged.fileMap state'.merged.fileMap)
    (hclobbers : ∀ name, clobbers name → currentMatch current origin = none ∧
      IsLookedFor state.merged.fileMap origin.1 origin.2 name)
    (hgone : currentMatch current origin = none →
      Gone initial current state'.merged.fileMap origin.1 origin.2) :
    BaselineMerged loaded initial current (done ++ [origin]) state' where
  tracks := htracks
  matched k := by
    rw [hkeys, h.matched]
    simp only [List.mem_append, List.mem_singleton, or_and_right, exists_or, exists_eq_left]
  pairs := by
    rw [hpairs, h.pairs, List.filterMap_append]
    refine congrArg _ ?_
    cases hpair : changedPair current origin <;> simp [hpair]
  kept := by
    refine (h.kept.effect heffect).mono fun name hname => ?_
    rcases hname with ⟨e, he, hnone, hlooked⟩ | hname
    · exact ⟨e, List.mem_append_left _ he, hnone, hlooked⟩
    · obtain ⟨hnone, hlooked⟩ := hclobbers name hname
      exact ⟨origin, List.mem_append_right _ (List.mem_singleton_self _), hnone,
        h.kept.isLookedFor hnew hlooked⟩
  gone e he hnone := by
    rcases List.mem_append.mp he with he | he
    · exact gone_of_effect hcurrent hnone (h.gone e he hnone) heffect
    · rw [List.mem_singleton.mp he] at hnone ⊢
      exact hgone hnone

theorem BaselineMerged.step (hinitial : WellFormed initial) (hcurrent : WellFormed current)
    (h : BaselineMerged loaded initial current done state)
    (hfrom : initial.get? origin.1 = some origin.2)
    (hdone : ∀ e ∈ done, initial.get? e.1 = some e.2 ∧ e.1 ≠ origin.1)
    (hstep : mergeInitialMarker current (buildMarkerIdentityIndex current) state origin =
      some state') : BaselineMerged loaded initial current (done ++ [origin]) state' := by
  rw [mergeInitialMarker] at hstep
  have hsearch : findMergeMarkerEntry current origin.1 origin.2 (buildMarkerIdentityIndex current) =
      currentMatch current origin := rfl
  rw [hsearch] at hstep
  have hnew : ∀ identity, origin.2.identity = some identity →
      ¬ RemovedTouch loaded current done (.identity identity) := by
    rintro identity hidentity ⟨e, he, -, hlooked⟩
    exact hinitial.identity_ne (hdone e he).1 hfrom (isLookedFor_identity.mp hlooked)
      (hdone e he).2 hidentity
  cases hmatch : currentMatch current origin with
  | none =>
    have hkeys : ∀ k, k ∈ state.matchedCurrentKeys ↔ k ∈ state.matchedCurrentKeys ∨
        ∃ entry, currentMatch current origin = some entry ∧ entry.1 = k := by
      simp [hmatch]
    have hpairs : state.changedPairs =
        state.changedPairs ++ (changedPair current origin).toList := by
      simp [changedPair, hmatch]
    rw [hmatch] at hstep
    dsimp only at hstep
    cases hfind : findMergeMarkerEntry state.merged.fileMap origin.1 origin.2
        state.merged.index with
    | none =>
      rw [hfind] at hstep
      obtain rfl := Option.some_inj.mp hstep
      exact h.next hcurrent hnew h.tracks hkeys hpairs (.refl (fun _ => False) _)
        (fun _ hfalse => hfalse.elim)
        fun _ => notFound_gone (findMergeMarkerEntry_none h.tracks hfind)
    | some found =>
      rw [hfind] at hstep
      obtain rfl := Option.some_inj.mp hstep
      obtain ⟨htracks, heffect, hgone⟩ := removed_step h.tracks hfind
      exact h.next hcurrent hnew htracks hkeys hpairs heffect (fun _ hname => ⟨hmatch, hname⟩)
        fun _ => hgone
  | some entry =>
    have hkeys : ∀ k, k ∈ entry.1 :: state.matchedCurrentKeys ↔ k ∈ state.matchedCurrentKeys ∨
        ∃ entry, currentMatch current origin = some entry ∧ entry.1 = k := by
      simp [hmatch, or_comm, eq_comm]
    have hnotgone : ∀ fileMap : FileMap, currentMatch current origin = none →
        Gone initial current fileMap origin.1 origin.2 := fun fileMap hnone => by
      rw [hmatch] at hnone
      cases hnone
    rw [hmatch] at hstep
    dsimp only at hstep
    split at hstep
    · rename_i hsame
      have hpairs : state.changedPairs =
          state.changedPairs ++ (changedPair current origin).toList := by
        simp [changedPair, hmatch, hsame]
      cases hfind : findMergeMarkerEntry state.merged.fileMap origin.1 origin.2
          state.merged.index with
      | some found =>
        rw [hfind] at hstep
        obtain rfl := Option.some_inj.mp hstep
        exact h.next hcurrent hnew h.tracks hkeys hpairs
          (.refl (fun _ => False) _) (fun _ hfalse => hfalse.elim) (hnotgone _)
      | none =>
        rw [hfind] at hstep
        obtain ⟨merged', hadd, rfl⟩ := Option.map_eq_some_iff.mp hstep
        have hwrites := unchanged_step hinitial hcurrent h.tracks.but hfrom hmatch hsame hfind hadd
        exact h.next hcurrent hnew hwrites.tracks.tracks hkeys hpairs
          hwrites.effect (fun _ hfalse => hfalse.elim) (hnotgone _)
    · rename_i hne
      have hpairs : state.changedPairs ++ [⟨origin.1, origin.2, entry.2⟩] =
          state.changedPairs ++ (changedPair current origin).toList := by
        simp [changedPair, hmatch, hne]
      obtain rfl := Option.some_inj.mp hstep
      exact h.next hcurrent hnew h.tracks hkeys hpairs
        (.refl (fun _ => False) _) (fun _ hfalse => hfalse.elim) (hnotgone _)

theorem baseline_merged (hloaded : WellFormed loaded) (hinitial : WellFormed initial)
    (hcurrent : WellFormed current)
    (hrun : runFrom (mergeInitialMarker current (buildMarkerIdentityIndex current))
      ⟨⟨loaded, buildMarkerIdentityIndex loaded⟩, [], []⟩ initial.entries = some state) :
    BaselineMerged loaded initial current initial.entries state := by
  refine runFrom_induct (P := fun done state => (∀ e ∈ done, initial.get? e.1 = some e.2) →
    (done.Pairwise fun a b => a.1 ≠ b.1) →
    BaselineMerged loaded initial current done state) ?_ ?_ hrun
    (fun e he => (initial.mem_entries e.1 e.2).mp he) (pairwise_entries initial)
  · intro _ _
    refine ⟨tracks_build hloaded, fun k => ?_, rfl, fun k m hget _ => hget, fun e he => ?_⟩
    · simp
    · exact absurd he List.not_mem_nil
  · intro done e state state' _ ih hstep hmem hpairwise
    have hdone : ∀ e' ∈ done, initial.get? e'.1 = some e'.2 := fun e' he' =>
      hmem e' (List.mem_append_left _ he')
    exact (ih hdone (List.pairwise_append.mp hpairwise).1).step hinitial hcurrent
      (hmem e (List.mem_append_right _ (List.mem_singleton_self e)))
      (fun e' he' => ⟨hdone e' he', ne_of_pairwise_snoc hpairwise he'⟩) hstep

end Baseline

/-! ## Changed and added markers of a merge

After the baseline the changed markers are written, and after them the added ones.  None
of them has an identity that another one is looked for by, so that what one step leaves
there stays.
-/

/-- What a merge has once the baseline is merged. -/
structure Progress (loaded initial current : FileMap) (mayBeStale : JsString → Prop)
    (touched : MarkerName → Prop) (there : Nat → Marker → Prop) (merged : Merged) : Prop where
  tracks : TracksBut mayBeStale merged
  gone : ∀ k m, Removed initial current k m → Gone initial current merged.fileMap k m
  kept : KeptBut loaded touched merged.fileMap
  present : ∀ k m, there k m → current.get? k = some m ∧
    Present initial current merged.fileMap k m

section Progress

variable {loaded initial current : FileMap} {mayBeStale mayBeStale' : JsString → Prop}
variable {touched touched' clobbers : MarkerName → Prop} {there there' : Nat → Marker → Prop}
variable {merged merged' : Merged} {pair : ChangedPair} {pairs done : List ChangedPair}

theorem Progress.writes (hcurrent : WellFormed current)
    (h : Progress loaded initial current mayBeStale touched there merged)
    (hwrites : Writes initial current mayBeStale' clobbers merged merged')
    (htouched : ∀ name, touched name ∨ clobbers name → touched' name)
    (hsafe : ∀ k m identity, there k m → m.identity = some identity →
      ¬ clobbers (.identity identity))
    (hthere : ∀ k m, there' k m → there k m ∨
      (current.get? k = some m ∧ Present initial current merged'.fileMap k m)) :
    Progress loaded initial current mayBeStale' touched' there' merged' where
  tracks := hwrites.tracks
  gone k m hremoved :=
    @gone_of_effect initial current (k, m) _ _ _ hcurrent hremoved.2 (h.gone k m hremoved)
      hwrites.effect
  kept := (h.kept.effect hwrites.effect).mono htouched
  present k m hk := by
    rcases hthere k m hk with hk | hk
    · obtain ⟨hget, hpresent⟩ := h.present k m hk
      exact ⟨hget, hpresent.effect hcurrent hget hwrites.effect hwrites.occupies
        fun identity => hsafe k m identity hk⟩
    · exact hk

/-! ## Changed markers -/

def ChangedPair.entry (pair : ChangedPair) : Nat × Marker :=
  (pair.currentMarker.lineId, pair.currentMarker)

def IsChanged (initial current : FileMap) (pair : ChangedPair) : Prop :=
  Changed initial current pair.initialKey pair.initialMarker pair.entry

/-- The identities that changed markers have lost. -/
def Lost (pairs : List ChangedPair) (identity : JsString) : Prop :=
  ∃ pair ∈ pairs, pair.initialMarker.identity = some identity ∧ pair.currentMarker.identity = none

def ChangedTouch (loaded : FileMap) (pairs : List ChangedPair) (name : MarkerName) : Prop :=
  ∃ pair ∈ pairs, IsLookedFor loaded pair.initialKey pair.initialMarker name ∨
    IsLookedFor loaded pair.entry.1 pair.entry.2 name

/-- What changed markers have become, but for those that have lost their identity. -/
def ChangedThere (pairs : List ChangedPair) (k : Nat) (m : Marker) : Prop :=
  ∃ pair ∈ pairs, (pair.initialMarker.identity = none ∨ pair.currentMarker.identity.isSome) ∧
    pair.entry = (k, m)

theorem isChanged_of_mem (hcurrent : WellFormed current)
    (h : pair ∈ initial.entries.filterMap (changedPair current)) :
    IsChanged initial current pair := by
  obtain ⟨origin, hmem, hpair⟩ := List.mem_filterMap.mp h
  obtain ⟨entry, hmatch, hentry⟩ := Option.bind_eq_some_iff.mp hpair
  split at hentry
  · cases hentry
  · rename_i hne
    obtain rfl := Option.some_inj.mp hentry
    have hline := hcurrent.lineIds entry.1 entry.2 (currentMatch_some hcurrent hmatch).get
    refine ⟨(initial.mem_entries origin.1 origin.2).mp hmem, ?_, hne⟩
    rw [ChangedPair.entry, hline]
    exact hmatch

theorem mem_changedPairs {k : Nat} {m : Marker} {entry : Nat × Marker}
    (h : Changed initial current k m entry) :
    (⟨k, m, entry.2⟩ : ChangedPair) ∈ initial.entries.filterMap (changedPair current) := by
  obtain ⟨hget, hmatch, hne⟩ := h
  refine List.mem_filterMap.mpr ⟨(k, m), (initial.mem_entries k m).mpr hget, ?_⟩
  rw [changedPair, hmatch, Option.bind_some, if_neg hne]

theorem pairwise_changedPairs :
    (initial.entries.filterMap (changedPair current)).Pairwise
      fun a b => a.initialKey ≠ b.initialKey := by
  refine List.pairwise_filterMap.mpr ((pairwise_entries initial).imp ?_)
  intro a b hne p hp q hq
  have hkey : ∀ (origin : Nat × Marker) (pair : ChangedPair),
      changedPair current origin = some pair → pair.initialKey = origin.1 := by
    intro origin pair hpair
    obtain ⟨entry, -, hentry⟩ := Option.bind_eq_some_iff.mp hpair
    split at hentry
    · cases hentry
    · rw [← Option.some_inj.mp hentry]
  rw [hkey a p hp, hkey b q hq]
  exact hne

theorem IsChanged.initial_identity (hcurrent : WellFormed current)
    (h : IsChanged initial current pair) {identity : JsString}
    (hidentity : pair.entry.2.identity = some identity) :
    pair.initialMarker.identity = some identity := by
  rcases (currentMatch_some hcurrent h.2.1).cases with ⟨hsame, -⟩ | ⟨hnone, -⟩
  · rw [← hsame, hidentity]
  · rw [hnone] at hidentity
    cases hidentity

theorem ChangedTouch.initial_identity (hcurrent : WellFormed current)
    (h : ∀ pair ∈ pairs, IsChanged initial current pair) {identity : JsString}
    (htouch : ChangedTouch loaded pairs (.identity identity)) :
    ∃ pair ∈ pairs, pair.initialMarker.identity = some identity := by
  obtain ⟨pair, hmem, hlooked | hlooked⟩ := htouch
  · exact ⟨pair, hmem, isLookedFor_identity.mp hlooked⟩
  · exact ⟨pair, hmem,
      (h pair hmem).initial_identity hcurrent (isLookedFor_identity.mp hlooked)⟩

theorem Progress.changed (hinitial : WellFormed initial) (hcurrent : WellFormed current)
    (h : Progress loaded initial current (Lost done)
      (fun name => RemovedTouch loaded current initial.entries name ∨
        ChangedTouch loaded done name) (ChangedThere done) merged)
    (hpair : IsChanged initial current pair)
    (hdone : ∀ p ∈ done, IsChanged initial current p ∧ p.initialKey ≠ pair.initialKey)
    (hstep : mergeChangedPair merged pair = some merged') :
    Progress loaded initial current (Lost (done ++ [pair]))
      (fun name => RemovedTouch loaded current initial.entries name ∨
        ChangedTouch loaded (done ++ [pair]) name) (ChangedThere (done ++ [pair])) merged' := by
  -- The identity that the pair had is that of no pair before it and of no removed marker.
  have hother : ∀ identity, pair.initialMarker.identity = some identity →
      ∀ p ∈ done, p.initialMarker.identity ≠ some identity := fun identity hidentity p hp =>
    hinitial.identity_ne hpair.1 (hdone p hp).1.1 hidentity (hdone p hp).2.symm
  have hnew : ∀ identity, pair.initialMarker.identity = some identity →
      ¬ (RemovedTouch loaded current initial.entries (.identity identity) ∨
        ChangedTouch loaded done (.identity identity)) := by
    rintro identity hidentity (⟨origin, hmem, hnone, hlooked⟩ | htouch)
    · have hget := (initial.mem_entries origin.1 origin.2).mp hmem
      have hkey := hinitial.distinct _ _ _ _ hpair.1 hget (by rw [hidentity]; rfl)
        (hidentity.trans (isLookedFor_identity.mp hlooked).symm)
      have hmarker : pair.initialMarker = origin.2 :=
        Option.some_inj.mp (hpair.1.symm.trans (hkey ▸ hget))
      have hmatch := hpair.2.1
      rw [hkey, hmarker, hnone] at hmatch
      cases hmatch
    · obtain ⟨p, hp, hsame⟩ :=
        htouch.initial_identity hcurrent fun p hp => (hdone p hp).1
      exact hother identity hidentity p hp hsame
  obtain ⟨hwrites, hpresent⟩ := changed_step hcurrent h.tracks hpair
    (fun identity hidentity ⟨p, hp, hsame, _⟩ => hother identity hidentity p hp hsame) hstep
  have hmem : pair ∈ done ++ [pair] := List.mem_append_right _ (List.mem_singleton_self pair)
  refine h.writes hcurrent ⟨hwrites.tracks.mono ?_, hwrites.effect, hwrites.occupies⟩ ?_ ?_ ?_
  · rintro identity (⟨p, hp, hlost⟩ | hlost)
    · exact ⟨p, List.mem_append_left _ hp, hlost⟩
    · exact ⟨pair, hmem, hlost⟩
  · rintro name ((hname | ⟨p, hp, hname⟩) | (hname | hname))
    · exact .inl hname
    · exact .inr ⟨p, List.mem_append_left _ hp, hname⟩
    · exact .inr ⟨pair, hmem, .inl (h.kept.isLookedFor hnew hname)⟩
    · exact .inr ⟨pair, hmem, .inr (h.kept.isLookedFor
        (fun identity hidentity =>
          hnew identity (hpair.initial_identity hcurrent hidentity)) hname)⟩
  · rintro k m identity ⟨p, hp, -, hentry⟩ hidentity hname
    have hp' : p.entry.2.identity = some identity := by rw [hentry, hidentity]
    refine hother identity ?_ p hp ((hdone p hp).1.initial_identity hcurrent hp')
    rcases hname with hname | hname
    · exact isLookedFor_identity.mp hname
    · exact hpair.initial_identity hcurrent (isLookedFor_identity.mp hname)
  · rintro k m ⟨p, hp, hkeeps, hentry⟩
    rcases List.mem_append.mp hp with hp | hp
    · exact .inl ⟨p, hp, hkeeps, hentry⟩
    · rw [List.mem_singleton.mp hp] at hkeeps hentry
      have hget := (currentMatch_some hcurrent hpair.2.1).get
      have hthere := hpresent hkeeps
      rw [hentry] at hget hthere
      exact .inr ⟨hget, hthere⟩

/-! ## Added markers -/

def AddedTouch (loaded initial current : FileMap) (done : List (Nat × Marker))
    (name : MarkerName) : Prop :=
  ∃ origin ∈ done, Added initial current origin.1 origin.2 ∧
    IsLookedFor loaded origin.1 origin.2 name

def AddedThere (initial current : FileMap) (done : List (Nat × Marker)) (k : Nat) (m : Marker) :
    Prop :=
  (k, m) ∈ done ∧ Added initial current k m

theorem Added.identity_ne (hcurrent : WellFormed current) {k : Nat} {m : Marker}
    (h : Added initial current k m) {identity : JsString} (hidentity : m.identity = some identity)
    {k' : Nat} {m' : Marker} (hm' : initial.get? k' = some m') :
    m'.identity ≠ some identity := by
  intro hsame
  cases hmatch : currentMatch current (k', m') with
  | none => exact (currentMatch_none hcurrent hmatch).absent identity hsame k m h.1 hidentity
  | some entry =>
    exact h.2 k' m' entry hm' hmatch
      ((currentMatch_some hcurrent hmatch).only hcurrent hsame h.1 hidentity).symm

theorem Progress.added (hcurrent : WellFormed current) {done : List (Nat × Marker)}
    (hpairs : ∀ p ∈ pairs, IsChanged initial current p)
    (h : Progress loaded initial current (Lost pairs)
      (fun name => (RemovedTouch loaded current initial.entries name ∨
        ChangedTouch loaded pairs name) ∨ AddedTouch loaded initial current done name)
      (fun k m => ChangedThere pairs k m ∨ AddedThere initial current done k m) merged)
    {origin : Nat × Marker} (horigin : current.get? origin.1 = some origin.2)
    (hdone : ∀ e ∈ done, current.get? e.1 = some e.2 ∧ e.1 ≠ origin.1)
    {matchedCurrentKeys : List Nat}
    (hkeys : origin.1 ∉ matchedCurrentKeys ↔ Added initial current origin.1 origin.2)
    (hstep : mergeAddedMarker matchedCurrentKeys merged origin = some merged') :
    Progress loaded initial current (Lost pairs)
      (fun name => (RemovedTouch loaded current initial.entries name ∨
        ChangedTouch loaded pairs name) ∨ AddedTouch loaded initial current (done ++ [origin]) name)
      (fun k m => ChangedThere pairs k m ∨ AddedThere initial current (done ++ [origin]) k m)
      merged' := by
  have hmem : origin ∈ done ++ [origin] := List.mem_append_right _ (List.mem_singleton_self origin)
  have htouched : ∀ name, AddedTouch loaded initial current done name →
      AddedTouch loaded initial current (done ++ [origin]) name := by
    rintro name ⟨e, he, htouch⟩
    exact ⟨e, List.mem_append_left _ he, htouch⟩
  rw [mergeAddedMarker] at hstep
  split at hstep
  · rename_i hmatched
    obtain rfl := Option.some_inj.mp hstep
    refine ⟨h.tracks, h.gone, h.kept.mono fun name hname => hname.imp_right (htouched name), ?_⟩
    rintro k m (hthere | ⟨hk, hadded⟩)
    · exact h.present k m (.inl hthere)
    · rcases List.mem_append.mp hk with hk | hk
      · exact h.present k m (.inr ⟨hk, hadded⟩)
      · obtain rfl := List.mem_singleton.mp hk
        exact absurd hmatched (hkeys.mpr hadded)
  · rename_i hunmatched
    have hadded := hkeys.mp hunmatched
    -- What is added has the identity of no marker of the baseline and of none added before.
    have hbaseline : ∀ identity, origin.2.identity = some identity → ∀ p ∈ pairs,
        p.initialMarker.identity ≠ some identity := fun identity hidentity p hp =>
      hadded.identity_ne hcurrent hidentity (hpairs p hp).1
    have hbefore : ∀ identity, origin.2.identity = some identity → ∀ e ∈ done,
        e.2.identity ≠ some identity := fun identity hidentity e he =>
      hcurrent.identity_ne horigin (hdone e he).1 hidentity (hdone e he).2.symm
    have hnew : ∀ identity, origin.2.identity = some identity →
        ¬ ((RemovedTouch loaded current initial.entries (.identity identity) ∨
          ChangedTouch loaded pairs (.identity identity)) ∨
          AddedTouch loaded initial current done (.identity identity)) := by
      rintro identity hidentity ((⟨e, he, -, hlooked⟩ | htouch) | ⟨e, he, -, hlooked⟩)
      · exact hadded.identity_ne hcurrent hidentity ((initial.mem_entries e.1 e.2).mp he)
          (isLookedFor_identity.mp hlooked)
      · obtain ⟨p, hp, hsame⟩ := htouch.initial_identity hcurrent hpairs
        exact hbaseline identity hidentity p hp hsame
      · exact hbefore identity hidentity e he (isLookedFor_identity.mp hlooked)
    obtain ⟨hwrites, hpresent⟩ := add_current hcurrent h.tracks horigin
      (by
        rintro identity hidentity ⟨p, hp, hsame, -⟩
        exact hbaseline identity hidentity p hp hsame) hstep
    refine h.writes hcurrent hwrites ?_ ?_ ?_
    · rintro name (hname | hname)
      · exact hname.imp_right (htouched name)
      · exact .inr ⟨origin, hmem, hadded, h.kept.isLookedFor hnew hname⟩
    · rintro k m identity (⟨p, hp, -, hentry⟩ | ⟨hk, -⟩) hidentity hname
      · have hp' : p.entry.2.identity = some identity := by rw [hentry, hidentity]
        exact hbaseline identity (isLookedFor_identity.mp hname) p hp
          ((hpairs p hp).initial_identity hcurrent hp')
      · exact hbefore identity (isLookedFor_identity.mp hname) (k, m) hk hidentity
    · rintro k m (hthere | ⟨hk, hadded'⟩)
      · exact .inl (.inl hthere)
      · rcases List.mem_append.mp hk with hk | hk
        · exact .inl (.inr ⟨hk, hadded'⟩)
        · obtain rfl := List.mem_singleton.mp hk
          exact .inr ⟨horigin, hpresent⟩

end Progress

end MarkerStore
end CmTrace
