import CmTrace.Sccm.IntakePanics

/-!
# The assessment is canonical

Each artifact of an accepted bundle is in its groups or among the unsupported, once.
Taken apart again, an assessment gives the artifacts back with their times of collection
normalized, so it passes its check when normal times are read as what they were written
for.
-/

namespace CmTrace
namespace Sccm

open Std Text Collections
open Timeline (textOrder)

/-! ## Each artifact once -/

theorem filter_sortBy_of_le_one {A : Type} (c : A → A → Ordering) (p : A → Bool) (l : List A)
    (h : (l.filter p).length ≤ 1) : (sortBy c l).filter p = l.filter p := by
  have hperm : ((sortBy c l).filter p).Perm (l.filter p) := (sortBy_perm c l).filter p
  match hl : l.filter p with
  | [] => exact (hl ▸ hperm).eq_nil
  | [a] => exact List.perm_singleton.mp (hl ▸ hperm)
  | a :: b :: rest =>
    rw [hl] at h
    simp at h

theorem flatMap_ite {A B : Type} (p : A → Bool) (f : A → List B) (xs : List A) :
    xs.flatMap (fun x => if p x then f x else []) = (xs.filter p).flatMap f := by
  induction xs with
  | nil => rfl
  | cons x xs ih =>
    rw [List.flatMap_cons, ih]
    cases hp : p x with
    | true => rw [List.filter_cons_of_pos hp, List.flatMap_cons, if_pos rfl]
    | false =>
      rw [List.filter_cons_of_neg (by rw [hp]; exact Bool.false_ne_true),
        if_neg Bool.false_ne_true, List.nil_append]

theorem filter_key {A K : Type} [DecidableEq K] (key : A → K) {xs : List A}
    (hnodup : (xs.map key).Nodup) {a : A} (ha : a ∈ xs) :
    xs.filter (fun x => key x = key a) = [a] := by
  induction xs with
  | nil => cases ha
  | cons x xs ih =>
    obtain ⟨hnew, hrest⟩ := List.nodup_cons.mp hnodup
    rcases List.mem_cons.mp ha with rfl | ha
    · have hnone : xs.filter (fun x => key x = key a) = [] := by
        refine List.filter_eq_nil_iff.mpr fun y hy hkey => hnew ?_
        exact of_decide_eq_true hkey ▸ List.mem_map_of_mem hy
      rw [List.filter_cons_of_pos (by simp), hnone]
    · have hne : key x ≠ key a := fun heq => hnew (heq ▸ List.mem_map_of_mem ha)
      rw [List.filter_cons_of_neg (by simpa using hne), ih hrest ha]

/-! ### Groups of an artifact -/

theorem nodup_logicalArtifactIds :
    ∀ source ∈ clientSourceMemberships, source.logicalArtifactIds.Nodup := by
  decide +kernel

theorem mem_of_find?_group {logicalArtifactId group : Text}
    (h : clientSourceGroups.find? (fun group => group = logicalArtifactId) = some group) :
    group = logicalArtifactId :=
  of_decide_eq_true (List.find?_some h :)

theorem nodup_groupsOf (a : SccmClientIntakeArtifact) : (groupsOf a).Nodup := by
  rw [groupsOf, matchingGroups]
  cases hsource : cataloguedClientSource a.artifact.displayName a.artifact.rotation with
  | none => exact List.nodup_nil
  | some source =>
    have hmem : source ∈ clientSourceMemberships := by
      unfold cataloguedClientSource at hsource
      dsimp only at hsource
      split at hsource
      · cases hsource
      · split at hsource
        · cases hsource
        · case h_2 found hfound =>
          split at hsource
          · exact Option.some.inj hsource ▸ List.mem_of_find?_eq_some hfound
          · cases hsource
    refine (nodup_logicalArtifactIds source hmem).filterMap fun i j group hi hj => ?_
    exact (mem_of_find?_group hi).symm.trans (mem_of_find?_group hj)

theorem mem_clientSourceGroups {a : SccmClientIntakeArtifact} {group : Text}
    (h : group ∈ groupsOf a) : group ∈ clientSourceGroups := by
  rw [groupsOf, matchingGroups] at h
  cases hsource : cataloguedClientSource a.artifact.displayName a.artifact.rotation with
  | none =>
    rw [hsource] at h
    cases h
  | some source =>
    rw [hsource] at h
    obtain ⟨_, -, hfind⟩ := List.mem_filterMap.mp h
    exact List.mem_of_find?_eq_some hfind

section

variable {Instant : Type} {chrono : Rfc3339 Instant} {bundle : SccmClientIntakeBundle}

theorem memberships_eq (a : SccmClientIntakeArtifact) (logicalArtifactId : Text) :
    ((groupsOf a).filter fun group => group = logicalArtifactId).map
        (fun _ => fragmentOf chrono a) =
      if logicalArtifactId ∈ groupsOf a then [fragmentOf chrono a] else [] := by
  split_ifs with hmem
  · have hnodup : ((groupsOf a).map id).Nodup := by
      rw [List.map_id]
      exact nodup_groupsOf a
    have honce := filter_key id hnodup hmem
    simp only [id] at honce
    rw [honce]
    rfl
  · have hnone : (groupsOf a).filter (fun group => group = logicalArtifactId) = [] := by
      refine List.filter_eq_nil_iff.mpr fun group hgroup heq => hmem ?_
      exact of_decide_eq_true heq ▸ hgroup
    rw [hnone]
    rfl

/-- Where an artifact is in an assessment. -/
structure PlacedIn (chrono : Rfc3339 Instant) (assessment : SccmClientIntakeAssessment)
    (a : SccmClientIntakeArtifact) : Prop where
  unsupported : (assessment.unsupportedArtifacts.filter fun u =>
      u.artifactId = a.artifact.artifactId) =
    if isRecognized a then [] else [unsupportedOf chrono a]
  groups : ∀ group ∈ assessment.groups, (group.fragments.filter fun f =>
      f.artifactId = a.artifact.artifactId) =
    if group.logicalArtifactId ∈ groupsOf a then [fragmentOf chrono a] else []
  complete : ∀ logicalArtifactId ∈ groupsOf a,
    ∃ group ∈ assessment.groups, group.logicalArtifactId = logicalArtifactId
  physical : (assessment.physicalArtifacts.filter fun f =>
      f.artifactId = a.artifact.artifactId) =
    if isPhysicalFragment a then [fragmentOf chrono a] else []

theorem filter_map_artifacts {B : Type} (f : SccmClientIntakeArtifact → B) (idOf : B → Text)
    (hid : ∀ a, idOf (f a) = a.artifact.artifactId) (q : SccmClientIntakeArtifact → Bool)
    (h : Accepted chrono bundle) {a : SccmClientIntakeArtifact} (ha : a ∈ bundle.artifacts) :
    (((bundle.artifacts.filter q).map f).filter fun b => idOf b = a.artifact.artifactId) =
      if q a then [f a] else [] := by
  have honce := filter_key (fun b => b.artifact.artifactId) h.nodup_artifacts ha
  rw [List.filter_map, List.filter_filter]
  simp only [Function.comp_def, hid]
  rw [List.filter_congr fun b _ => Bool.and_comm _ _, ← List.filter_filter, honce]
  cases hq : q a with
  | true => rw [List.filter_cons_of_pos hq]; rfl
  | false => rw [List.filter_cons_of_neg (by rw [hq]; exact Bool.false_ne_true)]; rfl

theorem Accepted.placedIn (h : Accepted chrono bundle) {a : SccmClientIntakeArtifact}
    (ha : a ∈ bundle.artifacts) : PlacedIn chrono (assessmentOf chrono bundle) a where
  unsupported := by
    have hfilter := filter_map_artifacts (unsupportedOf chrono) (·.artifactId) (fun _ => rfl)
      (fun a => !isRecognized a) h ha
    show (sortBy compareUnsupported _).filter _ = _
    rw [filterMap_unsupported?, filter_sortBy_of_le_one]
    · rw [hfilter]
      cases isRecognized a <;> rfl
    · rw [hfilter]
      cases isRecognized a <;> simp
  groups := by
    intro group hgroup
    obtain ⟨parts, hparts, rfl⟩ := List.mem_map.mp hgroup
    obtain ⟨logicalArtifactId, -, rfl⟩ := List.mem_map.mp hparts
    have honce := filter_key (fun b => b.artifact.artifactId) h.nodup_artifacts ha
    have hfilter : ((bundle.artifacts.map (projectedOf chrono)).flatMap
        (Projected.memberships logicalArtifactId)).filter
          (fun f => f.artifactId = a.artifact.artifactId) =
        if logicalArtifactId ∈ groupsOf a then [fragmentOf chrono a] else [] := by
      rw [flatMap_memberships, List.filter_flatMap, ← memberships_eq a logicalArtifactId]
      have hof : ∀ b : SccmClientIntakeArtifact,
          (((groupsOf b).filter fun group => group = logicalArtifactId).map fun _ =>
            fragmentOf chrono b).filter (fun f => f.artifactId = a.artifact.artifactId) =
          if b.artifact.artifactId = a.artifact.artifactId then
            ((groupsOf b).filter fun group => group = logicalArtifactId).map fun _ =>
              fragmentOf chrono b else [] := by
        intro b
        split_ifs with hid
        · refine List.filter_eq_self.mpr fun f hf => ?_
          obtain ⟨_, -, rfl⟩ := List.mem_map.mp hf
          exact decide_eq_true hid
        · refine List.filter_eq_nil_iff.mpr fun f hf hkey => hid ?_
          obtain ⟨_, -, rfl⟩ := List.mem_map.mp hf
          exact of_decide_eq_true hkey
      simp only [hof]
      have hfirst := flatMap_ite (fun b : SccmClientIntakeArtifact =>
        decide (b.artifact.artifactId = a.artifact.artifactId))
        (fun b => ((groupsOf b).filter fun group => group = logicalArtifactId).map fun _ =>
          fragmentOf chrono b) bundle.artifacts
      simp only [decide_eq_true_eq] at hfirst
      rw [hfirst, honce, List.flatMap_cons, List.flatMap_nil, List.append_nil]
    show (sortBy compareFragments _).filter _ = _
    rw [filter_sortBy_of_le_one]
    · exact hfilter
    · rw [hfilter]
      split_ifs <;> simp
  complete := by
    intro logicalArtifactId hgroup
    refine ⟨_, List.mem_map_of_mem (List.mem_map_of_mem (mem_clientSourceGroups hgroup)), rfl⟩
  physical := by
    have hfilter := filter_map_artifacts (fragmentOf chrono) (·.artifactId) (fun _ => rfl)
      isPhysicalFragment h ha
    show (sortBy compareFragments _).filter _ = _
    rw [filterMap_physical?, filter_sortBy_of_le_one]
    · exact hfilter
    · rw [hfilter]
      split_ifs <;> simp

/-! ## Taken apart -/

variable (chrono) in
def renewed (a : SccmClientIntakeArtifact) : SccmClientIntakeArtifact :=
  fragmentAsIntakeArtifact (fragmentOf chrono a)

theorem unsupportedAsIntakeArtifact_eq {a : SccmClientIntakeArtifact} (hsound : Sound chrono a)
    (h : isRecognized a = false) :
    unsupportedAsIntakeArtifact (unsupportedOf chrono a) = renewed chrono a := by
  have hgroups := groupsOf_of_not_recognized h
  have hprovenance : a.taskSequenceProvenance = none := by
    have hexpects : expectsProvenance a = false := by
      rw [expectsProvenance, isTaskSequence, sourceMatchesGroup, ← groupsOf, hgroups]
      rfl
    have hsoundProvenance := hsound.late.provenance
    rwa [SoundProvenance, if_neg (by rw [hexpects]; exact Bool.false_ne_true)] at hsoundProvenance
  obtain ⟨fragmentComplete, -, hbytes⟩ := hsound.late.bytes
  have hcontent := hbytes.content
  have hbinding : a.declaredByteLength = none ∧ a.contentSha256 = none := by
    rw [isValidContentBinding, ← groupsOf, hgroups] at hcontent
    cases hlength : a.declaredByteLength <;> cases hdigest : a.contentSha256 <;>
      simp_all
  simp only [unsupportedAsIntakeArtifact, unsupportedOf, unsupportedArtifact, renewed,
    fragmentAsIntakeArtifact, fragmentOf, intakeFragment, hprovenance, hbinding]

theorem sound_renewed_iff {a : SccmClientIntakeArtifact} (hsound : Sound chrono a) :
    Sound chrono (renewed chrono a) ↔
      (normalized chrono a.artifact.collectedAtUtc).all (isSafeCollectedAt chrono) = true := by
  constructor
  · intro h
    exact h.early.collectedAtUtc
  · intro h
    have hearly : EarlyChecks chrono (renewed chrono a) :=
      { role := rfl
        artifactId := hsound.early.artifactId
        rotation := hsound.early.rotation
        basename := hsound.early.basename
        collectedAtUtc := h
        configmgrVersion := hsound.early.configmgrVersion
        encoding := hsound.early.encoding
        rotationLineage := hsound.early.rotationLineage
        pathFingerprint := hsound.early.pathFingerprint
        relativePath := hsound.early.relativePath }
    obtain ⟨fragmentComplete, hcomplete, hbytes⟩ := hsound.late.bytes
    exact ⟨hearly, hsound.late.provenance, fragmentComplete, hcomplete,
      ⟨hbytes.content, hbytes.complete, hbytes.physical, hbytes.marker⟩⟩

theorem indexNonphysical_ok (done fragments : List SccmClientIntakeFragment)
    (hsame : ∀ f ∈ done ++ fragments, ∀ g ∈ done ++ fragments, f.artifactId = g.artifactId → f = g) :
    indexNonphysical (insertAll (·.artifactId) ∅ done) fragments =
      .ok (insertAll (·.artifactId) ∅ (done ++ fragments)) := by
  induction fragments generalizing done with
  | nil => rw [indexNonphysical, List.append_nil]
  | cons f rest ih =>
    have hinsert : (insertAll (·.artifactId) ∅ done : FragmentIndex).insert f.artifactId f =
        insertAll (·.artifactId) ∅ (done ++ [f]) := (insertAll_append ∅ done [f]).symm
    have hrest := ih (done ++ [f]) (by rwa [List.append_assoc])
    rw [List.append_assoc] at hrest
    rw [indexNonphysical, hinsert]
    cases hfound : (insertAll (·.artifactId) ∅ done : FragmentIndex)[f.artifactId]? with
    | none => exact hrest
    | some existing =>
      rw [getElem?_insertAll, TreeMap.getElem?_emptyc, Option.or_none] at hfound
      have hmem := List.mem_reverse.mp (List.mem_of_find?_eq_some hfound)
      have hid : existing.artifactId = f.artifactId := of_decide_eq_true (List.find?_some hfound :)
      have heq : existing = f := hsame existing (List.mem_append_left _ hmem) f
        (List.mem_append_right _ List.mem_cons_self) hid
      dsimp only
      rw [if_pos heq]
      exact hrest

theorem mem_nonphysicalFragments {f : SccmClientIntakeFragment} :
    f ∈ nonphysicalFragments (assessmentOf chrono bundle) ↔
      f ∈ (bundle.artifacts.filter fun a => isRecognized a &&
        !isPhysicalState a.artifact.coverage).map (fragmentOf chrono) := by
  simp only [nonphysicalFragments, assessmentOf, List.mem_filter, List.mem_map]
  constructor
  · rintro ⟨hmem, hcoverage⟩
    obtain ⟨group, hgroup, hf⟩ := List.mem_flatMap.mp hmem
    obtain ⟨parts, hparts, rfl⟩ := List.mem_map.mp hgroup
    obtain ⟨logicalArtifactId, -, rfl⟩ := List.mem_map.mp hparts
    obtain ⟨a, ha, hmember, rfl⟩ := mem_flatMap_memberships (mem_sortBy.mp hf)
    have hrecognized : isRecognized a = true := by
      by_contra hnot
      rw [groupsOf_of_not_recognized (Bool.not_eq_true _ ▸ hnot)] at hmember
      cases hmember
    exact ⟨a, ⟨ha, Bool.and_eq_true_iff.mpr ⟨hrecognized, hcoverage⟩⟩, rfl⟩
  · rintro ⟨a, ⟨ha, hboth⟩, rfl⟩
    obtain ⟨hrecognized, hcoverage⟩ := Bool.and_eq_true_iff.mp hboth
    refine ⟨?_, hcoverage⟩
    obtain ⟨group, hgroup⟩ : ∃ group, group ∈ groupsOf a := by
      rw [isRecognized, Bool.not_eq_true'] at hrecognized
      exact List.exists_mem_of_ne_nil _ fun hnil => by rw [hnil] at hrecognized; cases hrecognized
    refine List.mem_flatMap.mpr ⟨_, List.mem_map_of_mem (List.mem_map_of_mem
      (mem_clientSourceGroups hgroup)), ?_⟩
    refine mem_sortBy.mpr ?_
    rw [flatMap_memberships]
    refine List.mem_flatMap.mpr ⟨a, ha, ?_⟩
    rw [memberships_eq, if_pos hgroup]
    exact List.mem_singleton.mpr rfl

theorem Accepted.exists_nonphysical (h : Accepted chrono bundle) :
    ∃ nonphysical, indexNonphysical ∅ (nonphysicalFragments (assessmentOf chrono bundle)) =
        .ok nonphysical ∧
      (indexed nonphysical).Perm ((bundle.artifacts.filter fun a => isRecognized a &&
        !isPhysicalState a.artifact.coverage).map (fragmentOf chrono)) := by
  have hsame : ∀ f ∈ nonphysicalFragments (assessmentOf chrono bundle),
      ∀ g ∈ nonphysicalFragments (assessmentOf chrono bundle),
      f.artifactId = g.artifactId → f = g := by
    intro f hf g hg hid
    obtain ⟨a, ha, rfl⟩ := List.mem_map.mp (mem_nonphysicalFragments.mp hf)
    obtain ⟨b, hb, rfl⟩ := List.mem_map.mp (mem_nonphysicalFragments.mp hg)
    exact congrArg _ (h.artifact_eq (List.mem_filter.mp ha).1 (List.mem_filter.mp hb).1 hid)
  refine ⟨_, indexNonphysical_ok [] _ hsame, ?_⟩
  refine (List.perm_ext_iff_of_nodup nodup_indexed ?_).mpr fun f => ?_
  · have hids := h.nodup_artifacts.sublist ((List.filter_sublist
      (p := fun a => isRecognized a && !isPhysicalState a.artifact.coverage)).map _)
    refine List.Nodup.of_map (·.artifactId) ?_
    rw [List.map_map]
    exact hids
  · rw [← mem_nonphysicalFragments]
    exact ⟨mem_of_mem_indexed, indexed_keeps_iff.mpr hsame f⟩

theorem filter_perm_three {A : Type} (p q : A → Bool) (xs : List A) :
    (xs.filter (fun x => p x && q x) ++ xs.filter (fun x => p x && !q x) ++
      xs.filter fun x => !p x).Perm xs := by
  have hsplit := List.filter_append_perm q (xs.filter p)
  rw [List.filter_filter, List.filter_filter] at hsplit
  have hcomm : (fun x => q x && p x) = fun x => p x && q x := funext fun x => Bool.and_comm _ _
  have hcomm' : (fun x => !q x && p x) = fun x => p x && !q x := funext fun x => Bool.and_comm _ _
  have hsplit' : (xs.filter (fun x => p x && q x) ++ xs.filter fun x => p x && !q x).Perm
      (xs.filter p) := by
    rw [← hcomm, ← hcomm']
    exact hsplit
  exact (hsplit'.append_right _).trans (List.filter_append_perm p xs)

theorem Accepted.assessedBundle_perm (h : Accepted chrono bundle) {nonphysical : FragmentIndex}
    (hindexed : (indexed nonphysical).Perm ((bundle.artifacts.filter fun a => isRecognized a &&
      !isPhysicalState a.artifact.coverage).map (fragmentOf chrono))) :
    (bundle.artifacts.map (renewed chrono)).Perm
      (assessedBundle (assessmentOf chrono bundle) nonphysical).artifacts := by
  have hphysical : ((assessmentOf chrono bundle).physicalArtifacts.map
      fragmentAsIntakeArtifact).Perm
      ((bundle.artifacts.filter isPhysicalFragment).map (renewed chrono)) := by
    have hsorted := (sortBy_perm compareFragments ((bundle.artifacts.filter
      isPhysicalFragment).map (fragmentOf chrono))).map fragmentAsIntakeArtifact
    rw [List.map_map, ← filterMap_physical?] at hsorted
    exact hsorted
  have hnonphysical := hindexed.map fragmentAsIntakeArtifact
  rw [List.map_map] at hnonphysical
  have hunsupported : ((assessmentOf chrono bundle).unsupportedArtifacts.map
      unsupportedAsIntakeArtifact).Perm
      ((bundle.artifacts.filter fun a => !isRecognized a).map (renewed chrono)) := by
    have hsorted := (sortBy_perm compareUnsupported ((bundle.artifacts.filter fun a =>
      !isRecognized a).map (unsupportedOf chrono))).map unsupportedAsIntakeArtifact
    rw [List.map_map, ← filterMap_unsupported?] at hsorted
    refine hsorted.trans (.of_eq (List.map_congr_left fun a ha => ?_))
    obtain ⟨ha, hnot⟩ := List.mem_filter.mp ha
    exact unsupportedAsIntakeArtifact_eq (h.artifacts a ha) ((Bool.not_eq_true' _).mp hnot)
  have hparts := (filter_perm_three isRecognized
    (fun a => isPhysicalState a.artifact.coverage) bundle.artifacts).map (renewed chrono)
  rw [List.map_append, List.map_append] at hparts
  exact hparts.symm.trans (((hphysical.append hnonphysical).append hunsupported).symm)

/-! ## Normal times of collection -/

/-- The calendar library, for time stamps with a year of four digits. -/
structure Rfc3339.Documented (chrono : Rfc3339 Instant) (year : Instant → Int) : Prop where
  parse_print : ∀ t, 0 ≤ year t → year t ≤ 9999 → chrono.parse (chrono.print t) = some t
  parse_print_none : ∀ t, ¬ (0 ≤ year t ∧ year t ≤ 9999) → chrono.parse (chrono.print t) = none
  print_safe : ∀ t, 0 ≤ year t → year t ≤ 9999 → (chrono.print t).isEmpty = false ∧
    byteLen (chrono.print t) ≤ maxCollectedAtChars ∧
    (chrono.print t).all (fun c => decide (c.toNat < 128)) = true

/-- The time of collection of an artifact is of a year of four digits, where it is at no
offset. -/
def CollectedInRange (chrono : Rfc3339 Instant) (year : Instant → Int)
    (a : SccmClientIntakeArtifact) : Prop :=
  ∀ value t, a.artifact.collectedAtUtc = some value → chrono.parse value = some t →
    0 ≤ year t ∧ year t ≤ 9999

variable {year : Instant → Int}

theorem safe_normalized_iff (hcalendar : chrono.Documented year) {a : SccmClientIntakeArtifact}
    (hsound : Sound chrono a) :
    (normalized chrono a.artifact.collectedAtUtc).all (isSafeCollectedAt chrono) = true ↔
      CollectedInRange chrono year a := by
  unfold CollectedInRange
  cases hvalue : a.artifact.collectedAtUtc with
  | none =>
    refine ⟨fun _ value t h => ?_, fun _ => rfl⟩
    cases h
  | some value =>
    obtain ⟨t, ht⟩ := Option.isSome_iff_exists.mp (hsound.parse_isSome hvalue)
    rw [normalized, Option.bind_some, ht, Option.map_some, Option.all_some]
    constructor
    · rintro hsafe value' t' ⟨⟩ ht'
      obtain rfl := Option.some.inj (ht.symm.trans ht')
      by_contra hrange
      rw [isSafeCollectedAt, hcalendar.parse_print_none t hrange] at hsafe
      simp at hsafe
    · intro hrange
      obtain ⟨hlow, hhigh⟩ := hrange value t rfl ht
      obtain ⟨hne, hlen, hascii⟩ := hcalendar.print_safe t hlow hhigh
      rw [isSafeCollectedAt, hne, hascii, hcalendar.parse_print t hlow hhigh, decide_eq_true hlen]
      rfl

theorem projectedOf_renewed (hcalendar : chrono.Documented year) {a : SccmClientIntakeArtifact}
    (hsound : Sound chrono a) (hrange : CollectedInRange chrono year a) :
    projectedOf chrono (renewed chrono a) = projectedOf chrono a := by
  have hnormal : normalized chrono (normalized chrono a.artifact.collectedAtUtc) =
      normalized chrono a.artifact.collectedAtUtc := by
    cases hvalue : a.artifact.collectedAtUtc with
    | none => rfl
    | some value =>
      obtain ⟨t, ht⟩ := Option.isSome_iff_exists.mp (hsound.parse_isSome hvalue)
      obtain ⟨hlow, hhigh⟩ := hrange value t hvalue ht
      simp only [normalized, Option.bind_some, ht, Option.map_some,
        hcalendar.parse_print t hlow hhigh]
  have hfragment : intakeFragment (renewed chrono a)
      (normalized chrono (renewed chrono a).artifact.collectedAtUtc) =
      intakeFragment a (normalized chrono a.artifact.collectedAtUtc) :=
    congrArg (intakeFragment a) hnormal
  have hunsupported : unsupportedArtifact (renewed chrono a)
      (normalized chrono (renewed chrono a).artifact.collectedAtUtc) =
      unsupportedArtifact a (normalized chrono a.artifact.collectedAtUtc) :=
    congrArg (unsupportedArtifact a) hnormal
  rw [projectedOf, projectedOf, hfragment, hunsupported]
  rfl

theorem Accepted.validateAssessmentProjection_iff (h : Accepted chrono bundle)
    (hcalendar : chrono.Documented year) {u : Unit} :
    validateAssessmentProjection chrono (assessmentOf chrono bundle) = .ok u ↔
      ∀ a ∈ bundle.artifacts, CollectedInRange chrono year a := by
  obtain ⟨nonphysical, hindex, hindexed⟩ := h.exists_nonphysical
  have hperm := h.assessedBundle_perm hindexed
  have hassessed : validateAssessmentProjection chrono (assessmentOf chrono bundle) = .ok u ↔
      assessClientIntake chrono (assessedBundle (assessmentOf chrono bundle) nonphysical) =
        .ok (assessmentOf chrono bundle) := by
    rw [validateAssessmentProjection, hindex]
    dsimp only
    rw [← assessedBundle]
    cases hassess : assessClientIntake chrono
        (assessedBundle (assessmentOf chrono bundle) nonphysical) with
    | error fault => cases fault <;> exact ⟨fun h => (by cases h), fun h => (by cases h)⟩
    | ok canonical =>
      dsimp only
      split_ifs with heq
      · exact ⟨fun _ => congrArg Except.ok heq, fun _ => rfl⟩
      · exact ⟨fun h => (by cases h), fun h => absurd (Except.ok.inj h) heq⟩
  rw [hassessed]
  constructor
  · intro hassess a ha
    obtain ⟨_, hvalid, -⟩ := bind_ok_iff.mp hassess
    have hsound := (validateBundle_ok_iff.mp hvalid).artifacts (renewed chrono a)
      (hperm.mem_iff.mp (List.mem_map_of_mem ha))
    exact (safe_normalized_iff hcalendar (h.artifacts a ha)).mp
      ((sound_renewed_iff (h.artifacts a ha)).mp hsound)
  · intro hrange
    have haccepted : Accepted chrono ⟨bundle.artifacts.map (renewed chrono), bundle.captureGaps⟩ :=
      { count := by
          rw [List.length_map]
          exact h.count
        artifacts := fun b hb => by
          obtain ⟨a, ha, rfl⟩ := List.mem_map.mp hb
          exact (sound_renewed_iff (h.artifacts a ha)).mpr
            ((safe_normalized_iff hcalendar (h.artifacts a ha)).mpr (hrange a ha))
        captureGaps := h.captureGaps
        compatible := by
          rw [SccmClientIntakeBundle.declared, List.map_map]
          exact h.compatible }
    have hgaps : bundle.captureGaps.Perm
        (assessedBundle (assessmentOf chrono bundle) nonphysical).captureGaps :=
      (sortBy_perm compareCaptureGaps bundle.captureGaps).symm
    rw [(haccepted.perm hperm hgaps).assess_eq, ← haccepted.assessmentOf_perm hperm hgaps]
    have hprojected : (bundle.artifacts.map (renewed chrono)).map (projectedOf chrono) =
        bundle.artifacts.map (projectedOf chrono) := by
      rw [List.map_map]
      exact List.map_congr_left fun a ha =>
        projectedOf_renewed hcalendar (h.artifacts a ha) (hrange a ha)
    simp only [assessmentOf, hprojected]

/-! ## Written and read -/

def SccmClientIntakeAssessment.rotations (assessment : SccmClientIntakeAssessment) :
    List SccmRotation :=
  (assessment.groups.flatMap (·.fragments)).map (·.rotation) ++
    assessment.physicalArtifacts.map (·.rotation) ++
    assessment.unsupportedArtifacts.map (·.rotation) ++ assessment.captureGaps.map (·.rotation)

/-- The derived reader and writer of the fields of an assessment. -/
structure Serde (J : Type) where
  encode : SccmClientIntakeAssessment → Option J
  decode : J → Option SccmClientIntakeAssessment

/-- Fields with rotations that can be written are read as what was written. -/
def Serde.RoundTrips {J : Type} (serde : Serde J) : Prop :=
  ∀ assessment : SccmClientIntakeAssessment,
    (∀ rotation ∈ assessment.rotations, rotation.serializes = true) →
      ∃ json, serde.encode assessment = some json ∧ serde.decode json = some assessment

def serializeAssessment {J : Type} (chrono : Rfc3339 Instant) (serde : Serde J)
    (assessment : SccmClientIntakeAssessment) : Except ProjectionFault J :=
  match validateAssessmentProjection chrono assessment with
  | .error fault => .error fault
  | .ok _ =>
    if assessment.captureGaps.all isValidCaptureGapShape then
      match serde.encode assessment with
      | some json => .ok json
      | none => .error (.error "fields cannot be written".toList)
    else .error (.error SccmClientIntakeError.invalidCaptureGap.message)

def deserializeAssessment {J : Type} (chrono : Rfc3339 Instant) (serde : Serde J) (json : J) :
    Except ProjectionFault SccmClientIntakeAssessment :=
  match serde.decode json with
  | none => .error (.error "fields cannot be read".toList)
  | some assessment =>
    if maxSccmClientIntakeArtifacts < assessment.captureGaps.length then
      .error (.error SccmClientIntakeError.artifactLimitExceeded.message)
    else if assessment.captureGaps.all isValidCaptureGapShape then
      match validateAssessmentProjection chrono assessment with
      | .error fault => .error fault
      | .ok _ => .ok assessment
    else .error (.error SccmClientIntakeError.invalidCaptureGap.message)

theorem Accepted.rotations_serialize (h : Accepted chrono bundle) :
    ∀ rotation ∈ (assessmentOf chrono bundle).rotations, rotation.serializes = true := by
  have hartifact : ∀ a ∈ bundle.artifacts, a.artifact.rotation.serializes = true :=
    fun a ha => (h.artifacts a ha).early.rotation.1
  intro rotation hrotation
  simp only [SccmClientIntakeAssessment.rotations, List.mem_append, List.mem_map] at hrotation
  rcases hrotation with ((⟨f, hf, rfl⟩ | ⟨f, hf, rfl⟩) | ⟨u, hu, rfl⟩) | ⟨g, hg, rfl⟩
  · obtain ⟨group, hgroup, hf⟩ := List.mem_flatMap.mp hf
    obtain ⟨parts, hparts, rfl⟩ := List.mem_map.mp hgroup
    obtain ⟨logicalArtifactId, -, rfl⟩ := List.mem_map.mp hparts
    obtain ⟨a, ha, -, rfl⟩ := mem_flatMap_memberships (mem_sortBy.mp hf)
    exact hartifact a ha
  · have hmem := mem_sortBy.mp hf
    rw [filterMap_physical?] at hmem
    obtain ⟨a, ha, rfl⟩ := List.mem_map.mp hmem
    exact hartifact a (List.mem_filter.mp ha).1
  · have hmem := mem_sortBy.mp hu
    rw [filterMap_unsupported?] at hmem
    obtain ⟨a, ha, rfl⟩ := List.mem_map.mp hmem
    exact hartifact a (List.mem_filter.mp ha).1
  · have hshape := h.captureGaps g (mem_sortBy.mp hg)
    simp only [isValidCaptureGapShape, Bool.and_eq_true] at hshape
    exact hshape.1.1.1.1.1.1.2

theorem Accepted.captureGaps_valid (h : Accepted chrono bundle) :
    (assessmentOf chrono bundle).captureGaps.all isValidCaptureGapShape = true ∧
      ¬ maxSccmClientIntakeArtifacts < (assessmentOf chrono bundle).captureGaps.length := by
  constructor
  · exact List.all_eq_true.mpr fun g hg => h.captureGaps g (mem_sortBy.mp hg)
  · have hlength : (assessmentOf chrono bundle).captureGaps.length = bundle.captureGaps.length :=
      (sortBy_perm _ _).length_eq
    have hcount := h.count
    omega

/-- An assessment that passes its check, is written and is read as it was. -/
structure Survives {J : Type} (chrono : Rfc3339 Instant) (serde : Serde J)
    (assessment : SccmClientIntakeAssessment) : Prop where
  passes : validateAssessmentProjection chrono assessment = .ok ()
  reread : ∃ json, serializeAssessment chrono serde assessment = .ok json ∧
    deserializeAssessment chrono serde json = .ok assessment

theorem Accepted.survives_iff {J : Type} {serde : Serde J} (h : Accepted chrono bundle)
    (hcalendar : chrono.Documented year) (hserde : serde.RoundTrips) :
    Survives chrono serde (assessmentOf chrono bundle) ↔
      ∀ a ∈ bundle.artifacts, CollectedInRange chrono year a := by
  rw [← h.validateAssessmentProjection_iff hcalendar (u := ())]
  constructor
  · exact Survives.passes
  · intro hpasses
    obtain ⟨json, hencode, hdecode⟩ := hserde _ h.rotations_serialize
    obtain ⟨hgaps, hlimit⟩ := h.captureGaps_valid
    refine ⟨hpasses, json, ?_, ?_⟩
    · rw [serializeAssessment, hpasses]
      dsimp only
      rw [if_pos hgaps, hencode]
    · rw [deserializeAssessment, hdecode]
      dsimp only
      rw [if_neg hlimit, if_pos hgaps, hpasses]

end

/-- An accepted bundle has one assessment, whatever the order of its declarations, with each
artifact in its place; it can be written and read when the times of collection are of years
of four digits. -/
theorem intake_canonical_iff {Instant J : Type} {chrono : Rfc3339 Instant} {year : Instant → Int}
    {serde : Serde J} (hcalendar : chrono.Documented year) (hserde : serde.RoundTrips)
    {bundle : SccmClientIntakeBundle} (haccepted : validateBundle chrono bundle = .ok ()) :
    ∃ assessment, assessClientIntake chrono bundle = .ok assessment ∧
      (∀ other : SccmClientIntakeBundle, bundle.artifacts.Perm other.artifacts →
        bundle.captureGaps.Perm other.captureGaps →
        validateBundle chrono other = .ok () ∧
          assessClientIntake chrono other = .ok assessment) ∧
      (∀ a ∈ bundle.artifacts, PlacedIn chrono assessment a) ∧
      (Survives chrono serde assessment ↔
        ∀ a ∈ bundle.artifacts, CollectedInRange chrono year a) := by
  have h := validateBundle_ok_iff.mp haccepted
  refine ⟨assessmentOf chrono bundle, h.assess_eq, fun other hartifacts hgaps => ?_,
    fun a ha => h.placedIn ha, h.survives_iff hcalendar hserde⟩
  have hother := h.perm hartifacts hgaps
  refine ⟨validateBundle_ok_iff.mpr hother, ?_⟩
  rw [hother.assess_eq, h.assessmentOf_perm hartifacts hgaps]

/-! ### A calendar of two instants -/

inductive Stamp where
  | noon
  | pastYears
  deriving DecidableEq

/-- A time of day, and one that its offset takes past the years of four digits. -/
def stamps : Rfc3339 Stamp where
  parse := fun value =>
    if value = "2026-01-01T12:00:00Z".toList then some .noon
    else if value = "9999-12-31T23:59:59-01:00".toList then some .pastYears
    else none
  print
    | .noon => "2026-01-01T12:00:00Z".toList
    | .pastYears => "+10000-01-01T00:59:59Z".toList

def stampYear : Stamp → Int
  | .noon => 2026
  | .pastYears => 10000

theorem stamps_documented : stamps.Documented stampYear where
  parse_print := by
    intro t
    cases t <;> decide
  parse_print_none := by
    intro t
    cases t <;> decide
  print_safe := by
    intro t
    cases t <;> decide

def plainSerde : Serde SccmClientIntakeAssessment := ⟨some, some⟩

theorem plainSerde_roundTrips : plainSerde.RoundTrips := fun assessment _ => ⟨assessment, rfl, rfl⟩

def collectedMarker (collectedAtUtc : Text) : SccmClientIntakeArtifact where
  artifact :=
    { artifactId := "sccm-artifact:v1:sha256:".toList ++ List.replicate 64 '0'
      displayName := "ccmsetup.log".toList
      originalPath := none
      host := none
      role := .client
      configmgrVersion := none
      collectedAtUtc := some collectedAtUtc
      rotation := .current
      coverage := .absent
      encoding := none }
  pathFingerprint := none
  rotationLineage := none
  relativePath := none
  taskSequenceProvenance := none
  fragmentComplete := some false
  declaredByteLength := none
  contentSha256 := none

theorem marker_accepted :
    validateBundle stamps ⟨[collectedMarker "2026-01-01T12:00:00Z".toList], []⟩ = .ok () ∧
      validateBundle stamps ⟨[collectedMarker "9999-12-31T23:59:59-01:00".toList], []⟩ =
        .ok () := by
  decide +kernel

theorem intake_canonical_iff_marker :
    ∃ assessment,
      assessClientIntake stamps ⟨[collectedMarker "2026-01-01T12:00:00Z".toList], []⟩ =
        .ok assessment ∧ Survives stamps plainSerde assessment := by
  obtain ⟨assessment, hassess, -, -, hsurvives⟩ := intake_canonical_iff stamps_documented
    plainSerde_roundTrips marker_accepted.1
  refine ⟨assessment, hassess, hsurvives.mpr ?_⟩
  intro a ha value t hvalue ht
  obtain rfl := List.mem_singleton.mp ha
  obtain rfl := Option.some.inj hvalue
  have hnoon : stamps.parse "2026-01-01T12:00:00Z".toList = some .noon := by decide
  obtain rfl := Option.some.inj (hnoon.symm.trans ht)
  decide

/-- A bundle that is accepted, with an assessment that does not pass its own check. -/
theorem assessment_not_canonical :
    ∃ assessment,
      assessClientIntake stamps ⟨[collectedMarker "9999-12-31T23:59:59-01:00".toList], []⟩ =
        .ok assessment ∧
      validateAssessmentProjection stamps assessment ≠ .ok () := by
  have h := validateBundle_ok_iff.mp marker_accepted.2
  refine ⟨_, h.assess_eq, fun hpasses => ?_⟩
  have hrange := (h.validateAssessmentProjection_iff stamps_documented).mp hpasses _
    List.mem_cons_self _ .pastYears rfl rfl
  revert hrange
  decide

end Sccm
end CmTrace
