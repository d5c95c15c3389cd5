import CmTrace.Esp.Processes

/-!
# Processes and their parents

A group has the samples of one process.  A lineage goes from a process to the one parent its
samples name, and to no process that it has been to.
-/

namespace CmTrace
namespace Esp

open Text Collections

variable {Instant : Type} [LinearOrder Instant] {chrono : Chrono Instant}
  {processes : ProcessSamples} {identity : ProcessIdentity Instant} {samples : ProcessSamples}

/-! ## Samples of one process -/

/-- Some of the samples of one process. -/
structure SamplesOf (chrono : Chrono Instant) (processes : ProcessSamples)
    (identity : ProcessIdentity Instant) (samples : ProcessSamples) : Prop where
  nonempty : samples ≠ []
  sampled : ∀ process ∈ samples,
    process ∈ processes ∧ sampledIdentity chrono process = some identity

theorem sampledIdentity_spec {process : EspProcessObservation}
    (h : sampledIdentity chrono process = some identity) :
    process.pid = identity.1 ∧
      processStartInstant chrono process.processStartTime = some identity.2 ∧
      ∃ sampled, processSampleTimestamp chrono process = some sampled ∧ identity.2 ≤ sampled := by
  obtain ⟨key, hkey, h⟩ := Option.bind_eq_some_iff.mp h
  obtain ⟨sampled, hsampled, h⟩ := Option.bind_eq_some_iff.mp h
  obtain ⟨started, hstarted, rfl⟩ := Option.map_eq_some_iff.mp hkey
  split_ifs at h with hlt
  cases h
  exact ⟨rfl, hstarted, sampled, hsampled, not_lt.mp hlt⟩

theorem processIdentityKey_of_sampled {process : EspProcessObservation}
    (h : sampledIdentity chrono process = some identity) :
    processIdentityKey chrono process = some identity := by
  obtain ⟨hpid, hstarted, -⟩ := sampledIdentity_spec h
  rw [processIdentityKey, hstarted, Option.map_some, hpid]

theorem max?_of_forall_eq {xs : List Instant} {x : Instant} (hne : xs ≠ [])
    (hall : ∀ y ∈ xs, y = x) : xs.max? = some x := by
  refine List.max?_eq_some_iff.mpr ⟨?_, fun y hy => (hall y hy).le⟩
  obtain ⟨y, hy⟩ := List.exists_mem_of_ne_nil xs hne
  exact hall y hy ▸ hy

namespace SamplesOf

theorem exists_head (h : SamplesOf chrono processes identity samples) :
    ∃ process, samples.head? = some process ∧ sampledIdentity chrono process = some identity := by
  obtain ⟨process, hhead⟩ := Option.ne_none_iff_exists'.mp
    (mt List.head?_eq_none_iff.mp h.nonempty)
  exact ⟨process, hhead, (h.sampled process (List.mem_of_head? hhead)).2⟩

theorem pid_eq (h : SamplesOf chrono processes identity samples) :
    processPid samples = some identity.1 := by
  obtain ⟨process, hhead, hsampled⟩ := h.exists_head
  rw [processPid, hhead, Option.map_some, (sampledIdentity_spec hsampled).1]

theorem identity_eq (h : SamplesOf chrono processes identity samples) :
    processGroupIdentity chrono samples = some identity := by
  obtain ⟨process, hhead, hsampled⟩ := h.exists_head
  rw [processGroupIdentity, hhead, Option.bind_some, processIdentityKey_of_sampled hsampled]

theorem started_eq (h : SamplesOf chrono processes identity samples) :
    processStartTimestamp chrono samples = some identity.2 := by
  have hstarted : ∀ process ∈ samples,
      processStartInstant chrono process.processStartTime = some identity.2 :=
    fun process hp => (sampledIdentity_spec (h.sampled process hp).2).2.1
  refine max?_of_forall_eq ?_ fun started hs => ?_
  · obtain ⟨process, hp⟩ := List.exists_mem_of_ne_nil samples h.nonempty
    exact List.ne_nil_of_mem (List.mem_filterMap.mpr ⟨process, hp, hstarted process hp⟩)
  · obtain ⟨process, hp, heq⟩ := List.mem_filterMap.mp hs
    exact Option.some.inj (heq.symm.trans (hstarted process hp))

end SamplesOf

/-! ## Groups -/

theorem filter_identified (processes : ProcessSamples) (identity : ProcessIdentity Instant) :
    ((processes.filterMap fun process => (sampledIdentity chrono process).map fun identity =>
      (identity, process)).filter fun entry => entry.1 = identity).map Prod.snd =
        processes.filter fun process => sampledIdentity chrono process = some identity := by
  induction processes with
  | nil => rfl
  | cons process processes ih =>
    rw [List.filterMap_cons, List.filter_cons]
    cases hidentity : sampledIdentity chrono process with
    | none => exact ih
    | some identity' =>
      rw [Option.map_some]
      dsimp only
      rw [List.filter_cons]
      by_cases heq : identity' = identity
      · rw [if_pos (decide_eq_true heq), if_pos (decide_eq_true (congrArg some heq)),
          List.map_cons, ih]
      · have hne : ¬ some identity' = some identity := fun h => heq (Option.some.inj h)
        rw [if_neg (by rw [decide_eq_true_eq]; exact heq),
          if_neg (by rw [decide_eq_true_eq]; exact hne), ih]

theorem groupProcessObservations_eq (chrono : Chrono Instant) (processes : ProcessSamples) :
    groupProcessObservations chrono processes =
      (Std.TreeSet.ofList (processes.filterMap (sampledIdentity chrono)) identityOrder).toList.map
        fun identity => (identity, sortBy (preferenceOrder chrono)
          (processes.filter fun process => sampledIdentity chrono process = some identity)) := by
  have hkeys : (processes.filterMap fun process => (sampledIdentity chrono process).map
      fun identity => (identity, process)).map Prod.fst =
        processes.filterMap (sampledIdentity chrono) := by
    rw [List.map_filterMap]
    refine List.filterMap_congr fun process _ => ?_
    rw [Option.map_map]
    exact Option.map_id'
  rw [groupProcessObservations, sortBy_groupBy, hkeys, List.map_map]
  refine List.map_congr_left fun identity _ => ?_
  rw [Function.comp_apply, filter_identified]

theorem mem_identities {identity : ProcessIdentity Instant} :
    identity ∈ (Std.TreeSet.ofList (processes.filterMap (sampledIdentity chrono))
        identityOrder).toList ↔
      ∃ process ∈ processes, sampledIdentity chrono process = some identity := by
  rw [@mem_toList_ofList _ identityOrder _ _ instBEqOfDecidableEq _, List.mem_filterMap]

theorem samplesOf_group
    (h : ∃ process ∈ processes, sampledIdentity chrono process = some identity) :
    SamplesOf chrono processes identity (sortBy (preferenceOrder chrono)
      (processes.filter fun process => sampledIdentity chrono process = some identity)) := by
  obtain ⟨process, hp, hidentity⟩ := h
  refine ⟨List.ne_nil_of_mem (mem_sortBy.mpr (List.mem_filter.mpr ⟨hp,
    decide_eq_true hidentity⟩)), fun process hp => ?_⟩
  obtain ⟨hmem, hsampled⟩ := List.mem_filter.mp (mem_sortBy.mp hp)
  exact ⟨hmem, of_decide_eq_true hsampled⟩

theorem samplesOf_of_mem {group : ProcessIdentity Instant × ProcessSamples}
    (h : group ∈ groupProcessObservations chrono processes) :
    SamplesOf chrono processes group.1 group.2 := by
  rw [groupProcessObservations_eq] at h
  obtain ⟨identity, hidentity, rfl⟩ := List.mem_map.mp h
  exact samplesOf_group (mem_identities.mp hidentity)

theorem exists_group (h : ∃ process ∈ processes, sampledIdentity chrono process = some identity) :
    ∃ samples, (identity, samples) ∈ groupProcessObservations chrono processes ∧
      ∀ process, process ∈ samples ↔
        process ∈ processes ∧ sampledIdentity chrono process = some identity := by
  rw [groupProcessObservations_eq]
  refine ⟨_, List.mem_map.mpr ⟨identity, mem_identities.mpr h, rfl⟩, fun process => ?_⟩
  rw [mem_sortBy, List.mem_filter, decide_eq_true_eq]

/-! ## Parents -/

/-- The samples of a process name one parent. -/
structure NamesParent (samples : ProcessSamples) (pid : Nat) : Prop where
  named : ∃ process ∈ samples, process.parentPid = some pid
  only : ∀ process ∈ samples, ∀ other, process.parentPid = some other → other = pid

theorem namesParent_of_uniqueParentPid {pid : Nat} (h : uniqueParentPid samples = some pid) :
    NamesParent samples pid := by
  have hmem : ∀ p, p ∈ sortedDistinct compare (samples.filterMap EspProcessObservation.parentPid) ↔
      ∃ process ∈ samples, process.parentPid = some p := by
    intro p
    rw [mem_sortedDistinct, List.mem_filterMap]
  rw [uniqueParentPid] at h
  split at h
  · rename_i hlist
    cases h
    rw [hlist] at hmem
    refine ⟨(hmem pid).mp (List.mem_singleton_self pid), fun process hp other ho => ?_⟩
    exact List.mem_singleton.mp ((hmem other).mpr ⟨process, hp, ho⟩)
  · cases h

/-- A process that was the parent of another when the samples of that one were taken. -/
structure IsParent (chrono : Chrono Instant) (processes child parent : ProcessSamples) : Prop where
  samples : ∃ childIdentity identity latest,
    SamplesOf chrono processes childIdentity child ∧ SamplesOf chrono processes identity parent ∧
    NamesParent child identity.1 ∧ identity.2 ≤ childIdentity.2 ∧
    latestProcessSampleTimestamp chrono child = some latest ∧
    ∀ process ∈ parent, ∃ sampled, processSampleTimestamp chrono process = some sampled ∧
      childIdentity.2 ≤ sampled ∧ sampled ≤ latest

theorem sampledWhile_spec {childStarted childSampled started : Instant}
    {inWindow : ProcessSamples} (hsamples : SamplesOf chrono processes identity samples)
    (h : sampledWhile chrono childStarted childSampled samples = some (started, inWindow)) :
    SamplesOf chrono processes identity inWindow ∧ identity.2 ≤ childStarted ∧
      ∀ process ∈ inWindow, ∃ sampled, processSampleTimestamp chrono process = some sampled ∧
        childStarted ≤ sampled ∧ sampled ≤ childSampled := by
  rw [sampledWhile, hsamples.started_eq, Option.bind_some] at h
  split_ifs at h with hlater
  dsimp only at h
  split_ifs at h with hnil
  cases h
  refine ⟨⟨hnil, fun process hp => hsamples.sampled process (List.mem_filter.mp hp).1⟩,
    not_lt.mp hlater, fun process hp => ?_⟩
  obtain ⟨sampled, hsampled, hwithin⟩ := (Option.any_eq_true _ _).mp (List.mem_filter.mp hp).2
  exact ⟨sampled, hsampled, of_decide_eq_true hwithin⟩

theorem parentOf_spec {current parent : ProcessSamples} {childIdentity : ProcessIdentity Instant}
    (hcurrent : SamplesOf chrono processes childIdentity current)
    (h : parentOf chrono (groupProcessObservations chrono processes) current = some parent) :
    IsParent chrono processes current parent := by
  obtain ⟨pid, hpid, h⟩ := Option.bind_eq_some_iff.mp h
  obtain ⟨childStarted, hstarted, h⟩ := Option.bind_eq_some_iff.mp h
  obtain ⟨childSampled, hlatest, h⟩ := Option.bind_eq_some_iff.mp h
  obtain ⟨⟨started, inWindow⟩, hmax, rfl⟩ := Option.map_eq_some_iff.mp h
  obtain ⟨group, hgroup, hwhile⟩ := List.mem_filterMap.mp (mem_of_maxBy hmax)
  obtain ⟨hgroup, hgroupPid⟩ := List.mem_filter.mp hgroup
  have hsamples := samplesOf_of_mem hgroup
  obtain ⟨hwindow, hearlier, hwithin⟩ := sampledWhile_spec hsamples hwhile
  rw [hcurrent.started_eq] at hstarted
  cases hstarted
  rw [hsamples.pid_eq] at hgroupPid
  obtain rfl : group.1.1 = pid := by simpa using hgroupPid
  exact ⟨childIdentity, group.1, childSampled, hcurrent, hwindow,
    namesParent_of_uniqueParentPid hpid, hearlier, hlatest, hwithin⟩

/-- A process with its parents: each is the parent of the one before, none is there twice, and
none but the first has been visited. -/
structure Descends (chrono : Chrono Instant) (processes : ProcessSamples)
    (visited : List (ProcessIdentity Instant)) (depth : Nat) (lineage : List ProcessSamples) :
    Prop where
  chain : lineage.IsChain (IsParent chrono processes)
  identities : ∃ identities : List (ProcessIdentity Instant),
    List.Forall₂ (SamplesOf chrono processes) identities lineage ∧ identities.Nodup ∧
      ∀ identity ∈ identities.tail, identity ∉ visited
  length : lineage.length ≤ depth + 1

theorem Descends.mem {visited : List (ProcessIdentity Instant)} {depth : Nat}
    {lineage : List ProcessSamples} (h : Descends chrono processes visited depth lineage)
    (hin : samples ∈ lineage) {process : EspProcessObservation} (hp : process ∈ samples) :
    process ∈ processes := by
  obtain ⟨identities, hall, -⟩ := h.identities
  clear h
  induction hall with
  | nil => cases hin
  | cons hsamples _ ih =>
    rcases List.mem_cons.mp hin with rfl | hin
    · exact (hsamples.sampled process hp).1
    · exact ih hin

theorem descends_alone {depth : Nat} {visited : List (ProcessIdentity Instant)}
    (h : SamplesOf chrono processes identity samples) :
    Descends chrono processes visited depth [samples] where
  chain := List.isChain_singleton samples
  identities := ⟨[identity], .cons h .nil, List.nodup_singleton identity, List.forall_mem_nil _⟩
  length := Nat.succ_le_succ (Nat.zero_le depth)

theorem head?_lineageFrom (groups : ProcessGroups Instant) (depth : Nat)
    (visited : List (ProcessIdentity Instant)) (current : ProcessSamples) :
    (lineageFrom chrono groups depth visited current).head? = some current := by
  cases depth with
  | zero => rfl
  | succ depth =>
    rw [lineageFrom]
    split
    · rfl
    · split
      · rfl
      · split_ifs
        · rfl
        · rfl

theorem lineageFrom_descends {depth : Nat} {visited : List (ProcessIdentity Instant)}
    {current : ProcessSamples} (hcurrent : SamplesOf chrono processes identity current)
    (hvisited : identity ∈ visited) :
    Descends chrono processes visited depth
      (lineageFrom chrono (groupProcessObservations chrono processes) depth visited current) := by
  induction depth generalizing visited current identity with
  | zero => exact descends_alone hcurrent
  | succ depth ih =>
    rw [lineageFrom]
    cases hparent : parentOf chrono (groupProcessObservations chrono processes) current with
    | none => exact descends_alone hcurrent
    | some parent =>
      have hstep := parentOf_spec hcurrent hparent
      obtain ⟨childIdentity, parentIdentity, latest, -, hsamples, -⟩ := hstep.samples
      dsimp only
      rw [hsamples.identity_eq]
      dsimp only
      split_ifs with hseen
      · exact descends_alone hcurrent
      · have hfresh : parentIdentity ∉ visited := fun h => hseen (List.contains_iff_mem.mpr h)
        have hin : parentIdentity ∈ parentIdentity :: visited := List.mem_cons_self ..
        have hrest := ih hsamples hin
        obtain ⟨identities, hall, hnodup, hunseen⟩ := hrest.identities
        have hnew : ∀ other ∈ identities, other ∉ visited := by
          have hhead := @head?_lineageFrom Instant _ chrono
            (groupProcessObservations chrono processes) depth (parentIdentity :: visited) parent
          generalize lineageFrom chrono (groupProcessObservations chrono processes) depth
            (parentIdentity :: visited) parent = lineage at hall hhead
          cases hall with
          | nil => cases hhead
          | @cons first samples others rest hfirst hothers =>
            cases hhead
            have hsame : first = parentIdentity :=
              Option.some.inj (hfirst.identity_eq.symm.trans hsamples.identity_eq)
            intro other hother
            rcases List.mem_cons.mp hother with rfl | hother
            · exact hsame ▸ hfresh
            · exact fun h => hunseen other hother (List.mem_cons_of_mem _ h)
        refine ⟨?_, ⟨identity :: identities, .cons hcurrent hall, ?_, hnew⟩, ?_⟩
        · refine List.isChain_cons.mpr ⟨fun next hnext => ?_, hrest.chain⟩
          rw [head?_lineageFrom] at hnext
          exact Option.some.inj hnext ▸ hstep
        · exact List.nodup_cons.mpr ⟨fun h => hnew identity h hvisited, hnodup⟩
        · exact Nat.succ_le_succ hrest.length

theorem processLineage_descends {group : ProcessIdentity Instant × ProcessSamples}
    (h : group ∈ groupProcessObservations chrono processes) :
    Descends chrono processes [group.1] maxParentChainDepth
        (processLineage chrono (groupProcessObservations chrono processes) group.2) ∧
      (processLineage chrono (groupProcessObservations chrono processes) group.2).head? =
        some group.2 := by
  have hsamples := samplesOf_of_mem h
  rw [processLineage, hsamples.identity_eq]
  exact ⟨lineageFrom_descends hsamples (List.mem_singleton_self _), head?_lineageFrom _ _ _ _⟩

theorem uniqueParentPid_eq_none (h : ∀ process ∈ samples, process.parentPid = none) :
    uniqueParentPid samples = none := by
  cases hpid : uniqueParentPid samples with
  | none => rfl
  | some pid =>
    obtain ⟨process, hp, hparent⟩ := (namesParent_of_uniqueParentPid hpid).named
    rw [h process hp] at hparent
    cases hparent

theorem processLineage_alone (groups : ProcessGroups Instant) (h : uniqueParentPid samples = none) :
    processLineage chrono groups samples = [samples] := by
  rw [processLineage]
  cases processGroupIdentity chrono samples with
  | none => rfl
  | some identity =>
    dsimp only
    rw [maxParentChainDepth, lineageFrom, parentOf, h]
    rfl

end Esp
end CmTrace
