import CmTrace.Esp.Evidence

/-!
# The order of collection

Samples that their artifact and their evidence tell apart are grouped, merged and chained to
their parents in one way, whatever order they are collected in, and so are the workloads and
the logs.
-/

namespace CmTrace
namespace Esp

open Text Collections Std

variable {Instant : Type} [LinearOrder Instant] {chrono : Chrono Instant}

/-! ## Orders that tell samples apart -/

instance : TransCmp (preferenceOrder chrono) := inferInstanceAs (TransCmp (compareLex _ _))

instance : TransCmp evidenceOrder := inferInstanceAs (TransCmp (orderOn _ _))

instance : LawfulEqCmp evidenceOrder := by
  refine orderOn_lawful _ fun a b h => ?_
  obtain ⟨hartifact, hevidence⟩ := Prod.mk.inj h
  cases a
  cases b
  cases hartifact
  cases hevidence
  rfl

def sampleKey (process : EspProcessObservation) : Text × Text :=
  (artifactOf process, evidenceOf process)

theorem sampleKey_of_preferenceOrder {a b : EspProcessObservation}
    (h : preferenceOrder chrono a b = .eq) : sampleKey a = sampleKey b := by
  rw [preferenceOrder, compareLex_eq_iff, compareLex_eq_iff, compareLex_eq_iff] at h
  obtain ⟨-, -, hartifact, hevidence⟩ := h
  exact Prod.ext (eq_of_cmp compare hartifact) (eq_of_cmp compare hevidence)

theorem groupProcessObservations_perm {processes processes' : ProcessSamples}
    (hperm : processes.Perm processes') (hkeys : (processes.map sampleKey).Nodup) :
    groupProcessObservations chrono processes = groupProcessObservations chrono processes' := by
  have hidentities : (TreeSet.ofList (processes.filterMap (sampledIdentity chrono))
      identityOrder).toList = (TreeSet.ofList (processes'.filterMap (sampledIdentity chrono))
        identityOrder).toList :=
    @toList_ofList_perm _ identityOrder _ _ instBEqOfDecidableEq _ _ _ (hperm.filterMap _)
  rw [groupProcessObservations_eq, groupProcessObservations_eq, hidentities]
  refine List.map_congr_left fun identity _ => congrArg (Prod.mk identity) ?_
  refine sortBy_congr_of_tells (hperm.filter _) fun a ha b hb hsame => ?_
  exact List.inj_on_of_nodup_map hkeys (List.mem_filter.mp ha).1 (List.mem_filter.mp hb).1
    (sampleKey_of_preferenceOrder hsame)

/-! ## Signals in any order -/

section Signals

variable {workloads workloads' : List EspWorkload}
  {deploymentLogs deploymentLogs' : List EspDeploymentLogObservation}
  {imeLogs imeLogs' : List EspImeObservation}

theorem identifierSignal_perm (hperm : workloads.Perm workloads') :
    identifierSignal (workloadIdentifiers workloads) =
      identifierSignal (workloadIdentifiers workloads') := by
  funext name value
  have hcandidates : ∀ identifiers : List Text, sortedDistinct compare
      (((workloadIdentifiers workloads).filter fun workload =>
        !isDisjoint identifiers workload.2).map Prod.fst) = sortedDistinct compare
      (((workloadIdentifiers workloads').filter fun workload =>
        !isDisjoint identifiers workload.2).map Prod.fst) := by
    intro identifiers
    exact sortedDistinct_congr fun _ =>
      ((((hperm.filter _).map _).filter _).map _).mem_iff
  rw [identifierSignal, identifierSignal, hcandidates]

theorem allSignals_perm (hworkloads : workloads.Perm workloads')
    (hdeployments : deploymentLogs.Perm deploymentLogs') (hime : imeLogs.Perm imeLogs')
    (root : ProcessSamples) (lineage : List ProcessSamples) :
    (allSignals chrono (workloadIdentifiers workloads) root lineage deploymentLogs imeLogs).Perm
      (allSignals chrono (workloadIdentifiers workloads') root lineage deploymentLogs'
        imeLogs') := by
  have hsamples : sampleSignals (workloadIdentifiers workloads) =
      sampleSignals (workloadIdentifiers workloads') := by
    funext appName productName samples
    rw [sampleSignals, sampleSignals, identifierSignal_perm hworkloads]
  have hlineage : lineageSignals (workloadIdentifiers workloads) lineage =
      lineageSignals (workloadIdentifiers workloads') lineage := by
    cases lineage with
    | nil => rfl
    | cons first parents => rw [lineageSignals, lineageSignals, hsamples]
  rw [allSignals, allSignals, hlineage, identifierSignal_perm hworkloads]
  exact ((List.Perm.refl _).append ((hdeployments.filter _).filterMap _)).append
    ((hime.filter _).filterMap _)

theorem exactCandidates_perm {signals signals' : List Signal} (h : signals.Perm signals') :
    exactCandidates signals = exactCandidates signals' :=
  sortedDistinct_congr fun _ => (h.flatMap_right _).mem_iff

theorem signalConflict_perm {signals signals' : List Signal} (h : signals.Perm signals') :
    signalConflict signals = signalConflict signals' := by
  have hsets := (h.map Signal.candidates).filter fun candidates => !candidates.isEmpty
  have hright : ∀ left : List Text,
      ((signals.map Signal.candidates).filter fun candidates => !candidates.isEmpty).any
          (isDisjoint left) =
        ((signals'.map Signal.candidates).filter fun candidates => !candidates.isEmpty).any
          (isDisjoint left) := fun left => hsets.any_eq
  rw [signalConflict, signalConflict, hsets.any_eq]
  simp only [hright]

theorem exactReason_perm {signals signals' : List Signal} (h : signals.Perm signals') (id : Text) :
    exactReason signals id = exactReason signals' id := by
  have hnames := @sortedDistinct_congr Text _ compare _ _ _ _ fun _ =>
    ((h.filter fun signal => signal.candidates.contains id).map Signal.name).mem_iff
  rw [exactReason, exactReason, hnames]

theorem verdict_perm {signals signals' : List Signal} (h : signals.Perm signals')
    (processConflict : Bool) (temporal : List Text) :
    verdict processConflict signals temporal = verdict processConflict signals' temporal := by
  have hnil : signals = [] ↔ signals' = [] := by
    rw [← List.length_eq_zero_iff, ← List.length_eq_zero_iff, h.length_eq]
  have hreason : exactReason signals = exactReason signals' := funext (exactReason_perm h)
  rw [verdict, verdict, exactCandidates_perm h, signalConflict_perm h, hreason]
  simp only [hnil]

theorem temporalCandidates_perm (hperm : workloads.Perm workloads') (root : ProcessSamples) :
    temporalCandidates chrono workloads root = temporalCandidates chrono workloads' root := by
  rw [temporalCandidates, temporalCandidates]
  cases processStartTimestamp chrono root with
  | none => rfl
  | some started =>
    exact sortedDistinct_congr fun _ => (((hperm.filter _).filter _).map _).mem_iff

theorem find?_workload (hids : (workloads.map EspWorkload.workloadId).Nodup) {id : Text}
    {workload : EspWorkload} :
    (workloads.find? fun workload => workload.workloadId == id) = some workload ↔
      workload ∈ workloads ∧ workload.workloadId = id := by
  constructor
  · intro h
    have heq := List.find?_some h
    exact ⟨List.mem_of_find?_eq_some h, beq_iff_eq.mp heq⟩
  · rintro ⟨hin, rfl⟩
    have hsome : (workloads.find? fun other => other.workloadId == workload.workloadId).isSome :=
      List.find?_isSome.mpr ⟨workload, hin, beq_self_eq_true _⟩
    obtain ⟨other, hother⟩ := Option.isSome_iff_exists.mp hsome
    have heq := List.find?_some hother
    rw [hother, List.inj_on_of_nodup_map hids (List.mem_of_find?_eq_some hother) hin
      (beq_iff_eq.mp heq)]

theorem candidateEvidence_perm (hperm : workloads.Perm workloads')
    (hids : (workloads.map EspWorkload.workloadId).Nodup) (candidates : List Text) :
    candidateEvidence workloads candidates = candidateEvidence workloads' candidates := by
  have hfind : ∀ candidate, (workloads.find? fun workload => workload.workloadId == candidate) =
      workloads'.find? fun workload => workload.workloadId == candidate := by
    intro candidate
    have hids' : (workloads'.map EspWorkload.workloadId).Nodup := (hperm.map _).nodup_iff.mp hids
    exact Option.ext fun workload =>
      (find?_workload hids).trans ((and_congr_left fun _ => hperm.mem_iff).trans
        (find?_workload hids').symm)
  rw [candidateEvidence, candidateEvidence]
  simp only [hfind]

end Signals

/-! ## The correlation -/

section Correlate

variable {workloads workloads' : List EspWorkload}
  {deploymentLogs deploymentLogs' : List EspDeploymentLogObservation}
  {imeLogs imeLogs' : List EspImeObservation}

theorem correlateOne_perm (hworkloads : workloads.Perm workloads')
    (hids : (workloads.map EspWorkload.workloadId).Nodup)
    (hdeployments : deploymentLogs.Perm deploymentLogs') (hime : imeLogs.Perm imeLogs')
    (groups : ProcessGroups Instant) (root : ProcessSamples) :
    correlateOne chrono workloads groups deploymentLogs imeLogs root =
      correlateOne chrono workloads' groups deploymentLogs' imeLogs' root := by
  have hsignals := @allSignals_perm _ _ chrono _ _ _ _ _ _ hworkloads hdeployments hime root
    (processLineage chrono groups root)
  have hevidence : ∀ refs candidates : List EspEvidenceRef, deduplicateEvidence
      (refs ++ (matchedDeployments chrono root deploymentLogs).map (fun deployment =>
          deployment.context.evidenceRef) ++
        (matchedIme chrono (processLineage chrono groups root) imeLogs).map
          (fun ime => ime.context.evidenceRef) ++ candidates) = deduplicateEvidence
      (refs ++ (matchedDeployments chrono root deploymentLogs').map (fun deployment =>
          deployment.context.evidenceRef) ++
        (matchedIme chrono (processLineage chrono groups root) imeLogs').map
          (fun ime => ime.context.evidenceRef) ++ candidates) := by
    intro refs candidates
    refine sortedDistinct_congr fun _ => List.Perm.mem_iff ?_
    exact (((List.Perm.refl _).append ((hdeployments.filter _).map _)).append
      ((hime.filter _).map _)).append (List.Perm.refl _)
  rw [correlateOne, correlateOne, temporalCandidates_perm hworkloads, verdict_perm hsignals,
    signalConflict_perm hsignals, candidateEvidence_perm hworkloads hids, hevidence]

/-- What is correlated does not depend on the order in which the workloads, the samples and the
logs were collected. -/
theorem correlateInstallerProcesses_perm (chrono : Chrono Instant)
    {processes processes' : ProcessSamples} (hworkloads : workloads.Perm workloads')
    (hprocesses : processes.Perm processes') (hdeployments : deploymentLogs.Perm deploymentLogs')
    (hime : imeLogs.Perm imeLogs') (hids : (workloads.map EspWorkload.workloadId).Nodup)
    (hkeys : (processes.map sampleKey).Nodup) :
    correlateInstallerProcesses chrono workloads processes deploymentLogs imeLogs =
      correlateInstallerProcesses chrono workloads' processes' deploymentLogs' imeLogs' := by
  rw [correlateInstallerProcesses, correlateInstallerProcesses,
    groupProcessObservations_perm hprocesses hkeys]
  exact List.map_congr_left fun group _ =>
    correlateOne_perm hworkloads hids hdeployments hime _ group.2

end Correlate

/-- Two samples that contradict each other, collected in either order. -/
theorem correlateInstallerProcesses_swap :
    correlateInstallerProcesses seconds [observedWorkload]
        [installerSample "a".toList "1".toList "msiexec.exe".toList,
          installerSample "b".toList "2".toList "setup.exe".toList] [] [] =
      correlateInstallerProcesses seconds [observedWorkload]
        [installerSample "b".toList "2".toList "setup.exe".toList,
          installerSample "a".toList "1".toList "msiexec.exe".toList] [] [] :=
  correlateInstallerProcesses_perm seconds (.refl _) (.swap _ _ _) (.refl _) (.refl _)
    (List.nodup_singleton _) (by decide +kernel)

/-- Two samples of one artifact and one evidence id, whose references name two artifacts, stay
in the order in which they were collected. -/
theorem correlateInstallerProcesses_collected :
    ¬ ∀ (workloads workloads' : List EspWorkload) (processes processes' : ProcessSamples)
      (deploymentLogs deploymentLogs' : List EspDeploymentLogObservation)
      (imeLogs imeLogs' : List EspImeObservation), workloads.Perm workloads' →
      processes.Perm processes' → deploymentLogs.Perm deploymentLogs' → imeLogs.Perm imeLogs' →
      (workloads.map EspWorkload.workloadId).Nodup →
      (processes.map (fun process => process.context.evidenceRef) ++
        deploymentLogs.map (fun deployment => deployment.context.evidenceRef) ++
        imeLogs.map (fun ime => ime.context.evidenceRef)).Nodup →
      correlateInstallerProcesses seconds workloads processes deploymentLogs imeLogs =
        correlateInstallerProcesses seconds workloads' processes' deploymentLogs' imeLogs' := by
  intro h
  -- of two samples that name no parent the first collected stays the first
  have hone : ∀ p q : EspProcessObservation, sampledIdentity seconds p = some (7, 10) →
      sampledIdentity seconds q = some (7, 10) → (preferenceOrder seconds p q).isLE →
      p.parentPid = none → q.parentPid = none → processSamplesConflict [p, q] = true →
      [p, q].any isInstallerRoot = true →
        (correlateInstallerProcesses seconds [] [p, q] [] []).map
          EspInstallerCorrelation.processObservations = [[p, q]] := by
    intro p q hp hq hle hpParent hqParent hconflict hroot
    have hgroups : groupProcessObservations seconds [p, q] = [((7, 10), [p, q])] := by
      have hkeys : (TreeSet.ofList ([p, q].filterMap (sampledIdentity seconds))
          identityOrder).toList = [(7, 10)] := by
        refine (eq_singleton_iff (nodup_toList _)).mpr fun identity => ?_
        rw [mem_identities]
        simp [hp, hq, eq_comm]
      have hall : [p, q].filter (fun process =>
          sampledIdentity seconds process = some (7, 10)) = [p, q] := by
        simp [hp, hq]
      have hsorted : Sorted (preferenceOrder seconds) [p, q] := List.pairwise_pair.mpr hle
      rw [groupProcessObservations_eq, hkeys, List.map_singleton, hall, sortBy_of_sorted hsorted]
    have halone : processLineage seconds [((7, 10), [p, q])] [p, q] = [[p, q]] := by
      refine processLineage_alone _ (uniqueParentPid_eq_none fun process hprocess => ?_)
      rcases List.mem_cons.mp hprocess with rfl | hprocess
      · exact hpParent
      · rw [List.mem_singleton.mp hprocess]
        exact hqParent
    have hinstallers : [(((7, 10) : ProcessIdentity Int), [p, q])].filter (fun group =>
        group.2.any isInstallerRoot) = [((7, 10), [p, q])] := List.filter_cons_of_pos hroot
    rw [correlateInstallerProcesses, hgroups, hinstallers, List.map_singleton, List.map_singleton,
      correlateOne, halone, List.any_cons, hconflict, Bool.true_or, Bool.true_or, if_pos rfl]
    rfl
  generalize hp : installerSample "a".toList "1".toList "msiexec.exe".toList = p at *
  generalize hq : installerSample "b".toList "1".toList "setup.exe".toList = q at *
  have hsame := h [] [] [p, q] [q, p] [] [] [] [] (.refl _) (.swap _ _ _) (.refl _) (.refl _)
    List.nodup_nil (by rw [← hp, ← hq]; decide +kernel)
  have hfirst := hone p q (by rw [← hp]; decide +kernel) (by rw [← hq]; decide +kernel)
    (by rw [← hp, ← hq]; decide +kernel) (hp ▸ rfl) (hq ▸ rfl)
    (by rw [← hp, ← hq]; decide +kernel) (by rw [← hp, ← hq]; decide +kernel)
  have hsecond := hone q p (by rw [← hq]; decide +kernel) (by rw [← hp]; decide +kernel)
    (by rw [← hp, ← hq]; decide +kernel) (hq ▸ rfl) (hp ▸ rfl)
    (by rw [← hp, ← hq]; decide +kernel) (by rw [← hp, ← hq]; decide +kernel)
  have hne : [[q, p]] ≠ [[p, q]] := by
    rw [← hp, ← hq]
    decide +kernel
  exact hne (hsecond.symm.trans (hsame ▸ hfirst))

end Esp
end CmTrace
