import CmTrace.Esp.Correlation
import CmTrace.Esp.Lineage

/-!
# Evidence before time

What an exact identifier is, where it is observed and which workloads have it are said here of
the observations, and the correlation is compared with that.  Time names a workload only where
no identifier says anything.
-/

namespace CmTrace
namespace Esp

open Text Collections

variable {Instant : Type} [LinearOrder Instant] {chrono : Chrono Instant}
  {workloads : List EspWorkload} {root : ProcessSamples} {lineage : List ProcessSamples}
  {deploymentLogs : List EspDeploymentLogObservation} {imeLogs : List EspImeObservation}

/-! ## What is observed -/

/-- The observation was made after the process started and before it was sampled last. -/
def During (chrono : Chrono Instant) (samples : ProcessSamples) (context : EspObservationContext) :
    Prop :=
  ∃ started observed latest, processStartTimestamp chrono samples = some started ∧
    contextTimestamp chrono context = some observed ∧
    latestProcessSampleTimestamp chrono samples = some latest ∧
    started ≤ observed ∧ observed ≤ latest

theorem observationWithinProcessWindow_iff {samples : ProcessSamples}
    {context : EspObservationContext} :
    observationWithinProcessWindow chrono samples context = true ↔
      During chrono samples context := by
  rw [observationWithinProcessWindow, During]
  cases processStartTimestamp chrono samples with
  | none => exact ⟨fun h => (by cases h), fun h => (by obtain ⟨_, _, _, h, -⟩ := h; cases h)⟩
  | some started =>
    cases contextTimestamp chrono context with
    | none => exact ⟨fun h => (by cases h), fun h => (by obtain ⟨_, _, _, -, h, -⟩ := h; cases h)⟩
    | some observed =>
      cases latestProcessSampleTimestamp chrono samples with
      | none =>
        exact ⟨fun h => (by cases h), fun h => (by obtain ⟨_, _, _, -, -, h, -⟩ := h; cases h)⟩
      | some latest =>
        rw [Option.bind_some, Option.bind_some, Option.map_some, Option.getD_some,
          decide_eq_true_eq]
        constructor
        · rintro ⟨hstarted, hlatest⟩
          exact ⟨started, observed, latest, rfl, rfl, rfl, hstarted, hlatest⟩
        · rintro ⟨_, _, _, ⟨⟩, ⟨⟩, ⟨⟩, hstarted, hlatest⟩
          exact ⟨hstarted, hlatest⟩

def NamesLog (process : EspProcessObservation) (path : Text) : Prop :=
  process.referencedLogPath.bind canonicalInstallerLogPath = some path ∨
    (process.sanitizedCommandLine.bind extractInstallerLogPath).bind canonicalInstallerLogPath =
      some path

/-- The identifiers that are observed of a process, of those it descends from, of the
deployments that write its log, and in the lines that name one of them while it runs. -/
inductive ExactIdentifier (chrono : Chrono Instant) (root : ProcessSamples)
    (lineage : List ProcessSamples) (deploymentLogs : List EspDeploymentLogObservation)
    (imeLogs : List EspImeObservation) : Text → Prop
  | appId {samples process value} : samples ∈ lineage → process ∈ samples →
      process.appId = some value →
      ExactIdentifier chrono root lineage deploymentLogs imeLogs value
  | productCode {samples process value} : samples ∈ lineage → process ∈ samples →
      process.productCode = some value →
      ExactIdentifier chrono root lineage deploymentLogs imeLogs value
  | logPath {deployment process path value} : deployment ∈ deploymentLogs →
      deployment.logPath.bind canonicalInstallerLogPath = some path →
      process ∈ root → NamesLog process path → During chrono root deployment.context →
      deployment.productCode = some value →
      ExactIdentifier chrono root lineage deploymentLogs imeLogs value
  | imeLine {ime samples pid value} : ime ∈ imeLogs → samples ∈ lineage →
      processPid samples = some pid → messageMentionsPid ime.message pid = true →
      During chrono samples ime.context → ime.appId = some value →
      ExactIdentifier chrono root lineage deploymentLogs imeLogs value

/-- An identifier that is observed and says something. -/
def Observed (chrono : Chrono Instant) (root : ProcessSamples) (lineage : List ProcessSamples)
    (deploymentLogs : List EspDeploymentLogObservation) (imeLogs : List EspImeObservation)
    (value : Text) : Prop :=
  normalizedIdentifiers value ≠ [] ∧
    ExactIdentifier chrono root lineage deploymentLogs imeLogs value

/-- The workloads of installers that have the identifier. -/
def matched (workloads : List EspWorkload) (value : Text) : Set Text :=
  {id | ∃ workload ∈ workloads, isInstallerWorkload workload = true ∧ workload.workloadId = id ∧
    ∃ form ∈ normalizedIdentifiers value, form ∈ normalizedIdentifiers workload.rawIdentifier}

/-! ## Signals -/

theorem isDisjoint_eq_false {left right : List Text} :
    isDisjoint left right = false ↔ ∃ value ∈ left, value ∈ right := by
  rw [isDisjoint, Bool.not_eq_false', List.any_eq_true]
  simp only [List.contains_iff_mem]

theorem mem_candidates_identifierSignal {name value : Text} {signal : Signal}
    (h : identifierSignal (workloadIdentifiers workloads) name value = some signal) (id : Text) :
    id ∈ signal.candidates ↔ id ∈ matched workloads value := by
  rw [identifierSignal] at h
  split_ifs at h
  cases h
  rw [mem_sortedDistinct]
  constructor
  · intro hid
    obtain ⟨entry, hentry, rfl⟩ := List.mem_map.mp hid
    obtain ⟨htracked, hshares⟩ := List.mem_filter.mp hentry
    obtain ⟨workload, hworkload, rfl⟩ := List.mem_map.mp htracked
    obtain ⟨hin, hinstaller⟩ := List.mem_filter.mp hworkload
    exact ⟨workload, hin, hinstaller, rfl,
      isDisjoint_eq_false.mp ((Bool.not_eq_true' _).mp hshares)⟩
  · rintro ⟨workload, hin, hinstaller, rfl, hshares⟩
    refine List.mem_map.mpr ⟨(workload.workloadId, normalizedIdentifiers workload.rawIdentifier),
      List.mem_filter.mpr ⟨List.mem_map.mpr ⟨workload, List.mem_filter.mpr ⟨hin, hinstaller⟩, rfl⟩,
        (Bool.not_eq_true' _).mpr (isDisjoint_eq_false.mpr hshares)⟩, rfl⟩

theorem identifierSignal_isSome (tracked : List (Text × List Text)) (name : Text) {value : Text}
    (h : normalizedIdentifiers value ≠ []) : ∃ signal, identifierSignal tracked name value =
      some signal := by
  rw [identifierSignal]
  rw [if_neg h]
  exact ⟨_, rfl⟩

theorem normalizedIdentifiers_of_signal {tracked : List (Text × List Text)} {name value : Text}
    {signal : Signal} (h : identifierSignal tracked name value = some signal) :
    normalizedIdentifiers value ≠ [] := by
  intro hnone
  rw [identifierSignal] at h
  rw [if_pos hnone] at h
  cases h

theorem mem_sampleSignals {tracked : List (Text × List Text)} {appName productName : Text}
    {samples : ProcessSamples} {signal : Signal} :
    signal ∈ sampleSignals tracked appName productName samples ↔ ∃ process ∈ samples,
      (∃ value, process.appId = some value ∧
        identifierSignal tracked appName value = some signal) ∨
      ∃ value, process.productCode = some value ∧
        identifierSignal tracked productName value = some signal := by
  rw [sampleSignals, List.mem_flatMap]
  simp only [List.mem_append, Option.mem_toList, Option.bind_eq_some_iff]

theorem exists_sampleSignals (tracked : List (Text × List Text)) {samples : ProcessSamples}
    (h : samples ∈ lineage) : ∃ appName productName,
      ∀ signal ∈ sampleSignals tracked appName productName samples,
        signal ∈ lineageSignals tracked lineage := by
  cases lineage with
  | nil => cases h
  | cons first parents =>
    rcases List.mem_cons.mp h with rfl | h
    · exact ⟨_, _, fun signal hs => List.mem_append_left _ hs⟩
    · exact ⟨_, _, fun signal hs =>
        List.mem_append_right _ (List.mem_flatMap.mpr ⟨samples, h, hs⟩)⟩

theorem mem_processLogPaths {path : Text} :
    path ∈ processLogPaths root ↔ ∃ process ∈ root, NamesLog process path := by
  rw [processLogPaths, List.mem_flatMap]
  simp only [List.mem_append, Option.mem_toList, NamesLog]

theorem mem_matchedDeployments {deployment : EspDeploymentLogObservation} :
    deployment ∈ matchedDeployments chrono root deploymentLogs ↔ deployment ∈ deploymentLogs ∧
      (∃ process path, process ∈ root ∧ NamesLog process path ∧
        deployment.logPath.bind canonicalInstallerLogPath = some path) ∧
      During chrono root deployment.context := by
  rw [matchedDeployments, List.mem_filter, Bool.and_eq_true, observationWithinProcessWindow_iff,
    Option.any_eq_true]
  refine and_congr_right fun _ => and_congr_left fun _ => ?_
  constructor
  · rintro ⟨path, hpath, hnamed⟩
    obtain ⟨process, hp, hlog⟩ := mem_processLogPaths.mp (List.contains_iff_mem.mp hnamed)
    exact ⟨process, path, hp, hlog, hpath⟩
  · rintro ⟨process, path, hp, hlog, hpath⟩
    exact ⟨path, hpath, List.contains_iff_mem.mpr (mem_processLogPaths.mpr ⟨process, hp, hlog⟩)⟩

theorem mem_matchedIme {ime : EspImeObservation} :
    ime ∈ matchedIme chrono lineage imeLogs ↔ ime ∈ imeLogs ∧
      (∃ value, ime.appId = some value ∧ normalizedIdentifiers value ≠ []) ∧
      ∃ samples ∈ lineage, (∃ pid, processPid samples = some pid ∧
        messageMentionsPid ime.message pid = true) ∧ During chrono samples ime.context := by
  rw [matchedIme, List.mem_filter, Bool.and_eq_true, Option.any_eq_true, List.any_eq_true]
  simp only [hasNormalizedIdentifier, Bool.not_eq_true', List.isEmpty_eq_false_iff,
    Bool.and_eq_true, Option.any_eq_true, observationWithinProcessWindow_iff]

theorem exactIdentifier_of_mem {tracked : List (Text × List Text)} {signal : Signal}
    (h : signal ∈ allSignals chrono tracked root lineage deploymentLogs imeLogs) :
    ∃ value name, ExactIdentifier chrono root lineage deploymentLogs imeLogs value ∧
      identifierSignal tracked name value = some signal := by
  have hsamples : ∀ {appName productName samples}, samples ∈ lineage →
      signal ∈ sampleSignals tracked appName productName samples →
        ∃ value name, ExactIdentifier chrono root lineage deploymentLogs imeLogs value ∧
          identifierSignal tracked name value = some signal := by
    intro appName productName samples hin hsignal
    obtain ⟨process, hp, ⟨value, hvalue, hmade⟩ | ⟨value, hvalue, hmade⟩⟩ :=
      mem_sampleSignals.mp hsignal
    · exact ⟨value, appName, .appId hin hp hvalue, hmade⟩
    · exact ⟨value, productName, .productCode hin hp hvalue, hmade⟩
  rw [allSignals, List.mem_append, List.mem_append] at h
  rcases h with (h | h) | h
  · cases lineage with
    | nil => cases h
    | cons first parents =>
      rw [lineageSignals, List.mem_append, List.mem_flatMap] at h
      rcases h with h | ⟨samples, hin, h⟩
      · exact hsamples (List.mem_cons_self ..) h
      · exact hsamples (List.mem_cons_of_mem _ hin) h
  · obtain ⟨deployment, hdeployment, h⟩ := List.mem_filterMap.mp h
    obtain ⟨value, hvalue, hmade⟩ := Option.bind_eq_some_iff.mp h
    obtain ⟨hin, ⟨process, path, hp, hlog, hpath⟩, hduring⟩ := mem_matchedDeployments.mp hdeployment
    exact ⟨value, _, .logPath hin hpath hp hlog hduring hvalue, hmade⟩
  · obtain ⟨ime, hime, h⟩ := List.mem_filterMap.mp h
    obtain ⟨value, hvalue, hmade⟩ := Option.bind_eq_some_iff.mp h
    obtain ⟨hin, -, samples, hs, ⟨pid, hpid, hnamed⟩, hduring⟩ := mem_matchedIme.mp hime
    exact ⟨value, _, .imeLine hin hs hpid hnamed hduring hvalue, hmade⟩

theorem exists_signal_of_observed {value : Text}
    (h : Observed chrono root lineage deploymentLogs imeLogs value) :
    ∃ name signal, identifierSignal (workloadIdentifiers workloads) name value = some signal ∧
      signal ∈ allSignals chrono (workloadIdentifiers workloads) root lineage deploymentLogs
        imeLogs := by
  obtain ⟨hwritten, hexact⟩ := h
  have hmade := fun name => identifierSignal_isSome (workloadIdentifiers workloads) name hwritten
  cases hexact with
  | @appId samples process _ hin hp hvalue =>
    obtain ⟨appName, productName, hsignals⟩ :=
      exists_sampleSignals (workloadIdentifiers workloads) hin
    obtain ⟨signal, hsignal⟩ := hmade appName
    refine ⟨appName, signal, hsignal, List.mem_append_left _ (List.mem_append_left _
      (hsignals signal ?_))⟩
    exact mem_sampleSignals.mpr ⟨process, hp, .inl ⟨value, hvalue, hsignal⟩⟩
  | @productCode samples process _ hin hp hvalue =>
    obtain ⟨appName, productName, hsignals⟩ :=
      exists_sampleSignals (workloadIdentifiers workloads) hin
    obtain ⟨signal, hsignal⟩ := hmade productName
    refine ⟨productName, signal, hsignal, List.mem_append_left _ (List.mem_append_left _
      (hsignals signal ?_))⟩
    exact mem_sampleSignals.mpr ⟨process, hp, .inr ⟨value, hvalue, hsignal⟩⟩
  | @logPath deployment process path _ hin hpath hp hlog hduring hvalue =>
    obtain ⟨signal, hsignal⟩ := hmade "canonicalLogPath".toList
    refine ⟨_, signal, hsignal, List.mem_append_left _ (List.mem_append_right _
      (List.mem_filterMap.mpr ⟨deployment, ?_, Option.bind_eq_some_iff.mpr
        ⟨value, hvalue, hsignal⟩⟩))⟩
    exact mem_matchedDeployments.mpr ⟨hin, ⟨process, path, hp, hlog, hpath⟩, hduring⟩
  | @imeLine ime samples pid _ hin hs hpid hnamed hduring hvalue =>
    obtain ⟨signal, hsignal⟩ := hmade "imeProcessAppId".toList
    refine ⟨_, signal, hsignal, List.mem_append_right _ (List.mem_filterMap.mpr
      ⟨ime, ?_, Option.bind_eq_some_iff.mpr ⟨value, hvalue, hsignal⟩⟩)⟩
    exact mem_matchedIme.mpr ⟨hin, ⟨value, hvalue, hwritten⟩, samples, hs, ⟨pid, hpid, hnamed⟩,
      hduring⟩

/-! ## Samples that contradict each other -/

/-- Both samples say something and they say two things. -/
def Differ {A : Type} (form : EspProcessObservation → Option A) (p q : EspProcessObservation) :
    Prop :=
  ∃ a b, form p = some a ∧ form q = some b ∧ a ≠ b

/-- Both samples hold an identifier and the identifiers have no form in common. -/
def DifferInIdentifier (value : EspProcessObservation → Option Text)
    (p q : EspProcessObservation) : Prop :=
  ∃ a b, value p = some a ∧ value q = some b ∧ normalizedIdentifiers a ≠ [] ∧
    normalizedIdentifiers b ≠ [] ∧ ∀ form ∈ normalizedIdentifiers a, form ∉ normalizedIdentifiers b

inductive Contradicts (p q : EspProcessObservation) : Prop
  | executableName : Differ executableForm p q → Contradicts p q
  | commandLine :
      Differ (fun process => process.sanitizedCommandLine.bind commandForm) p q → Contradicts p q
  | logPath : Differ (fun process => process.referencedLogPath.bind canonicalInstallerLogPath) p q →
      Contradicts p q
  | appId : DifferInIdentifier EspProcessObservation.appId p q → Contradicts p q
  | productCode : DifferInIdentifier EspProcessObservation.productCode p q → Contradicts p q
  | parentPid : Differ EspProcessObservation.parentPid p q → Contradicts p q

theorem severalValues_iff {A : Type} [DecidableEq A] {form : EspProcessObservation → Option A}
    {samples : ProcessSamples} :
    severalValues (samples.filterMap form) = true ↔
      ∃ p ∈ samples, ∃ q ∈ samples, Differ form p q := by
  simp only [severalValues, List.any_eq_true, List.mem_filterMap, decide_eq_true_eq, ne_eq]
  constructor
  · rintro ⟨a, ⟨p, hp, ha⟩, b, ⟨q, hq, hb⟩, hne⟩
    exact ⟨p, hp, q, hq, a, b, ha, hb, hne⟩
  · rintro ⟨p, hp, q, hq, a, b, ha, hb, hne⟩
    exact ⟨a, ⟨p, hp, ha⟩, b, ⟨q, hq, hb⟩, hne⟩

theorem isDisjoint_eq_true {left right : List Text} :
    isDisjoint left right = true ↔ ∀ value ∈ left, value ∉ right := by
  rw [← Bool.not_eq_false, isDisjoint_eq_false]
  simp only [not_exists, not_and]

theorem identifierSetsConflict_iff {value : EspProcessObservation → Option Text}
    {samples : ProcessSamples} :
    identifierSetsConflict (fieldIdentifiers value samples) = true ↔
      ∃ p ∈ samples, ∃ q ∈ samples, DifferInIdentifier value p q := by
  have hmem : ∀ forms, forms ∈ fieldIdentifiers value samples ↔ ∃ p ∈ samples, ∃ a,
      value p = some a ∧ normalizedIdentifiers a = forms ∧ forms ≠ [] := by
    intro forms
    simp only [fieldIdentifiers, List.mem_filter, List.mem_map, List.mem_filterMap,
      Bool.not_eq_true', List.isEmpty_eq_false_iff]
    constructor
    · rintro ⟨⟨a, ⟨p, hp, ha⟩, hforms⟩, hne⟩
      exact ⟨p, hp, a, ha, hforms, hne⟩
    · rintro ⟨p, hp, a, ha, hforms, hne⟩
      exact ⟨⟨a, ⟨p, hp, ha⟩, hforms⟩, hne⟩
  simp only [identifierSetsConflict, List.any_eq_true, hmem, isDisjoint_eq_true]
  constructor
  · rintro ⟨_, ⟨p, hp, a, ha, rfl, hne⟩, _, ⟨q, hq, b, hb, rfl, hne'⟩, hdisjoint⟩
    exact ⟨p, hp, q, hq, a, b, ha, hb, hne, hne', hdisjoint⟩
  · rintro ⟨p, hp, q, hq, a, b, ha, hb, hne, hne', hdisjoint⟩
    exact ⟨_, ⟨p, hp, a, ha, rfl, hne⟩, _, ⟨q, hq, b, hb, rfl, hne'⟩, hdisjoint⟩

theorem processSamplesConflict_iff {samples : ProcessSamples} :
    processSamplesConflict samples = true ↔ ∃ p ∈ samples, ∃ q ∈ samples, Contradicts p q := by
  rw [processSamplesConflict]
  simp only [Bool.or_eq_true, severalValues_iff, identifierSetsConflict_iff]
  constructor
  · rintro (((((h | h) | h) | h) | h) | h) <;> obtain ⟨p, hp, q, hq, h⟩ := h
    · exact ⟨p, hp, q, hq, .executableName h⟩
    · exact ⟨p, hp, q, hq, .commandLine h⟩
    · exact ⟨p, hp, q, hq, .logPath h⟩
    · exact ⟨p, hp, q, hq, .appId h⟩
    · exact ⟨p, hp, q, hq, .productCode h⟩
    · exact ⟨p, hp, q, hq, .parentPid h⟩
  · rintro ⟨p, hp, q, hq, h⟩
    cases h with
    | executableName h => exact .inl (.inl (.inl (.inl (.inl ⟨p, hp, q, hq, h⟩))))
    | commandLine h => exact .inl (.inl (.inl (.inl (.inr ⟨p, hp, q, hq, h⟩))))
    | logPath h => exact .inl (.inl (.inl (.inr ⟨p, hp, q, hq, h⟩)))
    | appId h => exact .inl (.inl (.inr ⟨p, hp, q, hq, h⟩))
    | productCode h => exact .inl (.inr ⟨p, hp, q, hq, h⟩)
    | parentPid h => exact .inr ⟨p, hp, q, hq, h⟩

/-! ## The verdict -/

theorem eq_singleton_iff {A : Type} {xs : List A} (hnodup : xs.Nodup) {a : A} :
    xs = [a] ↔ ∀ x, x ∈ xs ↔ x = a := by
  constructor
  · rintro rfl x
    exact List.mem_singleton
  · intro h
    have hperm := (List.perm_ext_iff_of_nodup hnodup (List.nodup_singleton a)).mpr fun x => by
      rw [h, List.mem_singleton]
    exact hperm.eq_singleton

theorem nodup_exactCandidates (signals : List Signal) : (exactCandidates signals).Nodup :=
  nodup_sortedDistinct _

theorem mem_exactCandidates {signals : List Signal} {id : Text} :
    id ∈ exactCandidates signals ↔ ∃ signal ∈ signals, id ∈ signal.candidates := by
  rw [exactCandidates, mem_sortedDistinct, List.mem_flatMap]

theorem exactCandidates_nil : exactCandidates [] = [] := by
  refine List.eq_nil_iff_forall_not_mem.mpr fun id hid => ?_
  obtain ⟨signal, hsignal, -⟩ := mem_exactCandidates.mp hid
  cases hsignal

/-- What a verdict says of the signals and of the time. -/
inductive Decided (processConflict : Bool) (signals : List Signal) (temporal : List Text) :
    Verdict → Prop
  | exact {id reason candidates} : processConflict = false → signalConflict signals = false →
      exactCandidates signals = [id] → candidates = [id] →
      Decided processConflict signals temporal ⟨some id, .exact, reason, candidates⟩
  | temporal {id reason candidates} : processConflict = false → signals = [] → temporal = [id] →
      candidates = [id] →
      Decided processConflict signals temporal ⟨some id, .temporal, reason, candidates⟩
  | contradicted {reason} : processConflict = true ∨ signalConflict signals = true →
      Decided processConflict signals temporal
        ⟨none, .uncorrelated, reason, exactCandidates signals⟩
  | untracked {reason} : processConflict = false → signals ≠ [] →
      (∀ id, exactCandidates signals ≠ [id]) →
      Decided processConflict signals temporal
        ⟨none, .uncorrelated, reason, exactCandidates signals⟩
  | untimed {reason} : processConflict = false → signals = [] → (∀ id, temporal ≠ [id]) →
      Decided processConflict signals temporal ⟨none, .uncorrelated, reason, temporal⟩

theorem verdict_decided (processConflict : Bool) (signals : List Signal) (temporal : List Text) :
    Decided processConflict signals temporal (verdict processConflict signals temporal) := by
  rw [verdict]
  cases processConflict with
  | true => exact .contradicted (.inl rfl)
  | false =>
    rw [if_neg Bool.false_ne_true]
    cases hconflict : signalConflict signals with
    | true => exact .contradicted (.inr hconflict)
    | false =>
      rw [if_neg Bool.false_ne_true]
      cases hexact : exactCandidates signals with
      | nil =>
        dsimp only
        by_cases hnone : signals = []
        · rw [if_pos hnone]
          cases temporal with
          | nil => exact .untimed rfl hnone fun id h => by cases h
          | cons first others =>
            cases others with
            | nil => exact .temporal rfl hnone rfl rfl
            | cons second others => exact .untimed rfl hnone fun id h => by cases h
        · rw [if_neg hnone, ← hexact]
          exact .untracked rfl hnone fun id h => by
            rw [hexact] at h
            cases h
      | cons first others =>
        have hsome : signals ≠ [] := by
          rintro rfl
          rw [exactCandidates_nil] at hexact
          cases hexact
        cases others with
        | nil => exact .exact rfl hconflict hexact rfl
        | cons second others =>
          dsimp only
          rw [← hexact]
          exact .untracked rfl hsome fun id h => by
            rw [hexact] at h
            cases h

namespace Decided

variable {processConflict : Bool} {signals : List Signal} {temporal : List Text} {named : Verdict}

theorem exact_iff (h : Decided processConflict signals temporal named) (id : Text) :
    named.workloadId = some id ∧ named.confidence = .exact ↔
      processConflict = false ∧ signalConflict signals = false ∧
        exactCandidates signals = [id] := by
  cases h with
  | exact hconsistent hjoined hone _ =>
    rw [hone]
    simp [hconsistent, hjoined]
  | temporal _ hempty _ _ => simp [hempty, exactCandidates_nil]
  | contradicted hconflict => rcases hconflict with hconflict | hconflict <;> simp [hconflict]
  | untracked _ _ hmany => simp [hmany id]
  | untimed _ hempty _ => simp [hempty, exactCandidates_nil]

theorem temporal_iff (h : Decided processConflict signals temporal named) (id : Text) :
    named.workloadId = some id ∧ named.confidence = .temporal ↔
      processConflict = false ∧ signals = [] ∧ temporal = [id] := by
  cases h with
  | exact _ _ hone _ =>
    have hsome : signals ≠ [] := by
      rintro rfl
      rw [exactCandidates_nil] at hone
      cases hone
    simp [hsome]
  | temporal hconsistent hempty hone _ =>
    rw [hone]
    simp [hconsistent, hempty]
  | contradicted hconflict =>
    rcases hconflict with hconflict | hconflict
    · simp [hconflict]
    · have hsome : signals ≠ [] := by
        rintro rfl
        cases hconflict
      simp [hsome]
  | untracked _ hsome _ => simp [hsome]
  | untimed _ _ hmany => simp [hmany id]

theorem otherwise (h : Decided processConflict signals temporal named) :
    (∃ id, named.workloadId = some id ∧
        (named.confidence = .exact ∨ named.confidence = .temporal)) ∨
      named.workloadId = none ∧ named.confidence = .uncorrelated := by
  cases h with
  | exact => exact .inl ⟨_, rfl, .inl rfl⟩
  | temporal => exact .inl ⟨_, rfl, .inr rfl⟩
  | contradicted => exact .inr ⟨rfl, rfl⟩
  | untracked => exact .inr ⟨rfl, rfl⟩
  | untimed => exact .inr ⟨rfl, rfl⟩

theorem mem_candidates (h : Decided processConflict signals temporal named) (id : Text) :
    id ∈ named.candidates ↔ id ∈ exactCandidates signals ∨
      processConflict = false ∧ signals = [] ∧ id ∈ temporal := by
  have hsomeOf : ∀ {id : Text}, id ∈ exactCandidates signals → signals ≠ [] := by
    rintro id hid rfl
    rw [exactCandidates_nil] at hid
    cases hid
  cases h with
  | exact _ _ hone hlist =>
    have hsome : signals ≠ [] := hsomeOf (hone ▸ List.mem_cons_self ..)
    simp [hlist, hone, hsome]
  | temporal hconsistent hempty hone hlist =>
    simp [hlist, hone, hconsistent, hempty, exactCandidates_nil]
  | contradicted hconflict =>
    rcases hconflict with hconflict | hconflict
    · simp [hconflict]
    · have hsome : signals ≠ [] := by
        rintro rfl
        cases hconflict
      simp [hsome]
  | untracked _ hsome _ => simp [hsome]
  | untimed hconsistent hempty _ => simp [hconsistent, hempty, exactCandidates_nil]

end Decided

/-! ## The correlation -/

/-- No two samples of a process contradict each other. -/
def Consistent (lineage : List ProcessSamples) : Prop :=
  ∀ samples ∈ lineage, ∀ p ∈ samples, ∀ q ∈ samples, ¬ Contradicts p q

/-- The workloads that an observed identifier names. -/
def ExactMatches (chrono : Chrono Instant) (workloads : List EspWorkload) (root : ProcessSamples)
    (lineage : List ProcessSamples) (deploymentLogs : List EspDeploymentLogObservation)
    (imeLogs : List EspImeObservation) : Set Text :=
  {id | ∃ value, Observed chrono root lineage deploymentLogs imeLogs value ∧
    id ∈ matched workloads value}

/-- The workloads of installers under way at an instant. -/
def UnderWay (chrono : Chrono Instant) (workloads : List EspWorkload) (started : Instant) :
    Set Text :=
  {id | ∃ workload ∈ workloads, isInstallerWorkload workload = true ∧ workload.workloadId = id ∧
    workloadContainsProcess chrono workload started = true}

/-- The correlation follows the evidence, and time where there is none. -/
structure EvidenceFirst (chrono : Chrono Instant) (workloads : List EspWorkload)
    (deploymentLogs : List EspDeploymentLogObservation) (imeLogs : List EspImeObservation)
    (started : Instant) (root : ProcessSamples) (lineage : List ProcessSamples)
    (c : EspInstallerCorrelation) : Prop where
  exact : ∀ id, c.workloadId = some id ∧ c.confidence = .exact ↔ Consistent lineage ∧
    (∀ v w, Observed chrono root lineage deploymentLogs imeLogs v →
      Observed chrono root lineage deploymentLogs imeLogs w → (matched workloads v).Nonempty →
      (matched workloads w).Nonempty → (matched workloads v ∩ matched workloads w).Nonempty) ∧
    ExactMatches chrono workloads root lineage deploymentLogs imeLogs = {id}
  temporal : ∀ id, c.workloadId = some id ∧ c.confidence = .temporal ↔ Consistent lineage ∧
    (∀ v, ¬ Observed chrono root lineage deploymentLogs imeLogs v) ∧
    UnderWay chrono workloads started = {id}
  otherwise : (∃ id, c.workloadId = some id ∧ (c.confidence = .exact ∨ c.confidence = .temporal)) ∨
    c.workloadId = none ∧ c.confidence = .uncorrelated
  candidates : ∀ id, id ∈ c.candidateWorkloadIds ↔
    id ∈ ExactMatches chrono workloads root lineage deploymentLogs imeLogs ∨
      Consistent lineage ∧ (∀ v, ¬ Observed chrono root lineage deploymentLogs imeLogs v) ∧
        id ∈ UnderWay chrono workloads started

theorem consistent_iff : Consistent lineage ↔ lineage.any processSamplesConflict = false := by
  rw [Bool.eq_false_iff, ne_eq, List.any_eq_true]
  simp only [processSamplesConflict_iff, Consistent, not_exists, not_and]

theorem mem_signals_iff {id : Text} :
    id ∈ exactCandidates (allSignals chrono (workloadIdentifiers workloads) root lineage
        deploymentLogs imeLogs) ↔
      id ∈ ExactMatches chrono workloads root lineage deploymentLogs imeLogs := by
  rw [mem_exactCandidates]
  constructor
  · rintro ⟨signal, hsignal, hid⟩
    obtain ⟨value, name, hexact, hmade⟩ := exactIdentifier_of_mem hsignal
    exact ⟨value, ⟨normalizedIdentifiers_of_signal hmade, hexact⟩,
      (mem_candidates_identifierSignal hmade id).mp hid⟩
  · rintro ⟨value, hobserved, hid⟩
    obtain ⟨name, signal, hmade, hsignal⟩ := exists_signal_of_observed hobserved
    exact ⟨signal, hsignal, (mem_candidates_identifierSignal hmade id).mpr hid⟩

theorem signals_eq_nil_iff :
    allSignals chrono (workloadIdentifiers workloads) root lineage deploymentLogs imeLogs = [] ↔
      ∀ v, ¬ Observed chrono root lineage deploymentLogs imeLogs v := by
  constructor
  · intro hnone v hobserved
    obtain ⟨name, signal, -, hsignal⟩ := @exists_signal_of_observed _ _ _ workloads _ _ _ _ _
      hobserved
    rw [hnone] at hsignal
    cases hsignal
  · intro hnone
    refine List.eq_nil_iff_forall_not_mem.mpr fun signal hsignal => ?_
    obtain ⟨value, name, hexact, hmade⟩ := exactIdentifier_of_mem hsignal
    exact hnone value ⟨normalizedIdentifiers_of_signal hmade, hexact⟩

theorem signalConflict_iff :
    signalConflict (allSignals chrono (workloadIdentifiers workloads) root lineage deploymentLogs
        imeLogs) = false ↔
      ∀ v w, Observed chrono root lineage deploymentLogs imeLogs v →
        Observed chrono root lineage deploymentLogs imeLogs w → (matched workloads v).Nonempty →
        (matched workloads w).Nonempty → (matched workloads v ∩ matched workloads w).Nonempty := by
  rw [signalConflict, List.any_eq_false]
  simp only [Bool.not_eq_true, List.any_eq_false, isDisjoint_eq_false, List.mem_filter,
    List.mem_map, Bool.not_eq_true', List.isEmpty_eq_false_iff]
  constructor
  · intro hjoined v w hv hw ⟨i, hi⟩ ⟨j, hj⟩
    obtain ⟨_, left, hleft, hinLeft⟩ := exists_signal_of_observed hv
    obtain ⟨_, right, hright, hinRight⟩ := exists_signal_of_observed hw
    have hi' := (mem_candidates_identifierSignal hleft i).mpr hi
    have hj' := (mem_candidates_identifierSignal hright j).mpr hj
    obtain ⟨id, hl, hr⟩ := hjoined _ ⟨⟨left, hinLeft, rfl⟩, List.ne_nil_of_mem hi'⟩ _
      ⟨⟨right, hinRight, rfl⟩, List.ne_nil_of_mem hj'⟩
    exact ⟨id, (mem_candidates_identifierSignal hleft id).mp hl,
      (mem_candidates_identifierSignal hright id).mp hr⟩
  · rintro hjoined _ ⟨⟨left, hinLeft, rfl⟩, hleftSome⟩ _ ⟨⟨right, hinRight, rfl⟩, hrightSome⟩
    obtain ⟨v, _, hv, hleft⟩ := exactIdentifier_of_mem hinLeft
    obtain ⟨w, _, hw, hright⟩ := exactIdentifier_of_mem hinRight
    obtain ⟨i, hi⟩ := List.exists_mem_of_ne_nil _ hleftSome
    obtain ⟨j, hj⟩ := List.exists_mem_of_ne_nil _ hrightSome
    obtain ⟨id, hl, hr⟩ := hjoined v w ⟨normalizedIdentifiers_of_signal hleft, hv⟩
      ⟨normalizedIdentifiers_of_signal hright, hw⟩
      ⟨i, (mem_candidates_identifierSignal hleft i).mp hi⟩
      ⟨j, (mem_candidates_identifierSignal hright j).mp hj⟩
    exact ⟨id, (mem_candidates_identifierSignal hleft id).mpr hl,
      (mem_candidates_identifierSignal hright id).mpr hr⟩

theorem mem_temporalCandidates {started : Instant}
    (hstarted : processStartTimestamp chrono root = some started) {id : Text} :
    id ∈ temporalCandidates chrono workloads root ↔ id ∈ UnderWay chrono workloads started := by
  rw [temporalCandidates, mem_sortedDistinct, hstarted, Option.map_some, Option.getD_some,
    List.mem_map]
  constructor
  · rintro ⟨workload, hworkload, rfl⟩
    obtain ⟨htracked, hwithin⟩ := List.mem_filter.mp hworkload
    obtain ⟨hin, hinstaller⟩ := List.mem_filter.mp htracked
    exact ⟨workload, hin, hinstaller, rfl, hwithin⟩
  · rintro ⟨workload, hin, hinstaller, rfl, hwithin⟩
    exact ⟨workload, List.mem_filter.mpr ⟨List.mem_filter.mpr ⟨hin, hinstaller⟩, hwithin⟩, rfl⟩

theorem set_eq_singleton_iff {xs : List Text} (hnodup : xs.Nodup) {s : Set Text}
    (hmem : ∀ id, id ∈ xs ↔ id ∈ s) {id : Text} : xs = [id] ↔ s = {id} := by
  rw [eq_singleton_iff hnodup, Set.ext_iff]
  simp only [hmem, Set.mem_singleton_iff]

theorem correlateOne_evidenceFirst (groups : ProcessGroups Instant) {started : Instant}
    (hstarted : processStartTimestamp chrono root = some started) :
    EvidenceFirst chrono workloads deploymentLogs imeLogs started root
      (processLineage chrono groups root)
      (correlateOne chrono workloads groups deploymentLogs imeLogs root) := by
  generalize hlineage : processLineage chrono groups root = lineage
  generalize hc : correlateOne chrono workloads groups deploymentLogs imeLogs root = c
  have hdecided := verdict_decided (lineage.any processSamplesConflict)
    (allSignals chrono (workloadIdentifiers workloads) root lineage deploymentLogs imeLogs)
    (temporalCandidates chrono workloads root)
  have hexact := fun id => @set_eq_singleton_iff _
    (nodup_exactCandidates (allSignals chrono (workloadIdentifiers workloads) root lineage
      deploymentLogs imeLogs)) _ (fun _ => mem_signals_iff) id
  have htemporal := fun id => @set_eq_singleton_iff _
    (nodup_sortedDistinct _ : (temporalCandidates chrono workloads root).Nodup) _
      (fun _ => mem_temporalCandidates hstarted) id
  rw [← hc, correlateOne, hlineage]
  refine ⟨fun id => ?_, fun id => ?_, hdecided.otherwise, fun id => ?_⟩
  · exact (hdecided.exact_iff id).trans (and_congr consistent_iff.symm
      (and_congr signalConflict_iff (hexact id)))
  · exact (hdecided.temporal_iff id).trans (and_congr consistent_iff.symm
      (and_congr signals_eq_nil_iff (htemporal id)))
  · exact (hdecided.mem_candidates id).trans (or_congr mem_signals_iff (and_congr
      consistent_iff.symm (and_congr signals_eq_nil_iff (mem_temporalCandidates hstarted))))

/-- The correlation is of the process with this identity, and follows its evidence. -/
structure CorrelatedBy (chrono : Chrono Instant) (workloads : List EspWorkload)
    (processes : ProcessSamples) (deploymentLogs : List EspDeploymentLogObservation)
    (imeLogs : List EspImeObservation) (identity : ProcessIdentity Instant)
    (c : EspInstallerCorrelation) : Prop where
  correlationId : c.correlationId = "installer|".toList ++ decimal identity.1 ++ '|' ::
    escapeComponent (chrono.toRfc3339 identity.2)
  evidence : ∃ root lineage,
    root.Perm (processes.filter fun process => sampledIdentity chrono process = some identity) ∧
    lineage.head? = some root ∧
    Descends chrono processes [identity] maxParentChainDepth lineage ∧
    EvidenceFirst chrono workloads deploymentLogs imeLogs identity.2 root lineage c

variable {processes : ProcessSamples}

theorem correlationId_eq {identity : ProcessIdentity Instant} {samples : ProcessSamples}
    (h : SamplesOf chrono processes identity samples) :
    ((preferredProcess chrono samples).map (correlationId chrono)).getD [] =
      "installer|".toList ++ decimal identity.1 ++ '|' ::
        escapeComponent (chrono.toRfc3339 identity.2) := by
  rw [preferredProcess]
  cases hbest : maxBy (preferenceOrder chrono) samples with
  | none => exact absurd (maxBy_eq_none_iff.mp hbest) h.nonempty
  | some process =>
    have hsampled := (h.sampled process (mem_of_maxBy hbest)).2
    rw [Option.map_some, Option.getD_some, correlationId, processIdentityKey_of_sampled hsampled]
    rfl

theorem correlateOne_correlatedBy {group : ProcessIdentity Instant × ProcessSamples}
    (h : group ∈ groupProcessObservations chrono processes) :
    CorrelatedBy chrono workloads processes deploymentLogs imeLogs group.1
      (correlateOne chrono workloads (groupProcessObservations chrono processes) deploymentLogs
        imeLogs group.2) := by
  have hsamples := samplesOf_of_mem h
  obtain ⟨hdescends, hhead⟩ := processLineage_descends h
  refine ⟨correlationId_eq hsamples, group.2, _, ?_, hhead, hdescends,
    correlateOne_evidenceFirst _ hsamples.started_eq⟩
  rw [groupProcessObservations_eq] at h
  obtain ⟨identity, -, rfl⟩ := List.mem_map.mp h
  exact sortBy_perm _ _

def seconds : Chrono Int where
  parseRfc3339 := fun s =>
    if "2026-01-01T00:00:".toList.isPrefixOf s ∧ s.length = 20 ∧ s.getLast? = some 'Z' then
      (parseUnsigned 10 59 ((s.drop 17).take 2)).map Int.ofNat
    else none
  toRfc3339 := fun n => "2026-01-01T00:00:".toList ++ Time.padded 2 n.toNat ++ ['Z']
  ofLocal := fun _ _ _ _ _ _ => none
  subMinutes := fun minutes n => some (n - 60 * minutes)
  addMinutes := fun minutes n => some (n + 60 * minutes)

/-- A process that starts at second ten and is sampled at second twenty. -/
def installerSample (artifact evidenceId executableName : Text) : EspProcessObservation where
  context :=
    { evidenceRef := ⟨evidenceId, artifact⟩, provenance := { sourceArtifactId := "live".toList },
      observedAtUtc := "2026-01-01T00:00:20Z".toList }
  pid := 7
  processStartTime := { rawText := "2026-01-01T00:00:10Z".toList, kind := .utc }
  executableName := executableName

def observedWorkload : EspWorkload where
  workloadId := "app".toList
  kind := .win32App
  rawIdentifier := "app".toList
  timestamps :=
    { firstObserved := { rawText := "2026-01-01T00:00:05Z".toList, kind := .utc } }

end Esp
end CmTrace
