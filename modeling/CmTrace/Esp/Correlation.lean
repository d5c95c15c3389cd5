import CmTrace.Esp.Processes

/-!
# Correlation of installers

A process that installs something is given the workload its evidence names.  Identifiers and log
paths come before time, evidence that names several workloads names none, and samples that
contradict each other say nothing.
-/

namespace CmTrace
namespace Esp

open Text Collections

inductive EspTrackedKind where
  | msi
  | office
  | modernApp
  | win32App
  | policy
  | scepCertificate
  | platformScript
  | devicePreparationWorkload
  deriving DecidableEq, Repr

structure EspWorkloadTimestamps where
  firstObserved : EspTimestamp
  started : Option EspTimestamp := none
  ended : Option EspTimestamp := none
  lastUpdated : Option EspTimestamp := none
  deriving DecidableEq, Repr

structure EspWorkload where
  workloadId : Text
  kind : EspTrackedKind
  rawIdentifier : Text
  timestamps : EspWorkloadTimestamps
  evidence : List EspEvidenceRef := []
  deriving DecidableEq, Repr

structure EspDeploymentLogObservation where
  context : EspObservationContext
  productCode : Option Text := none
  logPath : Option Text := none
  deriving DecidableEq, Repr

structure EspImeObservation where
  context : EspObservationContext
  message : Text
  appId : Option Text := none
  deriving DecidableEq, Repr

inductive EspCorrelationConfidence where
  | exact
  | strong
  | temporal
  | uncorrelated
  deriving DecidableEq, Repr

structure EspInstallerCorrelation where
  correlationId : Text
  workloadId : Option Text
  confidence : EspCorrelationConfidence
  reason : Text
  candidateWorkloadIds : List Text
  processObservations : List EspProcessObservation
  evidence : List EspEvidenceRef
  deriving DecidableEq, Repr

def isInstallerRoot (process : EspProcessObservation) : Bool :=
  let executable := normalizedExecutableName process.executableName
  if executable == "intunemanagementextension".toList || executable == "agentexecutor".toList then
    false
  else
    executable == "msiexec".toList || executable == "winget".toList ||
      process.productCode.any hasNormalizedIdentifier ||
      ((process.referencedLogPath.bind canonicalInstallerLogPath).isSome ||
        (process.sanitizedCommandLine.bind extractInstallerLogPath).isSome)

def isInstallerWorkload (workload : EspWorkload) : Bool :=
  match workload.kind with
  | .msi | .office | .modernApp | .win32App | .devicePreparationWorkload => true
  | .policy | .scepCertificate | .platformScript                        => false

/-! ## Samples that contradict each other -/

def severalValues {A : Type} [DecidableEq A] (values : List A) : Bool :=
  values.any fun left => values.any fun right => left ≠ right

/-- The arguments of a command line, or the line itself where they are not certain. -/
def commandForm (commandLine : Text) : Option (List Text) :=
  match canonicalCommandArguments commandLine with
  | some []        => none
  | some arguments => some arguments
  | none           => some [commandLine]

def executableForm (process : EspProcessObservation) : Option Text :=
  let normalized := normalizedExecutableName process.executableName
  if normalized = [] then none else some normalized

def isDisjoint (left right : List Text) : Bool := !left.any fun value => right.contains value

def identifierSetsConflict (identifiers : List (List Text)) : Bool :=
  identifiers.any fun left => identifiers.any fun right => isDisjoint left right

/-- The identifiers that are written in a field of the samples. -/
def fieldIdentifiers (value : EspProcessObservation → Option Text) (samples : ProcessSamples) :
    List (List Text) :=
  ((samples.filterMap value).map normalizedIdentifiers).filter fun values => !values.isEmpty

def processSamplesConflict (samples : ProcessSamples) : Bool :=
  severalValues (samples.filterMap executableForm) ||
    severalValues (samples.filterMap fun process =>
      process.sanitizedCommandLine.bind commandForm) ||
    severalValues (samples.filterMap fun process =>
      process.referencedLogPath.bind canonicalInstallerLogPath) ||
    identifierSetsConflict (fieldIdentifiers EspProcessObservation.appId samples) ||
    identifierSetsConflict (fieldIdentifiers EspProcessObservation.productCode samples) ||
    severalValues (samples.filterMap EspProcessObservation.parentPid)

/-! ## Signals -/

/-- What an identifier says: the workloads that have it. -/
structure Signal where
  name : Text
  candidates : List Text
  deriving DecidableEq, Repr

/-- The workloads of installers with the forms of their identifiers. -/
def workloadIdentifiers (workloads : List EspWorkload) : List (Text × List Text) :=
  (workloads.filter isInstallerWorkload).map fun workload =>
    (workload.workloadId, normalizedIdentifiers workload.rawIdentifier)

/-- The signal of an identifier, where something is written. -/
def identifierSignal (tracked : List (Text × List Text)) (name : Text) (value : Text) :
    Option Signal :=
  let identifiers := normalizedIdentifiers value
  if identifiers = [] then none
  else some {
    name := name
    candidates := sortedDistinct compare
      ((tracked.filter fun workload => !isDisjoint identifiers workload.2).map Prod.fst) }

section Signals

variable (tracked : List (Text × List Text))

/-- The signals of the samples of a process, or of one it descends from. -/
def sampleSignals (appName productName : Text) (samples : ProcessSamples) : List Signal :=
  samples.flatMap fun process =>
    (process.appId.bind (identifierSignal tracked appName)).toList ++
      (process.productCode.bind (identifierSignal tracked productName)).toList

def lineageSignals : List ProcessSamples → List Signal
  | []              => []
  | root :: parents =>
    sampleSignals tracked "appId".toList "productCode".toList root ++
      parents.flatMap (sampleSignals tracked "parentAppId".toList "parentProductCode".toList)

def processLogPaths (root : ProcessSamples) : List Text :=
  root.flatMap fun process =>
    (process.referencedLogPath.bind canonicalInstallerLogPath).toList ++
      ((process.sanitizedCommandLine.bind extractInstallerLogPath).bind
        canonicalInstallerLogPath).toList

end Signals

section Correlate

variable {Instant : Type} [LinearOrder Instant] (chrono : Chrono Instant)

/-- The deployments whose log the process writes while it runs. -/
def matchedDeployments (root : ProcessSamples) (deploymentLogs : List EspDeploymentLogObservation) :
    List EspDeploymentLogObservation :=
  deploymentLogs.filter fun deployment =>
    (deployment.logPath.bind canonicalInstallerLogPath).any (processLogPaths root).contains &&
      observationWithinProcessWindow chrono root deployment.context

/-- The lines about an application that name a process of the lineage while it runs. -/
def matchedIme (lineage : List ProcessSamples) (imeLogs : List EspImeObservation) :
    List EspImeObservation :=
  imeLogs.filter fun ime =>
    ime.appId.any hasNormalizedIdentifier &&
      lineage.any fun samples =>
        (processPid samples).any (messageMentionsPid ime.message) &&
          observationWithinProcessWindow chrono samples ime.context

def allSignals (tracked : List (Text × List Text)) (root : ProcessSamples)
    (lineage : List ProcessSamples) (deploymentLogs : List EspDeploymentLogObservation)
    (imeLogs : List EspImeObservation) : List Signal :=
  lineageSignals tracked lineage ++
    (matchedDeployments chrono root deploymentLogs).filterMap (fun deployment =>
      deployment.productCode.bind (identifierSignal tracked "canonicalLogPath".toList)) ++
    (matchedIme chrono lineage imeLogs).filterMap fun ime =>
      ime.appId.bind (identifierSignal tracked "imeProcessAppId".toList)

def exactCandidates (signals : List Signal) : List Text :=
  sortedDistinct compare (signals.flatMap Signal.candidates)

/-- Two signals name workloads and have none in common. -/
def signalConflict (signals : List Signal) : Bool :=
  let sets := (signals.map Signal.candidates).filter fun candidates => !candidates.isEmpty
  sets.any fun left => sets.any fun right => isDisjoint left right

/-- The names of the signals that name a workload. -/
def exactReason (signals : List Signal) (workloadId : Text) : Text :=
  join ['+'] (sortedDistinct compare
    ((signals.filter fun signal => signal.candidates.contains workloadId).map Signal.name))

def temporalSlop : Nat := 2

def lowerSlopBound (value : Instant) : Instant := (chrono.subMinutes temporalSlop value).getD value

def upperSlopBound (value : Instant) : Instant := (chrono.addMinutes temporalSlop value).getD value

def workloadContainsProcess (workload : EspWorkload) (processTime : Instant) : Bool :=
  match timestampValue chrono workload.timestamps.firstObserved with
  | none       => false
  | some first =>
    let last := ([workload.timestamps.started, workload.timestamps.ended,
      workload.timestamps.lastUpdated].filterMap fun timestamp =>
        timestamp.bind (timestampValue chrono)).max?.getD first
    decide (lowerSlopBound chrono first ≤ processTime ∧ processTime ≤ upperSlopBound chrono last)

/-- The workloads of installers under way when a process started. -/
def temporalCandidates (workloads : List EspWorkload) (root : ProcessSamples) : List Text :=
  sortedDistinct compare
    (((processStartTimestamp chrono root).map fun processTime =>
      ((workloads.filter isInstallerWorkload).filter fun workload =>
        workloadContainsProcess chrono workload processTime).map EspWorkload.workloadId).getD [])

/-- The workload that is named, and why. -/
structure Verdict where
  workloadId : Option Text
  confidence : EspCorrelationConfidence
  reason : Text
  candidates : List Text
  deriving DecidableEq, Repr

def temporalVerdict (temporal : List Text) : Verdict :=
  match temporal with
  | []   => ⟨none, .uncorrelated, "noEvidenceBackedCandidate".toList, temporal⟩
  | [id] => ⟨some id, .temporal, "singleTemporalCandidate".toList, temporal⟩
  | _    => ⟨none, .uncorrelated, "multipleTemporalCandidates".toList, temporal⟩

def verdict (processConflict : Bool) (signals : List Signal) (temporal : List Text) : Verdict :=
  let exact := exactCandidates signals
  if processConflict then ⟨none, .uncorrelated, "conflictingProcessSamples".toList, exact⟩
  else if signalConflict signals then
    ⟨none, .uncorrelated, "contradictoryExactIdentifiers".toList, exact⟩
  else match exact with
    | [id] => ⟨some id, .exact, exactReason signals id, exact⟩
    | []   =>
      if signals = [] then temporalVerdict temporal
      else ⟨none, .uncorrelated, "exactIdentifierNotTracked".toList, exact⟩
    | _    => ⟨none, .uncorrelated, "ambiguousExactIdentifier".toList, exact⟩

/-! ## One process out of its samples -/

/-- The order of samples by a field, the latest last. -/
def fieldOrder (value : EspProcessObservation → Option Text) :
    EspProcessObservation → EspProcessObservation → Ordering :=
  compareLex (orderOn (noneFirst compare) (processSampleTimestamp chrono))
    (compareLex (orderOn (noneFirst compare) fun process => (value process).map toAsciiLowercase)
      (compareLex (orderOn compare artifactOf) (orderOn compare evidenceOf)))

def mergedProcessString (value : EspProcessObservation → Option Text) (samples : ProcessSamples) :
    Option Text :=
  (maxBy (fieldOrder chrono value)
    (samples.filter fun process => (value process).any fun text => !isBlank text)).bind value

/-- The order of samples by the time they were taken. -/
def sampleOrder : EspProcessObservation → EspProcessObservation → Ordering :=
  compareLex (orderOn (noneFirst compare) (processSampleTimestamp chrono)) (preferenceOrder chrono)

def mergeProcessSamples (samples : ProcessSamples) : Option EspProcessObservation :=
  (maxBy (sampleOrder chrono) samples).map fun latest =>
    { latest with
      parentPid := uniqueParentPid samples
      executableName :=
        (mergedProcessString chrono (fun process => some process.executableName) samples).getD []
      sanitizedCommandLine :=
        mergedProcessString chrono EspProcessObservation.sanitizedCommandLine samples
      referencedLogPath :=
        mergedProcessString chrono EspProcessObservation.referencedLogPath samples
      appId := mergedProcessString chrono EspProcessObservation.appId samples
      productCode := mergedProcessString chrono EspProcessObservation.productCode samples
      context := { latest.context with
        observedAtUtc := ((latestProcessSampleTimestamp chrono samples).map chrono.toRfc3339).getD
          latest.context.observedAtUtc } }

def correlationId (process : EspProcessObservation) : Text :=
  ((processIdentityKey chrono process).map fun identity =>
    "installer|".toList ++ decimal identity.1 ++ '|' ::
      escapeComponent (chrono.toRfc3339 identity.2)).getD []

def evidenceOrder : EspEvidenceRef → EspEvidenceRef → Ordering :=
  orderOn (pairOrder compare compare) fun evidence =>
    (evidence.sourceArtifactId, evidence.evidenceId)

def deduplicateEvidence (evidence : List EspEvidenceRef) : List EspEvidenceRef :=
  sortedDistinct evidenceOrder evidence

/-- The evidence of the workloads among the candidates. -/
def candidateEvidence (workloads : List EspWorkload) (candidates : List Text) :
    List EspEvidenceRef :=
  candidates.flatMap fun candidate =>
    ((workloads.find? fun workload => workload.workloadId == candidate).map
      EspWorkload.evidence).getD []

def correlateOne (workloads : List EspWorkload) (processGroups : ProcessGroups Instant)
    (deploymentLogs : List EspDeploymentLogObservation) (imeLogs : List EspImeObservation)
    (root : ProcessSamples) : EspInstallerCorrelation :=
  let lineage := processLineage chrono processGroups root
  let processConflict := lineage.any processSamplesConflict
  let signals :=
    allSignals chrono (workloadIdentifiers workloads) root lineage deploymentLogs imeLogs
  let named := verdict processConflict signals (temporalCandidates chrono workloads root)
  { correlationId := ((preferredProcess chrono root).map (correlationId chrono)).getD []
    workloadId := named.workloadId
    confidence := named.confidence
    reason := named.reason
    candidateWorkloadIds := named.candidates
    processObservations :=
      if processConflict || signalConflict signals then lineage.flatten
      else lineage.filterMap (mergeProcessSamples chrono)
    evidence := deduplicateEvidence
      ((lineage.flatten.map fun process => process.context.evidenceRef) ++
        (matchedDeployments chrono root deploymentLogs).map (fun deployment =>
          deployment.context.evidenceRef) ++
        (matchedIme chrono lineage imeLogs).map (fun ime => ime.context.evidenceRef) ++
        candidateEvidence workloads named.candidates) }

def correlateInstallerProcesses (workloads : List EspWorkload) (processes : ProcessSamples)
    (deploymentLogs : List EspDeploymentLogObservation) (imeLogs : List EspImeObservation) :
    List EspInstallerCorrelation :=
  let processGroups := groupProcessObservations chrono processes
  (processGroups.filter fun group => group.2.any isInstallerRoot).map fun group =>
    correlateOne chrono workloads processGroups deploymentLogs imeLogs group.2

end Correlate

end Esp
end CmTrace
