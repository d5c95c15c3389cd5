import CmTrace.Diagnosis.Summary
import CmTrace.EventLog.Wire
import CmTrace.Sccm.SafeNames
import CmTrace.Diagnosis.Adapt

/-!
# A summary as it is sent

Records are written with their fields in the order of their declaration.  A reference
into an SCCM log is checked before it is written, and what has one that does not pass is
not written at all.
-/

namespace CmTrace
namespace Diagnosis

open Text Std Collections

open Sccm (SccmEvidenceRef)
open EventLog.Wire (optional texts)

def maxSccmOpaqueIdChars : Nat := 256

def isCanonicalOpaqueId (value : Text) : Bool :=
  !value.isEmpty && trim value == value && value.length ≤ maxSccmOpaqueIdChars

def validLineRange : Option Nat → Option Nat → Bool
  | none, none => true
  | some first, some last => 0 < first && first ≤ last
  | _, _ => false

def validateEvidenceReference (reference : SccmEvidenceRef) : Bool :=
  isCanonicalOpaqueId reference.artifactId && isCanonicalOpaqueId reference.entryId &&
    validLineRange reference.lineStart reference.lineEnd

/-! ## Names -/

def CoverageState.label : CoverageState → Text
  | .covered                        => "covered".toList
  | .unknown                        => "unknown".toList
  | .absent                         => "absent".toList
  | .accessDenied                   => "accessDenied".toList
  | .capped                         => "capped".toList
  | .skipped                        => "skipped".toList
  | .unsupported                    => "unsupported".toList
  | .malformed                      => "malformed".toList
  | .parseFailed                    => "parseFailed".toList
  | .providerDescriptionUnavailable => "providerDescriptionUnavailable".toList

def FindingClass.label : FindingClass → Text
  | .confirmedFailure      => "confirmedFailure".toList
  | .likelyContributor     => "likelyContributor".toList
  | .symptom               => "symptom".toList
  | .recovered             => "recovered".toList
  | .contradictoryEvidence => "contradictoryEvidence".toList
  | .coverageGap           => "coverageGap".toList
  | .unknown               => "unknown".toList

def FindingSeverity.label : FindingSeverity → Text
  | .info     => "info".toList
  | .warning  => "warning".toList
  | .error    => "error".toList
  | .critical => "critical".toList

def FindingConfidence.label : FindingConfidence → Text
  | .unknown => "unknown".toList
  | .low     => "low".toList
  | .medium  => "medium".toList
  | .high    => "high".toList

def EventFamily.label : EventFamily → Text
  | .autopilot       => "autopilot".toList
  | .esp             => "esp".toList
  | .mdmEnrollment   => "mdmEnrollment".toList
  | .configMgrClient => "configMgrClient".toList
  | .other           => "other".toList

def CorrelationBasis.label : CorrelationBasis → Text
  | .exactIdentifier     => "exactIdentifier".toList
  | .candidateIdentifier => "candidateIdentifier".toList
  | .timestampOnly       => "timestampOnly".toList

def CorrelationStatus.label : CorrelationStatus → Text
  | .exact           => "exact".toList
  | .candidate       => "candidate".toList
  | .ambiguous       => "ambiguous".toList
  | .coverageBlocked => "coverageBlocked".toList
  | .notCausal       => "notCausal".toList

/-! ## Records -/

namespace Wire

def bool (b : Bool) : Text := if b then "true".toList else "false".toList

def rows {A : Type} (write : A → Option Text) (values : List A) : Option Text :=
  (values.mapM write).map jsonArray

def tagged (kind : String) (value : Text) : Text :=
  jsonObject [("kind", jsonString kind.toList), ("value", value)]

def sccm (reference : SccmEvidenceRef) : Option Text :=
  if validateEvidenceReference reference then
    some (jsonObject [("artifactId", jsonString reference.artifactId),
      ("entryId", jsonString reference.entryId),
      ("lineStart", jsonOption decimal reference.lineStart),
      ("lineEnd", jsonOption decimal reference.lineEnd)])
  else none

def evidenceRef : EvidenceRef → Option Text
  | .intune value => some (tagged "intune" (jsonObject [
      ("evidenceId", jsonString value.evidenceId),
      ("sourceArtifactId", jsonString value.sourceArtifactId)]))
  | .esp value => some (tagged "esp" (jsonObject [("evidenceId", jsonString value.evidenceId),
      ("sourceArtifactId", jsonString value.sourceArtifactId)]))
  | .sccm value => (sccm value).map (tagged "sccm")
  | .dsregcmdRaw value => some (tagged "dsregcmdRaw" (jsonString value))
  | .textLog value => some (tagged "textLog" (jsonObject [("source", jsonString value.source),
      ("filePath", jsonString value.filePath), ("lineNumber", decimal value.lineNumber),
      ("entryId", decimal value.entryId)]))
  | .event value => some (tagged "event" (jsonObject ([("source", jsonString value.source),
      ("provider", jsonString value.provider), ("eventId", decimal value.eventId),
      ("recordId", decimal value.recordId)] ++ optional "recordIdText" value.recordIdText ++
      optional "fallbackIdentity" value.fallbackIdentity ++ optional "machine" value.machine ++
      optional "channel" value.channel ++ optional "activityId" value.activityId)))

def coverageGap (gap : CoverageGap) : Option Text := do
  let evidence ← rows evidenceRef gap.evidence
  return jsonObject [("id", jsonString gap.id), ("source", jsonString gap.source),
    ("state", jsonString gap.state.label), ("detail", jsonString gap.detail),
    ("evidence", evidence)]

def finding (finding : DiagnosisFinding) : Option Text := do
  let evidence ← rows evidenceRef finding.evidence
  let coverageGaps ← rows coverageGap finding.coverageGaps
  return jsonObject [("findingId", jsonString finding.findingId),
    ("class", jsonString finding.findingClass.label),
    ("severity", jsonString finding.severity.label),
    ("confidence", jsonString finding.confidence.label), ("title", jsonString finding.title),
    ("summary", jsonString finding.summary), ("evidence", evidence),
    ("coverageGaps", coverageGaps), ("recommendedChecks", texts finding.recommendedChecks)]

def errorToken (token : ErrorToken) : Text :=
  jsonObject [("raw", jsonString token.raw), ("decimal", jsonOption jsonInt token.decimal),
    ("hex", jsonOption jsonString token.hex), ("malformed", bool token.malformed),
    ("found", bool token.found), ("description", jsonOption jsonString token.description),
    ("category", jsonOption jsonString token.category)]

def event (event : EventDiagnosis) : Option Text := do
  let evidence ← rows evidenceRef event.evidence
  let findings ← rows finding event.findings
  return jsonObject [("evidence", evidence), ("family", jsonString event.family.label),
    ("findings", findings), ("errorTokens", jsonArray (event.errorTokens.map errorToken))]

def correlationEvidence (evidence : CorrelationEvidence) : Text :=
  jsonObject [("originId", jsonString evidence.originId), ("field", jsonString evidence.field),
    ("value", jsonString evidence.value)]

def correlation (edge : CorrelationEdge) : Text :=
  jsonObject [("left", jsonString edge.left), ("right", jsonOption jsonString edge.right),
    ("basis", jsonString edge.basis.label), ("status", jsonString edge.status.label),
    ("candidateIds", texts edge.candidateIds),
    ("evidence", jsonArray (edge.evidence.map correlationEvidence))]

def overview (overview : DiagnosisOverview) : Text :=
  jsonObject [("outcome", jsonString overview.outcome),
    ("headline", jsonString overview.headline), ("findingCount", decimal overview.findingCount),
    ("actionableFindingCount", decimal overview.actionableFindingCount),
    ("coverageGapCount", decimal overview.coverageGapCount),
    ("evidenceCount", decimal overview.evidenceCount),
    ("correlationCount", decimal overview.correlationCount),
    ("errorTokenEventCount", decimal overview.errorTokenEventCount)]

def summary (summary : DiagnosisSummary) : Option Text := do
  let findings ← rows finding summary.findings
  let evidence ← rows evidenceRef summary.evidence
  let coverageGaps ← rows coverageGap summary.coverageGaps
  let correlations ← rows (fun edge => some (correlation edge)) summary.correlations
  let events ← rows event summary.events
  return jsonObject [("findings", findings), ("evidence", evidence),
    ("coverageGaps", coverageGaps), ("correlations", correlations), ("events", events),
    ("overview", overview summary.overview)]

end Wire

def serializedLen (summary : DiagnosisSummary) : Option Nat :=
  (Wire.summary summary).map byteLen

/-! ## A summary for display

Long texts are cut down to a few thousand bytes, rows inside rows to a few, and what is
cut is counted.  Then machine names and what the masks of the host find are masked in
every text.
-/

open Timeline (textOrder)
open Sccm (stripPrefix)

def maxDiagnosisDisplayTextBytes : Nat := 4 * 1024
def maxDiagnosisNestedRows : Nat := 4

/-! ## What is cut down, counted -/

structure DiagnosisDisplayProjectionStats where
  compactedTextFields : Nat := 0
  omittedNestedRows : Nat := 0
  deriving DecidableEq, Repr

instance : Add DiagnosisDisplayProjectionStats :=
  ⟨fun a b => ⟨a.compactedTextFields + b.compactedTextFields,
    a.omittedNestedRows + b.omittedNestedRows⟩⟩

instance : Zero DiagnosisDisplayProjectionStats := ⟨{}⟩

/-- A value that was cut down, with what was cut on the way. -/
structure Compacted (A : Type) where
  value : A
  stats : DiagnosisDisplayProjectionStats := 0

instance : Monad Compacted where
  pure value := { value := value }
  bind first next :=
    { value := (next first.value).value, stats := first.stats + (next first.value).stats }

namespace Compacted

variable {A B : Type}

@[simp] theorem value_pure (a : A) : (pure a : Compacted A).value = a := rfl

@[simp] theorem value_bind (first : Compacted A) (next : A → Compacted B) :
    (first >>= next).value = (next first.value).value := rfl

def each (compact : A → Compacted A) (values : List A) : Compacted (List A) where
  value := values.map fun a => (compact a).value
  stats := (values.map fun a => (compact a).stats).sum

end Compacted

def displayTextDigest (value : Text) : Text :=
  let digest := (utf8Bytes value).foldl
    (fun digest byte => (digest ^^^ byte.toUInt32) * 16777619) (2166136261 : UInt32)
  toAsciiLowercase (hexPadded 8 digest.toNat)

def compactDisplayText (value : Text) : Compacted Text :=
  if byteLen value ≤ maxDiagnosisDisplayTextBytes then pure value
  else
    let suffix := "...[".toList ++ decimal (byteLen value) ++ " bytes; digest=".toList ++
      displayTextDigest value ++ [']']
    { value := takeBytes (maxDiagnosisDisplayTextBytes - byteLen suffix) value ++ suffix
      stats := { compactedTextFields := 1 } }

def compactOptionalDisplayText : Option Text → Compacted (Option Text)
  | none => pure none
  | some value => some <$> compactDisplayText value

def truncateNested {A : Type} (rows : List A) : Compacted (List A) :=
  if maxDiagnosisNestedRows < rows.length then
    { value := rows.take maxDiagnosisNestedRows
      stats := { omittedNestedRows := rows.length - maxDiagnosisNestedRows } }
  else pure rows

def compactNested {A : Type} (compact : A → Compacted A) (rows : List A) : Compacted (List A) := do
  let rows ← truncateNested rows
  Compacted.each compact rows

def compactEvidence : EvidenceRef → Compacted EvidenceRef
  | .event value => do
    let source ← compactDisplayText value.source
    let provider ← compactDisplayText value.provider
    let recordIdText ← compactOptionalDisplayText value.recordIdText
    let fallbackIdentity ← compactOptionalDisplayText value.fallbackIdentity
    let machine ← compactOptionalDisplayText value.machine
    let channel ← compactOptionalDisplayText value.channel
    let activityId ← compactOptionalDisplayText value.activityId
    return .event { value with
      source := source, provider := provider, recordIdText := recordIdText
      fallbackIdentity := fallbackIdentity, machine := machine, channel := channel
      activityId := activityId }
  | .textLog value => do
    let source ← compactDisplayText value.source
    let filePath ← compactDisplayText value.filePath
    return .textLog { value with source := source, filePath := filePath }
  | reference => pure reference

def compactCoverageGap (gap : CoverageGap) : Compacted CoverageGap := do
  let id ← compactDisplayText gap.id
  let source ← compactDisplayText gap.source
  let detail ← compactDisplayText gap.detail
  let evidence ← compactNested compactEvidence gap.evidence
  return { gap with id := id, source := source, detail := detail, evidence := evidence }

def compactFinding (finding : DiagnosisFinding) : Compacted DiagnosisFinding := do
  let findingId ← compactDisplayText finding.findingId
  let title ← compactDisplayText finding.title
  let summary ← compactDisplayText finding.summary
  let recommendedChecks ← compactNested compactDisplayText finding.recommendedChecks
  let evidence ← compactNested compactEvidence finding.evidence
  let coverageGaps ← compactNested compactCoverageGap finding.coverageGaps
  return { finding with
    findingId := findingId, title := title, summary := summary, evidence := evidence
    coverageGaps := coverageGaps, recommendedChecks := recommendedChecks }

def compactCorrelationEvidence (evidence : CorrelationEvidence) :
    Compacted CorrelationEvidence := do
  let originId ← compactDisplayText evidence.originId
  let field ← compactDisplayText evidence.field
  let value ← compactDisplayText evidence.value
  return ⟨originId, field, value⟩

def compactCorrelation (edge : CorrelationEdge) : Compacted CorrelationEdge := do
  let left ← compactDisplayText edge.left
  let right ← compactOptionalDisplayText edge.right
  let candidateIds ← compactNested compactDisplayText edge.candidateIds
  let evidence ← compactNested compactCorrelationEvidence edge.evidence
  return { edge with
    left := left, right := right, candidateIds := candidateIds, evidence := evidence }

def compactErrorToken (token : ErrorToken) : Compacted ErrorToken := do
  let raw ← compactDisplayText token.raw
  let hex ← compactOptionalDisplayText token.hex
  let description ← compactOptionalDisplayText token.description
  let category ← compactOptionalDisplayText token.category
  return { token with raw := raw, hex := hex, description := description, category := category }

def compactEvent (event : EventDiagnosis) : Compacted EventDiagnosis := do
  let evidence ← compactNested compactEvidence event.evidence
  let findings ← compactNested compactFinding event.findings
  let errorTokens ← compactNested compactErrorToken event.errorTokens
  return { event with evidence := evidence, findings := findings, errorTokens := errorTokens }

def compactDiagnosisDetails (summary : DiagnosisSummary) : Compacted DiagnosisSummary := do
  let outcome ← compactDisplayText summary.overview.outcome
  let headline ← compactDisplayText summary.overview.headline
  let findings ← Compacted.each compactFinding summary.findings
  let evidence ← Compacted.each compactEvidence summary.evidence
  let coverageGaps ← Compacted.each compactCoverageGap summary.coverageGaps
  let correlations ← Compacted.each compactCorrelation summary.correlations
  let events ← Compacted.each compactEvent summary.events
  return {
    findings := findings, evidence := evidence, coverageGaps := coverageGaps
    correlations := correlations, events := events
    overview := { summary.overview with outcome := outcome, headline := headline } }

/-! ## What is masked -/

/-- A pattern replaced where it is found, after `skip` characters of one before. -/
def replaceFrom (pattern replacement : Text) : Nat → Text → Text
  | _, [] => []
  | skip + 1, _ :: s => replaceFrom pattern replacement skip s
  | 0, c :: s =>
    if pattern.isPrefixOf (c :: s) then
      replacement ++ replaceFrom pattern replacement (pattern.length - 1) s
    else c :: replaceFrom pattern replacement 0 s

/-- The empty pattern is found before each character and at the end. -/
def replace (pattern replacement s : Text) : Text :=
  if pattern.isEmpty then (s.flatMap fun c => replacement ++ [c]) ++ replacement
  else replaceFrom pattern replacement 0 s

/-- Machines and what stands for them. -/
abbrev Machines : Type := TreeMap Text Text textOrder

def machineOrder (left right : Text × Text) : Ordering :=
  (compare (byteLen right.1) (byteLen left.1)).then (textOrder left.1 right.1)

section Redaction

variable (host : EventHost)

def redactLabeledValue (label value : Text) : Text :=
  let front := label ++ ['=']
  let redacted := host.redactText (front ++ value)
  (stripPrefix front redacted).getD redacted

def collectMachinesFromEvidence (machines : Machines) : EvidenceRef → Machines
  | .event value =>
    match value.machine with
    | none => machines
    | some machine =>
      let (label, name) := (splitOnce '=' machine).getD ("ComputerName".toList, machine)
      let replacement := redactLabeledValue host label name
      let machines := machines.insertIfNew machine replacement
      if machine.contains '=' && !name.isEmpty then
        machines.insertIfNew name ((stripPrefix (label ++ ['=']) replacement).getD replacement)
      else machines
  | _ => machines

def collectMachinesFromGap (machines : Machines) (gap : CoverageGap) : Machines :=
  gap.evidence.foldl (collectMachinesFromEvidence host) machines

def collectMachinesFromFinding (machines : Machines) (finding : DiagnosisFinding) : Machines :=
  finding.coverageGaps.foldl (collectMachinesFromGap host)
    (finding.evidence.foldl (collectMachinesFromEvidence host) machines)

def collectMachinesFromEvent (machines : Machines) (event : EventDiagnosis) : Machines :=
  event.findings.foldl (collectMachinesFromFinding host)
    (event.evidence.foldl (collectMachinesFromEvidence host) machines)

def collectMachines (summary : DiagnosisSummary) : Machines :=
  let machines := summary.evidence.foldl (collectMachinesFromEvidence host) ∅
  let machines := summary.coverageGaps.foldl (collectMachinesFromGap host) machines
  let machines := summary.findings.foldl (collectMachinesFromFinding host) machines
  summary.events.foldl (collectMachinesFromEvent host) machines

variable (machines : Machines)

def redactIdentifier (value : Text) : Text :=
  (sortBy machineOrder machines.toList).foldl
    (fun redacted machine => replace machine.1 machine.2 redacted) (host.redactDiagnosticXml value)

def redactEvidence : EvidenceRef → EvidenceRef
  | .intune value => .intune {
      evidenceId := redactIdentifier host machines value.evidenceId
      sourceArtifactId := redactIdentifier host machines value.sourceArtifactId }
  | .esp value => .esp {
      evidenceId := redactIdentifier host machines value.evidenceId
      sourceArtifactId := redactIdentifier host machines value.sourceArtifactId }
  | .sccm value => .sccm { value with
      artifactId := redactIdentifier host machines value.artifactId
      entryId := redactIdentifier host machines value.entryId }
  | .dsregcmdRaw value => .dsregcmdRaw (redactIdentifier host machines value)
  | .textLog value => .textLog { value with
      source := redactIdentifier host machines value.source
      filePath := redactIdentifier host machines value.filePath }
  | .event value => .event { value with
      source := redactIdentifier host machines value.source
      provider := redactIdentifier host machines value.provider
      recordIdText := value.recordIdText.map (redactIdentifier host machines)
      fallbackIdentity := value.fallbackIdentity.map (redactIdentifier host machines)
      machine := value.machine.map fun machine =>
        (machines.get? machine).getD (redactLabeledValue host "ComputerName".toList machine)
      channel := value.channel.map (redactIdentifier host machines)
      activityId := value.activityId.map (redactIdentifier host machines) }

def redactCoverageGap (gap : CoverageGap) : CoverageGap :=
  { gap with
    id := redactIdentifier host machines gap.id
    source := redactIdentifier host machines gap.source
    detail := redactIdentifier host machines gap.detail
    evidence := gap.evidence.map (redactEvidence host machines) }

def redactFinding (finding : DiagnosisFinding) : DiagnosisFinding :=
  { finding with
    findingId := redactIdentifier host machines finding.findingId
    title := redactIdentifier host machines finding.title
    summary := redactIdentifier host machines finding.summary
    recommendedChecks := finding.recommendedChecks.map (redactIdentifier host machines)
    evidence := finding.evidence.map (redactEvidence host machines)
    coverageGaps := finding.coverageGaps.map (redactCoverageGap host machines) }

def redactErrorToken (token : ErrorToken) : ErrorToken :=
  { token with
    raw := redactIdentifier host machines token.raw
    hex := token.hex.map (redactIdentifier host machines)
    description := token.description.map (redactIdentifier host machines)
    category := token.category.map (redactIdentifier host machines) }

/-- The label under which the value of a field is masked. -/
def fieldLabel (field : Text) : Option Text :=
  let name := toAsciiLowercase field
  if name = "deviceid".toList then some "DeviceId".toList
  else if name = "userid".toList then some "UserId".toList
  else if name = "sessionid".toList then some "SessionId".toList
  else if name = "activityid".toList then some "ActivityId".toList
  else if name = "relatedactivityid".toList then some "RelatedActivityId".toList
  else if name ∈ ["computer".toList, "computername".toList, "machine".toList,
      "machinename".toList] then some "ComputerName".toList
  else if name = "username".toList then some "UserName".toList
  else if name = "userprincipalname".toList then some "UserPrincipalName".toList
  else none

def redactCorrelationEvidence (evidence : CorrelationEvidence) : CorrelationEvidence :=
  let field := redactIdentifier host machines evidence.field
  let value := redactIdentifier host machines evidence.value
  { originId := redactIdentifier host machines evidence.originId
    field := field
    value := (fieldLabel field).elim value fun label => redactLabeledValue host label value }

def redactCorrelation (edge : CorrelationEdge) : CorrelationEdge :=
  { edge with
    left := redactIdentifier host machines edge.left
    right := edge.right.map (redactIdentifier host machines)
    candidateIds := edge.candidateIds.map (redactIdentifier host machines)
    evidence := edge.evidence.map (redactCorrelationEvidence host machines) }

def redactEvent (event : EventDiagnosis) : EventDiagnosis :=
  { event with
    evidence := event.evidence.map (redactEvidence host machines)
    findings := event.findings.map (redactFinding host machines)
    errorTokens := event.errorTokens.map (redactErrorToken host machines) }

def redactOverview (overview : DiagnosisOverview) : DiagnosisOverview :=
  { overview with
    outcome := redactIdentifier host machines overview.outcome
    headline := redactIdentifier host machines overview.headline }

/-- Every text is masked, but the machines are those of the summary before. -/
def redactedDisplayProjection (summary : DiagnosisSummary) : DiagnosisSummary :=
  let machines := collectMachines host summary
  { findings := summary.findings.map (redactFinding host machines)
    evidence := summary.evidence.map (redactEvidence host machines)
    coverageGaps := summary.coverageGaps.map (redactCoverageGap host machines)
    correlations := summary.correlations.map (redactCorrelation host machines)
    events := summary.events.map (redactEvent host machines)
    overview := redactOverview host machines summary.overview }

end Redaction

end Diagnosis
end CmTrace
