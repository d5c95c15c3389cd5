import CmTrace.Diagnosis.Signals

/-!
# An event as evidence

One record gives one reference, and at most one finding by the rules of its
family.  The finding and its gap hold copies of the reference.
-/

namespace CmTrace
namespace Diagnosis

open Text Collections
open ErrorDb (ErrorCode lookupErrorCode detectErrorCodeSpans)

/-- What the adapter takes from libraries and tables. -/
structure EventHost where
  sha256 : List UInt8 → List UInt8
  errorCodes : List ErrorCode
  /-- Byte ranges of what looks like a code. -/
  errorTokenMatches : Text → List (Nat × Nat)
  redactText : Text → Text
  redactDiagnosticXml : Text → Text
  /-- Name and value of the first status element. -/
  xmlStatusCaptures : Text → Option (Text × Text)

/-! ## The identity of a record without a number -/

def littleEndian (width n : Nat) : List UInt8 :=
  (List.range width).map fun i => UInt8.ofNat (n / 256 ^ i)

def maxFallbackIdentityComponentBytes : Nat := 256 * 1024
def maxFallbackIdentityFields : Nat := 1024

def fallbackIdentityText (host : EventHost) (label : String) (value : Text) : List UInt8 :=
  utf8Bytes label.toList ++ littleEndian 8 (byteLen value) ++
    if byteLen value ≤ maxFallbackIdentityComponentBytes then utf8Bytes value
    else utf8Bytes "[hashed]".toList ++ host.sha256 (utf8Bytes value)

def severityName : EventLogSeverity → Text
  | .critical    => "Critical".toList
  | .error       => "Error".toList
  | .warning     => "Warning".toList
  | .information => "Information".toList
  | .verbose     => "Verbose".toList
  | .unknown     => "Unknown".toList

def channelOtherText (host : EventHost) : EventLogChannel → List UInt8
  | .other name => fallbackIdentityText host "channelOther" name
  | _ => []

def eventFallbackIdentity (host : EventHost) (entry : EventLogEntry) (eventData : List Text)
    (rawXml : Text) : Text :=
  let digest := host.sha256 <|
    fallbackIdentityText host "channel" entry.channel.displayName ++
      channelOtherText host entry.channel ++
      fallbackIdentityText host "channelDisplay" entry.channelDisplay ++
      fallbackIdentityText host "provider" entry.provider ++
      utf8Bytes "eventId".toList ++ littleEndian 4 entry.eventId ++
      fallbackIdentityText host "severity" (severityName entry.severity) ++
      fallbackIdentityText host "source" entry.sourceFile ++
      fallbackIdentityText host "timestamp" entry.timestamp ++
      utf8Bytes "eventDataCount".toList ++ littleEndian 8 eventData.length ++
      ((eventData.take maxFallbackIdentityFields).zipIdx.flatMap fun field =>
        utf8Bytes "eventDataIndex".toList ++ littleEndian 8 field.2 ++
          fallbackIdentityText host "eventData" field.1) ++
      fallbackIdentityText host "activityId" (entry.correlationActivityId.getD []) ++
      fallbackIdentityText host "rawXml" rawXml
  digest.flatMap fun byte => toAsciiLowercase (hexPadded 2 byte.toNat)

/-! ## Fields and codes -/

/-- The fields of the event data, and the status element of the markup when none of
them is a status. -/
def eventDataPairs (host : EventHost) (eventData : List Text) (rawXml : Text) :
    List (Text × Text) :=
  let pairs := eventData.filterMap fun field =>
    let field := trim field
    ((splitOnce '=' field).or (splitOnce ':' field)).bind fun pair =>
      if (trim pair.1).isEmpty then none else some (trim pair.1, trim pair.2)
  if pairs.any (fun pair => statusField pair.1) || rawXml.isEmpty then pairs
  else match host.xmlStatusCaptures rawXml with
    | some (name, value) => pairs ++ [(name, trim value)]
    | none => pairs

def eventDataDetail (pairs : List (Text × Text)) : Text :=
  join ", ".toList (pairs.map fun pair => pair.1 ++ '=' :: pair.2)

/-- The text between two offsets in UTF-16 units that fall between characters. -/
def utf16Slice (value : Text) (start stop : Nat) : Option Text :=
  if start ≥ stop then none
  else
    (List.range (value.length + 1)).findSome? fun finish =>
      if unitCount (value.take finish) = stop then
        ((List.range finish).find? fun begin => unitCount (value.take begin) = start).map
          fun begin => (value.take finish).drop begin
      else none

def hasErrorContext (message : Text) (start stop : Nat) : Bool :=
  let ends (c : Char) : Bool := c ∈ ['.', ';', '\n']
  let context := (takeBytes start message).rtakeWhile (fun c => !ends c) ++
    sliceBytes start stop message ++ (dropBytes stop message).takeWhile fun c => !ends c
  ["error", "hresult", "code", "status", "failed", "failure"].any fun marker =>
    Parser.contains (toAsciiLowercase context) marker.toList

/-- A code begins as one, or its sentence speaks of one. -/
def plausibleToken (message : Text) (range : Nat × Nat) : Bool :=
  let raw := sliceBytes range.1 range.2 message
  (["0x", "0X", "+", "-"].any fun start => start.toList.isPrefixOf raw) ||
    hasErrorContext message range.1 range.2

def enrichErrorTokens (host : EventHost) (message : Text) : List ErrorToken :=
  let known := (detectErrorCodeSpans host.errorCodes message).filterMap fun span =>
    (utf16Slice message span.start span.stop).map fun raw => (span.start, raw)
  let wider := ((host.errorTokenMatches message).filter (plausibleToken message)).map fun range =>
    (range.1, sliceBytes range.1 range.2 message)
  let candidates := sortBy (orderOn compare (·.1)) (known ++ wider)
  (candidates.map (·.2)).eraseDups.map fun raw =>
    ErrorToken.fromLookup raw (lookupErrorCode host.errorCodes raw)

/-! ## Findings -/

def ruleFinding (evidence : EvidenceRef) (suffix : Text) (findingClass : FindingClass)
    (severity : FindingSeverity) (confidence : FindingConfidence) (title summary : Text)
    (recommendedChecks : List Text) : DiagnosisFinding where
  findingId := evidence.stableId ++ ':' :: suffix
  findingClass := findingClass
  severity := severity
  confidence := confidence
  title := title
  summary := summary
  evidence := [evidence]
  recommendedChecks := recommendedChecks

def ruleCoverageFinding (evidence : EvidenceRef) (family suffix : Text) (state : CoverageState)
    (detail recommendedCheck : Text) : DiagnosisFinding where
  findingId := evidence.stableId ++ ':' :: suffix
  findingClass := .coverageGap
  severity := .info
  confidence := .unknown
  title := family ++ " event evidence is incomplete".toList
  summary := detail
  evidence := [evidence]
  coverageGaps := [
    { id := evidence.stableId ++ ':' :: suffix
      source := family
      state := state
      detail := detail
      evidence := [evidence] }]
  recommendedChecks := [recommendedCheck]

/-- What the rules of a family say, case by case. -/
structure FamilyRules where
  failureSuffix : String
  failureTitle : String
  failureChecks : List String
  contradictionSuffix : String
  contradictionTitle : String
  contradictionCheck : String
  pendingSuffix : String
  pendingTitle : String
  pendingCheck : String
  statusSuffix : String
  absentDetail : String
  absentCheck : String
  /-- What stands before and after a status that is not recognized. -/
  malformedDetail : String × String
  malformedCheck : String

def autopilotRules : FamilyRules where
  failureSuffix := "autopilot-profile-failure"
  failureTitle := "Autopilot profile operation failed"
  failureChecks := [
    "Inspect the Autopilot profile assignment and the associated error code.",
    "Compare adjacent Autopilot and ESP records for the same activity."]
  contradictionSuffix := "autopilot-profile-contradiction"
  contradictionTitle := "Autopilot profile status is contradictory"
  contradictionCheck := "Inspect the provider XML for the authoritative terminal status."
  pendingSuffix := "autopilot-profile-pending"
  pendingTitle := "Autopilot profile operation is still in progress"
  pendingCheck := "Collect the later terminal Autopilot event before concluding success."
  statusSuffix := "autopilot-profile-status"
  absentDetail := "Autopilot event did not include a profile status."
  absentCheck := "Collect the provider EventData or a later terminal Autopilot record."
  malformedDetail := ("Autopilot status `", "` is not a recognized terminal or pending value.")
  malformedCheck := "Collect the provider EventData or a later terminal Autopilot record."

def espRules : FamilyRules where
  failureSuffix := "esp-status-failure"
  failureTitle := "ESP provisioning status reports failure"
  failureChecks := [
    "Inspect the ESP phase and workload named by EventData.",
    "Compare the matching MDM enrollment and IME records."]
  contradictionSuffix := "esp-status-contradiction"
  contradictionTitle := "ESP status is contradictory"
  contradictionCheck := "Inspect the ESP provider XML and adjacent phase records."
  pendingSuffix := "esp-status-pending"
  pendingTitle := "ESP provisioning remains pending"
  pendingCheck := "Collect the terminal ESP event before concluding the phase outcome."
  statusSuffix := "esp-status"
  absentDetail := "ESP event did not include a phase status."
  absentCheck := "Collect the ESP provider EventData and the matching phase records."
  malformedDetail := ("ESP status `", "` is not a recognized terminal or pending value.")
  malformedCheck := "Collect the ESP provider EventData and the matching phase records."

def mdmEnrollmentRules : FamilyRules where
  failureSuffix := "mdm-enrollment-failure"
  failureTitle := "MDM enrollment status reports failure"
  failureChecks := [
    "Inspect the enrollment provider error fields and HRESULT.",
    "Compare the enrollment record with the corresponding IME and ESP evidence."]
  contradictionSuffix := "mdm-enrollment-contradiction"
  contradictionTitle := "MDM enrollment status is contradictory"
  contradictionCheck := "Inspect the provider XML for the authoritative enrollment result."
  pendingSuffix := "mdm-enrollment-pending"
  pendingTitle := "MDM enrollment remains pending"
  pendingCheck := "Collect a later enrollment terminal event."
  statusSuffix := "mdm-enrollment-status"
  absentDetail := "MDM enrollment event did not include a status."
  absentCheck := "Collect the provider EventData or a later terminal enrollment record."
  malformedDetail := ("MDM enrollment status `", "` is not recognized.")
  malformedCheck := "Inspect the provider template and preserve the raw status value."

def configMgrClientRules : FamilyRules where
  failureSuffix := "configmgr-component-failure"
  failureTitle := "ConfigMgr client component reports failure"
  failureChecks := [
    "Inspect the named ConfigMgr component and its client log.",
    "Check whether the same component later reports recovery."]
  contradictionSuffix := "configmgr-component-contradiction"
  contradictionTitle := "ConfigMgr client component status is contradictory"
  contradictionCheck := "Inspect the component event XML and adjacent client records."
  pendingSuffix := "configmgr-component-pending"
  pendingTitle := "ConfigMgr client component remains pending"
  pendingCheck := "Collect a terminal component result before concluding health."
  statusSuffix := "configmgr-component-status"
  absentDetail := "ConfigMgr client event did not include a component result."
  absentCheck := "Collect the component result field or a later terminal client record."
  malformedDetail := ("ConfigMgr component status `", "` is not recognized.")
  malformedCheck := "Inspect the provider template and preserve the raw result value."

def familyRules : EventFamily → Option FamilyRules
  | .autopilot       => some autopilotRules
  | .esp             => some espRules
  | .mdmEnrollment   => some mdmEnrollmentRules
  | .configMgrClient => some configMgrClientRules
  | .other           => none

def detailedMessage (entry : EventLogEntry) (pairs : List (Text × Text)) : Text :=
  if (eventDataDetail pairs).isEmpty then entry.message
  else entry.message ++ " (".toList ++ eventDataDetail pairs ++ [')']

/-- The finding of a family's rules, for an event with these signals. -/
def rulesFinding (rules : FamilyRules) (family : EventFamily) (entry : EventLogEntry)
    (evidence : EvidenceRef) (pairs : List (Text × Text)) (errors : List ErrorToken)
    (explicitFailureSignal explicitSuccessSignal : Bool) : Option DiagnosisFinding :=
  let status := (eventStatus pairs).map (·.2)
  let statusFailure := status.any failureStatus
  let statusSuccess := status.any successStatus
  let statusPending := status.any pendingStatus
  let statusUnknown := status.any fun value =>
    !failureStatus value && !successStatus value && !pendingStatus value
  let message := detailedMessage entry pairs
  let label := familyLabel family
  let contradiction :=
    ruleFinding evidence "status-contradiction".toList .contradictoryEvidence
      (eventSeverity entry.severity) .medium (label ++ " status is contradictory".toList) message
      ["Inspect the provider XML for the authoritative terminal status.".toList]
  if statusFailure && explicitSuccessSignal then some contradiction
  else if status.isNone && explicitFailureSignal && explicitSuccessSignal then some contradiction
  else if statusFailure ||
      (status.isNone && explicitFailureSignal && !explicitSuccessSignal) then
    some (ruleFinding evidence rules.failureSuffix.toList .confirmedFailure
      (eventSeverity entry.severity) (if statusFailure then .high else .medium)
      rules.failureTitle.toList message (rules.failureChecks.map String.toList))
  else if statusSuccess && (nonzeroErrorToken errors || explicitFailureSignal) then
    some (ruleFinding evidence rules.contradictionSuffix.toList .contradictoryEvidence
      (eventSeverity entry.severity) .medium rules.contradictionTitle.toList message
      [rules.contradictionCheck.toList])
  else if statusPending then
    some (ruleFinding evidence rules.pendingSuffix.toList .symptom .info .medium
      rules.pendingTitle.toList message [rules.pendingCheck.toList])
  else if status.isNone then
    some (ruleCoverageFinding evidence label rules.statusSuffix.toList .absent
      rules.absentDetail.toList rules.absentCheck.toList)
  else if statusUnknown then
    some (ruleCoverageFinding evidence label rules.statusSuffix.toList .malformed
      (rules.malformedDetail.1.toList ++ status.getD [] ++ rules.malformedDetail.2.toList)
      rules.malformedCheck.toList)
  else none

def operationalEventFinding (family : EventFamily) (entry : EventLogEntry)
    (evidence : EvidenceRef) (pairs : List (Text × Text)) (errors : List ErrorToken)
    (explicitFailureSignal explicitSuccessSignal : Bool) : Option DiagnosisFinding :=
  (familyRules family).bind fun rules =>
    rulesFinding rules family entry evidence pairs errors explicitFailureSignal
      explicitSuccessSignal

/-! ## The adapter -/

/-- The reference of a record: its number in decimal, or a digest of it when it has
none. -/
def eventReference (host : EventHost) (entry : EventLogEntry) (eventData : List Text)
    (rawXml : Text) : EventEvidenceRef where
  source := entry.sourceFile
  provider := entry.provider
  eventId := entry.eventId
  recordId := entry.id
  recordIdText := if entry.id ≠ 0 then some (decimal entry.id) else none
  fallbackIdentity :=
    if entry.id = 0 then some (eventFallbackIdentity host entry eventData rawXml) else none
  machine := entry.computer
  channel := some entry.channelDisplay
  activityId := entry.correlationActivityId

def diagnosticText (entry : EventLogEntry) (eventData : List Text) : Text :=
  eventData.foldl (fun text value => text ++ ' ' :: value) entry.message

def eventErrorTokens (host : EventHost) (entry : EventLogEntry) (eventData : List Text)
    (rawXml : Text) : List ErrorToken :=
  let tokenText := host.redactText (diagnosticText entry eventData)
  enrichErrorTokens host <|
    if rawXml.isEmpty then tokenText else tokenText ++ ' ' :: host.redactDiagnosticXml rawXml

/-- The finding of an event to which no rule of its family applies. -/
def neutralFinding (family : EventFamily) (entry : EventLogEntry) (evidence : EvidenceRef)
    (statusSuccess explicitFailureSignal explicitSuccessSignal : Bool) :
    Option DiagnosisFinding :=
  let failure := explicitFailureSignal ||
    (decide (entry.severity = .critical ∨ entry.severity = .error) && !statusSuccess)
  let label := familyLabel family
  if family = .other then none
  else if failure && explicitSuccessSignal then
    some (ruleFinding evidence "contradictory".toList .contradictoryEvidence
      (eventSeverity entry.severity) .medium
      (label ++ " event contains contradictory status signals".toList)
      ("The same event contains both success and failure language; " ++
        "no terminal outcome is asserted.").toList
      [("Inspect the provider XML and adjacent records for the authoritative " ++
        "terminal state.").toList])
  else if failure && !statusSuccess then
    some (ruleFinding evidence "failure".toList .confirmedFailure
      (eventSeverity entry.severity) (if explicitFailureSignal then .high else .medium)
      (label ++ " event reports a failure".toList) entry.message
      ["Inspect the ".toList ++ label ++
        " source record and its provider-specific error details.".toList])
  else if entry.severity = .warning then
    some (ruleFinding evidence "symptom".toList .symptom .warning .medium
      (label ++ " event is a warning".toList) entry.message
      ["Compare this warning with the surrounding timeline and source coverage.".toList])
  else none

def adaptEventEntryForFamily (host : EventHost) (entry : EventLogEntry) (eventData : List Text)
    (rawXml : Text) (family : EventFamily) : EventDiagnosis :=
  let evidence := EvidenceRef.event (eventReference host entry eventData rawXml)
  let errors := eventErrorTokens host entry eventData rawXml
  let pairs := eventDataPairs host eventData rawXml
  let explicitFailureSignal := explicitFailure (diagnosticText entry eventData)
  let explicitSuccessSignal := explicitSuccess (diagnosticText entry eventData)
  let statusSuccess := (eventStatus pairs).any fun status => successStatus status.2
  let finding :=
    (operationalEventFinding family entry evidence pairs errors explicitFailureSignal
      explicitSuccessSignal).or
      (neutralFinding family entry evidence statusSuccess explicitFailureSignal
        explicitSuccessSignal)
  { evidence    := [evidence]
    family      := family
    findings    := finding.toList
    errorTokens := errors }

/-! ## What a finding cites -/

/-- A finding that cites one reference and no other. -/
def DiagnosisFinding.CitesOnly (finding : DiagnosisFinding) (evidence : EvidenceRef) : Prop :=
  finding.evidence = [evidence] ∧ ∀ gap ∈ finding.coverageGaps, gap.evidence = [evidence]

theorem ruleFinding_citesOnly (evidence : EvidenceRef) (suffix : Text)
    (findingClass : FindingClass) (severity : FindingSeverity) (confidence : FindingConfidence)
    (title summary : Text) (recommendedChecks : List Text) :
    (ruleFinding evidence suffix findingClass severity confidence title summary
      recommendedChecks).CitesOnly evidence :=
  ⟨rfl, fun _ hgap => absurd hgap List.not_mem_nil⟩

theorem ruleCoverageFinding_citesOnly (evidence : EvidenceRef) (family suffix : Text)
    (state : CoverageState) (detail recommendedCheck : Text) :
    (ruleCoverageFinding evidence family suffix state detail recommendedCheck).CitesOnly
      evidence := by
  refine ⟨rfl, fun gap hgap => ?_⟩
  rw [List.mem_singleton.mp hgap]

section

variable {family : EventFamily} {entry : EventLogEntry} {evidence : EvidenceRef}
variable {pairs : List (Text × Text)} {errors : List ErrorToken}
variable {explicitFailureSignal explicitSuccessSignal : Bool}

theorem rulesFinding_citesOnly {rules : FamilyRules} {finding : DiagnosisFinding}
    (h : rulesFinding rules family entry evidence pairs errors explicitFailureSignal
      explicitSuccessSignal = some finding) : finding.CitesOnly evidence := by
  simp only [rulesFinding] at h
  split_ifs at h
  all_goals
    obtain rfl := Option.some.inj h
    first
      | exact ruleFinding_citesOnly ..
      | exact ruleCoverageFinding_citesOnly ..

theorem neutralFinding_citesOnly {statusSuccess : Bool} {finding : DiagnosisFinding}
    (h : neutralFinding family entry evidence statusSuccess explicitFailureSignal
      explicitSuccessSignal = some finding) : finding.CitesOnly evidence := by
  simp only [neutralFinding] at h
  split_ifs at h
  all_goals
    obtain rfl := Option.some.inj h
    exact ruleFinding_citesOnly ..

/-- Nothing is found by the rules exactly when a status reports success and nothing
speaks against it. -/
theorem rulesFinding_eq_none_iff {rules : FamilyRules} :
    rulesFinding rules family entry evidence pairs errors explicitFailureSignal
        explicitSuccessSignal = none ↔
      (∃ status, eventStatus pairs = some status ∧ successStatus status.2 = true ∧
        failureStatus status.2 = false ∧ pendingStatus status.2 = false) ∧
      nonzeroErrorToken errors = false ∧ explicitFailureSignal = false := by
  cases hstatus : eventStatus pairs with
  | none =>
    cases explicitFailureSignal <;> cases explicitSuccessSignal <;> simp [rulesFinding, hstatus]
  | some status =>
    simp only [rulesFinding, hstatus, Option.map_some, Option.any_some, Option.isNone_some,
      Option.some.injEq, exists_eq_left']
    cases failureStatus status.2 <;> cases successStatus status.2 <;>
      cases pendingStatus status.2 <;> cases nonzeroErrorToken errors <;>
      cases explicitFailureSignal <;> cases explicitSuccessSignal <;> simp

theorem neutralFinding_eq_none_iff (hfamily : family ≠ .other) :
    neutralFinding family entry evidence true false explicitSuccessSignal = none ↔
      entry.severity ≠ .warning := by
  by_cases hwarning : entry.severity = .warning <;> simp [neutralFinding, hfamily, hwarning]

end

/-- An event of which nothing is to be found: its status reports success, nothing
speaks against it, and it is no warning. -/
structure Unremarkable (host : EventHost) (entry : EventLogEntry) (eventData : List Text)
    (rawXml : Text) : Prop where
  status : ∃ status, eventStatus (eventDataPairs host eventData rawXml) = some status ∧
    successStatus status.2 = true ∧ failureStatus status.2 = false ∧
    pendingStatus status.2 = false
  noError : nonzeroErrorToken (eventErrorTokens host entry eventData rawXml) = false
  noFailure : explicitFailure (diagnosticText entry eventData) = false
  noWarning : entry.severity ≠ .warning

section

variable {host : EventHost} {entry : EventLogEntry} {eventData : List Text} {rawXml : Text}
variable {family : EventFamily}

theorem adapt_citesOnly {finding : DiagnosisFinding}
    (h : finding ∈ (adaptEventEntryForFamily host entry eventData rawXml family).findings) :
    finding.CitesOnly (.event (eventReference host entry eventData rawXml)) := by
  simp only [adaptEventEntryForFamily, Option.mem_toList, Option.or_eq_some_iff] at h
  rcases h with h | ⟨-, h⟩
  · obtain ⟨rules, -, hrules⟩ := Option.bind_eq_some_iff.mp h
    exact rulesFinding_citesOnly hrules
  · exact neutralFinding_citesOnly h

theorem adapt_findings_eq_nil_iff (hfamily : family ≠ .other) :
    (adaptEventEntryForFamily host entry eventData rawXml family).findings = [] ↔
      Unremarkable host entry eventData rawXml := by
  have hrules : ∃ rules, familyRules family = some rules := by
    cases family with
    | other => exact absurd rfl hfamily
    | _ => exact ⟨_, rfl⟩
  obtain ⟨rules, hrules⟩ := hrules
  simp only [adaptEventEntryForFamily, Option.toList_eq_nil_iff, Option.or_eq_none_iff,
    operationalEventFinding, hrules, Option.bind_some, rulesFinding_eq_none_iff]
  constructor
  · rintro ⟨⟨⟨status, hstatus, hsuccess, hrest⟩, herror, hfailure⟩, hneutral⟩
    rw [hstatus, Option.any_some, hsuccess, hfailure, neutralFinding_eq_none_iff hfamily]
      at hneutral
    exact ⟨⟨status, hstatus, hsuccess, hrest⟩, herror, hfailure, hneutral⟩
  · rintro ⟨⟨status, hstatus, hsuccess, hrest⟩, herror, hfailure, hwarning⟩
    refine ⟨⟨⟨status, hstatus, hsuccess, hrest⟩, herror, hfailure⟩, ?_⟩
    rw [hstatus, Option.any_some, hsuccess, hfailure, neutralFinding_eq_none_iff hfamily]
    exact hwarning

end

end Diagnosis
end CmTrace
