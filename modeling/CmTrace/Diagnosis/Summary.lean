import CmTrace.Collections.Keyed
import CmTrace.Sccm.Catalog
import CmTrace.Text.Number
import CmTrace.Timeline.Observation

/-!
# A summary of events and text findings

The summary keeps the findings as they come, files the references they cite by
stable id, and keeps one gap for a gap id.  A reference is lost exactly when
another one has its id; what a gap says is lost exactly when no gap that is the
first with its id says it.
-/

namespace CmTrace
namespace Diagnosis

open Std Text Collections
open Timeline (textOrder)
open Sccm (SccmEvidenceRef)

/-! ## References to evidence -/

structure IntuneEvidenceRef where
  evidenceId : Text
  sourceArtifactId : Text
  deriving DecidableEq, Repr

structure EspEvidenceRef where
  evidenceId : Text
  sourceArtifactId : Text
  deriving DecidableEq, Repr

/-- The place of an entry of a text log. -/
structure TextLogEvidenceRef where
  source : Text
  filePath : Text
  lineNumber : Nat
  entryId : Nat
  deriving DecidableEq, Repr

/-- The place of a record of an event log. -/
structure EventEvidenceRef where
  source : Text
  provider : Text
  eventId : Nat
  recordId : Nat
  recordIdText : Option Text := none
  fallbackIdentity : Option Text := none
  machine : Option Text := none
  channel : Option Text := none
  activityId : Option Text := none
  deriving DecidableEq, Repr

namespace TextLogEvidenceRef

def stableId (value : TextLogEvidenceRef) : Text :=
  "text:".toList ++ value.filePath ++ ':' :: decimal value.lineNumber ++ ':' :: decimal value.entryId

end TextLogEvidenceRef

namespace EventEvidenceRef

/-- A record id that is written, and not as zeros, before a fallback, before the
number. -/
def recordIdentity (value : EventEvidenceRef) : Text :=
  let written := value.recordIdText.filter fun text =>
    !(trim text).isEmpty && (trim text).any fun character => character != '0'
  (written.or value.fallbackIdentity).getD (decimal value.recordId)

def stableId (value : EventEvidenceRef) : Text :=
  [value.source, value.machine.getD [], value.channel.getD [], value.provider,
    decimal value.eventId, value.recordIdentity].foldl
      (fun id part => id ++ decimal (byteLen part) ++ ':' :: part) "event:".toList

end EventEvidenceRef

inductive EvidenceRef where
  | intune (value : IntuneEvidenceRef)
  | esp (value : EspEvidenceRef)
  | sccm (value : SccmEvidenceRef)
  | dsregcmdRaw (value : Text)
  | textLog (value : TextLogEvidenceRef)
  | event (value : EventEvidenceRef)
  deriving DecidableEq, Repr

namespace EvidenceRef

def stableId : EvidenceRef → Text
  | intune value => "intune:".toList ++ value.sourceArtifactId ++ ':' :: value.evidenceId
  | esp value => "esp:".toList ++ value.sourceArtifactId ++ ':' :: value.evidenceId
  | sccm value => "sccm:".toList ++ value.artifactId ++ ':' :: value.entryId
  | dsregcmdRaw value => "dsregcmd:".toList ++ value
  | textLog value => value.stableId
  | event value => value.stableId

end EvidenceRef

/-! ## Findings -/

inductive CoverageState where
  | covered
  | unknown
  | absent
  | accessDenied
  | capped
  | skipped
  | unsupported
  | malformed
  | parseFailed
  | providerDescriptionUnavailable
  deriving DecidableEq, Repr

structure CoverageGap where
  id : Text
  source : Text
  state : CoverageState
  detail : Text
  evidence : List EvidenceRef := []
  deriving DecidableEq, Repr

inductive FindingClass where
  | confirmedFailure
  | likelyContributor
  | symptom
  | recovered
  | contradictoryEvidence
  | coverageGap
  | unknown
  deriving DecidableEq, Repr

inductive FindingSeverity where
  | info
  | warning
  | error
  | critical
  deriving DecidableEq, Repr

inductive FindingConfidence where
  | unknown
  | low
  | medium
  | high
  deriving DecidableEq, Repr

structure DiagnosisFinding where
  findingId : Text
  findingClass : FindingClass
  severity : FindingSeverity
  confidence : FindingConfidence
  title : Text
  summary : Text
  evidence : List EvidenceRef := []
  coverageGaps : List CoverageGap := []
  recommendedChecks : List Text := []
  deriving DecidableEq, Repr

structure ErrorToken where
  raw : Text
  decimal : Option Int
  hex : Option Text
  malformed : Bool
  found : Bool
  description : Option Text
  category : Option Text
  deriving DecidableEq, Repr

inductive EventFamily where
  | autopilot
  | esp
  | mdmEnrollment
  | configMgrClient
  | other
  deriving DecidableEq, Repr

structure EventDiagnosis where
  evidence : List EvidenceRef
  family : EventFamily
  findings : List DiagnosisFinding := []
  errorTokens : List ErrorToken := []
  deriving DecidableEq, Repr

inductive CorrelationBasis where
  | exactIdentifier
  | candidateIdentifier
  | timestampOnly
  deriving DecidableEq, Repr

inductive CorrelationStatus where
  | exact
  | candidate
  | ambiguous
  | coverageBlocked
  | notCausal
  deriving DecidableEq, Repr

structure CorrelationEvidence where
  originId : Text
  field : Text
  value : Text
  deriving DecidableEq, Repr

structure CorrelationEdge where
  left : Text
  right : Option Text
  basis : CorrelationBasis
  status : CorrelationStatus
  candidateIds : List Text := []
  evidence : List CorrelationEvidence := []
  deriving DecidableEq, Repr

structure DiagnosisOverview where
  outcome : Text
  headline : Text
  findingCount : Nat
  actionableFindingCount : Nat
  coverageGapCount : Nat
  evidenceCount : Nat
  correlationCount : Nat
  errorTokenEventCount : Nat
  deriving DecidableEq, Repr

structure DiagnosisSummary where
  findings : List DiagnosisFinding
  evidence : List EvidenceRef
  coverageGaps : List CoverageGap
  correlations : List CorrelationEdge
  events : List EventDiagnosis
  overview : DiagnosisOverview
  deriving DecidableEq, Repr

/-! ## The summary -/

def normalizeCorrelation (edge : CorrelationEdge) : CorrelationEdge :=
  let edge :=
    if edge.basis = .timestampOnly ∧ edge.status = .exact then { edge with status := .ambiguous }
    else edge
  if edge.basis = .candidateIdentifier ∧ edge.status = .exact then { edge with status := .candidate }
  else edge

/-- The name and the headline of an outcome, by the precedence of the classes. -/
def selectOutcome (findings : List DiagnosisFinding) (coverageGaps : List CoverageGap) :
    Text × Text :=
  if findings.any fun finding => finding.findingClass = .contradictoryEvidence then
    ("contradictoryEvidence".toList,
      "Evidence contains contradictory outcomes; no terminal conclusion is asserted.".toList)
  else if findings.any fun finding => finding.findingClass = .confirmedFailure then
    ("confirmedFailure".toList, "Evidence contains confirmed operational failure(s).".toList)
  else if findings.any fun finding =>
      finding.findingClass = .likelyContributor ∨ finding.findingClass = .symptom ∨
        finding.findingClass = .recovered then
    ("symptomsOnly".toList,
      "Evidence contains symptoms or contributing signals but no confirmed failure.".toList)
  else if !coverageGaps.isEmpty then
    ("insufficientEvidence".toList,
      "Evidence is insufficient to determine whether issues are present.".toList)
  else ("noFindings".toList, "No issues detected.".toList)

abbrev EvidenceIndex := TreeMap Text EvidenceRef textOrder

/-- References filed by stable id, each in place of an earlier one. -/
def insertReferences (evidence : EvidenceIndex) (references : List EvidenceRef) : EvidenceIndex :=
  insertAll EvidenceRef.stableId evidence references

def sortGaps (gaps : List CoverageGap) : List CoverageGap :=
  dedupBy (fun left right => left.id = right.id) (sortBy (orderOn textOrder (·.id)) gaps)

def summarizeCrossSource (events : List EventDiagnosis) (textFindings : List DiagnosisFinding)
    (correlations : List CorrelationEdge) : DiagnosisSummary :=
  let findings := events.flatMap (·.findings) ++ textFindings
  let evidence := events.foldl (fun evidence event => insertReferences evidence event.evidence) ∅
  let evidence := findings.foldl (fun evidence finding =>
    finding.coverageGaps.foldl (fun evidence gap => insertReferences evidence gap.evidence)
      (insertReferences evidence finding.evidence)) evidence
  let coverageGaps := sortGaps (findings.flatMap (·.coverageGaps))
  let correlations := correlations.map normalizeCorrelation
  let outcome := selectOutcome findings coverageGaps
  { findings := findings
    evidence := indexed evidence
    coverageGaps := coverageGaps
    correlations := correlations
    events := events
    overview := {
      outcome := outcome.1
      headline := outcome.2
      findingCount := findings.length
      actionableFindingCount :=
        (findings.filter fun finding => finding.findingClass ≠ .coverageGap).length
      coverageGapCount := coverageGaps.length
      evidenceCount := (indexed evidence).length
      correlationCount := correlations.length
      errorTokenEventCount := (events.filter fun event => !event.errorTokens.isEmpty).length } }

/-! ## What a summary must keep -/

def allFindings (events : List EventDiagnosis) (textFindings : List DiagnosisFinding) :
    List DiagnosisFinding :=
  events.flatMap (·.findings) ++ textFindings

def allGaps (findings : List DiagnosisFinding) : List CoverageGap := findings.flatMap (·.coverageGaps)

/-- References cited by events, by findings and by the gaps of findings. -/
def citedReferences (events : List EventDiagnosis) (findings : List DiagnosisFinding) :
    List EvidenceRef :=
  events.flatMap (·.evidence) ++ findings.flatMap fun finding =>
    finding.evidence ++ finding.coverageGaps.flatMap (·.evidence)

def CoverageGap.content (gap : CoverageGap) : Text × CoverageState × Text :=
  (gap.source, gap.state, gap.detail)

/-- Outcomes, the one of highest precedence first. -/
inductive Outcome where
  | contradictoryEvidence
  | confirmedFailure
  | symptomsOnly
  | insufficientEvidence
  | noFindings
  deriving DecidableEq, Repr

namespace Outcome

def rank : Outcome → Nat
  | contradictoryEvidence => 0
  | confirmedFailure      => 1
  | symptomsOnly          => 2
  | insufficientEvidence  => 3
  | noFindings            => 4

def label : Outcome → Text
  | contradictoryEvidence => "contradictoryEvidence".toList
  | confirmedFailure      => "confirmedFailure".toList
  | symptomsOnly          => "symptomsOnly".toList
  | insufficientEvidence  => "insufficientEvidence".toList
  | noFindings            => "noFindings".toList

end Outcome

/-- What a finding is a sign of.  Evidence is insufficient by the gaps that a
finding has, whatever its class. -/
def DiagnosisFinding.Shows (finding : DiagnosisFinding) : Outcome → Prop
  | .contradictoryEvidence => finding.findingClass = .contradictoryEvidence
  | .confirmedFailure => finding.findingClass = .confirmedFailure
  | .symptomsOnly => finding.findingClass ∈
      [FindingClass.likelyContributor, FindingClass.symptom, FindingClass.recovered]
  | .insufficientEvidence => finding.coverageGaps ≠ []
  | .noFindings => False

/-- An outcome that some finding shows, or none being shown the neutral one, and
none of higher precedence is shown. -/
def Highest (findings : List DiagnosisFinding) (outcome : Outcome) : Prop :=
  (outcome = .noFindings ∨ ∃ finding ∈ findings, finding.Shows outcome) ∧
    ∀ other : Outcome, ∀ finding ∈ findings, finding.Shows other → outcome.rank ≤ other.rank

/-- A summary discards nothing of what it is made from. -/
structure DiscardsNothing (events : List EventDiagnosis) (textFindings : List DiagnosisFinding)
    (summary : DiagnosisSummary) : Prop where
  findings : summary.findings = allFindings events textFindings
  evidence : ∀ reference ∈ citedReferences events (allFindings events textFindings),
    reference ∈ summary.evidence
  evidenceOnce : summary.evidence.Nodup
  gaps : ∀ gap ∈ allGaps (allFindings events textFindings),
    ∃ kept ∈ summary.coverageGaps, kept.content = gap.content
  weakEdges : ∀ edge ∈ summary.correlations,
    edge.basis = .timestampOnly ∨ edge.basis = .candidateIdentifier → edge.status ≠ .exact
  outcome : ∃ outcome : Outcome, Highest (allFindings events textFindings) outcome ∧
    summary.overview.outcome = outcome.label

/-- Cited references that have one stable id are one. -/
def IdsTellReferences (events : List EventDiagnosis) (textFindings : List DiagnosisFinding) : Prop :=
  ∀ a ∈ citedReferences events (allFindings events textFindings),
    ∀ b ∈ citedReferences events (allFindings events textFindings), a.stableId = b.stableId → a = b

/-- What each gap says is said by a gap that is the first with its id. -/
def FirstGapsSay (events : List EventDiagnosis) (textFindings : List DiagnosisFinding) : Prop :=
  let gaps := allGaps (allFindings events textFindings)
  ∀ gap ∈ gaps, ∃ first, gaps.find? (fun other => other.id = first.id) = some first ∧
    first.content = gap.content

/-! ## What is kept -/

section

variable (events : List EventDiagnosis) (textFindings : List DiagnosisFinding)
variable (correlations : List CorrelationEdge)

theorem summarize_evidence : (summarizeCrossSource events textFindings correlations).evidence =
    indexed (insertAll EvidenceRef.stableId (∅ : EvidenceIndex)
      (citedReferences events (allFindings events textFindings))) := by
  have hfinding : ∀ (evidence : EvidenceIndex) (finding : DiagnosisFinding),
      finding.coverageGaps.foldl
          (fun evidence gap => insertAll EvidenceRef.stableId evidence gap.evidence)
          (insertAll EvidenceRef.stableId evidence finding.evidence) =
        insertAll EvidenceRef.stableId evidence
          (finding.evidence ++ finding.coverageGaps.flatMap (·.evidence)) := by
    intro evidence finding
    rw [insertAll_append]
    exact foldl_insertAll _ _ _
  simp only [summarizeCrossSource, insertReferences, hfinding]
  rw [foldl_insertAll, foldl_insertAll, ← insertAll_append]
  rfl

theorem summarize_gaps : (summarizeCrossSource events textFindings correlations).coverageGaps =
    sortGaps (allGaps (allFindings events textFindings)) := rfl

theorem mem_sortGaps {gaps : List CoverageGap} {gap : CoverageGap} :
    gap ∈ sortGaps gaps ↔ gaps.find? (fun other => other.id = gap.id) = some gap :=
  @mem_dedupBy_sortBy _ _ textOrder _ _ _ CoverageGap.id gaps gap

theorem sortGaps_eq_nil {gaps : List CoverageGap} : sortGaps gaps = [] ↔ gaps = [] := by
  constructor
  · intro h
    rw [sortGaps] at h
    cases hs : sortBy (orderOn textOrder (·.id)) gaps with
    | nil =>
      have hlen := (sortBy_perm (orderOn textOrder (·.id)) gaps).length_eq
      rw [hs] at hlen
      exact List.length_eq_zero_iff.mp hlen.symm
    | cons gap rest =>
      rw [hs] at h
      cases h
  · rintro rfl
    simp [sortGaps, sortBy, dedupBy]

theorem normalizeCorrelation_weak (edge : CorrelationEdge)
    (h : (normalizeCorrelation edge).basis = .timestampOnly ∨
      (normalizeCorrelation edge).basis = .candidateIdentifier) :
    (normalizeCorrelation edge).status ≠ .exact := by
  obtain ⟨left, right, basis, status, candidateIds, evidence⟩ := edge
  cases basis with
  | exactIdentifier => simp [normalizeCorrelation] at h
  | candidateIdentifier => cases status <;> simp [normalizeCorrelation]
  | timestampOnly => cases status <;> simp [normalizeCorrelation]

theorem selectOutcome_highest (findings : List DiagnosisFinding) :
    ∃ outcome : Outcome, Highest findings outcome ∧
      (selectOutcome findings (sortGaps (allGaps findings))).1 = outcome.label := by
  have hany : ∀ {outcome : Outcome} {test : DiagnosisFinding → Bool},
      (∀ finding, test finding = true ↔ finding.Shows outcome) →
        (findings.any test = true ↔ ∃ finding ∈ findings, finding.Shows outcome) := by
    intro outcome test htest
    simp only [List.any_eq_true, htest]
  have hcontradictory := @hany .contradictoryEvidence
    (fun finding => finding.findingClass = .contradictoryEvidence) fun _ => decide_eq_true_iff
  have hconfirmed := @hany .confirmedFailure
    (fun finding => finding.findingClass = .confirmedFailure) fun _ => decide_eq_true_iff
  have hsymptoms := @hany .symptomsOnly
    (fun finding => finding.findingClass = .likelyContributor ∨ finding.findingClass = .symptom ∨
      finding.findingClass = .recovered) fun _ => by simp [DiagnosisFinding.Shows]
  have hnone : ∀ {outcome : Outcome}, (¬ ∃ finding ∈ findings, finding.Shows outcome) →
      ∀ finding ∈ findings, ¬ finding.Shows outcome :=
    fun h finding hf hs => h ⟨finding, hf, hs⟩
  have hgaps : sortGaps (allGaps findings) ≠ [] ↔
      ∃ finding ∈ findings, finding.Shows .insufficientEvidence := by
    rw [Ne, sortGaps_eq_nil, allGaps, List.flatMap_eq_nil_iff]
    simp [DiagnosisFinding.Shows]
  rw [selectOutcome]
  by_cases h0 : ∃ finding ∈ findings, finding.Shows .contradictoryEvidence
  · refine ⟨.contradictoryEvidence, ⟨.inr h0, fun other _ _ _ => Nat.zero_le _⟩, ?_⟩
    rw [if_pos (hcontradictory.mpr h0)]
    rfl
  rw [if_neg fun h => h0 (hcontradictory.mp h)]
  by_cases h1 : ∃ finding ∈ findings, finding.Shows .confirmedFailure
  · refine ⟨.confirmedFailure, ⟨.inr h1, fun other finding hf hs => ?_⟩, ?_⟩
    · cases other with
      | contradictoryEvidence => exact absurd hs (hnone h0 finding hf)
      | _ => decide
    · rw [if_pos (hconfirmed.mpr h1)]
      rfl
  rw [if_neg fun h => h1 (hconfirmed.mp h)]
  by_cases h2 : ∃ finding ∈ findings, finding.Shows .symptomsOnly
  · refine ⟨.symptomsOnly, ⟨.inr h2, fun other finding hf hs => ?_⟩, ?_⟩
    · cases other with
      | contradictoryEvidence => exact absurd hs (hnone h0 finding hf)
      | confirmedFailure => exact absurd hs (hnone h1 finding hf)
      | _ => decide
    · rw [if_pos (hsymptoms.mpr h2)]
      rfl
  rw [if_neg fun h => h2 (hsymptoms.mp h)]
  by_cases h3 : ∃ finding ∈ findings, finding.Shows .insufficientEvidence
  · refine ⟨.insufficientEvidence, ⟨.inr h3, fun other finding hf hs => ?_⟩, ?_⟩
    · cases other with
      | contradictoryEvidence => exact absurd hs (hnone h0 finding hf)
      | confirmedFailure => exact absurd hs (hnone h1 finding hf)
      | symptomsOnly => exact absurd hs (hnone h2 finding hf)
      | _ => decide
    · rw [if_pos (by simpa using hgaps.mpr h3)]
      rfl
  · refine ⟨.noFindings, ⟨.inl rfl, fun other finding hf hs => ?_⟩, ?_⟩
    · cases other with
      | contradictoryEvidence => exact absurd hs (hnone h0 finding hf)
      | confirmedFailure => exact absurd hs (hnone h1 finding hf)
      | symptomsOnly => exact absurd hs (hnone h2 finding hf)
      | insufficientEvidence => exact absurd hs (hnone h3 finding hf)
      | noFindings => exact absurd hs id
    · rw [if_neg (by simpa using fun h => h3 (hgaps.mp h))]
      rfl

theorem evidence_kept_iff :
    (∀ reference ∈ citedReferences events (allFindings events textFindings),
      reference ∈ (summarizeCrossSource events textFindings correlations).evidence) ↔
        IdsTellReferences events textFindings := by
  rw [summarize_evidence]
  exact indexed_keeps_iff

theorem gaps_kept_iff :
    (∀ gap ∈ allGaps (allFindings events textFindings),
      ∃ kept ∈ (summarizeCrossSource events textFindings correlations).coverageGaps,
        kept.content = gap.content) ↔ FirstGapsSay events textFindings := by
  simp only [summarize_gaps, mem_sortGaps, FirstGapsSay]

/-- A summary discards nothing exactly when ids tell the cited references apart and
the first gaps with their ids say what all gaps say. -/
theorem summarize_discards_nothing_iff :
    DiscardsNothing events textFindings (summarizeCrossSource events textFindings correlations) ↔
      IdsTellReferences events textFindings ∧ FirstGapsSay events textFindings := by
  constructor
  · intro h
    exact ⟨(evidence_kept_iff events textFindings correlations).mp h.evidence,
      (gaps_kept_iff events textFindings correlations).mp h.gaps⟩
  · rintro ⟨hids, hgaps⟩
    refine ⟨rfl, (evidence_kept_iff events textFindings correlations).mpr hids, ?_,
      (gaps_kept_iff events textFindings correlations).mpr hgaps, ?_, ?_⟩
    · rw [summarize_evidence]
      exact nodup_indexed
    · intro edge hedge
      obtain ⟨given, -, rfl⟩ := List.mem_map.mp hedge
      exact normalizeCorrelation_weak given
    · exact selectOutcome_highest (allFindings events textFindings)

end

/-- A finding that cites one line of a file as it was read from two sources. -/
def twiceRead : DiagnosisFinding where
  findingId := "f".toList
  findingClass := .symptom
  severity := .warning
  confidence := .low
  title := "t".toList
  summary := "s".toList
  evidence := [.textLog ⟨"a".toList, "p".toList, 1, 1⟩, .textLog ⟨"b".toList, "p".toList, 1, 1⟩]

/-- One of the two references is lost, their ids being one. -/
theorem same_id_reference_lost :
    ¬ DiscardsNothing [] [twiceRead] (summarizeCrossSource [] [twiceRead] []) := by
  intro h
  have hids := (evidence_kept_iff [] [twiceRead] []).mp h.evidence
  exact absurd (hids (.textLog ⟨"a".toList, "p".toList, 1, 1⟩) (by decide)
    (.textLog ⟨"b".toList, "p".toList, 1, 1⟩) (by decide) (by decide)) (by decide)

end Diagnosis
end CmTrace
