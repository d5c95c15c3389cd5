import CmTrace.Diagnosis.Adapt
import CmTrace.Machine

/-!
# Accounting for diagnosed events

Events are inspected one by one and kept within two budgets.  An exact record id
that comes with an event is written into the event's reference after the findings
have taken their copies of it.
-/

namespace CmTrace
namespace Diagnosis

open Text Collections

inductive EventDiagnosisDisposition where
  | neutralOther
  | retained
  | omittedRelevant
  deriving DecidableEq, Repr

structure EventDiagnosisProjectionStats where
  inspectedEventCount : Nat := 0
  neutralOtherEventCount : Nat := 0
  relevantEventCount : Nat := 0
  retainedEventCount : Nat := 0
  omittedRelevantEventCount : Nat := 0
  retainedEventBytes : Nat := 0
  omittedRelevantEventBytes : Nat := 0
  deriving DecidableEq, Repr

structure EventDiagnosisProjection where
  events : List EventDiagnosis
  coverageFindings : List DiagnosisFinding
  stats : EventDiagnosisProjectionStats
  deriving DecidableEq, Repr

structure EventDiagnosisAccumulator where
  relevantEventLimit : Nat
  retainedEventByteLimit : Nat
  events : List EventDiagnosis := []
  stats : EventDiagnosisProjectionStats := {}
  deriving DecidableEq, Repr

/-- What is pushed: an event and, of some callers, its exact record id. -/
structure EventPush where
  entry : EventLogEntry
  eventData : List Text := []
  rawXml : Text := []
  recordIdText : Option Text := none
  deriving DecidableEq, Repr

/-- The exact record id goes into the first reference of a diagnosis. -/
def withRecordIdText (recordIdText : Option Text) (diagnosis : EventDiagnosis) : EventDiagnosis :=
  match recordIdText, diagnosis.evidence with
  | some text, .event evidence :: rest =>
    { diagnosis with evidence := .event { evidence with recordIdText := some text } :: rest }
  | _, _ => diagnosis

def diagnose (host : EventHost) (push : EventPush) : EventDiagnosis :=
  withRecordIdText push.recordIdText <|
    adaptEventEntryForFamily host push.entry push.eventData push.rawXml (eventFamily push.entry)

def CoverageState.debugName : CoverageState → Text
  | .covered                        => "Covered".toList
  | .unknown                        => "Unknown".toList
  | .absent                         => "Absent".toList
  | .accessDenied                   => "AccessDenied".toList
  | .capped                         => "Capped".toList
  | .skipped                        => "Skipped".toList
  | .unsupported                    => "Unsupported".toList
  | .malformed                      => "Malformed".toList
  | .parseFailed                    => "ParseFailed".toList
  | .providerDescriptionUnavailable => "ProviderDescriptionUnavailable".toList

def findingForCoverage (source : Text) (state : CoverageState) (detail : Text) :
    DiagnosisFinding where
  findingId := "coverage-gap:".toList ++ source ++ ':' :: detail
  findingClass := .coverageGap
  severity := .info
  confidence := .unknown
  title := source ++ " evidence coverage is incomplete".toList
  summary := detail
  coverageGaps := [
    { id := "coverage:".toList ++ source ++ ':' :: state.debugName ++ ':' :: detail
      source := source
      state := state
      detail := detail }]
  recommendedChecks :=
    ["Collect or grant access to the ".toList ++ source ++ " evidence source.".toList]

namespace EventDiagnosisAccumulator

variable (host : EventHost) (serializedLength : EventDiagnosis → Nat)

def new (relevantEventLimit retainedEventByteLimit : Nat) : EventDiagnosisAccumulator where
  relevantEventLimit := relevantEventLimit
  retainedEventByteLimit := retainedEventByteLimit

def pushNeutral (a : EventDiagnosisAccumulator) : EventDiagnosisAccumulator :=
  { a with stats := { a.stats with
      inspectedEventCount := a.stats.inspectedEventCount + 1
      neutralOtherEventCount := a.stats.neutralOtherEventCount + 1 } }

def pushOmitted (a : EventDiagnosisAccumulator) (serializedBytes : Nat) :
    EventDiagnosisAccumulator :=
  { a with stats := { a.stats with
      inspectedEventCount := a.stats.inspectedEventCount + 1
      relevantEventCount := a.stats.relevantEventCount + 1
      omittedRelevantEventCount := a.stats.omittedRelevantEventCount + 1
      omittedRelevantEventBytes :=
        saturatingAdd u64Max a.stats.omittedRelevantEventBytes serializedBytes } }

def pushRetained (a : EventDiagnosisAccumulator) (diagnosis : EventDiagnosis)
    (serializedBytes : Nat) : EventDiagnosisAccumulator :=
  { a with
    events := a.events ++ [diagnosis]
    stats := { a.stats with
      inspectedEventCount := a.stats.inspectedEventCount + 1
      relevantEventCount := a.stats.relevantEventCount + 1
      retainedEventCount := a.stats.retainedEventCount + 1
      retainedEventBytes := saturatingAdd u64Max a.stats.retainedEventBytes serializedBytes } }

/-- One more event, by count or by bytes, is over the budget. -/
def OverBudget (a : EventDiagnosisAccumulator) (serializedBytes : Nat) : Prop :=
  a.events.length ≥ a.relevantEventLimit ∨
    saturatingAdd u64Max a.stats.retainedEventBytes serializedBytes > a.retainedEventByteLimit

instance (a : EventDiagnosisAccumulator) (serializedBytes : Nat) :
    Decidable (a.OverBudget serializedBytes) :=
  inferInstanceAs (Decidable (_ ∨ _))

def pushWithRecordIdText (a : EventDiagnosisAccumulator) (push : EventPush) :
    EventDiagnosisAccumulator × EventDiagnosisDisposition :=
  if eventFamily push.entry = .other then (a.pushNeutral, .neutralOther)
  else
    let diagnosis := diagnose host push
    let serializedBytes := serializedLength diagnosis
    if a.OverBudget serializedBytes then (a.pushOmitted serializedBytes, .omittedRelevant)
    else (a.pushRetained diagnosis serializedBytes, .retained)

def finish (a : EventDiagnosisAccumulator) : EventDiagnosisProjection where
  events := a.events
  coverageFindings :=
    if a.stats.omittedRelevantEventCount > 0 then
      [findingForCoverage "event-diagnosis-projection".toList .capped
        (decimal a.stats.omittedRelevantEventCount ++ " of ".toList ++
          decimal a.stats.relevantEventCount ++ " diagnostic-family event records (".toList ++
          decimal a.stats.omittedRelevantEventBytes ++
          " serialized bytes) were omitted after retaining ".toList ++
          decimal a.stats.retainedEventCount ++ " records (".toList ++
          decimal a.stats.retainedEventBytes ++ " serialized bytes) within the ".toList ++
          decimal a.relevantEventLimit ++ "-record and ".toList ++
          decimal a.retainedEventByteLimit ++ "-byte diagnosis budgets.".toList)]
    else []
  stats := a.stats

def run (relevantEventLimit retainedEventByteLimit : Nat) (pushes : List EventPush) :
    EventDiagnosisAccumulator :=
  pushes.foldl (fun a push => (a.pushWithRecordIdText host serializedLength push).1)
    (new relevantEventLimit retainedEventByteLimit)

end EventDiagnosisAccumulator

def EventDiagnosisProjection.intoSummary (projection : EventDiagnosisProjection)
    (otherFindings : List DiagnosisFinding) (correlations : List CorrelationEdge) :
    DiagnosisSummary :=
  summarizeCrossSource projection.events (otherFindings ++ projection.coverageFindings)
    correlations

/-! ## One diagnosis -/

def findingReferences (findings : List DiagnosisFinding) : List EvidenceRef :=
  findings.flatMap fun finding => finding.evidence ++ finding.coverageGaps.flatMap (·.evidence)

/-- The findings of an event cite the references of the event. -/
def EventDiagnosis.SelfConsistent (diagnosis : EventDiagnosis) : Prop :=
  ∀ reference ∈ findingReferences diagnosis.findings, reference ∈ diagnosis.evidence

instance (diagnosis : EventDiagnosis) : Decidable diagnosis.SelfConsistent :=
  inferInstanceAs (Decidable (∀ reference ∈ findingReferences diagnosis.findings, _))

/-- The exact record id, where one is given, is the one the adapter writes. -/
def EventPush.OwnIdentity (push : EventPush) : Prop :=
  ∀ text, push.recordIdText = some text → push.entry.id ≠ 0 ∧ text = decimal push.entry.id

def EventPush.KeepsIdentity (host : EventHost) (push : EventPush) : Prop :=
  push.OwnIdentity ∨ Unremarkable host push.entry push.eventData push.rawXml

section

variable {host : EventHost} {push : EventPush}

/-- The reference that the findings have taken copies of. -/
def EventPush.adapted (host : EventHost) (push : EventPush) : EventEvidenceRef :=
  eventReference host push.entry push.eventData push.rawXml

def EventPush.reference (host : EventHost) (push : EventPush) : EventEvidenceRef :=
  { push.adapted host with recordIdText := push.recordIdText.or (push.adapted host).recordIdText }

theorem diagnose_eq : diagnose host push =
    { adaptEventEntryForFamily host push.entry push.eventData push.rawXml
        (eventFamily push.entry) with evidence := [.event (push.reference host)] } := by
  rw [diagnose, EventPush.reference]
  cases push.recordIdText <;> rfl

theorem reference_eq_adapted_iff : push.reference host = push.adapted host ↔ push.OwnIdentity := by
  have hfield : push.reference host = push.adapted host ↔
      push.recordIdText.or (push.adapted host).recordIdText =
        (push.adapted host).recordIdText := by
    constructor
    · intro h
      exact congrArg EventEvidenceRef.recordIdText h
    · intro h
      rw [EventPush.reference, h]
  rw [hfield, EventPush.OwnIdentity, EventPush.adapted, eventReference]
  cases push.recordIdText with
  | none => simp
  | some text => by_cases hid : push.entry.id = 0 <;> simp [hid]

theorem diagnose_citesOnly {finding : DiagnosisFinding}
    (h : finding ∈ (diagnose host push).findings) :
    finding.CitesOnly (.event (push.adapted host)) := by
  rw [diagnose_eq] at h
  exact adapt_citesOnly h

/-- A diagnosis is consistent exactly when its event keeps its identity, or when
nothing is found of it. -/
theorem diagnose_selfConsistent_iff (hfamily : eventFamily push.entry ≠ .other) :
    (diagnose host push).SelfConsistent ↔ push.KeepsIdentity host := by
  have hempty : (diagnose host push).findings = [] ↔
      Unremarkable host push.entry push.eventData push.rawXml := by
    rw [diagnose_eq]
    exact adapt_findings_eq_nil_iff hfamily
  have hown : push.OwnIdentity ↔ push.reference host = push.adapted host :=
    reference_eq_adapted_iff.symm
  have hevidence : (diagnose host push).evidence = [.event (push.reference host)] := by
    rw [diagnose_eq]
  rw [EventPush.KeepsIdentity, ← hempty, hown, EventDiagnosis.SelfConsistent, hevidence]
  constructor
  · intro h
    cases hlist : (diagnose host push).findings with
    | nil => exact .inr rfl
    | cons finding rest =>
      have hmem : finding ∈ (diagnose host push).findings := hlist ▸ List.mem_cons_self ..
      have hcited := h (.event (push.adapted host)) (List.mem_flatMap.mpr
        ⟨finding, hmem, by rw [(diagnose_citesOnly hmem).1]; exact List.mem_cons_self ..⟩)
      exact .inl (EvidenceRef.event.inj (List.mem_singleton.mp hcited)).symm
  · rintro (hown | hnone) reference hcited
    · obtain ⟨finding, hmem, hreference⟩ := List.mem_flatMap.mp hcited
      obtain ⟨hcites, hgaps⟩ := diagnose_citesOnly hmem
      rw [hown]
      rcases List.mem_append.mp hreference with hreference | hreference
      · rwa [hcites] at hreference
      · obtain ⟨gap, hgap, hreference⟩ := List.mem_flatMap.mp hreference
        rwa [hgaps gap hgap] at hreference
    · rw [hnone] at hcited
      exact absurd hcited List.not_mem_nil

end

/-! ## The summary of consistent diagnoses -/

theorem evidenceCount_eq (events : List EventDiagnosis) (findings : List DiagnosisFinding)
    (correlations : List CorrelationEdge) :
    (summarizeCrossSource events findings correlations).overview.evidenceCount =
      ((citedReferences events (allFindings events findings)).map
        EvidenceRef.stableId).dedup.length := by
  have hcount : (summarizeCrossSource events findings correlations).overview.evidenceCount =
      (summarizeCrossSource events findings correlations).evidence.length := rfl
  rw [hcount, summarize_evidence, length_indexed]

/-- Consistent events are filed once for a stable id, and beside them only what other
findings cite. -/
theorem evidenceCount_of_selfConsistent {events : List EventDiagnosis}
    (h : ∀ diagnosis ∈ events, diagnosis.SelfConsistent) (findings : List DiagnosisFinding)
    (correlations : List CorrelationEdge) :
    (summarizeCrossSource events findings correlations).overview.evidenceCount =
      ((events.flatMap (·.evidence) ++ findingReferences findings).map
        EvidenceRef.stableId).dedup.length := by
  rw [evidenceCount_eq]
  refine List.Perm.length_eq ?_
  rw [List.perm_ext_iff_of_nodup (List.nodup_dedup _) (List.nodup_dedup _)]
  intro id
  simp only [List.mem_dedup, List.mem_map]
  refine exists_congr fun reference => and_congr_left fun _ => ?_
  have hcited : citedReferences events (allFindings events findings) =
      events.flatMap (·.evidence) ++ (findingReferences (events.flatMap (·.findings)) ++
        findingReferences findings) := by
    rw [citedReferences, allFindings, findingReferences, findingReferences, List.flatMap_append]
  rw [hcited, List.mem_append, List.mem_append, List.mem_append]
  constructor
  · rintro (hmem | hmem | hmem)
    · exact .inl hmem
    · obtain ⟨finding, hfinding, hreference⟩ := List.mem_flatMap.mp hmem
      obtain ⟨diagnosis, hdiagnosis, hfinding⟩ := List.mem_flatMap.mp hfinding
      exact .inl (List.mem_flatMap.mpr ⟨diagnosis, hdiagnosis, h diagnosis hdiagnosis reference
        (List.mem_flatMap.mpr ⟨finding, hfinding, hreference⟩)⟩)
    · exact .inr hmem
  · rintro (hmem | hmem)
    · exact .inl hmem
    · exact .inr (.inr hmem)

/-! ## Runs -/

namespace EventDiagnosisAccumulator

/-- An accumulator that accounts for the pushes so far, of which it has kept some. -/
structure Accounted (host : EventHost) (serializedLength : EventDiagnosis → Nat)
    (pushes kept : List EventPush) (a : EventDiagnosisAccumulator) : Prop where
  kept_sublist : kept.Sublist (pushes.filter fun push => eventFamily push.entry ≠ .other)
  events : a.events = kept.map (diagnose host)
  inspected : a.stats.inspectedEventCount = pushes.length
  neutral : a.stats.neutralOtherEventCount =
    (pushes.filter fun push => eventFamily push.entry = .other).length
  inspected_split : a.stats.inspectedEventCount =
    a.stats.neutralOtherEventCount + a.stats.relevantEventCount
  relevant_split : a.stats.relevantEventCount =
    a.stats.retainedEventCount + a.stats.omittedRelevantEventCount
  retained : a.stats.retainedEventCount = a.events.length
  bytes : a.stats.retainedEventBytes = min (a.events.map serializedLength).sum u64Max
  retained_le : a.stats.retainedEventCount ≤ a.relevantEventLimit
  bytes_le : a.stats.retainedEventBytes ≤ a.retainedEventByteLimit

section

variable {host : EventHost} {serializedLength : EventDiagnosis → Nat}
variable {pushes kept : List EventPush} {a : EventDiagnosisAccumulator} {push : EventPush}

theorem accounted_new (relevantEventLimit retainedEventByteLimit : Nat) :
    Accounted host serializedLength [] [] (new relevantEventLimit retainedEventByteLimit) where
  kept_sublist := .slnil
  events := rfl
  inspected := rfl
  neutral := rfl
  inspected_split := rfl
  relevant_split := rfl
  retained := rfl
  bytes := rfl
  retained_le := Nat.zero_le _
  bytes_le := Nat.zero_le _

theorem Accounted.pushNeutral (h : Accounted host serializedLength pushes kept a)
    (hfamily : eventFamily push.entry = .other) :
    Accounted host serializedLength (pushes ++ [push]) kept a.pushNeutral where
  kept_sublist := by
    rw [List.filter_append]
    exact h.kept_sublist.trans (List.sublist_append_left _ _)
  events := h.events
  inspected := by simp [EventDiagnosisAccumulator.pushNeutral, h.inspected]
  neutral := by simp [EventDiagnosisAccumulator.pushNeutral, h.neutral, hfamily]
  inspected_split := by
    have hsplit := h.inspected_split
    simp only [EventDiagnosisAccumulator.pushNeutral]
    omega
  relevant_split := h.relevant_split
  retained := h.retained
  bytes := h.bytes
  retained_le := h.retained_le
  bytes_le := h.bytes_le

theorem Accounted.pushOmitted (h : Accounted host serializedLength pushes kept a)
    (hfamily : eventFamily push.entry ≠ .other) (serializedBytes : Nat) :
    Accounted host serializedLength (pushes ++ [push]) kept (a.pushOmitted serializedBytes) where
  kept_sublist := by
    rw [List.filter_append]
    exact h.kept_sublist.trans (List.sublist_append_left _ _)
  events := h.events
  inspected := by simp [EventDiagnosisAccumulator.pushOmitted, h.inspected]
  neutral := by simp [EventDiagnosisAccumulator.pushOmitted, h.neutral, hfamily]
  inspected_split := by
    have hsplit := h.inspected_split
    simp only [EventDiagnosisAccumulator.pushOmitted]
    omega
  relevant_split := by
    have hsplit := h.relevant_split
    simp only [EventDiagnosisAccumulator.pushOmitted]
    omega
  retained := h.retained
  bytes := h.bytes
  retained_le := h.retained_le
  bytes_le := h.bytes_le

theorem Accounted.pushRetained (h : Accounted host serializedLength pushes kept a)
    (hfamily : eventFamily push.entry ≠ .other)
    (hbudget : ¬ a.OverBudget (serializedLength (diagnose host push))) :
    Accounted host serializedLength (pushes ++ [push]) (kept ++ [push])
      (a.pushRetained (diagnose host push) (serializedLength (diagnose host push))) := by
  obtain ⟨hcount, hbytes⟩ := not_or.mp hbudget
  refine ⟨?_, ?_, ?_, ?_, ?_, ?_, ?_, ?_, ?_, ?_⟩
  · rw [List.filter_append]
    exact h.kept_sublist.append (by simp [hfamily])
  · simp [EventDiagnosisAccumulator.pushRetained, h.events]
  · simp [EventDiagnosisAccumulator.pushRetained, h.inspected]
  · simp [EventDiagnosisAccumulator.pushRetained, h.neutral, hfamily]
  · have hsplit := h.inspected_split
    simp only [EventDiagnosisAccumulator.pushRetained]
    omega
  · have hsplit := h.relevant_split
    simp only [EventDiagnosisAccumulator.pushRetained]
    omega
  · simp [EventDiagnosisAccumulator.pushRetained, h.retained]
  · have hsum := h.bytes
    simp only [EventDiagnosisAccumulator.pushRetained, saturatingAdd, List.map_append,
      List.sum_append, List.map_singleton, List.sum_singleton]
    omega
  · have hretained := h.retained
    simp only [EventDiagnosisAccumulator.pushRetained]
    omega
  · simp only [EventDiagnosisAccumulator.pushRetained]
    omega

theorem Accounted.step (h : Accounted host serializedLength pushes kept a) :
    ∃ kept, Accounted host serializedLength (pushes ++ [push]) kept
      (a.pushWithRecordIdText host serializedLength push).1 := by
  simp only [pushWithRecordIdText]
  split_ifs with hfamily hbudget
  · exact ⟨kept, h.pushNeutral hfamily⟩
  · exact ⟨kept, h.pushOmitted hfamily _⟩
  · exact ⟨kept ++ [push], h.pushRetained hfamily hbudget⟩

theorem push_limits : ((a.pushWithRecordIdText host serializedLength push).1.relevantEventLimit =
      a.relevantEventLimit) ∧
    (a.pushWithRecordIdText host serializedLength push).1.retainedEventByteLimit =
      a.retainedEventByteLimit := by
  simp only [pushWithRecordIdText]
  split_ifs <;> exact ⟨rfl, rfl⟩

theorem run_concat (relevantEventLimit retainedEventByteLimit : Nat) (pushes : List EventPush)
    (push : EventPush) :
    run host serializedLength relevantEventLimit retainedEventByteLimit (pushes ++ [push]) =
      ((run host serializedLength relevantEventLimit retainedEventByteLimit
        pushes).pushWithRecordIdText host serializedLength push).1 := by
  rw [run, List.foldl_append]
  rfl

theorem run_limits (relevantEventLimit retainedEventByteLimit : Nat) (pushes : List EventPush) :
    let a := run host serializedLength relevantEventLimit retainedEventByteLimit pushes
    a.relevantEventLimit = relevantEventLimit ∧
      a.retainedEventByteLimit = retainedEventByteLimit := by
  induction pushes using List.reverseRecOn with
  | nil => exact ⟨rfl, rfl⟩
  | append_singleton pushes push ih =>
    simp only [run_concat, push_limits]
    exact ih

variable (host serializedLength) in
theorem run_accounted (relevantEventLimit retainedEventByteLimit : Nat)
    (pushes : List EventPush) :
    ∃ kept, Accounted host serializedLength pushes kept
      (run host serializedLength relevantEventLimit retainedEventByteLimit pushes) := by
  induction pushes using List.reverseRecOn with
  | nil => exact ⟨[], accounted_new _ _⟩
  | append_singleton pushes push ih =>
    obtain ⟨kept, h⟩ := ih
    rw [run_concat]
    exact h.step

/-- Bytes are added up exactly, unless all that can be counted is allowed and the sum
is more. -/
theorem Accounted.bytes_exact (h : Accounted host serializedLength pushes kept a)
    (hfits : a.retainedEventByteLimit < u64Max ∨
      (a.events.map serializedLength).sum ≤ u64Max) :
    a.stats.retainedEventBytes = (a.events.map serializedLength).sum := by
  have hbytes := h.bytes
  have hle := h.bytes_le
  omega

end

def ReportsCapped (projection : EventDiagnosisProjection) : Prop :=
  ∃ finding ∈ projection.coverageFindings, ∃ gap ∈ finding.coverageGaps, gap.state = .capped

theorem finish_reportsCapped_iff (a : EventDiagnosisAccumulator) :
    ReportsCapped a.finish ↔ 0 < a.stats.omittedRelevantEventCount := by
  rw [ReportsCapped, finish]
  split_ifs with homitted
  · refine ⟨fun _ => homitted, fun _ => ?_⟩
    exact ⟨_, List.mem_cons_self .., _, List.mem_cons_self .., rfl⟩
  · constructor
    · rintro ⟨finding, hfinding, -⟩
      exact absurd hfinding List.not_mem_nil
    · exact fun h => absurd h homitted

theorem finish_references (a : EventDiagnosisAccumulator) :
    findingReferences a.finish.coverageFindings = [] := by
  rw [finish]
  split_ifs <;> rfl

/-- Counts and bytes are exact over every run, and the findings of what is kept cite
the references of their events exactly when those events keep their identity; the
summary then files each event once. -/
theorem run_exact (host : EventHost) (serializedLength : EventDiagnosis → Nat)
    (relevantEventLimit retainedEventByteLimit : Nat) (pushes : List EventPush) :
    let a := run host serializedLength relevantEventLimit retainedEventByteLimit pushes
    ∃ kept, Accounted host serializedLength pushes kept a ∧
      (a.relevantEventLimit = relevantEventLimit ∧
        a.retainedEventByteLimit = retainedEventByteLimit) ∧
      (retainedEventByteLimit < u64Max ∨ (a.events.map serializedLength).sum ≤ u64Max →
        a.stats.retainedEventBytes = (a.events.map serializedLength).sum) ∧
      (ReportsCapped a.finish ↔ 0 < a.stats.omittedRelevantEventCount) ∧
      ((∀ diagnosis ∈ a.finish.events, diagnosis.SelfConsistent) ↔
        ∀ push ∈ kept, push.KeepsIdentity host) ∧
      ((∀ push ∈ pushes, push.KeepsIdentity host) →
        (∀ diagnosis ∈ a.finish.events, diagnosis.SelfConsistent) ∧
        ∀ otherFindings correlations,
          (a.finish.intoSummary otherFindings correlations).overview.evidenceCount =
            ((a.finish.events.flatMap (·.evidence) ++ findingReferences otherFindings).map
              EvidenceRef.stableId).dedup.length) := by
  intro a
  obtain ⟨kept, h⟩ := run_accounted host serializedLength relevantEventLimit
    retainedEventByteLimit pushes
  have hlimits : a.relevantEventLimit = relevantEventLimit ∧
      a.retainedEventByteLimit = retainedEventByteLimit := run_limits _ _ _
  have hconsistent : (∀ diagnosis ∈ a.finish.events, diagnosis.SelfConsistent) ↔
      ∀ push ∈ kept, push.KeepsIdentity host := by
    have hevents : a.finish.events = kept.map (diagnose host) := h.events
    rw [hevents, List.forall_mem_map]
    refine forall₂_congr fun push hpush => diagnose_selfConsistent_iff ?_
    simpa using (List.mem_filter.mp (h.kept_sublist.subset hpush)).2
  refine ⟨kept, h, hlimits,
    fun hfits => h.bytes_exact (hfits.imp_left fun hlt => hlimits.2.trans_lt hlt),
    finish_reportsCapped_iff a, hconsistent, fun hall => ?_⟩
  have hkept : ∀ diagnosis ∈ a.finish.events, diagnosis.SelfConsistent :=
    hconsistent.mpr fun push hpush =>
      hall push (List.mem_filter.mp (h.kept_sublist.subset hpush)).1
  refine ⟨hkept, fun otherFindings correlations => ?_⟩
  have hreferences : findingReferences (otherFindings ++ a.finish.coverageFindings) =
      findingReferences otherFindings := by
    rw [findingReferences, List.flatMap_append]
    exact (congrArg _ (finish_references a)).trans (List.append_nil _)
  rw [EventDiagnosisProjection.intoSummary, evidenceCount_of_selfConsistent hkept, hreferences]

/-- Libraries as they behave on a message without codes, names or markup. -/
def plainHost : EventHost where
  sha256 _ := []
  errorCodes := []
  errorTokenMatches _ := []
  redactText text := text
  redactDiagnosticXml text := text
  xmlStatusCaptures _ := none

/-- A failed operation whose record id is written with zeros before it. -/
def paddedPush : EventPush where
  entry := {
    id := 7
    channel := .autopilot
    channelDisplay := "Autopilot".toList
    provider := "Autopilot".toList
    eventId := 171
    severity := .error
    timestamp := "2026-01-01T00:00:00Z".toList
    message := "Profile assignment failed".toList
    sourceFile := "System.evtx".toList }
  recordIdText := some "007".toList

/-- The event goes by one id and its finding by another, and the summary counts two. -/
theorem padded_id_counted_twice :
    let a := run plainHost (fun _ => 790) 10 100000 [paddedPush]
    (∃ diagnosis ∈ a.finish.events, ¬ diagnosis.SelfConsistent) ∧
      (a.finish.intoSummary [] []).overview.evidenceCount = 2 := by
  refine ⟨by decide +kernel, ?_⟩
  rw [EventDiagnosisProjection.intoSummary, evidenceCount_eq]
  decide +kernel

end EventDiagnosisAccumulator

end Diagnosis
end CmTrace
