import CmTrace.Diagnosis.Accumulator
import CmTrace.Diagnosis.Display

/-!
# A summary within its budget

Of each kind of row a hundred are kept at most, cut down and masked.  When that left
something out, or the summary is too large, a finding and a gap that say so are put in
front, and the largest of the last rows is taken out until the summary fits.
-/

namespace CmTrace
namespace Diagnosis

open Text

def maxDiagnosisResponseRows : Nat := 100
def maxDiagnosisResponseBytes : Nat := 8 * 1024 * 1024
def diagnosisResponseProjectionSource : Text := "diagnosis-response-projection".toList
def usizeMax : Nat := 2 ^ 64 - 1

/-- Rows of each kind. -/
structure RowTotals where
  findings : Nat
  evidence : Nat
  coverageGaps : Nat
  correlations : Nat
  events : Nat
  deriving DecidableEq, Repr

def DiagnosisSummary.rowTotals (summary : DiagnosisSummary) : RowTotals where
  findings := summary.findings.length
  evidence := summary.evidence.length
  coverageGaps := summary.coverageGaps.length
  correlations := summary.correlations.length
  events := summary.events.length

def RowTotals.without (totals kept : RowTotals) : RowTotals where
  findings := totals.findings - kept.findings
  evidence := totals.evidence - kept.evidence
  coverageGaps := totals.coverageGaps - kept.coverageGaps
  correlations := totals.correlations - kept.correlations
  events := totals.events - kept.events

def formatted (first : String) (rest : List (Nat × String)) : Text :=
  first.toList ++ rest.flatMap fun part => decimal part.1 ++ part.2.toList

/-- How many rows are left out and of how many, and what was cut down. -/
def projectionNumbers (omitted totals : RowTotals) (stats : DiagnosisDisplayProjectionStats) :
    List (Nat × String) :=
  [(omitted.findings, " of "), (totals.findings, " findings, "),
    (omitted.evidence, " of "), (totals.evidence, " evidence references, "),
    (omitted.coverageGaps, " of "), (totals.coverageGaps, " coverage gaps, "),
    (omitted.correlations, " of "), (totals.correlations, " correlations, and "),
    (omitted.events, " of "), (totals.events, " diagnosed events; compacted "),
    (stats.compactedTextFields, " oversized text fields and omitted "),
    (stats.omittedNestedRows, " nested detail rows. The serialized response is limited to "),
    (maxDiagnosisResponseBytes, " bytes.")]

def projectionDetail (omitted totals : RowTotals) (stats : DiagnosisDisplayProjectionStats) :
    Text :=
  formatted "Bounded diagnosis response omitted " (projectionNumbers omitted totals stats)

def projectionGap (detail : Text) : CoverageGap where
  id := "coverage:".toList ++ diagnosisResponseProjectionSource ++
    ':' :: CoverageState.capped.debugName ++ ':' :: detail
  source := diagnosisResponseProjectionSource
  state := .capped
  detail := detail

/-- The finding that says what was left out, with the one gap that says the same. -/
def projectionFinding (detail : Text) : DiagnosisFinding :=
  findingForCoverage diagnosisResponseProjectionSource .capped detail

theorem projectionFinding_gaps (detail : Text) :
    (projectionFinding detail).coverageGaps = [projectionGap detail] := rfl

/-! ## Rows that are taken out -/

inductive DetailSection where
  | findings
  | evidence
  | coverageGaps
  | correlations
  | events
  deriving DecidableEq, Repr

/-- The bytes of the last row, if more rows are there than must be. -/
def lastRow {A : Type} (keep : Nat) (rows : List A) (write : A → Option Text)
    (kind : DetailSection) : Option (List (Nat × DetailSection)) :=
  if keep < rows.length then
    (rows.getLast?.bind write).map fun row => [(byteLen row, kind)]
  else some []

def detailRows (summary : DiagnosisSummary) : Option (List (Nat × DetailSection)) := do
  let findings ← lastRow 1 summary.findings Wire.finding .findings
  let evidence ← lastRow 0 summary.evidence Wire.evidenceRef .evidence
  let coverageGaps ← lastRow 1 summary.coverageGaps Wire.coverageGap .coverageGaps
  let correlations ← lastRow 0 summary.correlations (fun edge => some (Wire.correlation edge))
    .correlations
  let events ← lastRow 0 summary.events Wire.event .events
  return findings ++ evidence ++ coverageGaps ++ correlations ++ events

def largerRow (best : Option (Nat × DetailSection)) (row : Nat × DetailSection) :
    Option (Nat × DetailSection) :=
  if best.all fun best => best.1 ≤ row.1 then some row else best

def maxByBytes (rows : List (Nat × DetailSection)) : Option (Nat × DetailSection) :=
  rows.foldl largerRow none

theorem largerRow_eq (best : Option (Nat × DetailSection)) (row : Nat × DetailSection) :
    largerRow best row = best ∨ largerRow best row = some row := by
  rw [largerRow]
  split
  · exact .inr rfl
  · exact .inl rfl

def popRow (summary : DiagnosisSummary) : DetailSection → DiagnosisSummary
  | .findings => { summary with findings := summary.findings.dropLast }
  | .evidence => { summary with evidence := summary.evidence.dropLast }
  | .coverageGaps => { summary with coverageGaps := summary.coverageGaps.dropLast }
  | .correlations => { summary with correlations := summary.correlations.dropLast }
  | .events => { summary with events := summary.events.dropLast }

/-- The largest of the last rows is taken out, and counted with its comma. -/
def popLargestDetailRow (summary : DiagnosisSummary) : Option (DiagnosisSummary × Nat) := do
  let rows ← detailRows summary
  let (bytes, kind) ← maxByBytes rows
  return (popRow summary kind, bytes + 1)

/-- A row can be taken out that need not be there. -/
def CanPop (summary : DiagnosisSummary) : DetailSection → Prop
  | .findings => 1 < summary.findings.length
  | .evidence => 0 < summary.evidence.length
  | .coverageGaps => 1 < summary.coverageGaps.length
  | .correlations => 0 < summary.correlations.length
  | .events => 0 < summary.events.length

def DiagnosisSummary.rowCount (summary : DiagnosisSummary) : Nat :=
  summary.findings.length + summary.evidence.length + summary.coverageGaps.length +
    summary.correlations.length + summary.events.length

theorem maxByBytes_mem {rows : List (Nat × DetailSection)} {row : Nat × DetailSection}
    (h : maxByBytes rows = some row) : row ∈ rows := by
  have hfold : ∀ (rows : List (Nat × DetailSection)) (best : Option (Nat × DetailSection)),
      rows.foldl largerRow best = some row → best = some row ∨ row ∈ rows := by
    intro rows
    induction rows with
    | nil => exact fun best hbest => .inl hbest
    | cons first rest ih =>
      intro best hbest
      rcases ih _ hbest with hbest | hmem
      · rcases largerRow_eq best first with hsame | hsame
        · exact .inl (hsame ▸ hbest)
        · rw [hsame, Option.some_inj] at hbest
          exact .inr (hbest ▸ List.mem_cons_self)
      · exact .inr (List.mem_cons_of_mem _ hmem)
  exact (hfold rows none h).resolve_left (by simp)

theorem mem_lastRow {A : Type} {keep : Nat} {rows : List A} {write : A → Option Text}
    {kind : DetailSection} {last : List (Nat × DetailSection)} {row : Nat × DetailSection}
    (h : lastRow keep rows write kind = some last) (hrow : row ∈ last) :
    keep < rows.length ∧ row.2 = kind := by
  rw [lastRow] at h
  split at h
  · rename_i hkeep
    obtain ⟨text, -, rfl⟩ := Option.map_eq_some_iff.mp h
    exact ⟨hkeep, by rw [List.mem_singleton.mp hrow]⟩
  · rw [← Option.some_inj.mp h] at hrow
    exact absurd hrow List.not_mem_nil

theorem popLargestDetailRow_some {summary rest : DiagnosisSummary} {bytes : Nat}
    (h : popLargestDetailRow summary = some (rest, bytes)) :
    ∃ kind, CanPop summary kind ∧ rest = popRow summary kind := by
  obtain ⟨rows, hrows, hmax⟩ := Option.bind_eq_some_iff.mp h
  obtain ⟨row, hlargest, hrest⟩ := Option.bind_eq_some_iff.mp hmax
  refine ⟨row.2, ?_, (congrArg Prod.fst (Option.some_inj.mp hrest)).symm⟩
  obtain ⟨findings, hfindings, hrows⟩ := Option.bind_eq_some_iff.mp hrows
  obtain ⟨evidence, hevidence, hrows⟩ := Option.bind_eq_some_iff.mp hrows
  obtain ⟨gaps, hgaps, hrows⟩ := Option.bind_eq_some_iff.mp hrows
  obtain ⟨correlations, hcorrelations, hrows⟩ := Option.bind_eq_some_iff.mp hrows
  obtain ⟨events, hevents, hrows⟩ := Option.bind_eq_some_iff.mp hrows
  have hmem := maxByBytes_mem hlargest
  rw [← Option.some_inj.mp hrows] at hmem
  simp only [List.mem_append] at hmem
  rcases hmem with (((hmem | hmem) | hmem) | hmem) | hmem
  · obtain ⟨hkeep, hkind⟩ := mem_lastRow hfindings hmem
    exact hkind ▸ hkeep
  · obtain ⟨hkeep, hkind⟩ := mem_lastRow hevidence hmem
    exact hkind ▸ hkeep
  · obtain ⟨hkeep, hkind⟩ := mem_lastRow hgaps hmem
    exact hkind ▸ hkeep
  · obtain ⟨hkeep, hkind⟩ := mem_lastRow hcorrelations hmem
    exact hkind ▸ hkeep
  · obtain ⟨hkeep, hkind⟩ := mem_lastRow hevents hmem
    exact hkind ▸ hkeep

theorem rowCount_popRow {summary : DiagnosisSummary} {kind : DetailSection}
    (h : CanPop summary kind) : (popRow summary kind).rowCount < summary.rowCount := by
  cases kind <;> simp only [CanPop] at h <;>
    simp only [popRow, DiagnosisSummary.rowCount, List.length_dropLast] <;> omega

/-! ## The response -/

/-- Rows are taken out until what is estimated is within the target. -/
def popUntil (target : Nat) (summary : DiagnosisSummary) (estimated : Nat) : DiagnosisSummary :=
  if target < estimated then
    match _h : popLargestDetailRow summary with
    | none => summary
    | some (rest, removed) => popUntil target rest (estimated - removed)
  else summary
termination_by summary.rowCount
decreasing_by
  obtain ⟨kind, hpop, rfl⟩ := popLargestDetailRow_some _h
  exact rowCount_popRow hpop

section Shrink

variable (totals : RowTotals) (stats : DiagnosisDisplayProjectionStats)

/-- The first finding and the first gap say what is left out now. -/
def updateProjectionDetail (summary : DiagnosisSummary) : DiagnosisSummary :=
  let detail := projectionDetail (totals.without summary.rowTotals) totals stats
  { summary with
    findings := summary.findings.set 0 (projectionFinding detail)
    coverageGaps := summary.coverageGaps.set 0 (projectionGap detail) }

theorem rowTotals_update (summary : DiagnosisSummary) :
    (updateProjectionDetail totals stats summary).rowTotals = summary.rowTotals := by
  simp [updateProjectionDetail, DiagnosisSummary.rowTotals]

theorem rowCount_update (summary : DiagnosisSummary) :
    (updateProjectionDetail totals stats summary).rowCount = summary.rowCount := by
  simp [updateProjectionDetail, DiagnosisSummary.rowCount]

def TooLarge (summary : DiagnosisSummary) : Prop :=
  maxDiagnosisResponseBytes < (serializedLen summary).getD usizeMax

instance (summary : DiagnosisSummary) : Decidable (TooLarge summary) :=
  inferInstanceAs (Decidable (_ < _))

/-- Rows are taken out, one after another, until the summary fits. -/
def shrinkToFit (summary : DiagnosisSummary) : DiagnosisSummary :=
  if TooLarge summary then
    match _h : popLargestDetailRow summary with
    | none => summary
    | some (rest, _) => shrinkToFit (updateProjectionDetail totals stats rest)
  else summary
termination_by summary.rowCount
decreasing_by
  obtain ⟨kind, hpop, rfl⟩ := popLargestDetailRow_some _h
  rw [rowCount_update]
  exact rowCount_popRow hpop

end Shrink

def truncateRows (summary : DiagnosisSummary) : DiagnosisSummary :=
  { summary with
    findings := summary.findings.take maxDiagnosisResponseRows
    evidence := summary.evidence.take maxDiagnosisResponseRows
    coverageGaps := summary.coverageGaps.take maxDiagnosisResponseRows
    correlations := summary.correlations.take maxDiagnosisResponseRows
    events := summary.events.take maxDiagnosisResponseRows }

def RowTotals.anyOver (totals : RowTotals) (limit : Nat) : Bool :=
  limit < totals.findings || limit < totals.evidence || limit < totals.coverageGaps ||
    limit < totals.correlations || limit < totals.events

def placeNotice (totals : RowTotals) (stats : DiagnosisDisplayProjectionStats)
    (summary : DiagnosisSummary) : DiagnosisSummary :=
  updateProjectionDetail totals stats
    { summary with
      findings := projectionFinding [] :: summary.findings.take (maxDiagnosisResponseRows - 1)
      coverageGaps := projectionGap [] :: summary.coverageGaps.take (maxDiagnosisResponseRows - 1) }

def projectResponse (totals : RowTotals) (stats : DiagnosisDisplayProjectionStats)
    (summary : DiagnosisSummary) : DiagnosisSummary :=
  let placed := placeNotice totals stats summary
  let popped := popUntil (maxDiagnosisResponseBytes - 16 * 1024) placed
    ((serializedLen placed).getD usizeMax)
  shrinkToFit totals stats (updateProjectionDetail totals stats popped)

def countRows (totals : RowTotals) (actionableFindingCount errorTokenEventCount : Nat)
    (summary : DiagnosisSummary) : DiagnosisSummary :=
  { summary with overview := { summary.overview with
      findingCount := totals.findings
      actionableFindingCount := actionableFindingCount
      coverageGapCount := totals.coverageGaps
      evidenceCount := totals.evidence
      correlationCount := totals.correlations
      errorTokenEventCount := errorTokenEventCount } }

def actionableFindings (findings : List DiagnosisFinding) : Nat :=
  (findings.filter fun finding => finding.findingClass ≠ .coverageGap).length

def errorTokenEvents (events : List EventDiagnosis) : Nat :=
  (events.filter fun event => !event.errorTokens.isEmpty).length

section Bound

variable (host : EventHost) (summary : DiagnosisSummary)

def compactedSummary : Compacted DiagnosisSummary := compactDiagnosisDetails (truncateRows summary)

def displayedSummary : DiagnosisSummary :=
  redactedDisplayProjection host (compactedSummary summary).value

def NeedsProjection : Prop :=
  summary.rowTotals.anyOver maxDiagnosisResponseRows ∨
    0 < (compactedSummary summary).stats.compactedTextFields ∨
    0 < (compactedSummary summary).stats.omittedNestedRows ∨
    TooLarge (displayedSummary host summary)

instance : Decidable (NeedsProjection host summary) :=
  inferInstanceAs (Decidable (_ ∨ _ ∨ _ ∨ _))

/-- All rows, with the notices of a projection. -/
def responseTotals : RowTotals :=
  let projectionRows := if NeedsProjection host summary then 1 else 0
  { summary.rowTotals with
    findings := saturatingAdd usizeMax summary.findings.length projectionRows
    coverageGaps := saturatingAdd usizeMax summary.coverageGaps.length projectionRows }

def boundDiagnosisResponse : DiagnosisSummary :=
  let stats := (compactedSummary summary).stats
  let totals := responseTotals host summary
  let count := countRows totals (actionableFindings summary.findings)
    (errorTokenEvents summary.events)
  if NeedsProjection host summary then
    shrinkToFit totals stats (count (projectResponse totals stats (displayedSummary host summary)))
  else count (displayedSummary host summary)

end Bound

end Diagnosis
end CmTrace
