import CmTrace.Diagnosis.NoticeSize

/-!
# What a bounded summary keeps

Behind its notice each list of rows is the beginning of the list that is shown, however
many rows were taken out, and the notice is of the rows that are there.  Rows are taken
out until the summary fits or none is left that need not be there.
-/

namespace CmTrace
namespace Diagnosis

open Text

/-! ## Rows that stay -/

/-- Notices in front of the beginnings of the lists that are shown. -/
structure Noticed (shown summary : DiagnosisSummary) : Prop where
  findings : ∃ notice n, summary.findings = notice :: shown.findings.take n
  evidence : ∃ n, summary.evidence = shown.evidence.take n
  coverageGaps : ∃ notice n, summary.coverageGaps = notice :: shown.coverageGaps.take n
  correlations : ∃ n, summary.correlations = shown.correlations.take n
  events : ∃ n, summary.events = shown.events.take n

theorem dropLast_take {A : Type} (l : List A) (n : Nat) : ∃ m, (l.take n).dropLast = l.take m := by
  rw [List.dropLast_eq_take, List.take_take]
  exact ⟨_, rfl⟩

section Noticed

variable {shown summary : DiagnosisSummary} {totals : RowTotals}
variable {stats : DiagnosisDisplayProjectionStats}

theorem Noticed.pop (h : Noticed shown summary) {kind : DetailSection}
    (hpop : CanPop summary kind) : Noticed shown (popRow summary kind) := by
  obtain ⟨⟨notice, n, hfindings⟩, ⟨e, hevidence⟩, ⟨gap, g, hgaps⟩, ⟨c, hcorrelations⟩,
    ⟨v, hevents⟩⟩ := h
  -- Behind a notice there is a row to take out.
  have hrest : ∀ {A : Type} {rows rest : List A} {first : A}, rows = first :: rest →
      1 < rows.length → rows.dropLast = first :: rest.dropLast := by
    intro A rows rest first hrows hlength
    rw [hrows, List.dropLast_cons_of_ne_nil]
    rintro rfl
    simp [hrows] at hlength
  cases kind with
  | findings =>
    obtain ⟨m, hm⟩ := dropLast_take shown.findings n
    exact ⟨⟨notice, m, (hrest hfindings hpop).trans (by rw [hm])⟩, ⟨e, hevidence⟩, ⟨gap, g, hgaps⟩,
      ⟨c, hcorrelations⟩, ⟨v, hevents⟩⟩
  | evidence =>
    obtain ⟨m, hm⟩ := dropLast_take shown.evidence e
    exact ⟨⟨notice, n, hfindings⟩, ⟨m, (congrArg List.dropLast hevidence).trans hm⟩,
      ⟨gap, g, hgaps⟩, ⟨c, hcorrelations⟩, ⟨v, hevents⟩⟩
  | coverageGaps =>
    obtain ⟨m, hm⟩ := dropLast_take shown.coverageGaps g
    exact ⟨⟨notice, n, hfindings⟩, ⟨e, hevidence⟩, ⟨gap, m, (hrest hgaps hpop).trans (by rw [hm])⟩,
      ⟨c, hcorrelations⟩, ⟨v, hevents⟩⟩
  | correlations =>
    obtain ⟨m, hm⟩ := dropLast_take shown.correlations c
    exact ⟨⟨notice, n, hfindings⟩, ⟨e, hevidence⟩, ⟨gap, g, hgaps⟩,
      ⟨m, (congrArg List.dropLast hcorrelations).trans hm⟩, ⟨v, hevents⟩⟩
  | events =>
    obtain ⟨m, hm⟩ := dropLast_take shown.events v
    exact ⟨⟨notice, n, hfindings⟩, ⟨e, hevidence⟩, ⟨gap, g, hgaps⟩, ⟨c, hcorrelations⟩,
      ⟨m, (congrArg List.dropLast hevents).trans hm⟩⟩

theorem Noticed.update (h : Noticed shown summary) :
    Noticed shown (updateProjectionDetail totals stats summary) := by
  obtain ⟨⟨notice, n, hfindings⟩, hevidence, ⟨gap, g, hgaps⟩, hcorrelations, hevents⟩ := h
  let detail := projectionDetail (totals.without summary.rowTotals) totals stats
  refine ⟨⟨projectionFinding detail, n, ?_⟩, hevidence, ⟨projectionGap detail, g, ?_⟩,
    hcorrelations, hevents⟩
  · simp only [updateProjectionDetail, hfindings, List.set_cons_zero, detail]
  · simp only [updateProjectionDetail, hgaps, List.set_cons_zero, detail]

theorem noticed_placeNotice : Noticed shown (placeNotice totals stats shown) :=
  Noticed.update ⟨⟨_, _, rfl⟩, ⟨_, (List.take_length).symm⟩, ⟨_, _, rfl⟩,
    ⟨_, (List.take_length).symm⟩, ⟨_, (List.take_length).symm⟩⟩

theorem overview_popRow (summary : DiagnosisSummary) (kind : DetailSection) :
    (popRow summary kind).overview = summary.overview := by
  cases kind <;> rfl

theorem Noticed.popUntil (target : Nat) (h : Noticed shown summary) (estimated : Nat) :
    Noticed shown (popUntil target summary estimated) ∧
      (Diagnosis.popUntil target summary estimated).overview = summary.overview := by
  fun_induction Diagnosis.popUntil target summary estimated with
  | case1 summary estimated hover hnone => exact ⟨h, rfl⟩
  | case2 summary estimated hover rest removed hpop ih =>
    obtain ⟨kind, hcan, rfl⟩ := popLargestDetailRow_some hpop
    obtain ⟨hnoticed, hoverview⟩ := ih (h.pop hcan)
    exact ⟨hnoticed, hoverview.trans (overview_popRow summary kind)⟩
  | case3 summary estimated hover => exact ⟨h, rfl⟩

/-! ## Notices that are up to date -/

theorem update_update (summary : DiagnosisSummary) :
    updateProjectionDetail totals stats (updateProjectionDetail totals stats summary) =
      updateProjectionDetail totals stats summary := by
  rw [updateProjectionDetail, rowTotals_update]
  simp only [updateProjectionDetail, List.set_set]

/-- A summary that was shrunk: it is as large as it may be, or nothing can be taken out. -/
structure Shrunk (totals : RowTotals) (stats : DiagnosisDisplayProjectionStats)
    (shown summary : DiagnosisSummary) : Prop where
  noticed : Noticed shown summary
  upToDate : updateProjectionDetail totals stats summary = summary
  stops : ¬ TooLarge summary ∨ popLargestDetailRow summary = none

theorem shrinkToFit_shrunk (h : Noticed shown summary)
    (hupToDate : updateProjectionDetail totals stats summary = summary) :
    Shrunk totals stats shown (shrinkToFit totals stats summary) ∧
      (shrinkToFit totals stats summary).overview = summary.overview := by
  fun_induction shrinkToFit totals stats summary with
  | case1 summary hlarge hnone => exact ⟨⟨h, hupToDate, .inr hnone⟩, rfl⟩
  | case2 summary hlarge rest removed hpop ih =>
    obtain ⟨kind, hcan, rfl⟩ := popLargestDetailRow_some hpop
    obtain ⟨hshrunk, hoverview⟩ := ih (h.pop hcan).update (update_update _)
    exact ⟨hshrunk, hoverview.trans (overview_popRow summary kind)⟩
  | case3 summary hfits => exact ⟨⟨h, hupToDate, .inl hfits⟩, rfl⟩

end Noticed

/-! ## What can be written -/

namespace Wire

theorem isSome_rows {A : Type} {write : A → Option Text} {values : List A} :
    (rows write values).isSome ↔ ∀ value ∈ values, (write value).isSome := by
  rw [rows, Option.isSome_map]
  induction values with
  | nil => simp
  | cons value values ih =>
    rw [List.mapM_cons, List.forall_mem_cons, ← ih]
    cases write value <;> cases values.mapM write <;> simp

/-- Each row of a summary can be written. -/
structure Writable (s : DiagnosisSummary) : Prop where
  findings : ∀ row ∈ s.findings, (finding row).isSome
  evidence : ∀ row ∈ s.evidence, (evidenceRef row).isSome
  coverageGaps : ∀ row ∈ s.coverageGaps, (coverageGap row).isSome
  events : ∀ row ∈ s.events, (event row).isSome

theorem isSome_summary {s : DiagnosisSummary} : (summary s).isSome ↔ Writable s := by
  have hcorrelations : (rows (fun edge => some (correlation edge)) s.correlations).isSome :=
    isSome_rows.mpr fun _ _ => rfl
  constructor
  · intro h
    obtain ⟨text, htext⟩ := Option.isSome_iff_exists.mp h
    obtain ⟨findings, hfindings, htext⟩ := Option.bind_eq_some_iff.mp htext
    obtain ⟨evidence, hevidence, htext⟩ := Option.bind_eq_some_iff.mp htext
    obtain ⟨gaps, hgaps, htext⟩ := Option.bind_eq_some_iff.mp htext
    obtain ⟨correlations, -, htext⟩ := Option.bind_eq_some_iff.mp htext
    obtain ⟨events, hevents, -⟩ := Option.bind_eq_some_iff.mp htext
    exact ⟨isSome_rows.mp (by rw [hfindings]; rfl), isSome_rows.mp (by rw [hevidence]; rfl),
      isSome_rows.mp (by rw [hgaps]; rfl), isSome_rows.mp (by rw [hevents]; rfl)⟩
  · rintro ⟨hfindings, hevidence, hgaps, hevents⟩
    obtain ⟨findings, hfindings⟩ := Option.isSome_iff_exists.mp (isSome_rows.mpr hfindings)
    obtain ⟨evidence, hevidence⟩ := Option.isSome_iff_exists.mp (isSome_rows.mpr hevidence)
    obtain ⟨gaps, hgaps⟩ := Option.isSome_iff_exists.mp (isSome_rows.mpr hgaps)
    obtain ⟨correlations, hcorrelations⟩ := Option.isSome_iff_exists.mp hcorrelations
    obtain ⟨events, hevents⟩ := Option.isSome_iff_exists.mp (isSome_rows.mpr hevents)
    rw [summary, hfindings, hevidence, hgaps, hcorrelations, hevents]
    rfl

end Wire

section Writable

variable {shown summary : DiagnosisSummary} {totals : RowTotals}
variable {stats : DiagnosisDisplayProjectionStats}

theorem findings_of_update (h : updateProjectionDetail totals stats summary = summary)
    {notice : DiagnosisFinding} {rest : List DiagnosisFinding}
    (hfindings : summary.findings = notice :: rest) : summary.findings =
      projectionFinding (projectionDetail (totals.without summary.rowTotals) totals stats) ::
        rest := by
  have hset := congrArg DiagnosisSummary.findings h
  simp only [updateProjectionDetail, hfindings, List.set_cons_zero] at hset
  rw [hfindings, ← hset]

theorem gaps_of_update (h : updateProjectionDetail totals stats summary = summary)
    {notice : CoverageGap} {rest : List CoverageGap}
    (hgaps : summary.coverageGaps = notice :: rest) : summary.coverageGaps =
      projectionGap (projectionDetail (totals.without summary.rowTotals) totals stats) :: rest := by
  have hset := congrArg DiagnosisSummary.coverageGaps h
  simp only [updateProjectionDetail, hgaps, List.set_cons_zero] at hset
  rw [hgaps, ← hset]

theorem writable_noticed (h : Noticed shown summary)
    (hupToDate : updateProjectionDetail totals stats summary = summary)
    (hshown : Wire.Writable shown) : Wire.Writable summary := by
  obtain ⟨⟨notice, n, hfindings⟩, ⟨e, hevidence⟩, ⟨gap, g, hgaps⟩, -, ⟨v, hevents⟩⟩ := h
  refine ⟨?_, fun row hrow => ?_, ?_, fun row hrow => ?_⟩
  · rw [findings_of_update hupToDate hfindings, List.forall_mem_cons]
    exact ⟨rfl, fun row hrow => hshown.findings row (List.mem_of_mem_take hrow)⟩
  · exact hshown.evidence row (List.mem_of_mem_take (hevidence ▸ hrow))
  · rw [gaps_of_update hupToDate hgaps, List.forall_mem_cons]
    exact ⟨rfl, fun row hrow => hshown.coverageGaps row (List.mem_of_mem_take hrow)⟩
  · exact hshown.events row (List.mem_of_mem_take (hevents ▸ hrow))

theorem lastRow_of_writable {A : Type} {rows : List A} {write : A → Option Text}
    (h : ∀ row ∈ rows, (write row).isSome) (keep : Nat) (kind : DetailSection) :
    ∃ last, lastRow keep rows write kind = some last ∧ (last = [] → rows.length ≤ keep) := by
  rw [lastRow]
  split
  · rename_i hkeep
    have hne : rows ≠ [] := by
      rintro rfl
      simp at hkeep
    obtain ⟨text, htext⟩ := Option.isSome_iff_exists.mp (h _ (List.getLast_mem hne))
    refine ⟨_, by rw [List.getLast?_eq_some_getLast hne, Option.bind_some, htext]; rfl, ?_⟩
    intro hnil
    cases hnil
  · exact ⟨[], rfl, fun _ => by omega⟩

theorem maxByBytes_none {rows : List (Nat × DetailSection)} (h : maxByBytes rows = none) :
    rows = [] := by
  have hfold : ∀ (rows : List (Nat × DetailSection)) (best : Option (Nat × DetailSection)),
      best.isSome → (rows.foldl largerRow best).isSome := by
    intro rows
    induction rows with
    | nil => exact fun _ hbest => hbest
    | cons first rest ih =>
      intro best hbest
      refine ih _ ?_
      rcases largerRow_eq best first with hsame | hsame <;> rw [hsame]
      · exact hbest
      · rfl
  cases rows with
  | nil => rfl
  | cons first rest =>
    have hsome := hfold rest (some first) rfl
    rw [maxByBytes, List.foldl_cons] at h
    have hfirst : largerRow none first = some first := rfl
    rw [hfirst] at h
    rw [h] at hsome
    cases hsome

theorem minimal_of_none (h : Wire.Writable summary) (hnone : popLargestDetailRow summary = none) :
    summary.findings.length ≤ 1 ∧ summary.evidence = [] ∧ summary.coverageGaps.length ≤ 1 ∧
      summary.correlations = [] ∧ summary.events = [] := by
  obtain ⟨findings, hfindings, hf⟩ := lastRow_of_writable h.findings 1 .findings
  obtain ⟨evidence, hevidence, he⟩ := lastRow_of_writable h.evidence 0 .evidence
  obtain ⟨gaps, hgaps, hg⟩ := lastRow_of_writable h.coverageGaps 1 .coverageGaps
  obtain ⟨correlations, hcorrelations, hc⟩ := lastRow_of_writable
    (fun (row : CorrelationEdge) (_ : row ∈ summary.correlations) =>
      (rfl : (some (Wire.correlation row)).isSome = true)) 0 .correlations
  obtain ⟨events, hevents, hv⟩ := lastRow_of_writable h.events 0 .events
  have hrows : detailRows summary =
      some (findings ++ evidence ++ gaps ++ correlations ++ events) := by
    rw [detailRows, hfindings, hevidence, hgaps, hcorrelations, hevents]
    rfl
  have hmax : maxByBytes (findings ++ evidence ++ gaps ++ correlations ++ events) = none := by
    cases hbest : maxByBytes (findings ++ evidence ++ gaps ++ correlations ++ events) with
    | none => rfl
    | some best =>
      rw [popLargestDetailRow, hrows] at hnone
      simp only [Option.bind_eq_bind, Option.bind_some, hbest, Option.pure_def] at hnone
      cases hnone
  have hempty := maxByBytes_none hmax
  simp only [List.append_eq_nil_iff] at hempty
  obtain ⟨⟨⟨⟨hf', he'⟩, hg'⟩, hc'⟩, hv'⟩ := hempty
  exact ⟨hf hf', List.length_eq_zero_iff.mp (Nat.le_zero.mp (he he')), hg hg',
    List.length_eq_zero_iff.mp (Nat.le_zero.mp (hc hc')),
    List.length_eq_zero_iff.mp (Nat.le_zero.mp (hv hv'))⟩

end Writable

/-! ## The response -/

/-- The overview counts the rows that are there, as that of a new summary does. -/
def CountsRows (summary : DiagnosisSummary) : Prop :=
  countRows summary.rowTotals (actionableFindings summary.findings)
    (errorTokenEvents summary.events) summary = summary

/-- Lengths and counts fit a machine word, as those of what is in memory do. -/
structure InMemory (summary : DiagnosisSummary) : Prop where
  findings : summary.findings.length < 2 ^ 63
  evidence : summary.evidence.length < 2 ^ 63
  coverageGaps : summary.coverageGaps.length < 2 ^ 63
  correlations : summary.correlations.length < 2 ^ 63
  events : summary.events.length < 2 ^ 63
  textFields : (compactedSummary summary).stats.compactedTextFields < 2 ^ 64
  nestedRows : (compactedSummary summary).stats.omittedNestedRows < 2 ^ 64

section Response

variable (host : EventHost) (summary : DiagnosisSummary)

def displayMachines : Machines := collectMachines host (compactedSummary summary).value

def displayFinding (finding : DiagnosisFinding) : DiagnosisFinding :=
  redactFinding host (displayMachines host summary) (compactFinding finding).value

def displayEvidence (reference : EvidenceRef) : EvidenceRef :=
  redactEvidence host (displayMachines host summary) (compactEvidence reference).value

def displayGap (gap : CoverageGap) : CoverageGap :=
  redactCoverageGap host (displayMachines host summary) (compactCoverageGap gap).value

def displayCorrelation (edge : CorrelationEdge) : CorrelationEdge :=
  redactCorrelation host (displayMachines host summary) (compactCorrelation edge).value

def displayEvent (event : EventDiagnosis) : EventDiagnosis :=
  redactEvent host (displayMachines host summary) (compactEvent event).value

/-- Of each list of rows the beginning is there, each row as it is displayed, behind the
notices. -/
structure Retained (response : DiagnosisSummary) (kept : RowTotals)
    (notices : List DiagnosisFinding) (gapNotices : List CoverageGap) : Prop where
  findings : response.findings =
    notices ++ (summary.findings.take kept.findings).map (displayFinding host summary)
  evidence : response.evidence =
    (summary.evidence.take kept.evidence).map (displayEvidence host summary)
  coverageGaps : response.coverageGaps =
    gapNotices ++ (summary.coverageGaps.take kept.coverageGaps).map (displayGap host summary)
  correlations : response.correlations =
    (summary.correlations.take kept.correlations).map (displayCorrelation host summary)
  events : response.events = (summary.events.take kept.events).map (displayEvent host summary)

/-- A response is what was kept, with a notice of what was left out if anything was; and
it fits, if it can be written at all and its overview leaves room. -/
structure BoundedResponse (response : DiagnosisSummary) : Prop where
  accounted : Retained host summary response summary.rowTotals [] [] ∨
    ∃ kept : RowTotals, kept.findings ≤ summary.findings.length ∧
      kept.evidence ≤ summary.evidence.length ∧ kept.coverageGaps ≤ summary.coverageGaps.length ∧
      kept.correlations ≤ summary.correlations.length ∧ kept.events ≤ summary.events.length ∧
      let detail := projectionDetail (summary.rowTotals.without kept) (responseTotals host summary)
        (compactedSummary summary).stats
      Retained host summary response kept [projectionFinding detail] [projectionGap detail]
  fits : (Wire.summary (displayedSummary host summary)).isSome → CountsRows summary →
    byteLen (jsonString (displayedSummary host summary).overview.outcome) +
      byteLen (jsonString (displayedSummary host summary).overview.headline) ≤
        maxDiagnosisResponseBytes - 16 * 1024 →
    ∃ n, serializedLen response = some n ∧ n ≤ maxDiagnosisResponseBytes

theorem displayedSummary_eq : displayedSummary host summary =
    { findings := (summary.findings.take maxDiagnosisResponseRows).map (displayFinding host summary)
      evidence := (summary.evidence.take maxDiagnosisResponseRows).map
        (displayEvidence host summary)
      coverageGaps := (summary.coverageGaps.take maxDiagnosisResponseRows).map
        (displayGap host summary)
      correlations := (summary.correlations.take maxDiagnosisResponseRows).map
        (displayCorrelation host summary)
      events := (summary.events.take maxDiagnosisResponseRows).map (displayEvent host summary)
      overview := (displayedSummary host summary).overview } := by
  simp only [displayedSummary, redactedDisplayProjection, compactedSummary,
    compactDiagnosisDetails, Compacted.value_bind, Compacted.value_pure, Compacted.each,
    truncateRows, List.map_map]
  rfl

theorem take_map_take {A B : Type} (l : List A) (f : A → B) (a n : Nat) :
    ∃ k ≤ l.length, ((l.take a).map f).take n = (l.take k).map f := by
  refine ⟨min (min n a) l.length, Nat.min_le_right _ _, ?_⟩
  rw [← List.map_take, List.take_take, ← List.take_eq_take_min]

theorem noticed_retained {response : DiagnosisSummary}
    (h : Noticed (displayedSummary host summary) response)
    (hupToDate : updateProjectionDetail (responseTotals host summary)
      (compactedSummary summary).stats response = response)
    (hneeds : NeedsProjection host summary) (hmemory : InMemory summary) :
    ∃ kept : RowTotals, kept.findings ≤ summary.findings.length ∧
      kept.evidence ≤ summary.evidence.length ∧ kept.coverageGaps ≤ summary.coverageGaps.length ∧
      kept.correlations ≤ summary.correlations.length ∧ kept.events ≤ summary.events.length ∧
      Retained host summary response kept
        [projectionFinding (projectionDetail (summary.rowTotals.without kept)
          (responseTotals host summary) (compactedSummary summary).stats)]
        [projectionGap (projectionDetail (summary.rowTotals.without kept)
          (responseTotals host summary) (compactedSummary summary).stats)] := by
  have hshown := displayedSummary_eq host summary
  obtain ⟨⟨notice, n, hfindings⟩, ⟨e, hevidence⟩, ⟨gap, g, hgaps⟩, ⟨c, hcorrelations⟩,
    ⟨v, hevents⟩⟩ := h
  obtain ⟨kf, hkf, htakef⟩ := take_map_take summary.findings (displayFinding host summary)
    maxDiagnosisResponseRows n
  obtain ⟨ke, hke, htakee⟩ := take_map_take summary.evidence (displayEvidence host summary)
    maxDiagnosisResponseRows e
  obtain ⟨kg, hkg, htakeg⟩ := take_map_take summary.coverageGaps (displayGap host summary)
    maxDiagnosisResponseRows g
  obtain ⟨kc, hkc, htakec⟩ := take_map_take summary.correlations (displayCorrelation host summary)
    maxDiagnosisResponseRows c
  obtain ⟨kv, hkv, htakev⟩ := take_map_take summary.events (displayEvent host summary)
    maxDiagnosisResponseRows v
  rw [hshown] at hfindings hevidence hgaps hcorrelations hevents
  dsimp only at hfindings hevidence hgaps hcorrelations hevents
  rw [htakef] at hfindings
  rw [htakee] at hevidence
  rw [htakeg] at hgaps
  rw [htakec] at hcorrelations
  rw [htakev] at hevents
  have hwithout : (responseTotals host summary).without response.rowTotals =
      summary.rowTotals.without ⟨kf, ke, kg, kc, kv⟩ := by
    have hlf := hmemory.findings
    have hlg := hmemory.coverageGaps
    have htotal : ∀ k : Nat, k < 2 ^ 63 → saturatingAdd usizeMax k 1 = k + 1 := fun k hk =>
      Nat.min_eq_left (by rw [usizeMax]; omega)
    simp only [RowTotals.without, responseTotals, if_pos hneeds, DiagnosisSummary.rowTotals,
      hfindings, hevidence, hgaps, hcorrelations, hevents, List.length_cons, List.length_map,
      List.length_take, htotal _ hlf, htotal _ hlg]
    congr 1 <;> omega
  refine ⟨⟨kf, ke, kg, kc, kv⟩, hkf, hke, hkg, hkc, hkv, ?_, hevidence, ?_, hcorrelations, hevents⟩
  · rw [findings_of_update hupToDate hfindings, hwithout]
    rfl
  · rw [gaps_of_update hupToDate hgaps, hwithout]
    rfl

theorem projectResponse_shrunk (totals : RowTotals) (stats : DiagnosisDisplayProjectionStats)
    (shown : DiagnosisSummary) :
    Shrunk totals stats shown (projectResponse totals stats shown) ∧
      (projectResponse totals stats shown).overview = shown.overview := by
  have hplaced : Noticed shown (placeNotice totals stats shown) := noticed_placeNotice
  obtain ⟨hpopped, hoverview⟩ := hplaced.popUntil (maxDiagnosisResponseBytes - 16 * 1024)
    ((serializedLen (placeNotice totals stats shown)).getD usizeMax)
  have hupdated : Noticed shown (updateProjectionDetail totals stats _) := hpopped.update
  obtain ⟨hshrunk, hsame⟩ := shrinkToFit_shrunk hupdated (update_update _)
  exact ⟨hshrunk, hsame.trans hoverview⟩

theorem update_countRows {totals : RowTotals} {stats : DiagnosisDisplayProjectionStats}
    {response : DiagnosisSummary} (actionable errorTokens : Nat)
    (h : updateProjectionDetail totals stats response = response) :
    updateProjectionDetail totals stats (countRows totals actionable errorTokens response) =
      countRows totals actionable errorTokens response := by
  have hcount : updateProjectionDetail totals stats
      (countRows totals actionable errorTokens response) = countRows totals actionable errorTokens
        (updateProjectionDetail totals stats response) := rfl
  rw [hcount, h]

theorem boundDiagnosisResponse_projected (hneeds : NeedsProjection host summary) :
    Shrunk (responseTotals host summary) (compactedSummary summary).stats
        (displayedSummary host summary) (boundDiagnosisResponse host summary) ∧
      (boundDiagnosisResponse host summary).overview =
        (countRows (responseTotals host summary) (actionableFindings summary.findings)
          (errorTokenEvents summary.events) (displayedSummary host summary)).overview := by
  obtain ⟨hshrunk, hoverview⟩ := projectResponse_shrunk (responseTotals host summary)
    (compactedSummary summary).stats (displayedSummary host summary)
  rw [boundDiagnosisResponse, if_pos hneeds]
  have hnoticed : Noticed (displayedSummary host summary)
      (countRows (responseTotals host summary) (actionableFindings summary.findings)
        (errorTokenEvents summary.events) (projectResponse (responseTotals host summary)
          (compactedSummary summary).stats (displayedSummary host summary))) :=
    ⟨hshrunk.noticed.findings, hshrunk.noticed.evidence, hshrunk.noticed.coverageGaps,
      hshrunk.noticed.correlations, hshrunk.noticed.events⟩
  obtain ⟨hresult, hsame⟩ := shrinkToFit_shrunk hnoticed
    (update_countRows _ _ hshrunk.upToDate)
  refine ⟨hresult, hsame.trans ?_⟩
  simp only [countRows, hoverview]

variable {host summary}

theorem displayed_retained (hneeds : ¬ NeedsProjection host summary) :
    Retained host summary (displayedSummary host summary) summary.rowTotals [] [] := by
  have hrows : summary.rowTotals.anyOver maxDiagnosisResponseRows = false :=
    Bool.eq_false_iff.mpr fun hover => hneeds (.inl hover)
  simp only [RowTotals.anyOver, Bool.or_eq_false_iff, decide_eq_false_iff_not, Nat.not_lt] at hrows
  obtain ⟨⟨⟨⟨hf, he⟩, hg⟩, hc⟩, hv⟩ := hrows
  have hall : ∀ {A : Type} (l : List A), l.length ≤ maxDiagnosisResponseRows →
      l.take maxDiagnosisResponseRows = l.take l.length := by
    intro A l hl
    rw [List.take_of_length_le hl, List.take_length]
  rw [displayedSummary_eq]
  exact ⟨congrArg (List.map _) (hall _ hf), congrArg (List.map _) (hall _ he),
    congrArg (List.map _) (hall _ hg), congrArg (List.map _) (hall _ hc),
    congrArg (List.map _) (hall _ hv)⟩

theorem responseTotals_all (hneeds : ¬ NeedsProjection host summary)
    (hmemory : InMemory summary) : responseTotals host summary = summary.rowTotals := by
  have hword : ∀ n : Nat, n < 2 ^ 63 → n ≤ usizeMax := by
    intro n hn
    have hmax : 2 ^ 63 < usizeMax := by decide
    omega
  rw [responseTotals, if_neg hneeds]
  rw [saturatingAdd_zero (hword _ hmemory.findings),
    saturatingAdd_zero (hword _ hmemory.coverageGaps)]
  rfl

theorem countRows_displayed (h : CountsRows summary) :
    countRows summary.rowTotals (actionableFindings summary.findings)
      (errorTokenEvents summary.events) (displayedSummary host summary) =
        displayedSummary host summary := by
  have h1 : summary.rowTotals.findings = summary.overview.findingCount :=
    congrArg (fun s => s.overview.findingCount) h
  have h2 : actionableFindings summary.findings = summary.overview.actionableFindingCount :=
    congrArg (fun s => s.overview.actionableFindingCount) h
  have h3 : summary.rowTotals.coverageGaps = summary.overview.coverageGapCount :=
    congrArg (fun s => s.overview.coverageGapCount) h
  have h4 : summary.rowTotals.evidence = summary.overview.evidenceCount :=
    congrArg (fun s => s.overview.evidenceCount) h
  have h5 : summary.rowTotals.correlations = summary.overview.correlationCount :=
    congrArg (fun s => s.overview.correlationCount) h
  have h6 : errorTokenEvents summary.events = summary.overview.errorTokenEventCount :=
    congrArg (fun s => s.overview.errorTokenEventCount) h
  rw [countRows, h1, h2, h3, h4, h5, h6]
  rfl

theorem responseTotals_words (hmemory : InMemory summary) :
    (responseTotals host summary).Words := by
  have hword : ∀ n rows : Nat, saturatingAdd usizeMax n rows < 2 ^ 64 := by
    intro n rows
    have hmax : usizeMax < 2 ^ 64 := by decide
    exact Nat.lt_of_le_of_lt (saturatingAdd_le usizeMax n rows) hmax
  have he := hmemory.evidence
  have hc := hmemory.correlations
  have hv := hmemory.events
  exact ⟨hword _ _, Nat.lt_trans he (by omega), hword _ _, Nat.lt_trans hc (by omega),
    Nat.lt_trans hv (by omega)⟩

theorem RowTotals.Words.without {totals : RowTotals} (h : totals.Words) (kept : RowTotals) :
    (totals.without kept).Words :=
  ⟨Nat.lt_of_le_of_lt (Nat.sub_le _ _) h.findings, Nat.lt_of_le_of_lt (Nat.sub_le _ _) h.evidence,
    Nat.lt_of_le_of_lt (Nat.sub_le _ _) h.coverageGaps,
    Nat.lt_of_le_of_lt (Nat.sub_le _ _) h.correlations,
    Nat.lt_of_le_of_lt (Nat.sub_le _ _) h.events⟩

theorem fits_minimal (hmemory : InMemory summary)
    (hshrunk : Shrunk (responseTotals host summary) (compactedSummary summary).stats
      (displayedSummary host summary) (boundDiagnosisResponse host summary))
    (hoverview : (boundDiagnosisResponse host summary).overview =
      (countRows (responseTotals host summary) (actionableFindings summary.findings)
        (errorTokenEvents summary.events) (displayedSummary host summary)).overview)
    (hwritable : Wire.Writable (boundDiagnosisResponse host summary))
    (hnone : popLargestDetailRow (boundDiagnosisResponse host summary) = none)
    (hroom : byteLen (jsonString (displayedSummary host summary).overview.outcome) +
      byteLen (jsonString (displayedSummary host summary).overview.headline) ≤
        maxDiagnosisResponseBytes - 16 * 1024) :
    ∃ n, serializedLen (boundDiagnosisResponse host summary) = some n ∧
      n ≤ maxDiagnosisResponseBytes := by
  generalize boundDiagnosisResponse host summary = response at *
  obtain ⟨hfindings, hevidence, hgaps, hcorrelations, hevents⟩ := minimal_of_none hwritable hnone
  obtain ⟨notice, n, hnotice⟩ := hshrunk.noticed.findings
  obtain ⟨gap, g, hgap⟩ := hshrunk.noticed.coverageGaps
  have hfirst := findings_of_update hshrunk.upToDate hnotice
  have hfirstGap := gaps_of_update hshrunk.upToDate hgap
  rw [hfirst, List.length_cons] at hfindings
  rw [hfirstGap, List.length_cons] at hgaps
  have hrest : (displayedSummary host summary).findings.take n = [] :=
    List.length_eq_zero_iff.mp (by omega)
  have hrestGaps : (displayedSummary host summary).coverageGaps.take g = [] :=
    List.length_eq_zero_iff.mp (by omega)
  rw [hrest] at hfirst
  rw [hrestGaps] at hfirstGap
  have htotals := @responseTotals_words host summary hmemory
  obtain ⟨size, hsize, hle⟩ := serializedLen_minimal (printable_projectionDetail _ _ _)
    (byteLen_projectionDetail_le (htotals.without response.rowTotals) htotals hmemory.textFields
      hmemory.nestedRows) hfirst hfirstGap hevidence hcorrelations hevents
  refine ⟨size, hsize, hle.trans ?_⟩
  have hactionable : actionableFindings summary.findings < 2 ^ 64 :=
    Nat.lt_of_le_of_lt (List.length_filter_le _ _) (Nat.lt_trans hmemory.findings (by omega))
  have herrors : errorTokenEvents summary.events < 2 ^ 64 :=
    Nat.lt_of_le_of_lt (List.length_filter_le _ _) (Nat.lt_trans hmemory.events (by omega))
  have h1 := digits_le_twenty htotals.findings
  have h2 := digits_le_twenty hactionable
  have h3 := digits_le_twenty htotals.coverageGaps
  have h4 := digits_le_twenty htotals.evidence
  have h5 := digits_le_twenty htotals.correlations
  have h6 := digits_le_twenty herrors
  rw [hoverview]
  simp only [countRows]
  rw [maxDiagnosisResponseBytes] at hroom ⊢
  omega

theorem fits_of_not_tooLarge {response : DiagnosisSummary}
    (hwritten : (Wire.summary response).isSome) (hfits : ¬ TooLarge response) :
    ∃ n, serializedLen response = some n ∧ n ≤ maxDiagnosisResponseBytes := by
  obtain ⟨text, htext⟩ := Option.isSome_iff_exists.mp hwritten
  have hlen : serializedLen response = some (byteLen text) := by
    rw [serializedLen, htext]
    rfl
  refine ⟨byteLen text, hlen, Nat.le_of_not_lt fun hover => hfits ?_⟩
  rw [TooLarge, hlen]
  exact hover

end Response

/-- A response is bounded and says what it leaves out. -/
theorem boundDiagnosisResponse_bounded (host : EventHost) (summary : DiagnosisSummary)
    (hmemory : InMemory summary) :
    BoundedResponse host summary (boundDiagnosisResponse host summary) := by
  by_cases hneeds : NeedsProjection host summary
  · obtain ⟨hshrunk, hoverview⟩ := boundDiagnosisResponse_projected host summary hneeds
    refine ⟨.inr (noticed_retained host summary hshrunk.noticed hshrunk.upToDate hneeds hmemory),
      fun hshown _ hroom => ?_⟩
    have hwritable := writable_noticed hshrunk.noticed hshrunk.upToDate
      (Wire.isSome_summary.mp hshown)
    rcases hshrunk.stops with hfits | hnone
    · exact fits_of_not_tooLarge (Wire.isSome_summary.mpr hwritable) hfits
    · exact fits_minimal hmemory hshrunk hoverview hwritable hnone hroom
  · have hresponse : boundDiagnosisResponse host summary =
        countRows (responseTotals host summary) (actionableFindings summary.findings)
          (errorTokenEvents summary.events) (displayedSummary host summary) := by
      rw [boundDiagnosisResponse, if_neg hneeds]
    rw [hresponse, responseTotals_all hneeds hmemory]
    have hretained := displayed_retained hneeds
    refine ⟨.inl ⟨hretained.findings, hretained.evidence, hretained.coverageGaps,
      hretained.correlations, hretained.events⟩, fun hshown hcounts _ => ?_⟩
    rw [countRows_displayed hcounts]
    exact fits_of_not_tooLarge hshown fun hlarge => hneeds (.inr (.inr (.inr hlarge)))

def maskingHost : EventHost :=
  let mask := fun text : Text =>
    if text = "alice@example.com".toList then "[upn:67023fc4a7ff2a46]".toList else text
  { sha256 := fun _ => []
    errorCodes := []
    errorTokenMatches := fun _ => []
    redactText := mask
    redactDiagnosticXml := mask
    xmlStatusCaptures := fun _ => none }

def titledFinding (title : String) : DiagnosisFinding where
  findingId := "finding-1".toList
  findingClass := .symptom
  severity := .warning
  confidence := .low
  title := title.toList
  summary := "Retried.".toList

def titledSummary (title : String) (evidence : List EvidenceRef) : DiagnosisSummary where
  findings := [titledFinding title]
  evidence := evidence
  coverageGaps := []
  correlations := []
  events := []
  overview := {
    outcome := "symptomsOnly".toList
    headline := "Evidence contains symptoms.".toList
    findingCount := 1
    actionableFindingCount := 1
    coverageGapCount := 0
    evidenceCount := evidence.length
    correlationCount := 0
    errorTokenEventCount := 0 }

theorem boundDiagnosisResponse_bounded_titled :
    BoundedResponse maskingHost (titledSummary "alice@example.com" [])
      (boundDiagnosisResponse maskingHost (titledSummary "alice@example.com" [])) :=
  boundDiagnosisResponse_bounded maskingHost (titledSummary "alice@example.com" [])
    ⟨by decide, by decide, by decide, by decide, by decide, by decide +kernel, by decide +kernel⟩

def unwrittenReference : EvidenceRef := .sccm ⟨[], [], none, none⟩

/-- A finding is kept as it is displayed, and what cannot be written is not taken out. -/
theorem response_masked_or_unwritten :
    ((boundDiagnosisResponse maskingHost (titledSummary "alice@example.com" [])).findings =
        [titledFinding "[upn:67023fc4a7ff2a46]"] ∧
      ¬ [titledFinding "[upn:67023fc4a7ff2a46]"].Sublist
        (titledSummary "alice@example.com" []).findings) ∧
    serializedLen (boundDiagnosisResponse maskingHost
      (titledSummary "alice@example.com" [unwrittenReference])) = none := by
  decide +kernel

end Diagnosis
end CmTrace
