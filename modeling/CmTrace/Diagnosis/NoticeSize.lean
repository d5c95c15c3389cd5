import CmTrace.Diagnosis.Response

/-!
# The size of a notice

A notice is of words and a dozen numbers.  However large the numbers of a machine are, a
summary with nothing but its notices takes a few thousand bytes and the texts of its
overview.
-/

namespace CmTrace
namespace Diagnosis

open Text
open EventLog.Wire (texts)

/-! ## Words and numbers -/

/-- No control characters. -/
structure Printable (s : Text) : Prop where
  all : (s.all fun c => 0x20 ≤ c.toNat) = true

theorem Printable.mem {s : Text} (h : Printable s) : ∀ c ∈ s, 0x20 ≤ c.toNat := fun c hc =>
  of_decide_eq_true (List.all_eq_true.mp h.all c hc)

theorem printable_append {a b : Text} : Printable (a ++ b) ↔ Printable a ∧ Printable b := by
  constructor
  · rintro ⟨h⟩
    rw [List.all_append, Bool.and_eq_true] at h
    exact ⟨⟨h.1⟩, ⟨h.2⟩⟩
  · rintro ⟨⟨ha⟩, ⟨hb⟩⟩
    exact ⟨by rw [List.all_append, ha, hb, Bool.and_self]⟩

theorem printable_decimal (n : Nat) : Printable (decimal n) := by
  refine ⟨List.all_eq_true.mpr fun c hc => decide_eq_true ?_⟩
  have hdigit : c.isDigit = true := Nat.isDigit_of_mem_toDigits (by omega) (by omega) hc
  have := Char.isDigit_iff_toNat.mp hdigit
  have hzero : ('0' : Char).toNat = 48 := rfl
  omega

theorem digits_le_twenty {n : Nat} (h : n < 2 ^ 64) : digits n ≤ 20 :=
  (digits_le_iff (by omega)).mpr (by omega)

/-- Counts that fit a machine word. -/
structure RowTotals.Words (totals : RowTotals) : Prop where
  findings : totals.findings < 2 ^ 64
  evidence : totals.evidence < 2 ^ 64
  coverageGaps : totals.coverageGaps < 2 ^ 64
  correlations : totals.correlations < 2 ^ 64
  events : totals.events < 2 ^ 64

theorem printable_formatted {first : String} {rest : List (Nat × String)}
    (hfirst : Printable first.toList)
    (hrest : ∀ words ∈ rest.map Prod.snd, Printable words.toList) :
    Printable (formatted first rest) := by
  refine printable_append.mpr ⟨hfirst, ⟨?_⟩⟩
  rw [List.all_flatMap, List.all_eq_true]
  intro part hpart
  exact (printable_append.mpr ⟨printable_decimal part.1,
    hrest part.2 (List.mem_map_of_mem hpart)⟩).all

theorem byteLen_formatted_le {first : String} {rest : List (Nat × String)}
    (h : ∀ part ∈ rest, part.1 < 2 ^ 64) : byteLen (formatted first rest) ≤
      byteLen first.toList +
        ((rest.map Prod.snd).map fun words => 20 + byteLen words.toList).sum := by
  rw [formatted, byteLen_append]
  refine Nat.add_le_add_left ?_ _
  induction rest with
  | nil => exact Nat.le_refl 0
  | cons part rest ih =>
    have hrest := ih fun part hpart => h part (List.mem_cons_of_mem _ hpart)
    have hdigits := digits_le_twenty (h part List.mem_cons_self)
    simp only [List.flatMap_cons, byteLen_append, byteLen_decimal, List.map_cons, List.sum_cons]
    omega

def projectionWords : List String :=
  [" of ", " findings, ", " of ", " evidence references, ", " of ", " coverage gaps, ", " of ",
    " correlations, and ", " of ", " diagnosed events; compacted ",
    " oversized text fields and omitted ",
    " nested detail rows. The serialized response is limited to ", " bytes."]

theorem printable_projectionDetail (omitted totals : RowTotals)
    (stats : DiagnosisDisplayProjectionStats) :
    Printable (projectionDetail omitted totals stats) := by
  have hwords : (projectionWords.all fun words => words.toList.all fun c => 0x20 ≤ c.toNat) =
      true := by decide +kernel
  refine printable_formatted ⟨by decide +kernel⟩ fun words hmem => ?_
  exact ⟨List.all_eq_true.mp hwords words hmem⟩

theorem byteLen_projectionDetail_le {omitted totals : RowTotals}
    {stats : DiagnosisDisplayProjectionStats} (homitted : omitted.Words) (htotals : totals.Words)
    (hfields : stats.compactedTextFields < 2 ^ 64) (hrows : stats.omittedNestedRows < 2 ^ 64) :
    byteLen (projectionDetail omitted totals stats) ≤ 513 := by
  have hwords : byteLen "Bounded diagnosis response omitted ".toList +
      (projectionWords.map fun words => 20 + byteLen words.toList).sum = 513 := by decide +kernel
  refine (byteLen_formatted_le ?_).trans (Nat.le_of_eq hwords)
  have hlimit : maxDiagnosisResponseBytes < 2 ^ 64 := by decide
  rw [projectionNumbers]
  simp only [List.forall_mem_cons]
  exact ⟨homitted.findings, htotals.findings, homitted.evidence, htotals.evidence,
    homitted.coverageGaps, htotals.coverageGaps, homitted.correlations, htotals.correlations,
    homitted.events, htotals.events, hfields, hrows, hlimit, fun _ h => absurd h List.not_mem_nil⟩

namespace Wire

theorem byteLen_coverageGap {gap : CoverageGap} (h : gap.evidence = []) :
    ∃ text, coverageGap gap = some text ∧ byteLen text = 50 + byteLen (jsonString gap.id) +
      byteLen (jsonString gap.source) + byteLen (jsonString gap.state.label) +
      byteLen (jsonString gap.detail) := by
  have hnames : (["id", "source", "state", "detail", "evidence"].map fun name =>
      byteLen name.toList).sum = 27 := by decide
  have hevidence : rows evidenceRef gap.evidence = some ['[', ']'] := by rw [h]; rfl
  have hempty : byteLen ['[', ']'] = 2 := rfl
  refine ⟨_, by rw [coverageGap, hevidence]; rfl, ?_⟩
  refine (byteLen_jsonObject_of_names (List.cons_ne_nil _ _) (by rfl) hnames).trans ?_
  simp only [List.map_cons, List.map_nil, List.sum_cons, List.sum_nil, hempty]
  omega

theorem byteLen_finding {f : DiagnosisFinding} {gap : CoverageGap} {check : Text}
    (hevidence : f.evidence = []) (hgaps : f.coverageGaps = [gap]) (hgap : gap.evidence = [])
    (hchecks : f.recommendedChecks = [check]) :
    ∃ text gapText, finding f = some text ∧ coverageGap gap = some gapText ∧
      byteLen text = 124 + byteLen gapText + byteLen (jsonString check) +
        byteLen (jsonString f.findingId) + byteLen (jsonString f.findingClass.label) +
        byteLen (jsonString f.severity.label) + byteLen (jsonString f.confidence.label) +
        byteLen (jsonString f.title) + byteLen (jsonString f.summary) := by
  have hnames : (["findingId", "class", "severity", "confidence", "title", "summary", "evidence",
      "coverageGaps", "recommendedChecks"].map fun name => byteLen name.toList).sum = 81 := by
    decide
  obtain ⟨gapText, htext, -⟩ := byteLen_coverageGap hgap
  have hrefs : rows evidenceRef f.evidence = some ['[', ']'] := by rw [hevidence]; rfl
  have hgapRows : rows coverageGap f.coverageGaps = some (jsonArray [gapText]) := by
    rw [hgaps, rows, List.mapM_cons, htext]
    rfl
  have hempty : byteLen ['[', ']'] = 2 := rfl
  refine ⟨_, gapText, by rw [finding, hrefs, hgapRows]; rfl, htext, ?_⟩
  refine (byteLen_jsonObject_of_names (List.cons_ne_nil _ _) (by rfl) hnames).trans ?_
  simp only [List.map_cons, List.map_nil, List.sum_cons, List.sum_nil, hempty, texts, hchecks,
    byteLen_jsonArray]
  omega

theorem byteLen_overview {o : DiagnosisOverview} : byteLen (overview o) =
    147 + byteLen (jsonString o.outcome) + byteLen (jsonString o.headline) +
      (digits o.findingCount + digits o.actionableFindingCount + digits o.coverageGapCount +
        digits o.evidenceCount + digits o.correlationCount + digits o.errorTokenEventCount) := by
  have hnames : (["outcome", "headline", "findingCount", "actionableFindingCount",
      "coverageGapCount", "evidenceCount", "correlationCount", "errorTokenEventCount"].map
        fun name => byteLen name.toList).sum = 114 := by decide
  rw [overview]
  refine (byteLen_jsonObject_of_names (List.cons_ne_nil _ _) (by rfl) hnames).trans ?_
  simp only [List.map_cons, List.map_nil, List.sum_cons, List.sum_nil, byteLen_decimal]
  omega

theorem byteLen_summary_single {s : DiagnosisSummary} {f : DiagnosisFinding} {gap : CoverageGap}
    {findingText gapText : Text} (hfindings : s.findings = [f]) (hgaps : s.coverageGaps = [gap])
    (hevidence : s.evidence = []) (hcorrelations : s.correlations = []) (hevents : s.events = [])
    (hf : finding f = some findingText) (hg : coverageGap gap = some gapText) :
    ∃ text, summary s = some text ∧
      byteLen text =
        89 + byteLen findingText + byteLen gapText + byteLen (overview s.overview) := by
  have hnames : (["findings", "evidence", "coverageGaps", "correlations", "events",
      "overview"].map fun name => byteLen name.toList).sum = 54 := by decide
  have hempty : byteLen ['[', ']'] = 2 := rfl
  have hfindingRows : rows finding s.findings = some (jsonArray [findingText]) := by
    rw [hfindings, rows, List.mapM_cons, hf]
    rfl
  have hgapRows : rows coverageGap s.coverageGaps = some (jsonArray [gapText]) := by
    rw [hgaps, rows, List.mapM_cons, hg]
    rfl
  have hrefs : rows evidenceRef s.evidence = some ['[', ']'] := by rw [hevidence]; rfl
  have hedges : rows (fun edge => some (correlation edge)) s.correlations = some ['[', ']'] := by
    rw [hcorrelations]; rfl
  have heventRows : rows event s.events = some ['[', ']'] := by rw [hevents]; rfl
  refine ⟨_, by rw [summary, hfindingRows, hrefs, hgapRows, hedges, heventRows]; rfl, ?_⟩
  refine (byteLen_jsonObject_of_names (List.cons_ne_nil _ _) (by rfl) hnames).trans ?_
  simp only [List.map_cons, List.map_nil, List.sum_cons, List.sum_nil, hempty, byteLen_jsonArray]
  omega

end Wire

theorem byteLen_jsonString_labelled {front detail : Text} (hfront : Printable front)
    (hdetail : Printable detail) : byteLen (jsonString (front ++ ':' :: detail)) ≤
      4 + 2 * byteLen front + 2 * byteLen detail := by
  have hcolon : Printable [':'] := ⟨rfl⟩
  have hsize : (':' : Char).utf8Size = 1 := rfl
  have hle := byteLen_jsonString_le
    (printable_append.mpr ⟨hfront, printable_append.mpr ⟨hcolon, hdetail⟩⟩).mem
  rw [byteLen_append, byteLen_append, byteLen_cons, byteLen_nil, hsize] at hle
  refine Nat.le_trans hle ?_
  omega

theorem byteLen_notices_le {detail : Text} (hprintable : Printable detail)
    (hdetail : byteLen detail ≤ 513) :
    ∃ findingText gapText, Wire.finding (projectionFinding detail) = some findingText ∧
      Wire.coverageGap (projectionGap detail) = some gapText ∧
      byteLen findingText + byteLen gapText ≤ 12000 := by
  obtain ⟨findingText, gapText, hfinding, hgap, hsize⟩ := Wire.byteLen_finding
    (f := projectionFinding detail) rfl (projectionFinding_gaps detail) rfl rfl
  obtain ⟨gapText', hgap', hgapSize⟩ := @Wire.byteLen_coverageGap (projectionGap detail) rfl
  obtain rfl : gapText = gapText' := Option.some_inj.mp (hgap.symm.trans hgap')
  refine ⟨findingText, gapText, hfinding, hgap, ?_⟩
  have hfindingId : byteLen (jsonString (projectionFinding detail).findingId) ≤
      4 + 2 * byteLen ("coverage-gap:".toList ++ diagnosisResponseProjectionSource) +
        2 * byteLen detail := byteLen_jsonString_labelled ⟨by decide +kernel⟩ hprintable
  have hgapId : byteLen (jsonString (projectionGap detail).id) ≤
      4 + 2 * byteLen ("coverage:".toList ++ diagnosisResponseProjectionSource ++
        ':' :: CoverageState.capped.debugName) + 2 * byteLen detail :=
    byteLen_jsonString_labelled ⟨by decide +kernel⟩ hprintable
  have hsummary :
      byteLen (jsonString (projectionFinding detail).summary) ≤ 2 + 2 * byteLen detail :=
    byteLen_jsonString_le hprintable.mem
  have hgapDetail : byteLen (jsonString (projectionGap detail).detail) ≤ 2 + 2 * byteLen detail :=
    byteLen_jsonString_le hprintable.mem
  have hfronts : byteLen ("coverage-gap:".toList ++ diagnosisResponseProjectionSource) = 42 ∧
      byteLen ("coverage:".toList ++ diagnosisResponseProjectionSource ++
        ':' :: CoverageState.capped.debugName) = 45 := by decide +kernel
  have hclass : byteLen (jsonString (projectionFinding detail).findingClass.label) = 13 := rfl
  have hseverity : byteLen (jsonString (projectionFinding detail).severity.label) = 6 := rfl
  have hconfidence : byteLen (jsonString (projectionFinding detail).confidence.label) = 9 := rfl
  have htitle : byteLen (jsonString (projectionFinding detail).title) = 63 := rfl
  have hcheck : byteLen (jsonString ("Collect or grant access to the ".toList ++
      diagnosisResponseProjectionSource ++ " evidence source.".toList)) = 79 := rfl
  have hsource : byteLen (jsonString (projectionGap detail).source) = 31 := rfl
  have hstate : byteLen (jsonString (projectionGap detail).state.label) = 8 := rfl
  omega

/-- What is left when nothing more can be taken out takes little but the texts of its
overview. -/
theorem serializedLen_minimal {s : DiagnosisSummary} {detail : Text}
    (hprintable : Printable detail) (hdetail : byteLen detail ≤ 513)
    (hfindings : s.findings = [projectionFinding detail])
    (hgaps : s.coverageGaps = [projectionGap detail]) (hevidence : s.evidence = [])
    (hcorrelations : s.correlations = []) (hevents : s.events = []) :
    ∃ n, serializedLen s = some n ∧
      n ≤ 12300 + byteLen (jsonString s.overview.outcome) +
        byteLen (jsonString s.overview.headline) +
        (digits s.overview.findingCount + digits s.overview.actionableFindingCount +
          digits s.overview.coverageGapCount + digits s.overview.evidenceCount +
          digits s.overview.correlationCount + digits s.overview.errorTokenEventCount) := by
  obtain ⟨findingText, gapText, hfinding, hgap, hnotices⟩ := byteLen_notices_le hprintable hdetail
  obtain ⟨text, hsummary, hsize⟩ := Wire.byteLen_summary_single hfindings hgaps hevidence
    hcorrelations hevents hfinding hgap
  refine ⟨byteLen text, by rw [serializedLen, hsummary]; rfl, ?_⟩
  rw [hsize, Wire.byteLen_overview]
  omega

end Diagnosis
end CmTrace
