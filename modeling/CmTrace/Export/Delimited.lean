import CmTrace.Export.Writer
import CmTrace.Text.Delimited

/-!
# Delimited exports read back

What a reader of delimited text makes of the rows that the writer wrote.
-/

namespace CmTrace
namespace Export

open Text Delimited

/-! ## Bytes of a text -/

theorem bytesOf_toByteArray (s : Text) : (bytesOf s).toByteArray = (String.ofList s).toByteArray := by
  rw [String.toByteArray_ofList]
  rfl

theorem bytesOf_injective : Function.Injective bytesOf := by
  intro a b h
  have hbytes : (String.ofList a).toByteArray = (String.ofList b).toByteArray := by
    rw [← bytesOf_toByteArray, h, bytesOf_toByteArray]
  exact String.ofList_injective (String.toByteArray_inj.mp hbytes)

theorem bytesOf_append (a b : Text) : bytesOf (a ++ b) = bytesOf a ++ bytesOf b :=
  List.flatMap_append

theorem flatten_delimitedRow (cells : List Text) (delimiter : Char) :
    (delimitedRow cells delimiter).flatten =
      bytesOf (line delimiter (cells.map fun cell => escapeDelimited cell delimiter)) := by
  unfold delimitedRow line
  rw [List.flatten_append, bytesOf_append]
  have hcells : ∀ fields : List Text,
      ((fields.map bytesOf).intersperse (bytesOf [delimiter])).flatten =
        bytesOf (fields.intersperse [delimiter]).flatten := by
    intro fields
    induction fields with
    | nil => rfl
    | cons field fields ih =>
      cases fields with
      | nil => simp
      | cons next fields =>
        simp only [List.map_cons, List.intersperse_cons_cons, List.flatten_cons, bytesOf_append] at ih ⊢
        rw [ih]
  have hmap : (cells.map fun cell => bytesOf (escapeDelimited cell delimiter)) =
      (cells.map fun cell => escapeDelimited cell delimiter).map bytesOf := by
    rw [List.map_map]
    rfl
  rw [hmap, hcells]
  rfl

theorem inner_writeAllOf {sink : Sink} {w w' : CountingWriter} {buffers : List (List UInt8)}
    (h : writeAllOf sink w buffers = .ok w') : w'.inner = w.inner ++ buffers.flatten := by
  unfold writeAllOf at h
  induction buffers generalizing w with
  | nil =>
    rw [List.foldlM_nil, pure_ok] at h
    rw [h, List.flatten_nil, List.append_nil]
  | cons buffer buffers ih =>
    rw [List.foldlM_cons, bind_ok] at h
    obtain ⟨next, hnext, hrest⟩ := h
    have hinner : next.inner = w.inner ++ buffer := by
      unfold CountingWriter.writeAll at hnext
      split at hnext
      · cases hnext
      · rw [← Except.ok.inj hnext]
    rw [ih hrest, hinner, List.flatten_cons, List.append_assoc]

theorem inner_rows {sink : Sink} {delimiter : Char} {table : List (List Text)}
    {w w' : CountingWriter}
    (h : table.foldlM (fun w row => writeAllOf sink w (delimitedRow row delimiter)) w = .ok w') :
    w'.inner = w.inner ++ bytesOf (table.flatMap fun row =>
      line delimiter (row.map fun cell => escapeDelimited cell delimiter)) := by
  induction table generalizing w with
  | nil =>
    rw [List.foldlM_nil, pure_ok] at h
    rw [h]
    exact (List.append_nil _).symm
  | cons row table ih =>
    rw [List.foldlM_cons, bind_ok] at h
    obtain ⟨next, hnext, hrest⟩ := h
    rw [ih hrest, inner_writeAllOf hnext, flatten_delimitedRow, List.flatMap_cons, bytesOf_append,
      List.append_assoc]

/-! ## Cells -/

def formulaLeads : List Char := ['=', '+', '-', '@', '\t', '\r']

theorem neutralizeFormula_eq (value : Text) :
    neutralizeFormula value =
      if value.head?.any (· ∈ formulaLeads) then '\'' :: value else value := by
  cases value with
  | nil => rfl
  | cons c value =>
    unfold neutralizeFormula formulaLeads
    simp only [List.head?_cons, Option.any_some, List.mem_cons, List.not_mem_nil, or_false,
      decide_eq_true_eq]
    split <;> simp_all

theorem form_escapeDelimited {delimiter : Char} (value : Text) :
    Form delimiter (escapeDelimited value delimiter) (neutralizeFormula value) := by
  unfold escapeDelimited
  dsimp only
  split_ifs with hspecial
  · exact form_quoted _
  · refine form_plain fun c hc => ⟨?_, ?_, ?_, ?_⟩ <;> (rintro rfl; exact hspecial (by simp [hc]))

/-- A row of at least one cell comes back as its cells, each behind an apostrophe if
it would be executed.  The header and every record are such rows. -/
theorem delimited_round_trip {delimiter : Char} (hdelimiter : delimiter = ',' ∨ delimiter = '\t')
    {sink : Sink} {table : List (List Text)} {w : CountingWriter}
    (htable : ∀ row ∈ table, row ≠ [])
    (hwritten : table.foldlM (fun w row => writeAllOf sink w (delimitedRow row delimiter)) {} =
      .ok w) :
    ∃ text, (∀ t, bytesOf t = w.inner ↔ t = text) ∧
      Delimited.read delimiter text = some (table.map fun row => row.map fun cell =>
        if cell.head?.any (· ∈ formulaLeads) then '\'' :: cell else cell) := by
  have hquote : delimiter ≠ '"' := by rcases hdelimiter with rfl | rfl <;> decide
  have hline : delimiter ≠ '\n' := by rcases hdelimiter with rfl | rfl <;> decide
  have hinner := inner_rows hwritten
  refine ⟨_, fun t => ⟨fun ht => bytesOf_injective (ht.trans hinner), fun ht => ?_⟩,
    (read_lines hquote hline form_escapeDelimited htable).trans ?_⟩
  · rw [ht, hinner]
    rfl
  · rw [funext neutralizeFormula_eq]

theorem delimited_round_trip_formula :
    ∃ text, (∀ t, bytesOf t = bytesOf "'=1,\"a,\"\"b\"\n".toList ↔ t = text) ∧
      Delimited.read ',' text = some [["'=1".toList, "a,\"b".toList]] :=
  @delimited_round_trip ',' (.inl rfl) memory [["=1".toList, "a,\"b".toList]]
    ⟨bytesOf "'=1,\"a,\"\"b\"\n".toList, 12⟩ (by simp) (by decide +kernel)

/-- A row without cells is written as an empty line, which is a row of one empty cell. -/
theorem empty_row_gains_cell :
    ¬ ∀ (table : List (List Text)) (w : CountingWriter),
      table.foldlM (fun w row => writeAllOf memory w (delimitedRow row ',')) {} = .ok w →
      ∀ text, bytesOf text = w.inner → Delimited.read ',' text = some (table.map fun row =>
        row.map fun cell => if cell.head?.any (· ∈ formulaLeads) then '\'' :: cell else cell) := by
  intro h
  have hread := h [[]] ⟨[10], 1⟩ (by decide) ['\n'] (by decide)
  revert hread
  decide

end Export
end CmTrace
