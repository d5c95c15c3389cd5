import CmTrace.Text.Basic

/-!
# Delimiter-separated text

A reader of records in the manner of RFC 4180, for any delimiter.  A field is bare,
without quotes, delimiters and line breaks, or it is quoted, with its quotes doubled.
A record ends with a line feed, after a carriage return or without one, and the last
may end with the text.
-/

namespace CmTrace
namespace Delimited

inductive Place where
  | opening | bare | quoted | closing | returned
  deriving DecidableEq

/-- A reader between two characters: the field, the record and the records so far. -/
structure Reader where
  place : Place := .opening
  field : Text := []
  row : List Text := []
  rows : List (List Text) := []
  deriving DecidableEq

namespace Reader

def endField (r : Reader) : Reader := ⟨.opening, [], r.row ++ [r.field], r.rows⟩

def endRow (r : Reader) : Reader := ⟨.opening, [], [], r.rows ++ [r.row ++ [r.field]]⟩

def put (r : Reader) (place : Place) (c : Char) : Reader :=
  { r with place, field := r.field ++ [c] }

def separate (delimiter : Char) (r : Reader) (c : Char) : Option Reader :=
  if c = delimiter then some r.endField
  else if c = '\n' then some r.endRow
  else if c = '\r' then some { r with place := .returned }
  else none

def step (delimiter : Char) (r : Reader) (c : Char) : Option Reader :=
  match r.place with
  | .opening =>
    if c = '"' then some { r with place := .quoted }
    else (r.separate delimiter c).or (some (r.put .bare c))
  | .bare => if c = '"' then none else (r.separate delimiter c).or (some (r.put .bare c))
  | .quoted => if c = '"' then some { r with place := .closing } else some (r.put .quoted c)
  | .closing => if c = '"' then some (r.put .quoted '"') else r.separate delimiter c
  | .returned => if c = '\n' then some r.endRow else none

def finish (r : Reader) : Option (List (List Text)) :=
  match r.place with
  | .quoted | .returned => none
  | .opening => some (if r.row = [] then r.rows else r.endRow.rows)
  | .bare | .closing => some r.endRow.rows

end Reader

/-- The records of a text, if it is well formed. -/
def read (delimiter : Char) (text : Text) : Option (List (List Text)) :=
  (text.foldlM (Reader.step delimiter) {}).bind Reader.finish

/-! ## Reading a field -/

variable {delimiter : Char}

/-- A field has been read, and only what ends it can come. -/
def Reader.Complete (r : Reader) : Prop := r.place ≠ .quoted ∧ r.place ≠ .returned

theorem step_delimiter {r : Reader} (h : r.Complete) (hquote : delimiter ≠ '"') :
    r.step delimiter delimiter = some r.endField := by
  obtain ⟨place, field, row, rows⟩ := r
  cases place with
  | quoted => exact absurd rfl h.1
  | returned => exact absurd rfl h.2
  | _ => simp [Reader.step, Reader.separate, hquote]

theorem step_newline {r : Reader} (h : r.Complete) (hline : delimiter ≠ '\n') :
    r.step delimiter '\n' = some r.endRow := by
  obtain ⟨place, field, row, rows⟩ := r
  cases place with
  | quoted => exact absurd rfl h.1
  | returned => exact absurd rfl h.2
  | _ => simp [Reader.step, Reader.separate, hline.symm]

/-- A bare field: none of its characters means anything to the reader. -/
def Plain (delimiter : Char) (value : Text) : Prop :=
  ∀ c ∈ value, c ≠ '"' ∧ c ≠ delimiter ∧ c ≠ '\n' ∧ c ≠ '\r'

theorem foldlM_plain {value : Text} (h : Plain delimiter value) (r : Reader)
    (hplace : r.place = .opening ∨ r.place = .bare) :
    ∃ r', value.foldlM (Reader.step delimiter) r = some r' ∧ r'.Complete ∧
      r'.field = r.field ++ value ∧ r'.row = r.row ∧ r'.rows = r.rows := by
  induction value generalizing r with
  | nil =>
    refine ⟨r, rfl, ?_, (List.append_nil _).symm, rfl, rfl⟩
    rcases hplace with h | h <;> simp [Reader.Complete, h]
  | cons c value ih =>
    obtain ⟨hquote, hdelimiter, hline, hreturn⟩ := h c List.mem_cons_self
    have hstep : r.step delimiter c = some (r.put .bare c) := by
      rcases hplace with hp | hp <;>
        simp [Reader.step, Reader.separate, hp, hquote, hdelimiter, hline, hreturn]
    obtain ⟨r', hr', hcomplete, hfield, hrow, hrows⟩ :=
      ih (fun c hc => h c (List.mem_cons_of_mem _ hc)) (r.put .bare c) (.inr rfl)
    refine ⟨r', ?_, hcomplete, ?_, hrow, hrows⟩
    · rw [List.foldlM_cons, hstep]
      exact hr'
    · rw [hfield, Reader.put, List.append_assoc, List.singleton_append]

def double (value : Text) : Text := value.flatMap fun c => if c = '"' then ['"', '"'] else [c]

theorem foldlM_double (value field : Text) (row : List Text) (rows : List (List Text)) :
    (double value).foldlM (Reader.step delimiter) ⟨.quoted, field, row, rows⟩ =
      some ⟨.quoted, field ++ value, row, rows⟩ := by
  induction value generalizing field with
  | nil => rw [List.append_nil]; rfl
  | cons c value ih =>
    have hnext := ih (field ++ [c])
    rw [List.append_assoc, List.singleton_append] at hnext
    rw [double, List.flatMap_cons, List.foldlM_append]
    by_cases hc : c = '"'
    · rw [if_pos hc, hc]
      rw [hc] at hnext
      exact hnext
    · rw [if_neg hc]
      have hstep : Reader.step delimiter ⟨.quoted, field, row, rows⟩ c =
          some ⟨.quoted, field ++ [c], row, rows⟩ := by
        simp [Reader.step, Reader.put, hc]
      rw [List.foldlM_cons, hstep]
      exact hnext

theorem foldlM_quoted (value : Text) (row : List Text) (rows : List (List Text)) :
    (['"'] ++ double value ++ ['"']).foldlM (Reader.step delimiter) ⟨.opening, [], row, rows⟩ =
      some ⟨.closing, value, row, rows⟩ := by
  rw [List.foldlM_append, List.foldlM_append]
  show (((double value).foldlM (Reader.step delimiter) ⟨.quoted, [], row, rows⟩) >>= fun r =>
    ['"'].foldlM (Reader.step delimiter) r) = _
  rw [foldlM_double, List.nil_append]
  rfl

/-! ## Reading rows -/

def line (delimiter : Char) (fields : List Text) : Text :=
  (fields.intersperse [delimiter]).flatten ++ ['\n']

/-- A form of a value that the reader reads as the value. -/
def Form (delimiter : Char) (form value : Text) : Prop :=
  ∀ row rows, ∃ r, form.foldlM (Reader.step delimiter) ⟨.opening, [], row, rows⟩ = some r ∧
    r.Complete ∧ r.field = value ∧ r.row = row ∧ r.rows = rows

theorem form_plain {value : Text} (h : Plain delimiter value) : Form delimiter value value :=
  fun row rows => foldlM_plain h ⟨.opening, [], row, rows⟩ (.inl rfl)

theorem form_quoted (value : Text) : Form delimiter (['"'] ++ double value ++ ['"']) value :=
  fun row rows => ⟨_, foldlM_quoted value row rows, by simp [Reader.Complete], rfl, rfl, rfl⟩

theorem foldlM_line (hquote : delimiter ≠ '"') (hline : delimiter ≠ '\n')
    {encode decode : Text → Text} (hform : ∀ v, Form delimiter (encode v) (decode v))
    {values : List Text} (hvalues : values ≠ []) (row : List Text) (rows : List (List Text)) :
    (line delimiter (values.map encode)).foldlM (Reader.step delimiter) ⟨.opening, [], row, rows⟩ =
      some ⟨.opening, [], [], rows ++ [row ++ values.map decode]⟩ := by
  induction values generalizing row with
  | nil => exact absurd rfl hvalues
  | cons v values ih =>
    obtain ⟨r, hr, hcomplete, hfield, hrow, hrows⟩ := hform v row rows
    cases values with
    | nil =>
      show (encode v ++ [] ++ ['\n']).foldlM _ _ = _
      rw [List.append_nil, List.foldlM_append, hr]
      show (r.step delimiter '\n' >>= fun r => some r) = _
      rw [step_newline hcomplete hline, Reader.endRow, hfield, hrow, hrows]
      rfl
    | cons w values =>
      have hrest := ih (List.cons_ne_nil _ _) (row ++ [decode v])
      have hsplit : line delimiter ((v :: w :: values).map encode) =
          encode v ++ ([delimiter] ++ line delimiter ((w :: values).map encode)) := by
        simp [line]
      rw [hsplit, List.foldlM_append, hr]
      show (r.step delimiter delimiter >>= fun r =>
        (line delimiter ((w :: values).map encode)).foldlM _ r) = _
      rw [step_delimiter hcomplete hquote, Reader.endField, hfield, hrow, hrows]
      show (line delimiter ((w :: values).map encode)).foldlM _ _ = _
      rw [hrest, List.append_assoc, List.map_cons, List.singleton_append]
      rfl

theorem read_lines (hquote : delimiter ≠ '"') (hline : delimiter ≠ '\n')
    {encode decode : Text → Text} (hform : ∀ v, Form delimiter (encode v) (decode v))
    {table : List (List Text)} (htable : ∀ row ∈ table, row ≠ []) :
    read delimiter (table.flatMap fun row => line delimiter (row.map encode)) =
      some (table.map fun row => row.map decode) := by
  have hrun : ∀ (table : List (List Text)), (∀ row ∈ table, row ≠ []) → ∀ rows,
      (table.flatMap fun row => line delimiter (row.map encode)).foldlM (Reader.step delimiter)
        ⟨.opening, [], [], rows⟩ =
      some ⟨.opening, [], [], rows ++ table.map fun row => row.map decode⟩ := by
    intro table
    induction table with
    | nil => intro _ rows; simp
    | cons row table ih =>
      intro h rows
      rw [List.flatMap_cons, List.foldlM_append, foldlM_line hquote hline hform
        (h row List.mem_cons_self)]
      show List.foldlM _ _ _ = _
      rw [ih (fun r hr => h r (List.mem_cons_of_mem _ hr))]
      simp
  unfold read
  rw [hrun table htable, List.nil_append]
  rfl

end Delimited
end CmTrace
