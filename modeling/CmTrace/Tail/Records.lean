import CmTrace.Parser.Cbs
import CmTrace.Parser.DnsDebug
import CmTrace.Tail.Reader

/-!
# Records of several lines in a followed file

Every read parses the lines it completes with no record open, so a record whose
lines come in by two reads is cut.  The rows of the viewer are those of the
whole file exactly when no read begins with a line of a record begun before.
-/

namespace CmTrace
namespace Tail

open Text Log CmTrace.Parser Framing

/-- What a row of a record says. -/
structure RecordRow where
  message : Text
  component : Option Text
  severity : Severity
  timestamp : Option Int
  sourceIp : Option Text
  lineNumber : Nat
  deriving DecidableEq

namespace RecordRow

def of (entry : LogEntry) : RecordRow :=
  { message    := entry.message
    component  := entry.component
    severity   := entry.severity
    timestamp  := entry.timestamp
    sourceIp   := entry.sourceIp
    lineNumber := entry.lineNumber }

theorem of_withId (entry : LogEntry) (id : Nat) : of (entry.withId id) = of entry := rfl

end RecordRow

/-- The viewer of a followed file has the rows and errors of the whole file. -/
def RecordsSurvive (parseLines : LineParser) (t : Tailing) : Prop :=
  (t.viewed parseLines).1.map RecordRow.of = (parseLines (lines t.whole)).1.map RecordRow.of ∧
    (t.viewed parseLines).2 = (parseLines (lines t.whole)).2

instance (parseLines : LineParser) (t : Tailing) : Decidable (RecordsSurvive parseLines t) :=
  inferInstanceAs (Decidable (_ ∧ _))

section Framed

variable {parseLines : LineParser} {g : Grammar Text (LogEntry × Bool)}
  (hrows : ∀ lines, (parseLines lines).1.map RecordRow.of =
    shown Prod.fst RecordRow.of (g.rows none 1 lines))
include hrows

theorem rebase_rows (n : Nat) (batch : List Text) :
    ((parseLines batch).1.map (rebase (n + 1))).map RecordRow.of =
      shown Prod.fst RecordRow.of (g.rows none (n + 1) batch) := by
  have hfrom : ∀ d, g.rows none d batch = (g.rows none 0 batch).map (Grammar.shift d) := by
    intro d
    have hshift := g.rows_shift d none 0 batch
    rwa [Nat.zero_add] at hshift
  have hfirst := hrows batch
  rw [hfrom 1] at hfirst
  rw [hfrom (n + 1)]
  exact rebase_shown (fun n row => { row with lineNumber := n + (row.lineNumber - 1) })
    (fun _ _ => rfl) hfirst n

theorem batchEntries_rows (batches : List (List Text)) (n : Nat) :
    (batchEntries parseLines (n + 1) batches).map RecordRow.of =
      shown Prod.fst RecordRow.of (g.batchRows (n + 1) batches) := by
  induction batches generalizing n with
  | nil => rfl
  | cons batch batches ih =>
    have hn : n + 1 + batch.length = n + batch.length + 1 := by omega
    rw [batchEntries, Grammar.batchRows, List.map_append, rebase_rows hrows, hn, ih, shown_append]

variable (hnil : parseLines [] = ([], 0))
include hnil

/-- The rows of the viewer are the records of the opened file and of each read,
taken one by one. -/
theorem viewed_rows (t : Tailing) :
    (t.viewed parseLines).1.map RecordRow.of =
      shown Prod.fst RecordRow.of (g.batchRows 1 (lines t.opened :: t.batches)) := by
  have hn : 1 + (lines t.opened).length = (lines t.opened).length + 1 := by omega
  rw [(t.viewed_view RecordRow.of_withId hnil).1, List.map_append, hrows,
    batchEntries_rows hrows, Grammar.batchRows, shown_append, hn]

omit hnil in
theorem whole_rows (t : Tailing) :
    (parseLines (lines t.whole)).1.map RecordRow.of =
      shown Prod.fst RecordRow.of
        (g.rows none 1 (lines t.opened :: t.batches).flatten) := by
  rw [hrows, t.lines_whole, List.flatten_cons]

variable (weight : Text → Int) (hbody : ∀ line r, g.role line = .body →
  weight (g.extend r line).1.message <
    weight r.1.message + g.orphanWeight (fun r => weight r.1.message) line)
include hbody

theorem viewed_rows_iff (t : Tailing) :
    (t.viewed parseLines).1.map RecordRow.of = (parseLines (lines t.whole)).1.map RecordRow.of ↔
      g.Uncut false (lines t.opened :: t.batches) := by
  obtain ⟨heq, _, hlt⟩ := Grammar.rows_batches hbody (lines t.opened :: t.batches) none 1
  rw [viewed_rows hrows hnil, whole_rows hrows]
  constructor
  · intro h
    by_contra hcut
    have hweight : ∀ rows : List (Nat × LogEntry × Bool),
        ((shown Prod.fst RecordRow.of rows).map fun row => weight row.message).sum =
          Grammar.total (fun r => weight r.1.message) rows := by
      intro rows
      rw [shown, List.map_map, Grammar.total]
      rfl
    have hsum := congrArg (fun rows : List RecordRow =>
      (rows.map fun row => weight row.message).sum) h
    simp only [hweight] at hsum
    have hheavier := hlt hcut
    rw [Option.toList_none, List.nil_append, hsum] at hheavier
    exact lt_irrefl _ hheavier
  · intro huncut
    rw [heq huncut, Option.toList_none, List.nil_append]

end Framed

/-! ## Servicing logs -/

section Cbs

variable (host : Host) (filePath : Text)

theorem failures_rows (g : Grammar Text (LogEntry × Bool)) (n : Nat) (batch : List Text) :
    failures (g.rows none (n + 1) batch) = failures (g.rows none 1 batch) := by
  have hshift := g.rows_shift n none 1 batch
  rw [Nat.add_comm 1 n] at hshift
  rw [show (none : Option (Nat × LogEntry × Bool)) = none.map (Grammar.shift n) from rfl, hshift,
    failures, List.countP_map]
  rfl

theorem batchErrors_failures (batches : List (List Text)) (n : Nat) :
    batchErrors (Cbs.parseLines host filePath) batches =
      failures ((Cbs.grammar host filePath).batchRows (n + 1) batches) := by
  induction batches generalizing n with
  | nil => rfl
  | cons batch batches ih =>
    have hn : n + 1 + batch.length = n + batch.length + 1 := by omega
    have hfirst := failures_rows (Cbs.grammar host filePath) n batch
    rw [batchErrors, List.map_cons, List.sum_cons, Cbs.parseLines_errors, ← hfirst,
      Grammar.batchRows, failures, failures, List.countP_append, hn]
    exact congrArg (failures _ + ·) (ih (n + batch.length))

/-- A line without a header is a row and an error when it comes in after its
record was read. -/
theorem cbs_survives_iff (t : Tailing) :
    RecordsSurvive (Cbs.parseLines host filePath) t ↔
      (Cbs.grammar host filePath).Uncut false (lines t.opened :: t.batches) := by
  have hrows := Cbs.parseLines_rows RecordRow.of_withId host filePath
  -- every row weighs the same, so an orphan weighs more than a longer message
  have hbody : ∀ line (r : LogEntry × Bool), (Cbs.grammar host filePath).role line = .body →
      (1 : Int) < 1 + (Cbs.grammar host filePath).orphanWeight (fun _ => 1) line :=
    fun _ _ _ => by show (1 : Int) < 1 + 1; omega
  have hiff := viewed_rows_iff hrows rfl (fun _ => 1) hbody t
  refine ⟨fun h => hiff.mp h.1, fun huncut => ⟨hiff.mpr huncut, ?_⟩⟩
  have heq := (Grammar.rows_batches hbody (lines t.opened :: t.batches) none 1).1 huncut
  have herrors := batchErrors_failures host filePath (lines t.opened :: t.batches) 0
  rw [(t.viewed_view RecordRow.of_withId rfl).2, Cbs.parseLines_errors host filePath (lines t.whole),
    t.lines_whole, ← List.flatten_cons, heq]
  exact herrors

end Cbs

/-! ## Debug logs of the name server -/

section DnsDebug

variable (host : Host) (filePath : Text) (dateOrder : DateOrder)

theorem batchErrors_unread (batches : List (List Text)) :
    batchErrors (DnsDebug.parseLines host filePath dateOrder) batches =
      batches.flatten.countP (DnsDebug.isUnreadPacket host filePath dateOrder) := by
  induction batches with
  | nil => rfl
  | cons batch batches ih =>
    rw [batchErrors, List.map_cons, List.sum_cons, DnsDebug.parseLines_errors, List.flatten_cons,
      List.countP_append, ← ih]
    rfl

theorem addDetail_longer (entry : LogEntry) {line : Text} (h : line ≠ []) :
    entry.message.length < (DnsDebug.addDetail host entry line).message.length := by
  have hpos := List.length_pos_iff.mpr h
  simp only [DnsDebug.addDetail, appendMessage]
  by_cases hm : entry.message = []
  · simp [hm, hpos]
  · simp only [hm, if_false, List.length_append]
    omega

theorem dns_survives_iff (t : Tailing) :
    RecordsSurvive (DnsDebug.parseLines host filePath dateOrder) t ↔
      (DnsDebug.grammar host filePath dateOrder).Uncut false (lines t.opened :: t.batches) := by
  have hrows := DnsDebug.parseLines_rows RecordRow.of_withId host filePath dateOrder
  -- an orphan weighs nothing, and text weighs less the longer it is
  have hbody : ∀ line r, (DnsDebug.grammar host filePath dateOrder).role line = .body →
      -(((DnsDebug.grammar host filePath dateOrder).extend r line).1.message.length : Int) <
        -(r.1.message.length : Int) +
          (DnsDebug.grammar host filePath dateOrder).orphanWeight
            (fun r => -(r.1.message.length : Int)) line := by
    intro line r hrole
    have hne : trim line ≠ [] := by
      intro hb
      simp [DnsDebug.grammar, hb] at hrole
    have hlonger := addDetail_longer host r.1 hne
    show -((DnsDebug.addDetail host r.1 (trim line)).message.length : Int) <
      -(r.1.message.length : Int) + 0
    omega
  have hiff := viewed_rows_iff hrows rfl (fun m => -(m.length : Int)) hbody t
  refine ⟨fun h => hiff.mp h.1, fun huncut => ⟨hiff.mpr huncut, ?_⟩⟩
  rw [(t.viewed_view RecordRow.of_withId rfl).2, batchErrors_unread, DnsDebug.parseLines_errors,
    DnsDebug.parseLines_errors, t.lines_whole, List.countP_append]

end DnsDebug

/-- A followed servicing log or name server log has the rows of the whole file
exactly when no read begins with a line of a record begun before. -/
theorem tailed_records_iff (host : Host) (filePath : Text) (dateOrder : DateOrder) (t : Tailing) :
    (RecordsSurvive (Cbs.parseLines host filePath) t ↔
      (Cbs.grammar host filePath).Uncut false (lines t.opened :: t.batches)) ∧
    (RecordsSurvive (DnsDebug.parseLines host filePath dateOrder) t ↔
      (DnsDebug.grammar host filePath dateOrder).Uncut false (lines t.opened :: t.batches)) :=
  ⟨cbs_survives_iff host filePath t, dns_survives_iff host filePath dateOrder t⟩

def cutServicingLog : Tailing :=
  { opened            := "2024-01-15 08:00:00, Info                  CBS    Starting\n".toList
    chunks            := ["  detail\n".toList]
    opened_complete   := by decide +kernel
    appended_complete := by decide +kernel }

def cutNameServerLog : Tailing :=
  { opened            := ("4/11/2026 3:29:17 PM 0294 PACKET  000002DAEC36D650 UDP Rcv 127.0.0.1 " ++
      "d07e   Q [0001   D   NOERROR] SOA    (4)home(0)\n").toList
    chunks            := ["  Remote addr 127.0.0.1, port 54159\n".toList]
    opened_complete   := by decide +kernel
    appended_complete := by decide +kernel }

theorem tailed_records_cut :
    ¬ RecordsSurvive (Cbs.parseLines .ascii []) cutServicingLog ∧
      ¬ RecordsSurvive (DnsDebug.parseLines .ascii [] .monthFirst) cutNameServerLog := by
  constructor <;> decide +kernel

end Tail
end CmTrace
