import CmTrace.Parser.CmtLog
import CmTrace.Parser.IisW3c
import CmTrace.Parser.MsiDates
import CmTrace.Tail.Reader

/-!
# Context carried between lines in a followed file

Every read parses the lines it completes with the context of an empty file.  The
rows of the viewer are those of the whole file exactly when no read has a row
that needs the columns, the section or the date declared before that read.
-/

namespace CmTrace
namespace Tail

open Text Log CmTrace.Parser Carried

/-- The viewer of a followed file has the rows and errors of the whole file. -/
def ContextSurvives (parseLines : LineParser) (t : Tailing) : Prop :=
  (t.viewed parseLines).1.map rowColumns = (parseLines (lines t.whole)).1.map rowColumns ∧
    (t.viewed parseLines).2 = (parseLines (lines t.whole)).2

instance (parseLines : LineParser) (t : Tailing) : Decidable (ContextSurvives parseLines t) :=
  inferInstanceAs (Decidable (_ ∧ _))

/-! ## Parsers that read with a context -/

section

variable {C : Type} (rd : LineReader C)

theorem batchEntries_outs (batches : List (List Text)) (n : Nat) :
    (batchEntries (parseWith rd) (n + 1) batches).map rowColumns =
      shown Prod.fst rowColumns (numbered (n + 1) (rd.batchOuts batches)) := by
  induction batches generalizing n with
  | nil => rfl
  | cons batch batches ih =>
    have hn : n + 1 + batch.length = n + batch.length + 1 := by omega
    have hfrom : ∀ d, numbered d (rd.outs rd.initial batch) =
        (numbered 0 (rd.outs rd.initial batch)).map fun kr => (kr.1 + d, kr.2) := by
      intro d
      have hshift := numbered_shift d 0 (rd.outs rd.initial batch)
      rwa [Nat.zero_add] at hshift
    have hfirst := (parseWith_spec rowColumns_withId rd batch).1
    rw [hfrom 1] at hfirst
    have hrebased := rebase_shown (fun n row => rebase n row) (fun _ _ => rfl) hfirst n
    rw [← hfrom (n + 1)] at hrebased
    rw [batchEntries, List.map_append, hrebased, hn, ih, Reader.batchOuts_cons, numbered_append,
      shown_append, Reader.outs_length, hn]

theorem viewed_outs (t : Tailing) :
    (t.viewed (parseWith rd)).1.map rowColumns =
      shown Prod.fst rowColumns (numbered 1 (rd.batchOuts (lines t.opened :: t.batches))) := by
  have hn : 1 + (lines t.opened).length = (lines t.opened).length + 1 := by omega
  rw [(t.viewed_view rowColumns_withId rfl).1, List.map_append, batchEntries_outs,
    (parseWith_spec rowColumns_withId rd (lines t.opened)).1, Reader.batchOuts_cons,
    numbered_append, shown_append, Reader.outs_length, hn]

theorem batchErrors_outs (batches : List (List Text)) :
    batchErrors (parseWith rd) batches =
      (rd.batchOuts batches).countP fun out => out.any Prod.snd := by
  induction batches with
  | nil => rfl
  | cons batch batches ih =>
    rw [batchErrors, List.map_cons, List.sum_cons, (parseWith_spec rowColumns_withId rd batch).2,
      Reader.batchOuts_cons, List.countP_append]
    exact congrArg _ ih

theorem shown_numbered_iff {xs ys : List (Option (LogEntry × Bool))}
    (hlen : xs.length = ys.length) :
    shown Prod.fst rowColumns (numbered 1 xs) = shown Prod.fst rowColumns (numbered 1 ys) ↔
      xs.map (Option.map rowContent) = ys.map (Option.map rowContent) := by
  have hshown : ∀ zs : List (Option (LogEntry × Bool)),
      shown Prod.fst rowColumns (numbered 1 zs) =
        (numbered 1 (zs.map (Option.map rowContent))).map fun kr => kr.2.atLine kr.1 := by
    intro zs
    rw [numbered_map, List.map_map]
    rfl
  rw [hshown, hshown]
  refine ⟨fun h => numbered_inj (n := 1) (by simpa using hlen) ?_, fun h => by rw [h]⟩
  -- a row keeps its line, and a content is a row at line 0
  have hback := congrArg (List.map fun row : LogEntry => (row.lineNumber, row.atLine 0)) h
  have hcontent : ∀ zs : List (Option (LogEntry × Bool)),
      ((numbered 1 (zs.map (Option.map rowContent))).map fun kr => kr.2.atLine kr.1).map
          (fun row : LogEntry => (row.lineNumber, row.atLine 0)) =
        numbered 1 (zs.map (Option.map rowContent)) := by
    intro zs
    rw [numbered_map, List.map_map, List.map_map]
    rfl
  rwa [hcontent, hcontent] at hback

variable (hfull : ∀ c lines, rd.Agrees rowContent c lines → rd.outs c lines = rd.outs rd.initial lines)
include hfull

/-- The rows agree exactly when every read gives the rows that the context
before it would have given. -/
theorem context_survives_iff (t : Tailing) :
    ContextSurvives (parseWith rd) t ↔
      rd.Along (rd.Agrees rowContent) rd.initial (lines t.opened :: t.batches) := by
  have hlen : (rd.batchOuts (lines t.opened :: t.batches)).length =
      (rd.outs rd.initial (lines t.opened :: t.batches).flatten).length := by
    simp [Reader.batchOuts, List.length_flatMap, List.length_flatten]
  have hwhole := parseWith_spec rowColumns_withId rd (lines t.whole)
  rw [t.lines_whole, ← List.flatten_cons] at hwhole
  have hiff := @Reader.outs_batches_iff _ _ _ rd _ rowContent (lines t.opened :: t.batches) rd.initial
  rw [ContextSurvives, viewed_outs, t.lines_whole, ← List.flatten_cons, hwhole.1, hwhole.2,
    shown_numbered_iff hlen, ← hiff]
  refine ⟨fun h => h.1.symm, fun h => ⟨h.symm, ?_⟩⟩
  have hsame : rd.Along (rd.Agrees id) rd.initial (lines t.opened :: t.batches) :=
    (hiff.mp h).mono fun c lines ha => congrArg _ (hfull c lines ha)
  have houts := (Reader.outs_batches_iff id _ _).mpr hsame
  simp only [Option.map_id_fun, List.map_id_fun, id] at houts
  rw [houts, (t.viewed_view rowColumns_withId rfl).2,
    (parseWith_spec rowColumns_withId rd (lines t.opened)).2, batchErrors_outs,
    Reader.batchOuts_cons, List.countP_append]

end

theorem resets_survives_iff {C : Type} {rd : LineReader C} {resets : Text → Bool}
    {needs : C → Text → Bool} (h : Reader.Resets rd rowContent resets needs) (t : Tailing) :
    ContextSurvives (parseWith rd) t ↔
      rd.Along (Reader.Unneeded resets needs) rd.initial (lines t.opened :: t.batches) := by
  rw [context_survives_iff rd fun _ _ ha => h.outs_of_unneeded (h.unneeded_of_agrees ha)]
  exact ⟨Reader.Along.mono fun _ _ ha => h.unneeded_of_agrees ha,
    Reader.Along.mono fun _ _ hu => congrArg _ (h.outs_of_unneeded hu)⟩

theorem msi_survives_iff (host : Host) (filePath : Text) (t : Tailing) :
    ContextSurvives (Msi.parseLines host filePath) t ↔
      (Msi.reader host filePath).Along
        (fun st batch => Msi.DateUnneeded st.currentDate st.prevTimeSecs none (Msi.timings host batch))
        {} (lines t.opened :: t.batches) := by
  have hfull : ∀ st batch, (Msi.reader host filePath).Agrees rowContent st batch →
      (Msi.reader host filePath).outs st batch = (Msi.reader host filePath).outs {} batch :=
    fun st batch ha => Msi.outs_of_alike host filePath batch st {}
      (Msi.alike_of_outs host filePath batch st {} ha)
  rw [Msi.parseLines, context_survives_iff _ hfull]
  exact ⟨Reader.Along.mono fun st batch => (Msi.agrees_iff host filePath st batch).mp,
    Reader.Along.mono fun st batch => (Msi.agrees_iff host filePath st batch).mpr⟩

/-- A followed web server, deployment script or installer log has the rows of
the whole file exactly when no read has a row that needs the columns, the
section or the date in force before that read. -/
theorem tailed_context_iff (host : Host) (filePath : Text) (t : Tailing) :
    (ContextSurvives (IisW3c.parseLines host filePath) t ↔
      (IisW3c.reader host filePath).Along
        (Reader.Unneeded IisW3c.isDeclaration IisW3c.needsColumns)
        [] (lines t.opened :: t.batches)) ∧
    (ContextSurvives (CmtLog.parseLines host filePath) t ↔
      (CmtLog.reader host filePath).Along
        (Reader.Unneeded (CmtLog.isSection filePath) (CmtLog.inherits host filePath))
        {} (lines t.opened :: t.batches)) ∧
    (ContextSurvives (Msi.parseLines host filePath) t ↔
      (Msi.reader host filePath).Along
        (fun st batch => Msi.DateUnneeded st.currentDate st.prevTimeSecs none (Msi.timings host batch))
        {} (lines t.opened :: t.batches)) :=
  ⟨resets_survives_iff (IisW3c.reader_resets host filePath) t,
    resets_survives_iff (CmtLog.reader_resets host filePath) t, msi_survives_iff host filePath t⟩

def cutWebLog : Tailing :=
  { opened            := "#Fields: date time cs-method cs-uri-stem\n".toList
    chunks            := ["2024-01-15 08:00:00 GET /index.htm\n".toList]
    opened_complete   := by decide +kernel
    appended_complete := by decide +kernel }

def cutScriptLog : Tailing :=
  { opened            := ("<![LOG[Scan]LOG]!><time=\"10:32:01.000+000\" date=\"04-13-2026\" " ++
      "component=\"__SECTION__\" context=\"\" type=\"1\" thread=\"0\" file=\"\" " ++
      "color=\"#5b9aff\">\n").toList
    chunks            := ["loose\n".toList]
    opened_complete   := by decide +kernel
    appended_complete := by decide +kernel }

def cutInstallerLog : Tailing :=
  { opened            := ("=== Verbose logging started: 6/13/2023  15:03:51  Build type: " ++
      "SHIP ===\n").toList
    chunks            := ["Action start 15:03:52: InstallFiles.\n".toList]
    opened_complete   := by decide +kernel
    appended_complete := by decide +kernel }

theorem tailed_context_lost :
    ¬ ContextSurvives (IisW3c.parseLines .ascii []) cutWebLog ∧
      ¬ ContextSurvives (CmtLog.parseLines .ascii []) cutScriptLog ∧
      ¬ ContextSurvives (Msi.parseLines .ascii []) cutInstallerLog := by
  refine ⟨?_, ?_, ?_⟩ <;> decide +kernel

end Tail
end CmTrace
