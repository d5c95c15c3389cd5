import CmTrace.Parser.MsiLines

/-!
# Installer logs and the moments they were written at

The date is counted on from the header by the times of day alone, and only a time
more than twenty-three hours back counts as a midnight.  So a midnight is seen when
less than an hour lies between the two lines around it.
-/

namespace CmTrace
namespace Parser
namespace Msi

open Text Log Time Carried

/-! ## Logs -/

/-- A line of a log and, unless the parser takes no time from it, its moment. -/
inductive Row (host : Host) where
  | header (l : HeaderLine)
  | engine (l : EngineLine)
  | action (l : ActionLine host)
  | untimed (line : Text) (h : (recognize host (trimEnd line)).timing = .untimed)

namespace Row

variable {host : Host}

def text : Row host → Text
  | .header l => l.text
  | .engine l => l.text
  | .action l => l.text
  | .untimed line _ => line

def moment : Row host → Option Moment
  | .header l => some l.moment
  | .engine l => some l.moment
  | .action l => some l.moment
  | .untimed _ _ => none

/-- The time a row should show; headers and actions are written to the second.
A blank line has no row. -/
def time : Row host → Option (Option Int × Option Text)
  | .header l => some l.moment.whole.time
  | .engine l => some l.moment.time
  | .action l => some l.moment.whole.time
  | .untimed line _ => if trim line = [] then none else some (none, none)

end Row

def Near (t u : Moment) : Prop :=
  t.millis - 3600000 ≤ u.millis ∧ u.millis < t.millis + 82800000

def Seen (t u : Moment) : Prop :=
  u.date = t.date ∨
    t.whole.millis ≤ u.whole.millis ∧ u.whole.millis < t.whole.millis + 3600000

/-- Every timed line has its date seen from the timed line before it, and every
line of the engine has a message. -/
def Followed {host : Host} : Moment → List (Row host) → Prop
  | _, [] => True
  | _, .header l :: rows => Followed l.moment rows
  | t, .engine l :: rows =>
    (isBlank l.message = false ∧ Seen t l.moment) ∧ Followed l.moment rows
  | t, .action l :: rows => Seen t l.moment ∧ Followed l.moment rows
  | t, .untimed _ _ :: rows => Followed t rows

/-! ## One midnight -/

theorem Moment.secs_lt (t : Moment) : t.clock.secs < 86400 := by
  have hhour := t.hour_lt
  have hminute := t.minute_lt
  have hsecond := t.second_lt
  unfold Clock.secs
  omega

theorem Moment.whole_millis (t : Moment) :
    t.whole.millis = t.date.epochDays * 86400000 + t.clock.secs * 1000 := by
  simp only [Moment.millis, Moment.whole, Clock.secs]
  omega

theorem Moment.millis_eq (t : Moment) : t.millis = t.whole.millis + t.clock.milli := by
  simp only [Moment.millis, Moment.whole]
  omega

theorem Near.not_rolls {t u : Moment} (h : Near t u) (hdate : u.date = t.date) :
    rolls (some t.clock.secs) u.clock.secs = false := by
  have htm := t.milli_lt
  have hum := u.milli_lt
  obtain ⟨hafter, hbefore⟩ := h
  rw [t.millis_eq, u.millis_eq, t.whole_millis, u.whole_millis, hdate] at hafter hbefore
  rw [rolls, Option.any_some, decide_eq_false_iff_not]
  omega

theorem date_after_iff {t u : Moment}
    (hback : u.date = t.date → rolls (some t.clock.secs) u.clock.secs = false) :
    (if rolls (some t.clock.secs) u.clock.secs then t.date.succ else some t.date) = some u.date ↔
      Seen t u := by
  have ht := t.secs_lt
  have hu := u.secs_lt
  have hrolls : rolls (some t.clock.secs) u.clock.secs = true ↔
      u.clock.secs < t.clock.secs ∧ 82800 < t.clock.secs - u.clock.secs := by
    rw [rolls, Option.any_some, decide_eq_true_eq]
  rw [Seen, t.whole_millis, u.whole_millis]
  split_ifs with hr
  · have hfar := hrolls.mp hr
    rw [NaiveDate.succ_eq_some_iff]
    constructor
    · intro hnext
      right
      omega
    · rintro (hsame | ⟨hlow, hhigh⟩)
      · rw [hback hsame] at hr
        cases hr
      · have hle : u.date.epochDays ≤ t.date.epochDays + 1 := by omega
        have hge : t.date.epochDays + 1 ≤ u.date.epochDays := by omega
        exact le_antisymm hle hge
  · have hnear : ¬ (u.clock.secs < t.clock.secs ∧ 82800 < t.clock.secs - u.clock.secs) := fun h =>
      hr (hrolls.mpr h)
    rw [Option.some_inj]
    refine ⟨fun h => .inl h.symm, ?_⟩
    rintro (hsame | hlater)
    · exact hsame.symm
    · refine NaiveDate.epochDays_inj ?_
      omega

/-! ## Reading one row -/

def rowTime (out : LogEntry × Bool) : Option Int × Option Text :=
  (out.1.timestamp, out.1.timestampDisplay)

section

variable {host : Host} (filePath : Text)

theorem trim_ne_nil_of_head {s : Text} {c : Char} (hs : s.head? = some c)
    (hc : isWhitespace c = false) : trim s ≠ [] := by
  obtain ⟨rest, rfl⟩ := List.head?_eq_some_iff.mp hs
  rw [Ne, trim_nil_iff, isBlank, List.all_cons, hc]
  exact Bool.false_ne_true

theorem HeaderLine.text_head (l : HeaderLine) : l.text.head? = some '=' := by
  delta HeaderLine.text
  simp only [String.reduceToList, List.append_assoc, List.cons_append]
  rfl

theorem EngineLine.text_head (l : EngineLine) : l.text.head? = some 'M' := by
  rw [EngineLine.text]
  exact engine_head l _

theorem read_timed {line : Text} {c : Clock} (hnil : trim line ≠ [])
    (h : (recognize host (trimEnd line)).timing = .timed c) (st : MsiParserState) :
    (((reader host filePath).read st line).1.map rowTime =
      some (stamp (st.advanceTime c.secs).currentDate c)) ∧
      ((reader host filePath).read st line).2 = st.advanceTime c.secs := by
  rw [read_line host filePath hnil]
  simp only [parseMsiLine, h, Option.map_some, and_true]
  rfl

theorem entry_untimed (host : Host) (filePath : Text) {kind : Line}
    (h : kind.timing = .untimed) (trimmed : Text) :
    (kind.entry host filePath trimmed).timestamp = none ∧
      (kind.entry host filePath trimmed).timestampDisplay = none := by
  cases kind with
  | footer => exact ⟨rfl, rfl⟩
  | property caps => exact ⟨rfl, rfl⟩
  | mainEngineReturn caps => exact ⟨rfl, rfl⟩
  | plain => exact ⟨rfl, rfl⟩
  | header caps => cases h
  | engine caps => cases h
  | actionEnded caps => cases h
  | actionStart caps => cases h
  | actionTop caps => cases h

theorem read_untimed {line : Text} (h : (recognize host (trimEnd line)).timing = .untimed)
    (st : MsiParserState) :
    (((reader host filePath).read st line).1.map rowTime =
      if trim line = [] then none else some (none, none)) ∧
      ((reader host filePath).read st line).2 = st := by
  by_cases hnil : trim line = []
  · rw [read_blank host filePath hnil, if_pos hnil]
    exact ⟨rfl, rfl⟩
  · obtain ⟨htimestamp, hdisplay⟩ := entry_untimed host filePath h (trimEnd line)
    rw [read_line host filePath hnil, if_neg hnil]
    simp only [parseMsiLine, h, Option.map_some, and_true]
    rw [rowTime, htimestamp, hdisplay]

theorem read_header (hhost : AsciiDecimals host) (l : HeaderLine) (st : MsiParserState) :
    (((reader host filePath).read st l.text).1.map rowTime = some l.moment.whole.time) ∧
      ((reader host filePath).read st l.text).2 =
        ⟨some l.moment.date, some l.moment.clock.secs⟩ := by
  obtain ⟨caps, hkind, hdate, hclock⟩ := recognize_header hhost l
  have hnil := trim_ne_nil_of_head l.text_head rfl
  have htiming : (recognize host (trimEnd l.text)).timing =
      .header (some l.moment.date) (some l.moment.clock.secs) := by
    rw [hkind, Line.timing, hdate, hclock]
    rfl
  rw [read_line host filePath hnil]
  simp only [parseMsiLine, htiming, Option.map_some]
  refine ⟨?_, rfl⟩
  rw [hkind, Line.entry, hdate, hclock, ← l.moment.whole.buildTimestamp_eq]
  rfl

/-! ## Reading a log -/

def Moment.state (t : Moment) : MsiParserState := ⟨some t.date, some t.clock.secs⟩

theorem read_moment {line : Text} {t u : Moment} (hnil : trim line ≠ [])
    (h : (recognize host (trimEnd line)).timing = .timed u.clock)
    (hback : u.date = t.date → rolls (some t.clock.secs) u.clock.secs = false) :
    (((reader host filePath).read t.state line).1.map rowTime = some u.time ↔ Seen t u) ∧
      (Seen t u → ((reader host filePath).read t.state line).2 = u.state) := by
  obtain ⟨hrow, hstate⟩ := read_timed filePath hnil h t.state
  have hdate : (t.state.advanceTime u.clock.secs).currentDate =
      if rolls (some t.clock.secs) u.clock.secs then t.date.succ else some t.date := rfl
  have hstamp : stamp (some u.date) u.clock = u.time := u.buildTimestamp_eq
  refine ⟨?_, fun hseen => ?_⟩
  · rw [hrow, Option.some_inj, ← hstamp, stamp_eq_iff, SameStamp, u.isReading, hdate,
      date_after_iff hback]
    simp
  · rw [(date_after_iff hback).mpr hseen] at hdate
    rw [hstate]
    exact congrArg₂ MsiParserState.mk hdate rfl

variable (hhost : AsciiDecimals host)
include hhost

/-- A log goes on from a timed line as it should exactly when every later timed
line is seen from the one before. -/
theorem outs_times_iff (rows : List (Row host)) (t : Moment)
    (hpaced : (t :: rows.filterMap Row.moment).IsChain Near) :
    ((reader host filePath).outs t.state (rows.map Row.text)).map (Option.map rowTime) =
      rows.map Row.time ↔ Followed t rows := by
  induction rows generalizing t with
  | nil => exact iff_of_true rfl trivial
  | cons row rows ih =>
    rw [List.map_cons, List.map_cons, Reader.outs, List.map_cons, List.cons.injEq]
    cases row with
    | header l =>
      have hpaced := (List.isChain_cons_cons.mp hpaced).2
      obtain ⟨hrow, hstate⟩ := read_header filePath hhost l t.state
      simp only [Row.text, Row.time, Followed, hrow, hstate, true_and]
      exact ih l.moment hpaced
    | engine l =>
      obtain ⟨hnear, hpaced⟩ := List.isChain_cons_cons.mp hpaced
      simp only [Row.text, Row.time, Followed]
      cases hblank : isBlank l.message with
      | true =>
        -- without a message the row shows no time
        have huntimed := (read_untimed filePath (recognize_engine_blank hhost l hblank) t.state).1
        rw [if_neg (trim_ne_nil_of_head l.text_head rfl)] at huntimed
        rw [huntimed]
        simp [Moment.time]
      | false =>
        obtain ⟨caps, hkind, hclock⟩ := recognize_engine hhost l hblank
        have htiming : (recognize host (trimEnd l.text)).timing = .timed l.moment.clock := by
          rw [hkind, Line.timing, hclock]
        obtain ⟨hrow, hstate⟩ := read_moment filePath (trim_ne_nil_of_head l.text_head rfl) htiming
          hnear.not_rolls
        rw [hrow, and_iff_right rfl]
        refine and_congr_right fun hseen => ?_
        rw [hstate hseen]
        exact ih l.moment hpaced
    | action l =>
      obtain ⟨hnear, hpaced⟩ := List.isChain_cons_cons.mp hpaced
      obtain ⟨hrow, hstate⟩ := read_moment (u := l.moment.whole) filePath
        (trim_ne_nil_of_head l.text_head rfl) (recognize_action hhost l) hnear.not_rolls
      simp only [Row.text, Row.time, Followed]
      rw [hrow]
      refine and_congr_right fun hseen => ?_
      rw [hstate hseen]
      exact ih l.moment hpaced
    | untimed line h =>
      obtain ⟨hrow, hstate⟩ := read_untimed filePath h t.state
      simp only [Row.text, Row.time, Followed, hrow, hstate, true_and]
      exact ih t hpaced

end

def lineTime (entry : LogEntry) : Nat × (Option Int × Option Text) :=
  (entry.lineNumber, entry.timestamp, entry.timestampDisplay)

/-- The rows of a log that begins with a header show the moments of their lines
exactly when every midnight is seen. -/
theorem parseLines_times_iff {host : Host} (hhost : AsciiDecimals host) (filePath : Text)
    (l : HeaderLine) (rows : List (Row host))
    (hpaced : (l.moment :: rows.filterMap Row.moment).IsChain Near) :
    (parseLines host filePath ((Row.header l :: rows).map Row.text)).1.map lineTime =
        numbered 1 ((Row.header l :: rows).map Row.time) ↔
      Followed l.moment rows := by
  obtain ⟨hrow, hstate⟩ := read_header filePath hhost l {}
  have hspec := (@parseWith_spec _ _ lineTime (fun _ _ => rfl) (reader host filePath)
    ((Row.header l :: rows).map Row.text)).1
  have hshown : shown Prod.fst lineTime (numbered 1 ((reader host filePath).outs {}
        ((Row.header l :: rows).map Row.text))) =
      numbered 1 (((reader host filePath).outs {}
        ((Row.header l :: rows).map Row.text)).map (Option.map rowTime)) := by
    rw [numbered_map]
    rfl
  have houts : ((reader host filePath).outs {} ((Row.header l :: rows).map Row.text)).map
        (Option.map rowTime) = (Row.header l :: rows).map Row.time ↔ Followed l.moment rows := by
    rw [List.map_cons, List.map_cons, Reader.outs, List.map_cons, List.cons.injEq]
    simp only [Row.text, Row.time, hrow, hstate, true_and]
    exact outs_times_iff filePath hhost rows l.moment hpaced
  rw [parseLines, hspec, ← houts]
  show shown Prod.fst lineTime (numbered 1 ((reader host filePath).outs {} _)) = _ ↔ _
  rw [hshown]
  refine ⟨fun h => numbered_inj (by simp) h, fun h => by rw [h]⟩

/-! ### Around one midnight -/

instance (t u : Moment) : Decidable (Near t u) := inferInstanceAs (Decidable (_ ∧ _))

def juneThirteenth : NaiveDate := ⟨2023, 6, 13, by decide⟩

def juneFourteenth : NaiveDate := ⟨2023, 6, 14, by decide⟩

def eveningHeader (hour minute second : Nat) (h : hour < 24) (m : minute < 60) (s : second < 60) :
    HeaderLine :=
  { moment      := ⟨juneThirteenth, ⟨hour, minute, second, 0⟩, h, m, s, Moment.zero_lt_second⟩
    year_nonneg := show (0 : Int) ≤ 2023 by decide
    year_lt     := show (2023 : Int) < 10000 by decide
    verbose     := true
    zeros       := false
    build       := " Build type: SHIP ".toList
    build_line  := by decide }

def engineRow (date : NaiveDate) (hour minute second : Nat) (h : hour < 24) (m : minute < 60)
    (s : second < 60) : Row .ascii :=
  .engine
    { moment        := ⟨date, ⟨hour, minute, second, 452⟩, h, m, s, Nat.lt_of_sub_ne_zero (by simp)⟩
      context       := 's'
      context_known := by decide
      pid           := ⟨"8C".toList, by simp, List.all_eq_true.mp (by decide +kernel)⟩
      tid           := ⟨"98".toList, by simp, List.all_eq_true.mp (by decide +kernel)⟩
      message       := "Doing action".toList
      message_line  := by decide }

def quickHeader : HeaderLine := eveningHeader 23 59 50 (by decide) (by decide) (by decide)

def quickRows : List (Row .ascii) :=
  [engineRow juneThirteenth 23 59 59 (by decide) (by decide) (by decide),
    .untimed "  ".toList rfl,
    engineRow juneFourteenth 0 0 1 (by decide) (by decide) (by decide)]

theorem parseLines_times_quick :
    (parseLines .ascii [] ((Row.header quickHeader :: quickRows).map Row.text)).1.map lineTime =
      numbered 1 ((Row.header quickHeader :: quickRows).map Row.time) :=
  (@parseLines_times_iff .ascii (fun _ _ => rfl) [] quickHeader quickRows
    (by decide +kernel)).mpr
    ⟨⟨by decide, .inl rfl⟩, ⟨by decide, .inr (by decide +kernel)⟩, trivial⟩

def pauseHeader : HeaderLine := eveningHeader 22 30 0 (by decide) (by decide) (by decide)

def pauseRows : List (Row .ascii) :=
  [engineRow juneFourteenth 1 30 0 (by decide) (by decide) (by decide)]

def swapHeader : HeaderLine := eveningHeader 23 59 30 (by decide) (by decide) (by decide)

def swapRows : List (Row .ascii) :=
  [engineRow juneFourteenth 0 0 10 (by decide) (by decide) (by decide),
    engineRow juneThirteenth 23 59 50 (by decide) (by decide) (by decide),
    engineRow juneFourteenth 0 0 20 (by decide) (by decide) (by decide)]

/-- A pause over midnight leaves the date where it was, and a swap moves it on twice. -/
theorem parseLines_times_lost :
    ((pauseHeader.moment :: pauseRows.filterMap Row.moment).IsChain Near ∧
      (parseLines .ascii [] ((Row.header pauseHeader :: pauseRows).map Row.text)).1.map lineTime ≠
        numbered 1 ((Row.header pauseHeader :: pauseRows).map Row.time)) ∧
    ((swapHeader.moment :: swapRows.filterMap Row.moment).IsChain Near ∧
      ((parseLines .ascii [] ((Row.header swapHeader :: swapRows).map Row.text)).1.map
        LogEntry.timestampDisplay) =
        [some "06-13-2023 23:59:30.000".toList, some "06-14-2023 00:00:10.452".toList,
          some "06-14-2023 23:59:50.452".toList, some "06-15-2023 00:00:20.452".toList]) := by
  decide +kernel

end Msi
end Parser
end CmTrace
