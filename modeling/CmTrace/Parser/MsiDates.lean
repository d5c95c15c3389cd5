import CmTrace.Parser.Msi

/-!
# Installer logs read without their beginning

A batch of lines read from no date and no time shows the dates of the whole log
unless one of its readings needs a date from before it, or passes a midnight
that only a time from before it tells.
-/

namespace CmTrace
namespace Parser
namespace Msi

open Text Log Time Carried

/-! ## Readings told apart by their dates -/

def Clock.isReading (c : Clock) : Bool := isClock c.hour c.minute c.second c.milli

theorem displayDate_inj {a b : NaiveDate} (h : displayDate a = displayDate b) : a = b := by
  have hsep : '-'.isDigit = false := rfl
  have hmonth := splitOnce_append (not_mem_padded hsep 2 a.month)
    (padded 2 a.day ++ '-' :: paddedInt 4 a.year)
  have hday := splitOnce_append (not_mem_padded hsep 2 a.day) (paddedInt 4 a.year)
  rw [displayDate, displayDate] at h
  rw [h, splitOnce_append (not_mem_padded hsep 2 b.month)] at hmonth
  obtain ⟨hm, hrest⟩ := Prod.mk.inj (Option.some.inj hmonth)
  rw [← hrest, splitOnce_append (not_mem_padded hsep 2 b.day)] at hday
  obtain ⟨hd, hy⟩ := Prod.mk.inj (Option.some.inj hday)
  exact NaiveDate.ext_fields (paddedInt_inj hy).symm (padded_inj hm).symm (padded_inj hd).symm

theorem hyphen_not_mem_display (c : Clock) : '-' ∉ c.display := by
  have hsep : '-'.isDigit = false := rfl
  simp [Clock.display, not_mem_padded hsep]

/-- Two dates give a reading the same stamp when they are the same, or when the
reading is on no clock. -/
def SameStamp (a b : Option NaiveDate) (c : Clock) : Prop :=
  a = b ∨ (a.isSome = true ∧ b.isSome = true ∧ c.isReading = false)

theorem buildTimestamp_display (date : NaiveDate) (c : Clock) :
    (buildTimestamp date c).2 =
      if c.isReading then some (displayDate date ++ ' ' :: c.display) else none := by
  rw [buildTimestamp, NaiveDate.andHmsMilli, Clock.isReading]
  split <;> rfl

theorem stamp_undated_ne (date : NaiveDate) (c : Clock) : stamp (some date) c ≠ stamp none c := by
  intro h
  have hdisplay : (buildTimestamp date c).2 = some c.display := congrArg Prod.snd h
  rw [buildTimestamp_display] at hdisplay
  split_ifs at hdisplay
  have hmem : '-' ∈ displayDate date ++ ' ' :: c.display := by simp [displayDate]
  rw [Option.some.inj hdisplay] at hmem
  exact hyphen_not_mem_display c hmem

theorem stamp_eq_iff (a b : Option NaiveDate) (c : Clock) : stamp a c = stamp b c ↔ SameStamp a b c := by
  cases a with
  | none =>
    cases b with
    | none => simp [SameStamp]
    | some b => simpa [SameStamp] using (stamp_undated_ne b c).symm
  | some a =>
    cases b with
    | none => simpa [SameStamp] using stamp_undated_ne a c
    | some b =>
      cases hc : c.isReading with
      | false =>
        have hnone : ∀ date, buildTimestamp date c = (none, none) := by
          intro date
          rw [Clock.isReading] at hc
          rw [buildTimestamp, NaiveDate.andHmsMilli, hc]
          rfl
        simp [stamp, SameStamp, hnone, hc]
      | true =>
        simp only [SameStamp, hc, Bool.true_eq_false, and_false, or_false, Option.some_inj]
        refine ⟨fun h => ?_, fun h => by rw [h]⟩
        have hdisplay : (buildTimestamp a c).2 = (buildTimestamp b c).2 := congrArg Prod.snd h
        rw [buildTimestamp_display, buildTimestamp_display, if_pos hc, if_pos hc] at hdisplay
        exact displayDate_inj (List.append_cancel_right (Option.some.inj hdisplay))

/-! ## Two states read alike -/

/-- The lines of a log that are read, by what they have to do with the date. -/
def timings (host : Host) (lines : List Text) : List Timing :=
  (lines.filter fun line => decide (trim line ≠ [])).map fun line =>
    (recognize host (trimEnd line)).timing

/-- Every reading has the same stamp from both states. -/
def Alike : MsiParserState → MsiParserState → List Timing → Prop
  | _, _, [] => True
  | a, b, .untimed :: ts => Alike a b ts
  | a, b, .header date secs :: ts => Alike (a.setDate date secs) (b.setDate date secs) ts
  | a, b, .timed c :: ts =>
    SameStamp (a.advanceTime c.secs).currentDate (b.advanceTime c.secs).currentDate c ∧
      Alike (a.advanceTime c.secs) (b.advanceTime c.secs) ts

theorem alike_self (st : MsiParserState) (ts : List Timing) : Alike st st ts := by
  induction ts generalizing st with
  | nil => trivial
  | cons t ts ih =>
    cases t with
    | untimed => exact ih st
    | header date secs => exact ih _
    | timed c => exact ⟨.inl rfl, ih _⟩

section

variable (host : Host) (filePath : Text)

theorem read_blank {line : Text} (h : trim line = []) (st : MsiParserState) :
    (reader host filePath).read st line = (none, st) := by
  simp only [reader, if_pos h]

theorem read_line {line : Text} (h : trim line ≠ []) (st : MsiParserState) :
    (reader host filePath).read st line =
      (some ((parseMsiLine host filePath st line).1,
        (parseMsiLine host filePath st line).1.component.isNone &&
          (parseMsiLine host filePath st line).1.timestamp.isNone &&
          !footerRe.isMatch (trim line)), (parseMsiLine host filePath st line).2) := by
  simp only [reader, if_neg h]

theorem outs_of_alike (lines : List Text) (a b : MsiParserState)
    (h : Alike a b (timings host lines)) :
    (reader host filePath).outs a lines = (reader host filePath).outs b lines := by
  induction lines generalizing a b with
  | nil => rfl
  | cons line lines ih =>
    rw [Reader.outs, Reader.outs]
    by_cases hnil : trim line = []
    · have hts : timings host (line :: lines) = timings host lines := by
        simp [timings, hnil]
      rw [hts] at h
      rw [read_blank host filePath hnil, read_blank host filePath hnil, ih a b h]
    · have hts : timings host (line :: lines) =
          (recognize host (trimEnd line)).timing :: timings host lines := by
        simp [timings, hnil]
      rw [hts] at h
      rw [read_line host filePath hnil, read_line host filePath hnil]
      simp only [parseMsiLine]
      cases ht : (recognize host (trimEnd line)).timing with
      | untimed =>
        rw [ht] at h
        exact congrArg _ (ih a b h)
      | header date secs =>
        rw [ht] at h
        exact congrArg _ (ih _ _ h)
      | timed c =>
        rw [ht] at h
        simp only [(stamp_eq_iff _ _ c).mpr h.1]
        exact congrArg _ (ih _ _ h.2)

theorem alike_of_outs (lines : List Text) (a b : MsiParserState)
    (h : ((reader host filePath).outs a lines).map (Option.map rowContent) =
      ((reader host filePath).outs b lines).map (Option.map rowContent)) :
    Alike a b (timings host lines) := by
  induction lines generalizing a b with
  | nil => trivial
  | cons line lines ih =>
    rw [Reader.outs, Reader.outs, List.map_cons, List.map_cons] at h
    obtain ⟨hfirst, hrest⟩ := List.cons.inj h
    by_cases hnil : trim line = []
    · have hts : timings host (line :: lines) = timings host lines := by
        simp [timings, hnil]
      rw [read_blank host filePath hnil, read_blank host filePath hnil] at hrest
      rw [hts]
      exact ih a b hrest
    · have hts : timings host (line :: lines) =
          (recognize host (trimEnd line)).timing :: timings host lines := by
        simp [timings, hnil]
      rw [read_line host filePath hnil, read_line host filePath hnil] at hfirst hrest
      simp only [parseMsiLine] at hfirst hrest
      rw [hts]
      cases ht : (recognize host (trimEnd line)).timing with
      | untimed =>
        rw [ht] at hrest
        exact ih a b hrest
      | header date secs =>
        rw [ht] at hrest
        exact ih _ _ hrest
      | timed c =>
        rw [ht] at hfirst hrest
        have hrow := Option.some.inj hfirst
        have htime : stamp (a.advanceTime c.secs).currentDate c =
            stamp (b.advanceTime c.secs).currentDate c :=
          Prod.ext (congrArg LogEntry.timestamp hrow) (congrArg LogEntry.timestampDisplay hrow)
        exact ⟨(stamp_eq_iff _ _ c).mp htime, ih _ _ hrest⟩

end

/-! ## When a log reads alike without its beginning -/

/-- Two different dates with the time read last: no reading with a clock comes
before the next dated header, and the calendar does not end before it. -/
def DatesUnseen : NaiveDate → NaiveDate → Option Nat → List Timing → Prop
  | _, _, _, [] => True
  | a, b, prev, .untimed :: ts => DatesUnseen a b prev ts
  | _, _, _, .header (some _) _ :: _ => True
  | a, b, prev, .header none secs :: ts => DatesUnseen a b (secs.or prev) ts
  | a, b, prev, .timed c :: ts =>
    if rolls prev c.secs then
      match a.succ, b.succ with
      | some a, some b => c.isReading = false ∧ DatesUnseen a b (some c.secs) ts
      | none, none => True
      | _, _ => False
    else c.isReading = false ∧ DatesUnseen a b (some c.secs) ts

/-- One date with two times read last: the first reading passes midnight from
both or from neither, or the days it leaves them on are not seen. -/
def MidnightAgrees : NaiveDate → Option Nat → Option Nat → List Timing → Prop
  | _, _, _, [] => True
  | date, p, q, .untimed :: ts => MidnightAgrees date p q ts
  | date, p, q, .header date' secs :: ts =>
    MidnightAgrees (date'.getD date) (secs.or p) (secs.or q) ts
  | date, p, q, .timed c :: ts =>
    rolls p c.secs = rolls q c.secs ∨
      c.isReading = false ∧ ∃ next, date.succ = some next ∧ DatesUnseen next date (some c.secs) ts

/-- A date that may be in force, and the times read last with it and without it:
no reading comes on that date before the next dated header, and what follows the
header agrees about midnight. -/
def DateUnneeded : Option NaiveDate → Option Nat → Option Nat → List Timing → Prop
  | _, _, _, [] => True
  | date, p, q, .untimed :: ts => DateUnneeded date p q ts
  | _, p, q, .header (some date) secs :: ts => MidnightAgrees date (secs.or p) (secs.or q) ts
  | date, p, q, .header none secs :: ts => DateUnneeded date (secs.or p) (secs.or q) ts
  | date, p, _, .timed c :: _ =>
    date = none ∨ rolls p c.secs = true ∧ date.bind NaiveDate.succ = none

theorem alike_comm (ts : List Timing) (a b : MsiParserState) : Alike a b ts ↔ Alike b a ts := by
  induction ts generalizing a b with
  | nil => exact Iff.rfl
  | cons t ts ih =>
    cases t with
    | untimed => exact ih a b
    | header date secs => exact ih _ _
    | timed c =>
      rw [Alike, Alike, ih]
      refine and_congr_left fun _ => ?_
      simp only [SameStamp]
      constructor <;> rintro (h | ⟨ha, hb, hc⟩)
      · exact .inl h.symm
      · exact .inr ⟨hb, ha, hc⟩
      · exact .inl h.symm
      · exact .inr ⟨hb, ha, hc⟩

theorem alike_dates (ts : List Timing) {a b : NaiveDate} (hab : a ≠ b) (prev : Option Nat) :
    Alike ⟨some a, prev⟩ ⟨some b, prev⟩ ts ↔ DatesUnseen a b prev ts := by
  induction ts generalizing a b prev with
  | nil => exact Iff.rfl
  | cons t ts ih =>
    cases t with
    | untimed => exact ih hab prev
    | header date secs =>
      cases date with
      | none => exact ih hab _
      | some date => exact iff_of_true (alike_self _ ts) trivial
    | timed c =>
      simp only [Alike, DatesUnseen, MsiParserState.advanceTime]
      by_cases hr : rolls prev c.secs = true
      · simp only [hr, if_true, Option.bind_some]
        rcases ha : a.succ with _ | a' <;> rcases hb : b.succ with _ | b'
        · exact iff_of_true ⟨.inl rfl, alike_self _ ts⟩ trivial
        · simp [SameStamp]
        · simp [SameStamp]
        · have hne : a' ≠ b' := by
            rintro rfl
            exact hab (NaiveDate.succ_inj ha hb)
          rw [ih hne]
          simp [SameStamp, hne]
      · simp only [hr, if_false, Bool.false_eq_true]
        rw [ih hab]
        simp [SameStamp, hab]

theorem alike_times (ts : List Timing) (date : NaiveDate) (p q : Option Nat) :
    Alike ⟨some date, p⟩ ⟨some date, q⟩ ts ↔ MidnightAgrees date p q ts := by
  induction ts generalizing date p q with
  | nil => exact Iff.rfl
  | cons t ts ih =>
    cases t with
    | untimed => exact ih date p q
    | header date' secs =>
      cases date' with
      | none => exact ih date _ _
      | some date' => exact ih date' _ _
    | timed c =>
      simp only [Alike, MidnightAgrees, MsiParserState.advanceTime]
      -- after a reading only one of the two may be a day further
      have hday : ∀ next, date.succ = some next →
          (Alike ⟨some next, some c.secs⟩ ⟨some date, some c.secs⟩ ts ↔
            DatesUnseen next date (some c.secs) ts) :=
        fun next h => alike_dates ts (NaiveDate.succ_ne h) _
      cases hp : rolls p c.secs <;> cases hq : rolls q c.secs
      · exact iff_of_true ⟨.inl rfl, alike_self _ ts⟩ (.inl rfl)
      · rcases hs : date.succ with _ | next
        · simp [SameStamp, hs]
        · have hne := NaiveDate.succ_ne hs
          simp [SameStamp, hs, hne.symm, alike_comm ts ⟨some date, _⟩, hday next hs]
      · rcases hs : date.succ with _ | next
        · simp [SameStamp, hs]
        · have hne := NaiveDate.succ_ne hs
          simp [SameStamp, hs, hne, hday next hs]
      · exact iff_of_true ⟨.inl rfl, alike_self _ ts⟩ (.inl rfl)

theorem alike_undated (ts : List Timing) (date : Option NaiveDate) (p q : Option Nat) :
    Alike ⟨date, p⟩ ⟨none, q⟩ ts ↔ DateUnneeded date p q ts := by
  induction ts generalizing date p q with
  | nil => exact Iff.rfl
  | cons t ts ih =>
    cases t with
    | untimed => exact ih date p q
    | header date' secs =>
      cases date' with
      | none => exact ih date _ _
      | some date' => exact alike_times ts date' _ _
    | timed c =>
      simp only [Alike, DateUnneeded, MsiParserState.advanceTime, Option.bind_none, ite_self,
        SameStamp, Option.isSome_none, Bool.false_eq_true, false_and, and_false, or_false]
      split_ifs with hr
      · have hnone : date = none ∨ date.bind NaiveDate.succ = none ↔
            date.bind NaiveDate.succ = none :=
          ⟨fun h => h.elim (fun h => by rw [h]; rfl) id, .inr⟩
        simp only [hr, true_and, hnone]
        exact ⟨And.left, fun h => ⟨h, by rw [h]; exact alike_self _ ts⟩⟩
      · simp only [hr, Bool.false_eq_true, false_and, or_false]
        exact ⟨And.left, fun h => ⟨h, by rw [h]; exact alike_self _ ts⟩⟩

theorem agrees_iff (host : Host) (filePath : Text) (st : MsiParserState) (lines : List Text) :
    (reader host filePath).Agrees rowContent st lines ↔
      DateUnneeded st.currentDate st.prevTimeSecs none (timings host lines) := by
  rw [← alike_undated]
  refine ⟨alike_of_outs host filePath lines st {}, fun h => ?_⟩
  rw [Reader.Agrees]
  exact congrArg _ (outs_of_alike host filePath lines st {} h)

end Msi
end Parser
end CmTrace
