import CmTrace.Machine
import CmTrace.Text.Number

/-!
# Dates and clock readings

The proleptic Gregorian calendar without a time zone, over the years the
calendar library of the parsers supports.
-/

namespace CmTrace
namespace Time

def isLeapYear (year : Int) : Bool :=
  year % 4 == 0 && (year % 100 != 0 || year % 400 == 0)

def daysInMonth (year : Int) (month : Nat) : Nat :=
  match month with
  | 2 => if isLeapYear year then 29 else 28
  | 4 | 6 | 9 | 11 => 30
  | _ => 31

def minYear : Int := -262143

def maxYear : Int := 262142

def isDate (year : Int) (month day : Nat) : Bool :=
  decide (minYear ≤ year ∧ year ≤ maxYear ∧ 1 ≤ month ∧ month ≤ 12 ∧ 1 ≤ day ∧
    day ≤ daysInMonth year month)

structure NaiveDate where
  year : Int
  month : Nat
  day : Nat
  valid : isDate year month day = true
  deriving DecidableEq, Repr

namespace NaiveDate

def fromYmd (year : Int) (month day : Nat) : Option NaiveDate :=
  if h : isDate year month day = true then some ⟨year, month, day, h⟩ else none

def succ (date : NaiveDate) : Option NaiveDate :=
  if date.day < daysInMonth date.year date.month then fromYmd date.year date.month (date.day + 1)
  else if date.month < 12 then fromYmd date.year (date.month + 1) 1
  else fromYmd (date.year + 1) 1 1

theorem fromYmd_eq_some {year : Int} {month day : Nat} {date : NaiveDate}
    (h : fromYmd year month day = some date) :
    date.year = year ∧ date.month = month ∧ date.day = day := by
  rw [fromYmd] at h
  split_ifs at h with hv
  cases h
  exact ⟨rfl, rfl, rfl⟩

theorem bounds (date : NaiveDate) :
    1 ≤ date.month ∧ date.month ≤ 12 ∧ 1 ≤ date.day ∧
      date.day ≤ daysInMonth date.year date.month := by
  have h := of_decide_eq_true date.valid
  exact ⟨h.2.2.1, h.2.2.2.1, h.2.2.2.2.1, h.2.2.2.2.2⟩

theorem ext_fields {a b : NaiveDate} (hy : a.year = b.year) (hm : a.month = b.month)
    (hd : a.day = b.day) : a = b := by
  cases a
  cases b
  cases hy
  cases hm
  cases hd
  rfl

theorem succ_cases {date next : NaiveDate} (h : date.succ = some next) :
    (next.year = date.year ∧ next.month = date.month ∧ next.day = date.day + 1) ∨
    (date.day = daysInMonth date.year date.month ∧ next.year = date.year ∧
      next.month = date.month + 1 ∧ next.day = 1) ∨
    (date.day = daysInMonth date.year date.month ∧ date.month = 12 ∧ next.year = date.year + 1 ∧
      next.month = 1 ∧ next.day = 1) := by
  obtain ⟨_, hmonth, _, hday⟩ := date.bounds
  rw [succ] at h
  split_ifs at h with hd hm
  · exact .inl (fromYmd_eq_some h)
  · exact .inr (.inl ⟨by omega, fromYmd_eq_some h⟩)
  · exact .inr (.inr ⟨by omega, by omega, fromYmd_eq_some h⟩)

theorem succ_ne {date next : NaiveDate} (h : date.succ = some next) : next ≠ date := by
  rintro rfl
  obtain ⟨_, _, h⟩ | ⟨_, _, h, _⟩ | ⟨_, _, h, _⟩ := succ_cases h <;> omega

theorem succ_inj {a b next : NaiveDate} (ha : a.succ = some next) (hb : b.succ = some next) :
    a = b := by
  obtain ⟨_, _, hda, _⟩ := a.bounds
  obtain ⟨_, _, hdb, _⟩ := b.bounds
  obtain ⟨hya, hma, ha⟩ | ⟨hla, hya, hma, ha⟩ | ⟨hla, hma', hya, hma, ha⟩ := succ_cases ha <;>
    obtain ⟨hyb, hmb, hb⟩ | ⟨hlb, hyb, hmb, hb⟩ | ⟨hlb, hmb', hyb, hmb, hb⟩ := succ_cases hb
  · exact ext_fields (by omega) (by omega) (by omega)
  · omega
  · omega
  · omega
  · have hy : a.year = b.year := by omega
    have hm : a.month = b.month := by omega
    exact ext_fields hy hm (by rw [hla, hlb, hy, hm])
  · omega
  · omega
  · omega
  · have hy : a.year = b.year := by omega
    have hm : a.month = b.month := by omega
    exact ext_fields hy hm (by rw [hla, hlb, hy, hm])

def epochDays (date : NaiveDate) : Int :=
  -- years begin in March, so that a leap day is the last of its year
  let y := if date.month ≤ 2 then date.year - 1 else date.year
  let m : Int := if date.month ≤ 2 then date.month + 9 else date.month - 3
  365 * y + y / 4 - y / 100 + y / 400 + (153 * m + 2) / 5 + (date.day - 1) - 719468

/-! ### Days in order -/

/-- The year a date is in when years begin in March. -/
def marchYear (date : NaiveDate) : Int := if date.month ≤ 2 then date.year - 1 else date.year

def marchMonth (date : NaiveDate) : Int :=
  if date.month ≤ 2 then date.month + 9 else date.month - 3

def yearDays (y : Int) : Int := 365 * y + y / 4 - y / 100 + y / 400

def monthDays (m : Int) : Int := (153 * m + 2) / 5

theorem yearDays_mono : Monotone yearDays := by
  refine monotone_int_of_le_succ fun y => ?_
  simp only [yearDays]
  omega

theorem epochDays_eq (date : NaiveDate) :
    date.epochDays =
      yearDays date.marchYear + monthDays date.marchMonth + (date.day - 1) - 719468 := rfl

theorem daysInMonth_two (year : Int) :
    (daysInMonth year 2 = 29 ∧ year % 4 = 0 ∧ (year % 100 ≠ 0 ∨ year % 400 = 0)) ∨
      (daysInMonth year 2 = 28 ∧ (year % 4 ≠ 0 ∨ year % 100 = 0 ∧ year % 400 ≠ 0)) := by
  simp only [daysInMonth, isLeapYear]
  split_ifs with h <;> simp at h ⊢ <;> omega

theorem day_bounds (date : NaiveDate) :
    (0 ≤ date.marchMonth ∧ date.marchMonth ≤ 11) ∧
      (date.marchMonth < 11 →
        monthDays date.marchMonth + (date.day - 1) < monthDays (date.marchMonth + 1)) ∧
      yearDays date.marchYear + monthDays date.marchMonth + (date.day - 1) <
        yearDays (date.marchYear + 1) := by
  obtain ⟨hlow, hhigh, hday, hlast⟩ := date.bounds
  have hfebruary := daysInMonth_two date.year
  unfold marchYear marchMonth yearDays monthDays
  generalize date.month = month at *
  interval_cases month <;> simp only [daysInMonth] at hlast hfebruary <;> simp <;> omega

theorem epochDays_inj {a b : NaiveDate} (h : a.epochDays = b.epochDays) : a = b := by
  obtain ⟨⟨ha0, ha11⟩, ham, hay⟩ := a.day_bounds
  obtain ⟨⟨hb0, hb11⟩, hbm, hby⟩ := b.day_bounds
  obtain ⟨_, _, hda, _⟩ := a.bounds
  obtain ⟨_, _, hdb, _⟩ := b.bounds
  rw [epochDays_eq, epochDays_eq] at h
  have hpos : ∀ m : Int, 0 ≤ m → 0 ≤ monthDays m := fun m hm => by
    unfold monthDays
    omega
  have hma := hpos _ ha0
  have hmb := hpos _ hb0
  have hyear : a.marchYear = b.marchYear := by
    rcases lt_trichotomy a.marchYear b.marchYear with hlt | heq | hlt
    · have := yearDays_mono (show a.marchYear + 1 ≤ b.marchYear by omega)
      omega
    · exact heq
    · have := yearDays_mono (show b.marchYear + 1 ≤ a.marchYear by omega)
      omega
  rw [hyear] at h
  have hmonth : a.marchMonth = b.marchMonth := by
    unfold monthDays at *
    omega
  rw [hmonth] at h
  refine ext_fields ?_ ?_ (by omega)
  all_goals
    obtain ⟨_, _, _, _⟩ := a.bounds
    obtain ⟨_, _, _, _⟩ := b.bounds
    unfold marchMonth at hmonth
    unfold marchYear at hyear
    split_ifs at * <;> omega

theorem epochDays_succ {date next : NaiveDate} (h : date.succ = some next) :
    next.epochDays = date.epochDays + 1 := by
  have hfebruary := daysInMonth_two date.year
  obtain ⟨hlow, hhigh, hday, hlast⟩ := date.bounds
  obtain ⟨hy, hm, hd⟩ | ⟨hlast, hy, hm, hd⟩ | ⟨hlast, hmonth, hy, hm, hd⟩ := succ_cases h
  · simp only [epochDays, hy, hm, hd]
    omega
  · simp only [epochDays, hy, hm, hd, hlast]
    generalize date.month = month at *
    interval_cases month <;> simp only [daysInMonth] at hfebruary ⊢ <;> omega
  · simp only [epochDays, hy, hm, hd, hlast, hmonth, daysInMonth]
    omega

theorem succ_eq_none {date : NaiveDate} (h : date.succ = none) :
    date.year = maxYear ∧ date.month = 12 ∧ date.day = 31 := by
  have hvalid := of_decide_eq_true date.valid
  rw [succ] at h
  split_ifs at h with hd hm
  · rw [fromYmd, dif_pos (by rw [isDate, decide_eq_true_eq]; omega)] at h
    cases h
  · have hfirst : 1 ≤ daysInMonth date.year (date.month + 1) := by
      unfold daysInMonth
      split <;> (try split_ifs) <;> omega
    rw [fromYmd, dif_pos (by rw [isDate, decide_eq_true_eq]; omega)] at h
    cases h
  · have hmonth : date.month = 12 := by omega
    have hdays : daysInMonth date.year date.month = 31 := by rw [hmonth]; rfl
    refine ⟨?_, hmonth, by omega⟩
    by_contra hyear
    have hjanuary : daysInMonth (date.year + 1) 1 = 31 := rfl
    rw [fromYmd, dif_pos (by rw [isDate, decide_eq_true_eq, hjanuary]; omega)] at h
    cases h

theorem epochDays_le_of_succ_eq_none {date : NaiveDate} (h : date.succ = none) (other : NaiveDate) :
    other.epochDays ≤ date.epochDays := by
  obtain ⟨hyear, hmonth, hday⟩ := succ_eq_none h
  have hother := of_decide_eq_true other.valid
  obtain ⟨_, _, hend⟩ := other.day_bounds
  rw [epochDays_eq, epochDays_eq]
  have hlast : date.marchYear = maxYear := by simp [marchYear, hmonth, hyear]
  have hnine : date.marchMonth = 9 := by simp [marchMonth, hmonth]
  rw [hlast, hnine, hday]
  rcases lt_or_ge other.marchYear maxYear with hlt | hge
  · have hyears := yearDays_mono (show other.marchYear + 1 ≤ maxYear by omega)
    unfold monthDays at *
    omega
  · have hsame : other.marchYear = maxYear := by
      unfold marchYear at hge ⊢
      split_ifs at hge ⊢ <;> omega
    obtain ⟨_, hin, _⟩ := other.day_bounds
    have hmonths : other.marchMonth ≤ 9 := by
      unfold marchYear at hge
      unfold marchMonth
      split_ifs at hge ⊢ <;> omega
    have hin := hin (by omega)
    rw [hsame]
    unfold monthDays at *
    omega

theorem succ_eq_some_iff {date next : NaiveDate} :
    date.succ = some next ↔ next.epochDays = date.epochDays + 1 := by
  refine ⟨epochDays_succ, fun h => ?_⟩
  cases hs : date.succ with
  | none =>
    have := epochDays_le_of_succ_eq_none hs next
    omega
  | some later => rw [epochDays_inj (h.trans (epochDays_succ hs).symm)]

end NaiveDate

/-- A clock reading within a day; the milliseconds of a leap second go on to
1999. -/
structure NaiveDateTime where
  date : NaiveDate
  hour : Nat
  minute : Nat
  second : Nat
  milli : Nat
  deriving DecidableEq, Repr

def isClock (hour minute second milli : Nat) : Bool :=
  decide (hour < 24 ∧ minute < 60 ∧ second < 60 ∧ (milli < 1000 ∨ second = 59 ∧ milli < 2000))

namespace NaiveDate

def andHmsMilli (date : NaiveDate) (hour minute second milli : Nat) : Option NaiveDateTime :=
  if isClock hour minute second milli then some ⟨date, hour, minute, second, milli⟩ else none

def andHms (date : NaiveDate) (hour minute second : Nat) : Option NaiveDateTime :=
  date.andHmsMilli hour minute second 0

end NaiveDate

/-- Milliseconds since the epoch of a reading taken in universal time. -/
def NaiveDateTime.utcMillis (t : NaiveDateTime) : Int :=
  t.date.epochDays * 86400000 + (t.hour * 3600000 + t.minute * 60000 + t.second * 1000 + t.milli)

def padded (width n : Nat) : Text :=
  List.replicate (width - (Text.decimal n).length) '0' ++ Text.decimal n

def paddedInt (width : Nat) (n : Int) : Text :=
  if n < 0 then '-' :: padded (width - 1) n.natAbs else padded width n.natAbs

theorem padded_inj {width a b : Nat} (h : padded width a = padded width b) : a = b := by
  have hvalue : ∀ n, Nat.ofDigitChars 10 (padded width n) 0 = n := by
    intro n
    rw [padded, Nat.ofDigitChars_append, Nat.ofDigitChars_replicate_zero, Nat.mul_zero,
      Text.decimal, Nat.ofDigitChars_ten_toDigits]
  rw [← hvalue a, h, hvalue]

theorem isDigit_of_mem_padded {width n : Nat} {c : Char} (h : c ∈ padded width n) :
    c.isDigit = true := by
  rcases List.mem_append.mp h with h | h
  · rw [List.eq_of_mem_replicate h]
    rfl
  · exact Nat.isDigit_of_mem_toDigits (by omega) (by omega) h

theorem not_mem_padded {c : Char} (h : c.isDigit = false) (width n : Nat) : c ∉ padded width n :=
  fun hmem => Bool.false_ne_true (h.symm.trans (isDigit_of_mem_padded hmem))

theorem length_padded {width n : Nat} (hwidth : 0 < width) (h : n < 10 ^ width) :
    (padded width n).length = width := by
  have hle : (Text.decimal n).length ≤ width := Nat.toDigits_length 10 n width hwidth h
  rw [padded, List.length_append, List.length_replicate]
  omega

theorem digitsFrom_padded {limit n : Nat} (width : Nat) (h : n ≤ limit) :
    Text.digitsFrom 10 limit 0 (padded width n) = some n := by
  rw [padded]
  induction width - (Text.decimal n).length with
  | zero => exact Text.digitsFrom_decimal n h
  | succ k ih => exact ih

theorem padded_ne_nil (width n : Nat) : padded width n ≠ [] := by
  rw [padded]
  simp [Text.decimal_ne_nil]

theorem parseUnsigned_padded {limit n : Nat} (width : Nat) (h : n ≤ limit) :
    Text.parseUnsigned 10 limit (padded width n) = some n := by
  rw [Text.parseUnsigned_of_not_mem (padded_ne_nil width n) (not_mem_padded (by decide) width n),
    digitsFrom_padded width h]

theorem paddedInt_inj {width : Nat} {a b : Int} (h : paddedInt width a = paddedInt width b) :
    a = b := by
  have hsign : '-'.isDigit = false := rfl
  rw [paddedInt, paddedInt] at h
  split_ifs at h with ha hb hb
  · have := padded_inj (List.cons.inj h).2
    omega
  · exact absurd (h ▸ List.mem_cons_self) (not_mem_padded hsign width b.natAbs)
  · exact absurd (h ▸ List.mem_cons_self) (not_mem_padded hsign width a.natAbs)
  · have := padded_inj h
    omega

example : ((NaiveDate.fromYmd 2024 2 29).map NaiveDate.epochDays) = some 19782 := by decide

end Time
end CmTrace
