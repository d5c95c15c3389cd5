import CmTrace.Parser.MsiDates
import CmTrace.Text.Forced

/-!
# Lines of an installer log as they are written

Headers, lines of the engine and lines of actions, with the moments they are
written at, and what the parser recognises in them.
-/

namespace CmTrace
namespace Parser
namespace Msi

open Text Log Time Carried
open Regex (Forces Takes Blocked Opens before chain word many plus opt space dot hexDigit)

/-! ## Moments -/

/-- A date and a reading of the clock, to the millisecond. -/
structure Moment where
  date : NaiveDate
  clock : Clock
  hour_lt : clock.hour < 24
  minute_lt : clock.minute < 60
  second_lt : clock.second < 60
  milli_lt : clock.milli < 1000

namespace Moment

def millis (t : Moment) : Int :=
  t.date.epochDays * 86400000 +
    (t.clock.hour * 3600000 + t.clock.minute * 60000 + t.clock.second * 1000 + t.clock.milli)

theorem zero_lt_second : 0 < 1000 := Nat.zero_lt_succ _

def whole (t : Moment) : Moment :=
  { t with
    clock    := { t.clock with milli := 0 }
    milli_lt := zero_lt_second }

def time (t : Moment) : Option Int × Option Text :=
  (some t.millis, some (displayDate t.date ++ ' ' :: t.clock.display))

theorem isReading (t : Moment) : t.clock.isReading = true :=
  decide_eq_true ⟨t.hour_lt, t.minute_lt, t.second_lt, .inl t.milli_lt⟩

theorem buildTimestamp_eq (t : Moment) : buildTimestamp t.date t.clock = t.time := by
  have hreading := t.isReading
  rw [Clock.isReading] at hreading
  rw [buildTimestamp, NaiveDate.andHmsMilli, hreading]
  simp [time, millis, NaiveDateTime.utcMillis]

end Moment

/-! ## Lines as they are written -/

/-- A number of one or two digits, with a leading zero or without. -/
def shortNumber (zeros : Bool) (n : Nat) : Text := if zeros then padded 2 n else decimal n

def clockText (zeros : Bool) (c : Clock) : Text :=
  shortNumber zeros c.hour ++ ':' :: padded 2 c.minute ++ ':' :: padded 2 c.second

def dateText (zeros : Bool) (date : NaiveDate) : Text :=
  shortNumber zeros date.month ++ '/' :: shortNumber zeros date.day ++
    '/' :: padded 4 date.year.toNat

structure HeaderLine where
  moment : Moment
  year_nonneg : 0 ≤ moment.date.year
  year_lt : moment.date.year < 10000
  verbose : Bool
  zeros : Bool
  /-- What stands after the time. -/
  build : Text
  build_line : '\n' ∉ build

def HeaderLine.text (l : HeaderLine) : Text :=
  "=== ".toList ++ (if l.verbose then "Verbose logging" else "Logging").toList ++
    " started: ".toList ++ dateText l.zeros l.moment.date ++ "  ".toList ++
    clockText l.zeros l.moment.clock ++ ' ' :: l.build ++ "===".toList

def isHexDigit (c : Char) : Bool :=
  c.isDigit || decide ('a' ≤ c ∧ c ≤ 'f' ∨ 'A' ≤ c ∧ c ≤ 'F')

/-- A number in hexadecimal digits. -/
structure HexText where
  text : Text
  nonempty : text ≠ []
  digits : ∀ c ∈ text, isHexDigit c = true

structure EngineLine where
  moment : Moment
  context : Char
  context_known : "csaN".toList.contains context = true
  pid : HexText
  tid : HexText
  message : Text
  message_line : '\n' ∉ message

def EngineLine.front (l : EngineLine) : Text :=
  "MSI (".toList ++ l.context :: ") (".toList ++ l.pid.text ++ ':' :: l.tid.text ++ ") [".toList ++
    padded 2 l.moment.clock.hour ++ ':' :: padded 2 l.moment.clock.minute ++
    ':' :: padded 2 l.moment.clock.second ++ ':' :: padded 3 l.moment.clock.milli ++ "]:".toList

def EngineLine.text (l : EngineLine) : Text := l.front ++ ' ' :: l.message

inductive ActionKind where
  | start
  | ended (code : Nat)
  | top

def ActionKind.opening : ActionKind → String
  | .start => "Action start "
  | .ended _ => "Action ended "
  | .top => "Action "

def ActionKind.closing : ActionKind → Text
  | .ended code => " Return value ".toList ++ decimal code ++ ".".toList
  | .start | .top => []

theorem ActionKind.closing_ended (code : Nat) : (ActionKind.ended code).closing =
    " Return value ".toList ++ decimal code ++ ".".toList := rfl

structure ActionLine (host : Host) where
  kind : ActionKind
  moment : Moment
  zeros : Bool
  name : Text
  name_nonempty : name ≠ []
  name_word : ∀ c ∈ name, host.isWordChar c = true

def ActionLine.text {host : Host} (l : ActionLine host) : Text :=
  l.kind.opening.toList ++ clockText l.zeros l.moment.clock ++ ": ".toList ++ l.name ++
    ".".toList ++ l.kind.closing

/-! ## What is recognised -/

/-- Of the ASCII characters, the digits are the decimal numbers. -/
def AsciiDecimals (host : Host) : Prop :=
  ∀ c : Char, c.toNat < 128 → host.isDecimalNumber c = c.isDigit

def dateRe (host : Host) : Regex :=
  chain [digits host 1 2, word ['/'], digits host 1 2, word ['/'], digits host 4 4]

def clockRe (host : Host) : Regex :=
  chain [digits host 1 2, word [':'], digits host 2 2, word [':'], digits host 2 2]

def buildRe : Regex := chain [plus space, .group 3 (many dot), word "===".toList, many space, .stop]

/-- The message of an engine line and the space before it. -/
def messageRe : Regex := chain [plus space, .group 8 (many dot), .stop]

def nameRe (host : Host) (rest : List Regex) : Regex :=
  chain ([plus space, .group 4 (plus host.wordChar), word ['.']] ++ rest ++ [many space, .stop])

theorem shortNumber_length {zeros : Bool} {n : Nat} (h : n < 100) :
    (shortNumber zeros n).length = 1 ∨ (shortNumber zeros n).length = 2 := by
  have hle : (decimal n).length ≤ 2 := Nat.toDigits_length 10 n 2 (by decide) h
  have hpos := List.length_pos_iff.mpr (decimal_ne_nil n)
  cases zeros with
  | true => exact .inr (length_padded (by decide) h)
  | false =>
    rw [shortNumber, if_neg Bool.false_ne_true]
    omega

theorem isDigit_of_mem_shortNumber {zeros : Bool} {n : Nat} {c : Char}
    (h : c ∈ shortNumber zeros n) : c.isDigit = true := by
  rw [shortNumber] at h
  split_ifs at h
  · exact isDigit_of_mem_padded h
  · exact Nat.isDigit_of_mem_toDigits (by omega) (by omega) h

theorem parse_shortNumber {zeros : Bool} {n : Nat} (h : n < 100) :
    parseU32 (shortNumber zeros n) = some n := by
  have hlimit : n ≤ u32Max := by
    unfold u32Max
    omega
  rw [parseU32, shortNumber]
  split_ifs
  · exact parseUnsigned_padded 2 hlimit
  · exact parseUnsigned_decimal hlimit

theorem toNat_lt_of_isDigit {c : Char} (h : c.isDigit = true) : c.toNat < 128 := by
  rw [Char.isDigit, Bool.and_eq_true, decide_eq_true_eq, decide_eq_true_eq] at h
  have hle : c.toNat ≤ 57 := UInt32.le_iff_toNat_le.mp h.2
  omega

theorem HexText.not_mem (h : HexText) {c : Char} (hc : isHexDigit c = false) : c ∉ h.text := by
  intro hmem
  rw [h.digits c hmem] at hc
  cases hc

theorem HexText.takes (h : HexText) {c : Char} (hc : isHexDigit c = false) (n : Nat) (t : Text) :
    Takes (.group n (plus hexDigit)) h.text.contains (h.text ++ c :: t)
      { taken := h.text, rest := c :: t, groups := [(n, h.text)] } := by
  obtain ⟨text, hne, hdigits⟩ := h
  obtain ⟨d, text, rfl⟩ := List.exists_cons_of_ne_nil hne
  obtain ⟨more, hprefixes, hmore⟩ := (Regex.takes_plus (hdigits d List.mem_cons_self)
    (fun e he => hdigits e (List.mem_cons_of_mem _ he)) (t := c :: t) hc).group n
  refine ⟨more, hprefixes, fun m hm => ?_⟩
  obtain ⟨e, he, hin⟩ := Option.any_eq_true .. |>.mp (hmore m hm)
  refine Option.any_eq_true .. |>.mpr ⟨e, he, ?_⟩
  rw [List.contains_cons, hin, Bool.or_true]

theorem month_day_lt (date : NaiveDate) : date.month < 100 ∧ date.day < 100 := by
  obtain ⟨_, hmonth, _, hday⟩ := date.bounds
  have hdays : daysInMonth date.year date.month ≤ 31 := by
    unfold daysInMonth
    split <;> (try split_ifs) <;> omega
  omega

theorem not_mem_shortNumber {c : Char} (hc : c.isDigit = false) (zeros : Bool) (n : Nat) :
    c ∉ shortNumber zeros n := fun hmem =>
  Bool.false_ne_true (hc.symm.trans (isDigit_of_mem_shortNumber hmem))

theorem shortNumber_head (zeros : Bool) (n : Nat) :
    ∃ c rest, shortNumber zeros n = c :: rest ∧ c.isDigit = true := by
  have hne : shortNumber zeros n ≠ [] := by
    rw [shortNumber]
    split_ifs
    · exact padded_ne_nil 2 n
    · exact decimal_ne_nil n
  obtain ⟨c, rest, hc⟩ := List.exists_cons_of_ne_nil hne
  exact ⟨c, rest, hc, isDigit_of_mem_shortNumber (hc ▸ List.mem_cons_self)⟩

theorem before_shortNumber (zeros : Bool) (n : Nat) (t : Text) :
    before isWhitespace (shortNumber zeros n ++ t) = false := by
  obtain ⟨c, rest, hc, hdigit⟩ := shortNumber_head zeros n
  rw [hc]
  show isWhitespace c = false
  rw [Char.isDigit, Bool.and_eq_true, decide_eq_true_eq, decide_eq_true_eq] at hdigit
  have hlow : 48 ≤ c.toNat := UInt32.le_iff_toNat_le.mp hdigit.1
  have hhigh : c.toNat ≤ 57 := UInt32.le_iff_toNat_le.mp hdigit.2
  rw [isWhitespace, decide_eq_false_iff_not]
  omega

theorem logging_forces {r : Regex} {x verbose : Bool} {s t : Text} {gs : List (Nat × Text)}
    {as : List Regex}
    (h : Forces r x s (chain (opt (.seq (word "Verbose".toList) (plus space)) ::
      (.char fun c => c == 'L' || c == 'l') :: as)) false
        ((if verbose then "Verbose logging" else "Logging").toList ++ t) gs) :
    Forces r x s (chain as) false ("ogging".toList ++ t) gs := by
  cases verbose with
  | true =>
    have htext : "Verbose logging".toList ++ t =
        "Verbose".toList ++ (' ' :: 'l' :: ("ogging".toList ++ t)) := by
      simp only [String.reduceToList, List.cons_append, List.nil_append]
    have hopt : Takes (opt (.seq (word "Verbose".toList) (plus space))) ['V'].contains
        ("Verbose".toList ++ (' ' :: 'l' :: ("ogging".toList ++ t)))
        { taken := "Verbose ".toList, rest := 'l' :: ("ogging".toList ++ t) } := by
      refine ⟨[{ taken := [], rest := "Verbose".toList ++ (' ' :: 'l' :: ("ogging".toList ++ t)) }],
        ?_, fun m hm => ?_⟩
      · have hspace : (plus space).prefixes false (' ' :: 'l' :: ("ogging".toList ++ t)) =
            [{ taken := [' '], rest := 'l' :: ("ogging".toList ++ t) }] := Regex.plus_one rfl rfl
        rw [opt, Regex.prefixes, Regex.prefixes, Regex.prefixes, Regex.word_append,
          List.flatMap_singleton, Bool.false_and]
        show ((plus space).prefixes false _).map _ ++ _ = _
        rw [hspace]
        rfl
      · rw [List.mem_singleton.mp hm]
        rfl
    rw [if_pos rfl, htext] at h
    have h := h.takes hopt fun c s hc => by
      obtain rfl : c = 'V' := by simpa using hc
      rfl
    exact h.piece (Regex.char_cons rfl _ _)
  | false =>
    have htext : "Logging".toList ++ t = 'L' :: ("ogging".toList ++ t) := by
      simp only [String.reduceToList, List.cons_append, List.nil_append]
    have hopt : (opt (.seq (word "Verbose".toList) (plus space))).prefixes false
        ('L' :: ("ogging".toList ++ t)) =
          [{ taken := [], rest := 'L' :: ("ogging".toList ++ t) }] := rfl
    rw [if_neg Bool.false_ne_true, htext] at h
    exact (h.piece hopt).piece (Regex.char_cons rfl _ _)

section

variable {host : Host} (hhost : AsciiDecimals host)
include hhost

theorem decimals_digit {c : Char} (h : c.isDigit = true) : host.isDecimalNumber c = true := by
  rw [hhost c (toNat_lt_of_isDigit h), h]

theorem digits_padded {width n : Nat} (hwidth : 0 < width) (h : n < 10 ^ width) (t : Text) :
    (digits host width width).prefixes false (padded width n ++ t) =
      [{ taken := padded width n, rest := t }] :=
  Regex.between_append (length_padded hwidth h)
    (fun _ hc => decimals_digit hhost (isDigit_of_mem_padded hc)) t

theorem digits_shortNumber {zeros : Bool} {n : Nat} (h : n < 100) {c : Char}
    (hascii : c.toNat < 128) (hc : c.isDigit = false) (t : Text) :
    Takes (digits host 1 2) (shortNumber zeros n).contains (shortNumber zeros n ++ c :: t)
      { taken := shortNumber zeros n, rest := c :: t } := by
  refine Regex.takes_one_two (shortNumber_length h)
    (fun _ hd => decimals_digit hhost (isDigit_of_mem_shortNumber hd)) ?_
  rw [before, List.head?_cons, Option.any_some, hhost c hascii, hc]

theorem engine_forces (l : EngineLine) (t : Text) :
    Forces (engineRe host) true (l.front ++ t) messageRe false t
      [(7, padded 3 l.moment.clock.milli), (6, padded 2 l.moment.clock.second),
        (5, padded 2 l.moment.clock.minute), (4, padded 2 l.moment.clock.hour),
        (3, l.tid.text), (2, l.pid.text), (1, [l.context])] := by
  have htext : l.front ++ t = "MSI".toList ++ (' ' :: (['('] ++ (l.context :: ([')'] ++
      (' ' :: (['('] ++ (l.pid.text ++ ([':'] ++ (l.tid.text ++ ([')'] ++ (' ' :: (['['] ++
      (padded 2 l.moment.clock.hour ++ ([':'] ++ (padded 2 l.moment.clock.minute ++ ([':'] ++
      (padded 2 l.moment.clock.second ++ ([':'] ++ (padded 3 l.moment.clock.milli ++
      ("]:".toList ++ t)))))))))))))))))))) := by
    delta EngineLine.front
    simp only [String.reduceToList, List.append_assoc, List.cons_append, List.nil_append]
  have hspace : isWhitespace ' ' = true := rfl
  have hhour : l.moment.clock.hour < 10 ^ 2 := l.moment.hour_lt.trans (by decide)
  have hminute : l.moment.clock.minute < 10 ^ 2 := l.moment.minute_lt.trans (by decide)
  have hsecond : l.moment.clock.second < 10 ^ 2 := l.moment.second_lt.trans (by decide)
  have h := Forces.refl (engineRe host) true (l.front ++ t)
  rw [htext] at h ⊢
  have h := h.begins.word (by simp)
  have h := (h.one hspace rfl).word (u := ['(']) (by simp)
  have h := h.piece (Regex.prefixes_group (Regex.char_cons l.context_known _ _) 1)
  have h := ((h.word (u := [')']) (by simp)).one hspace rfl).word (u := ['(']) (by simp)
  have h := h.takes (l.pid.takes rfl 2 _) (Regex.blocked_word_of_not_mem (l.pid.not_mem rfl) _)
  have h := h.word (u := [':']) (by simp)
  have h := h.takes (l.tid.takes rfl 3 _) (Regex.blocked_word_of_not_mem (l.tid.not_mem rfl) _)
  have h := ((h.word (u := [')']) (by simp)).one hspace rfl).word (u := ['[']) (by simp)
  have h := h.piece (Regex.prefixes_group (digits_padded hhost (by decide) hhour _) 4)
  have h := (h.word (u := [':']) (by simp)).piece
    (Regex.prefixes_group (digits_padded hhost (by decide) hminute _) 5)
  have h := (h.word (u := [':']) (by simp)).piece
    (Regex.prefixes_group (digits_padded hhost (by decide) hsecond _) 6)
  have h := (h.word (u := [':']) (by simp)).piece
    (Regex.prefixes_group (digits_padded hhost (by decide) l.moment.milli_lt _) 7)
  exact h.word (by simp)

theorem dateRe_prefixes (zeros : Bool) {date : NaiveDate} (hyear : date.year.toNat < 10 ^ 4)
    (t : Text) :
    (dateRe host).prefixes false (dateText zeros date ++ t) =
      [{ taken := dateText zeros date, rest := t }] := by
  obtain ⟨hmonth, hday⟩ := month_day_lt date
  have htext : dateText zeros date ++ t = shortNumber zeros date.month ++ (['/'] ++
      (shortNumber zeros date.day ++ (['/'] ++ (padded 4 date.year.toNat ++ t)))) := by
    simp only [dateText, List.append_assoc, List.cons_append, List.nil_append]
  have hslash : ∀ n, '/' ∉ shortNumber zeros n := not_mem_shortNumber rfl zeros
  have h := Forces.refl (dateRe host) false (dateText zeros date ++ t)
  rw [htext] at h
  have h := h.takes (digits_shortNumber hhost hmonth (by decide) rfl _)
    (Regex.blocked_word_of_not_mem (hslash _) _)
  have h := (h.word (u := ['/']) (by simp)).takes (digits_shortNumber hhost hday (by decide) rfl _)
    (Regex.blocked_word_of_not_mem (hslash _) _)
  have h := (h.word (u := ['/']) (by simp)).piece (digits_padded hhost (by decide) hyear _)
  rw [← htext] at h
  exact h.done

theorem clockRe_prefixes (zeros : Bool) (m : Moment) (t : Text) :
    (clockRe host).prefixes false (clockText zeros m.clock ++ t) =
      [{ taken := clockText zeros m.clock, rest := t }] := by
  have htext : clockText zeros m.clock ++ t = shortNumber zeros m.clock.hour ++ ([':'] ++
      (padded 2 m.clock.minute ++ ([':'] ++ (padded 2 m.clock.second ++ t)))) := by
    simp only [clockText, List.append_assoc, List.cons_append, List.nil_append]
  have hcolon : ':' ∉ shortNumber zeros m.clock.hour := not_mem_shortNumber rfl zeros _
  have h := Forces.refl (clockRe host) false (clockText zeros m.clock ++ t)
  rw [htext] at h
  have h := h.takes (digits_shortNumber hhost (m.hour_lt.trans (by decide)) (by decide) rfl _)
    (Regex.blocked_word_of_not_mem hcolon _)
  have h := (h.word (u := [':']) (by simp)).piece
    (digits_padded hhost (by decide) (m.minute_lt.trans (by decide)) _)
  have h := (h.word (u := [':']) (by simp)).piece
    (digits_padded hhost (by decide) (m.second_lt.trans (by decide)) _)
  rw [← htext] at h
  exact h.done

theorem blocked_digits (n : Nat) (as bs : List Regex) :
    Blocked (chain (.group n (chain (digits host 1 2 :: as)) :: bs)) [' '].contains := by
  intro c s hc
  obtain rfl : c = ' ' := by simpa using hc
  have hblank : host.isDecimalNumber ' ' = false := hhost ' ' (by decide)
  simp [Regex.prefixes, digits, Regex.between, Regex.times, Regex.chain,
    Host.decimalNumber, hblank]

theorem header_forces (l : HeaderLine) :
    Forces (headerRe host) true l.text buildRe false (' ' :: (l.build ++ "===".toList))
      [(2, clockText l.zeros l.moment.clock), (1, dateText l.zeros l.moment.date)] := by
  have htext : l.text = "===".toList ++ (' ' ::
      ((if l.verbose then "Verbose logging" else "Logging").toList ++ (' ' :: ("started:".toList ++
      (' ' :: (dateText l.zeros l.moment.date ++ (' ' :: [' '] ++
      (clockText l.zeros l.moment.clock ++ (' ' :: (l.build ++ "===".toList)))))))))) := by
    delta HeaderLine.text
    simp only [String.reduceToList, List.append_assoc, List.cons_append, List.nil_append]
  have hspace : isWhitespace ' ' = true := rfl
  have hyear : l.moment.date.year.toNat < 10 ^ 4 := by
    have := l.year_lt
    omega
  have h := Forces.refl (headerRe host) true l.text
  rw [htext] at h ⊢
  have h := h.flat.begins.word (u := "===".toList) (by simp)
  have h := h.one hspace (by cases l.verbose <;> rfl)
  have h := logging_forces h
  have h := (h.word (by simp)).one hspace rfl
  have h := (h.word (by simp)).one hspace (by
    simp only [dateText, List.append_assoc]
    exact before_shortNumber _ _ _)
  have h := h.piece (Regex.prefixes_group (dateRe_prefixes hhost l.zeros hyear _) 1)
  have h := h.takes (Regex.takes_plus hspace (by simp [hspace]) (by
    simp only [clockText, List.append_assoc]
    exact before_shortNumber _ _ _)) (blocked_digits hhost 2 _ _)
  exact h.piece (Regex.prefixes_group (clockRe_prefixes hhost l.zeros l.moment _) 2)

theorem action_forces (opening : String) (hopening : opening.toList ≠ []) (rest : List Regex)
    (zeros : Bool) (m : Moment) (t : Text) :
    Forces (actionRe host opening rest) true
      (opening.toList ++ (clockText zeros m.clock ++ ([':'] ++ t))) (nameRe host rest) false t
      [(3, padded 2 m.clock.second), (2, padded 2 m.clock.minute),
        (1, shortNumber zeros m.clock.hour)] := by
  have htext : clockText zeros m.clock ++ ([':'] ++ t) = shortNumber zeros m.clock.hour ++ ([':'] ++
      (padded 2 m.clock.minute ++ ([':'] ++ (padded 2 m.clock.second ++ ([':'] ++ t))))) := by
    simp only [clockText, List.append_assoc, List.cons_append, List.nil_append]
  have hcolon : ':' ∉ shortNumber zeros m.clock.hour := not_mem_shortNumber rfl zeros _
  have h := Forces.refl (actionRe host opening rest) true
    (opening.toList ++ (clockText zeros m.clock ++ ([':'] ++ t)))
  rw [htext] at h ⊢
  have h := (h.begins.word hopening).takes
    ((digits_shortNumber hhost (m.hour_lt.trans (by decide)) (by decide) rfl _).group 1)
    (Regex.blocked_word_of_not_mem hcolon _)
  have h := (h.word (u := [':']) (by simp)).piece (Regex.prefixes_group
    (digits_padded hhost (by decide) (m.minute_lt.trans (by decide)) _) 2)
  have h := (h.word (u := [':']) (by simp)).piece (Regex.prefixes_group
    (digits_padded hhost (by decide) (m.second_lt.trans (by decide)) _) 3)
  exact h.word (u := [':']) (by simp)

end

/-! ## What is read -/

theorem parseI32_padded {width n : Nat} (h : n ≤ 2 ^ 31 - 1) :
    parseI32 (padded width n) = some (n : Int) := by
  have hminus : '-' ∉ padded width n := not_mem_padded rfl width n
  rw [parseI32]
  · rw [parseUnsigned_padded width h]
    rfl
  · intro digits heq
    exact hminus (heq ▸ List.mem_cons_self)

theorem parseUsDate_dateText (zeros : Bool) {date : NaiveDate} (hlow : 0 ≤ date.year)
    (hhigh : date.year < 10000) : parseUsDate (dateText zeros date) = some date := by
  obtain ⟨hmonth, hday⟩ := month_day_lt date
  have hslash : ∀ n, '/' ∉ shortNumber zeros n := not_mem_shortNumber rfl zeros
  have hsplit : splitOn '/' (dateText zeros date) = [shortNumber zeros date.month,
      shortNumber zeros date.day, padded 4 date.year.toNat] := by
    rw [dateText, List.append_assoc, List.cons_append, splitOn_append (hslash _),
      splitOn_append (hslash _), splitOn_of_not_mem (not_mem_padded rfl 4 _)]
  have hyear : parseI32 (padded 4 date.year.toNat) = some date.year := by
    rw [parseI32_padded (by omega), Int.toNat_of_nonneg hlow]
  have hdate : NaiveDate.fromYmd date.year date.month date.day = some date := by
    rw [NaiveDate.fromYmd, dif_pos date.valid]
  rw [parseUsDate, hsplit]
  simp only [parse_shortNumber hmonth, parse_shortNumber hday, hyear, Option.bind_eq_bind,
    Option.bind_some, hdate]

theorem parse_padded {width n : Nat} (h : n < 1000) : parseU32 (padded width n) = some n :=
  parseUnsigned_padded width (by unfold u32Max; omega)

theorem clockText_parts (zeros : Bool) (m : Moment) :
    (splitOn ':' (clockText zeros m.clock)).filterMap parseU32 =
      [m.clock.hour, m.clock.minute, m.clock.second] := by
  have hhour := m.hour_lt
  have hminute := m.minute_lt
  have hsecond := m.second_lt
  have hcolon : ':' ∉ shortNumber zeros m.clock.hour := not_mem_shortNumber rfl zeros _
  rw [clockText, List.append_assoc, List.cons_append, splitOn_append hcolon,
    splitOn_append (not_mem_padded rfl 2 _), splitOn_of_not_mem (not_mem_padded rfl 2 _)]
  simp only [List.filterMap_cons, List.filterMap_nil, parse_shortNumber (hhour.trans (by decide)),
    parse_padded (hminute.trans (by decide)), parse_padded (hsecond.trans (by decide))]

theorem not_prefix_of_head {w s : Text} {c d : Char} (hw : w.head? = some c) (hs : s.head? = some d)
    (h : c ≠ d) : ¬ w <+: s := by
  rintro ⟨t, rfl⟩
  rw [List.head?_append, hw] at hs
  exact h (Option.some.inj hs)

theorem end_ne_nil : (chain [many space, .stop]).prefixes false [] ≠ [] := List.cons_ne_nil _ _

theorem build_ne_nil {build : Text} (h : '\n' ∉ build) :
    buildRe.prefixes false (' ' :: (build ++ "===".toList)) ≠ [] := by
  refine Regex.chain_ne_nil (Regex.mem_plus (u := []) rfl (by simp) _) ?_
  refine Regex.chain_ne_nil (Regex.mem_group (Regex.mem_many (u := build) (fun c hc => ?_) _) 3) ?_
  · exact bne_iff_ne.mpr fun hfeed => h (hfeed ▸ hc)
  · have hword := Regex.mem_word "===".toList []
    rw [List.append_nil] at hword
    exact Regex.chain_ne_nil hword end_ne_nil

theorem message_ne_nil {message : Text} (h : '\n' ∉ message) :
    messageRe.prefixes false (' ' :: message) ≠ [] := by
  have hdots : ∀ c ∈ message, (c != '\n') = true := fun c hc =>
    bne_iff_ne.mpr fun hfeed => h (hfeed ▸ hc)
  have hmany : { taken := message, rest := [] } ∈ (many dot).prefixes false message := by
    have := Regex.mem_many hdots []
    rwa [List.append_nil] at this
  refine Regex.chain_ne_nil (Regex.mem_plus (u := []) rfl (by simp) _) ?_
  exact Regex.chain_ne_nil (Regex.mem_group hmany 8) (List.cons_ne_nil _ _)

theorem name_ne_nil {host : Host} {name : Text} (hne : name ≠ [])
    (hword : ∀ c ∈ name, host.isWordChar c = true) {rest : List Regex} {closing : Text}
    (hrest : (chain (rest ++ [many space, .stop])).prefixes false closing ≠ []) :
    (nameRe host rest).prefixes false (' ' :: (name ++ (['.'] ++ closing))) ≠ [] := by
  obtain ⟨c, name, rfl⟩ := List.exists_cons_of_ne_nil hne
  have hname := Regex.mem_plus (q := host.isWordChar) (hword c List.mem_cons_self)
    (fun d hd => hword d (List.mem_cons_of_mem _ hd)) (['.'] ++ closing)
  refine Regex.chain_ne_nil (Regex.mem_plus (u := []) rfl (by simp) _) ?_
  refine Regex.chain_ne_nil (Regex.mem_group hname 4) ?_
  exact Regex.chain_ne_nil (Regex.mem_word ['.'] closing) hrest

namespace ActionLine

variable {host : Host} (l : ActionLine host)

theorem text_eq : l.text = l.kind.opening.toList ++ (clockText l.zeros l.moment.clock ++ ([':'] ++
    (' ' :: (l.name ++ (['.'] ++ l.kind.closing))))) := by
  delta ActionLine.text
  simp only [String.reduceToList, List.append_assoc, List.cons_append, List.nil_append]

theorem opening_eq : ∃ rest, l.kind.opening.toList = "Action ".toList ++ rest := by
  cases l.kind with
  | start => exact ⟨"start ".toList, by simp [ActionKind.opening]⟩
  | ended code => exact ⟨"ended ".toList, by simp [ActionKind.opening]⟩
  | top => exact ⟨[], by simp [ActionKind.opening]⟩

theorem text_head : l.text.head? = some 'A' := by
  obtain ⟨rest, hrest⟩ := l.opening_eq
  rw [l.text_eq, hrest, List.append_assoc]
  rfl

theorem trimEnd_text : trimEnd l.text = l.text := by
  have hdot : ∀ s : Text, trimEnd (s ++ ".".toList) = s ++ ".".toList := fun s =>
    trimEnd_append_of_ne_nil (by decide)
  delta ActionLine.text
  cases l.kind with
  | start => rw [show ActionKind.start.closing = [] from rfl, List.append_nil, hdot]
  | ended code => rw [ActionKind.closing_ended, ← List.append_assoc, hdot]
  | top => rw [show ActionKind.top.closing = [] from rfl, List.append_nil, hdot]

theorem not_opens {w : Text} {c : Char} (hw : w.head? = some c) (hc : c.isDigit = false)
    (hstart : l.kind = .start → c ≠ 's') (hended : ∀ code, l.kind = .ended code → c ≠ 'e') :
    ¬ "Action ".toList ++ w <+: l.text := by
  have hsplit : ∃ d t, l.text = "Action ".toList ++ (d :: t) ∧ c ≠ d := by
    rw [l.text_eq]
    cases hkind : l.kind with
    | start => exact ⟨'s', "tart ".toList ++ _, by simp [ActionKind.opening]; rfl, hstart hkind⟩
    | ended code =>
      exact ⟨'e', "nded ".toList ++ _, by simp [ActionKind.opening]; rfl, hended code hkind⟩
    | top =>
      obtain ⟨d, rest, hd, hdigit⟩ := shortNumber_head l.zeros l.moment.clock.hour
      refine ⟨d, _, by rw [clockText, hd]; rfl, ?_⟩
      rintro rfl
      rw [hc] at hdigit
      cases hdigit
  obtain ⟨d, t, ht, hne⟩ := hsplit
  rw [ht, List.prefix_append_right_inj]
  exact not_prefix_of_head hw rfl hne

end ActionLine

section

variable (host : Host)

theorem opens_header : Opens (headerRe host) "===".toList :=
  (Regex.opens_word "===".toList _).chain _

theorem opens_footer : Opens footerRe "===".toList := (Regex.opens_word "===".toList _).chain _

theorem opens_engine : Opens (engineRe host) "MSI".toList := Regex.opens_word "MSI".toList _

theorem opens_action (opening : String) (rest : List Regex) :
    Opens (actionRe host opening rest) opening.toList := Regex.opens_word opening.toList _

theorem no_banner {s : Text} {c : Char} (hs : s.head? = some c) (hc : c ≠ '=') :
    (headerRe host).captures s = none ∧ footerRe.isMatch s = false := by
  have hprefix : ¬ "===".toList <+: s := not_prefix_of_head rfl hs hc.symm
  refine ⟨(opens_header host).captures_none hprefix, ?_⟩
  rw [Regex.isMatch, opens_footer.captures_none hprefix]
  rfl

theorem no_engine {s : Text} {c : Char} (hs : s.head? = some c) (hc : c ≠ 'M') :
    (engineRe host).captures s = none :=
  (opens_engine host).captures_none (not_prefix_of_head rfl hs hc.symm)

theorem no_action {s : Text} {c : Char} (hs : s.head? = some c) (hc : c ≠ 'A') :
    (actionEndedRe host).captures s = none ∧ (actionStartRe host).captures s = none ∧
      (actionTopRe host).captures s = none :=
  ⟨(opens_action host _ _).captures_none (not_prefix_of_head rfl hs hc.symm),
    (opens_action host _ _).captures_none (not_prefix_of_head rfl hs hc.symm),
    (opens_action host _ _).captures_none (not_prefix_of_head rfl hs hc.symm)⟩

end

section

variable {host : Host} (hhost : AsciiDecimals host)
include hhost

theorem recognize_header (l : HeaderLine) :
    ∃ caps, recognize host (trimEnd l.text) = .header caps ∧
      headerDate caps = some l.moment.date ∧ headerClock caps = some l.moment.whole.clock := by
  obtain ⟨caps, hcaps, hgroups⟩ := (header_forces hhost l).captures (build_ne_nil l.build_line)
  have htrim : trimEnd l.text = l.text := trimEnd_append_of_ne_nil (by decide)
  have hdate : caps.group 1 = some (dateText l.zeros l.moment.date) := hgroups 1 (by decide)
  have hclock : caps.group 2 = some (clockText l.zeros l.moment.clock) := hgroups 2 (by decide)
  refine ⟨caps, ?_, ?_, ?_⟩
  · rw [htrim, recognize, hcaps]
  · rw [headerDate, hdate]
    exact parseUsDate_dateText l.zeros l.year_nonneg l.year_lt
  · rw [headerClock, headerTimeParts, hclock, Option.getD_some, clockText_parts]
    rfl

omit hhost in
theorem engine_head (l : EngineLine) (t : Text) : (l.front ++ t).head? = some 'M' := by
  delta EngineLine.front
  simp only [String.reduceToList, List.append_assoc, List.cons_append]
  rfl

theorem recognize_engine (l : EngineLine) (h : isBlank l.message = false) :
    ∃ caps, recognize host (trimEnd l.text) = .engine caps ∧ engineClock caps = l.moment.clock := by
  have hne : trimEnd l.message ≠ [] := by
    rw [Ne, trimEnd_nil_iff, h]
    exact Bool.false_ne_true
  have hmessage : trimEnd (' ' :: l.message) = ' ' :: trimEnd l.message :=
    trimEnd_append_of_ne_nil (a := [' ']) hne
  have htrim : trimEnd l.text = l.front ++ ' ' :: trimEnd l.message := by
    rw [EngineLine.text, trimEnd_append_of_ne_nil (by rw [hmessage]; exact List.cons_ne_nil _ _),
      hmessage]
  have hline : '\n' ∉ trimEnd l.message := fun hmem =>
    l.message_line ((List.rdropWhile_prefix isWhitespace _).subset hmem)
  obtain ⟨caps, hcaps, hgroups⟩ := (engine_forces hhost l _).captures (message_ne_nil hline)
  obtain ⟨hheader, hfooter⟩ := no_banner host (engine_head l (' ' :: trimEnd l.message))
    (by decide)
  refine ⟨caps, ?_, ?_⟩
  · rw [htrim, recognize, hheader, hfooter, hcaps]
    rfl
  · have hnumber : ∀ n width value, value < 1000 → caps.group n = some (padded width value) →
        groupNumber caps n = value := by
      intro n width value hvalue hgroup
      rw [groupNumber, hgroup, Option.bind_some, parse_padded hvalue, Option.getD_some]
    rw [engineClock, hnumber 4 2 _ (l.moment.hour_lt.trans (by decide)) (hgroups 4 (by decide)),
      hnumber 5 2 _ (l.moment.minute_lt.trans (by decide)) (hgroups 5 (by decide)),
      hnumber 6 2 _ (l.moment.second_lt.trans (by decide)) (hgroups 6 (by decide)),
      hnumber 7 3 _ l.moment.milli_lt (hgroups 7 (by decide))]

theorem recognize_engine_blank (l : EngineLine) (h : isBlank l.message = true) :
    (recognize host (trimEnd l.text)).timing = .untimed := by
  have hblank : trimEnd (' ' :: l.message) = [] := by
    rw [trimEnd_nil_iff, isBlank, List.all_cons]
    exact h
  have hfront : trimEnd l.front = l.front := trimEnd_append_of_ne_nil (by decide)
  have htrim : trimEnd l.text = l.front := by
    rw [EngineLine.text, trimEnd_append_of_eq_nil hblank, hfront]
  have hforces := engine_forces hhost l []
  have hhead := engine_head l []
  rw [List.append_nil] at hforces hhead
  have hengine : (engineRe host).captures l.front = none := by
    have hnone := hforces.nothing rfl
    rw [Regex.captures_anchored fun s => by_contra fun hne =>
      Bool.false_ne_true (opens_engine host false s hne).1, hnone]
    rfl
  obtain ⟨hheader, hfooter⟩ := no_banner host hhead (by decide)
  obtain ⟨hended, hstart, htop⟩ := no_action host hhead (by decide)
  rw [htrim, recognize, hheader, hfooter, hengine, hended, hstart, htop]
  cases propertyRe.captures l.front with
  | some caps => rfl
  | none =>
    cases (mainEngineReturnRe host).captures l.front with
    | some caps => rfl
    | none => rfl

theorem captures_action (l : ActionLine host) (rest : List Regex)
    (hrest : (chain (rest ++ [many space, .stop])).prefixes false l.kind.closing ≠ [])
    (hnumbers : ∀ n ∈ (nameRe host rest).numbers, 3 < n) :
    ∃ caps, (actionRe host l.kind.opening rest).captures l.text = some caps ∧
      actionClock caps = l.moment.whole.clock := by
  have hopening : l.kind.opening.toList ≠ [] := by
    cases l.kind <;> simp [ActionKind.opening]
  obtain ⟨caps, hcaps, hgroups⟩ := (action_forces hhost l.kind.opening hopening rest l.zeros
    l.moment (' ' :: (l.name ++ (['.'] ++ l.kind.closing)))).captures
      (name_ne_nil l.name_nonempty l.name_word hrest)
  have hearly : ∀ n ≤ 3, n ∉ (nameRe host rest).numbers := fun n hn hmem =>
    absurd (hnumbers n hmem) (Nat.not_lt.mpr hn)
  rw [← l.text_eq] at hcaps
  refine ⟨caps, hcaps, ?_⟩
  have hhour : caps.group 1 = some _ := hgroups 1 (hearly 1 (by decide))
  have hminute : caps.group 2 = some _ := hgroups 2 (hearly 2 (by decide))
  have hsecond : caps.group 3 = some _ := hgroups 3 (hearly 3 (by decide))
  rw [actionClock, groupNumber, groupNumber, groupNumber, hhour, hminute, hsecond,
    Option.bind_some, Option.bind_some, Option.bind_some,
    parse_shortNumber (l.moment.hour_lt.trans (by decide)),
    parse_padded (l.moment.minute_lt.trans (by decide)),
    parse_padded (l.moment.second_lt.trans (by decide))]
  rfl

theorem return_ne_nil (code : Nat) :
    (chain ([plus space, word "Return value ".toList, .group 5 (plus host.decimalNumber),
      word ['.']] ++ [many space, .stop])).prefixes false (ActionKind.ended code).closing ≠ [] := by
  have htext : (ActionKind.ended code).closing =
      ' ' :: ("Return value ".toList ++ (decimal code ++ (['.'] ++ []))) := by
    rw [ActionKind.closing_ended]
    simp only [String.reduceToList, List.cons_append, List.nil_append]
  have hdigits : ∀ c ∈ decimal code, host.isDecimalNumber c = true := fun c hc =>
    decimals_digit hhost (Nat.isDigit_of_mem_toDigits (by omega) (by omega) hc)
  rw [htext]
  obtain ⟨c, code, hcode⟩ := List.exists_cons_of_ne_nil (decimal_ne_nil code)
  rw [hcode] at hdigits ⊢
  have hnumber := Regex.mem_plus (q := host.isDecimalNumber) (hdigits c List.mem_cons_self)
    (fun d hd => hdigits d (List.mem_cons_of_mem _ hd)) (['.'] ++ [])
  refine Regex.chain_ne_nil (Regex.mem_plus (u := []) rfl (by simp) _) ?_
  refine Regex.chain_ne_nil (Regex.mem_word "Return value ".toList _) ?_
  refine Regex.chain_ne_nil (Regex.mem_group hnumber 5) ?_
  exact Regex.chain_ne_nil (Regex.mem_word ['.'] []) end_ne_nil

theorem recognize_action (l : ActionLine host) :
    (recognize host (trimEnd l.text)).timing = .timed l.moment.whole.clock := by
  obtain ⟨hheader, hfooter⟩ := no_banner host l.text_head (by decide)
  have hengine := no_engine host l.text_head (by decide)
  have hended : "Action ended ".toList = "Action ".toList ++ "ended ".toList := by simp
  have hstart : "Action start ".toList = "Action ".toList ++ "start ".toList := by simp
  rw [l.trimEnd_text, recognize, hheader, hfooter, hengine]
  cases hkind : l.kind with
  | ended code =>
    have hrest := return_ne_nil hhost code
    rw [← hkind] at hrest
    obtain ⟨caps, hcaps, hclock⟩ := captures_action hhost l _ hrest (by
      show ∀ n ∈ [4, 5], 3 < n
      decide)
    rw [hkind] at hcaps
    have hcaps : (actionEndedRe host).captures l.text = some caps := hcaps
    rw [hcaps, ← hclock]
    rfl
  | start =>
    obtain ⟨caps, hcaps, hclock⟩ := captures_action hhost l [] (by
      rw [hkind]
      exact end_ne_nil) (by
      show ∀ n ∈ [4], 3 < n
      decide)
    rw [hkind] at hcaps
    have hcaps : (actionStartRe host).captures l.text = some caps := hcaps
    have hnone : (actionEndedRe host).captures l.text = none := by
      refine (opens_action host _ _).captures_none ?_
      rw [hended]
      exact l.not_opens rfl rfl (fun _ => by decide) fun code h => by
        rw [hkind] at h
        cases h
    rw [hnone, hcaps, ← hclock]
    rfl
  | top =>
    obtain ⟨caps, hcaps, hclock⟩ := captures_action hhost l [] (by
      rw [hkind]
      exact end_ne_nil) (by
      show ∀ n ∈ [4], 3 < n
      decide)
    rw [hkind] at hcaps
    have hcaps : (actionTopRe host).captures l.text = some caps := hcaps
    have hother : ∀ {w : Text} {c : Char}, w.head? = some c → c.isDigit = false →
        ¬ "Action ".toList ++ w <+: l.text := fun hw hc => by
      refine l.not_opens hw hc (fun h => ?_) fun code h => ?_
      · rw [hkind] at h
        cases h
      · rw [hkind] at h
        cases h
    have hnoEnd : (actionEndedRe host).captures l.text = none := by
      refine (opens_action host _ _).captures_none ?_
      rw [hended]
      exact hother rfl rfl
    have hnoStart : (actionStartRe host).captures l.text = none := by
      refine (opens_action host _ _).captures_none ?_
      rw [hstart]
      exact hother rfl rfl
    rw [hnoEnd, hnoStart, hcaps, ← hclock]
    rfl

end

end Msi
end Parser
end CmTrace
