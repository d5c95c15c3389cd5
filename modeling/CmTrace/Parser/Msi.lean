import CmTrace.Parser.LineByLine

/-!
# Installer logs

The header gives the date; later lines carry a time of day only, and a reading
that falls back by almost a day means that midnight has passed.
-/

namespace CmTrace
namespace Parser
namespace Msi

open Text Log Time Carried
open Regex (chain oneOf word many plus between times opt space dot hexDigit)

/-! ## Line patterns -/

section

variable (host : Host)

def digits (low high : Nat) : Regex := between low high host.decimalNumber

def engineRe : Regex :=
  chain [.begin, word "MSI".toList, plus space, word ['('],
    .group 1 (.char fun c => "csaN".toList.contains c), word [')'], plus space, word ['('],
    .group 2 (plus hexDigit), word [':'], .group 3 (plus hexDigit), word [')'], plus space,
    word ['['], .group 4 (digits host 2 2), word [':'], .group 5 (digits host 2 2), word [':'],
    .group 6 (digits host 2 2), word [':'], .group 7 (digits host 3 3), word "]:".toList,
    plus space, .group 8 (many dot), .stop]

def bannerRe (done : String) : Regex :=
  chain [.begin, word "===".toList, plus space, opt (.seq (word "Verbose".toList) (plus space)),
    .char fun c => c == 'L' || c == 'l', word "ogging".toList, plus space, word done.toList,
    plus space]

def headerRe : Regex :=
  chain [bannerRe "started:",
    .group 1 (chain [digits host 1 2, word ['/'], digits host 1 2, word ['/'], digits host 4 4]),
    plus space,
    .group 2 (chain [digits host 1 2, word [':'], digits host 2 2, word [':'], digits host 2 2]),
    plus space, .group 3 (many dot), word "===".toList, many space, .stop]

def footerRe : Regex :=
  chain [bannerRe "stopped:", many dot, word "===".toList, many space, .stop]

/-- An action line: what it begins with, its time, the action and what follows. -/
def actionRe (opening : String) (rest : List Regex) : Regex :=
  chain ([.begin, word opening.toList, .group 1 (digits host 1 2), word [':'],
    .group 2 (digits host 2 2), word [':'], .group 3 (digits host 2 2), word [':'], plus space,
    .group 4 (plus host.wordChar), word ['.']] ++ rest ++ [many space, .stop])

def actionStartRe : Regex := actionRe host "Action start " []

def actionEndedRe : Regex :=
  actionRe host "Action ended "
    [plus space, word "Return value ".toList, .group 5 (plus host.decimalNumber), word ['.']]

def actionTopRe : Regex := actionRe host "Action " []

def propertyRe : Regex :=
  chain [.begin, word "Property(".toList, .char fun c => "CScs".toList.contains c,
    word "):".toList, plus space, .group 1 (many dot), .stop]

def mainEngineReturnRe : Regex :=
  chain [.begin, word "MainEngineThread is returning ".toList, .group 1 (plus host.decimalNumber)]

def noteErrorRe : Regex :=
  chain [word "Note:".toList, plus space, word "1:".toList, plus space,
    .group 1 (plus host.decimalNumber)]

end

/-! ## Severities -/

def severityFromMsiExitCode (code : Nat) : Severity :=
  if code = 1602 ∨ code = 1625 ∨ code = 1638 then .warning
  else if 1600 ≤ code ∧ code < 1700 then .error
  else .info

def severityFromActionReturn (code : Nat) : Severity :=
  match code with
  | 2 => .warning
  | 3 => .error
  | 4 => .warning
  | _ => .info

/-- Codes of notes that stand for real problems. -/
def problemNotes : List Nat :=
  [2318, 2329, 2331, 2335, 2337, 2343, 2345, 2350, 2351, 2352, 2355, 2356, 2357, 2358, 2359, 2360,
   2361, 2362, 2371, 2372, 2373, 2374, 2375, 2379, 2380, 2381, 2382]

def numberIn (re : Regex) (s : Text) : Option Nat :=
  (re.captures s).bind fun caps => (caps.group 1).bind parseU32

def determineEngineSeverity (host : Host) (message : Text) : Severity :=
  match numberIn (mainEngineReturnRe host) message with
  | some code => severityFromMsiExitCode code
  | none =>
    match numberIn (noteErrorRe host) message with
    | some code => if problemNotes.contains code then .error else .info
    | none =>
      let lower := host.toLowercase message
      if ["installation failed", "error status: 1603", "error status: 1618", "product: error"].any
          fun phrase => contains lower phrase.toList then .error
      else detectSeverityFromText message

def msiTextSeverity (host : Host) (text : Text) : Severity :=
  let lower := host.toLowercase text
  if contains lower "installation failed".toList || contains lower "error status: 1603".toList then
    .error
  else detectSeverityFromText text

/-! ## Dates and times -/

def parseUsDate (s : Text) : Option NaiveDate :=
  match splitOn '/' s with
  | [month, day, year] => do
    let month ← parseU32 month
    let day ← parseU32 day
    let year ← parseI32 year
    NaiveDate.fromYmd year month day
  | _ => none

/-- A reading of the clock of a line. -/
structure Clock where
  hour : Nat
  minute : Nat
  second : Nat
  milli : Nat
  deriving DecidableEq

namespace Clock

def secs (c : Clock) : Nat := c.hour * 3600 + c.minute * 60 + c.second

def display (c : Clock) : Text :=
  padded 2 c.hour ++ ':' :: padded 2 c.minute ++ ':' :: padded 2 c.second ++ '.' :: padded 3 c.milli

end Clock

def displayDate (date : NaiveDate) : Text :=
  padded 2 date.month ++ '-' :: (padded 2 date.day ++ '-' :: paddedInt 4 date.year)

def buildTimestamp (date : NaiveDate) (c : Clock) : Option Int × Option Text :=
  let dt := date.andHmsMilli c.hour c.minute c.second c.milli
  (dt.map NaiveDateTime.utcMillis, dt.map fun _ => displayDate date ++ ' ' :: c.display)

structure MsiParserState where
  currentDate : Option NaiveDate := none
  prevTimeSecs : Option Nat := none

def rolls (prev : Option Nat) (secs : Nat) : Bool :=
  prev.any fun prev => decide (secs < prev ∧ 82800 < prev - secs)

namespace MsiParserState

/-- The state after a reading; its date is the date of the reading. -/
def advanceTime (st : MsiParserState) (secs : Nat) : MsiParserState :=
  { currentDate  := if rolls st.prevTimeSecs secs then st.currentDate.bind NaiveDate.succ
      else st.currentDate
    prevTimeSecs := some secs }

def setDate (st : MsiParserState) (date : Option NaiveDate) (secs : Option Nat) : MsiParserState :=
  { currentDate  := date.or st.currentDate
    prevTimeSecs := secs.or st.prevTimeSecs }

end MsiParserState

def stamp (date : Option NaiveDate) (c : Clock) : Option Int × Option Text :=
  match date with
  | some date => buildTimestamp date c
  | none => (none, some c.display)

/-! ## Lines -/

/-- A line by the first pattern it matches. -/
inductive Line where
  | header (caps : Regex.Match)
  | footer
  | engine (caps : Regex.Match)
  | actionEnded (caps : Regex.Match)
  | actionStart (caps : Regex.Match)
  | actionTop (caps : Regex.Match)
  | property (caps : Regex.Match)
  | mainEngineReturn (caps : Regex.Match)
  | plain

def recognize (host : Host) (trimmed : Text) : Line :=
  match (headerRe host).captures trimmed with
  | some caps => .header caps
  | none =>
  if footerRe.isMatch trimmed then .footer
  else
  match (engineRe host).captures trimmed with
  | some caps => .engine caps
  | none =>
  match (actionEndedRe host).captures trimmed with
  | some caps => .actionEnded caps
  | none =>
  match (actionStartRe host).captures trimmed with
  | some caps => .actionStart caps
  | none =>
  match (actionTopRe host).captures trimmed with
  | some caps => .actionTop caps
  | none =>
  match propertyRe.captures trimmed with
  | some caps => .property caps
  | none =>
  match (mainEngineReturnRe host).captures trimmed with
  | some caps => .mainEngineReturn caps
  | none => .plain

def groupNumber (caps : Regex.Match) (n : Nat) : Nat := ((caps.group n).bind parseU32).getD 0

def engineClock (caps : Regex.Match) : Clock :=
  { hour   := groupNumber caps 4
    minute := groupNumber caps 5
    second := groupNumber caps 6
    milli  := groupNumber caps 7 }

def actionClock (caps : Regex.Match) : Clock :=
  { hour   := groupNumber caps 1
    minute := groupNumber caps 2
    second := groupNumber caps 3
    milli  := 0 }

/-- The numbers of the time of a header, three of them if all can be read. -/
def headerTimeParts (caps : Regex.Match) : List Nat :=
  (splitOn ':' ((caps.group 2).getD [])).filterMap parseU32

def headerClock (caps : Regex.Match) : Option Clock :=
  match headerTimeParts caps with
  | [hour, minute, second] => some { hour := hour, minute := minute, second := second, milli := 0 }
  | _ => none

def headerDate (caps : Regex.Match) : Option NaiveDate := parseUsDate ((caps.group 1).getD [])

/-- What a line has to do with the date and time in force. -/
inductive Timing where
  | header (date : Option NaiveDate) (secs : Option Nat)
  | timed (c : Clock)
  | untimed

def Line.timing : Line → Timing
  | .header caps => .header (headerDate caps) ((headerClock caps).map Clock.secs)
  | .engine caps => .timed (engineClock caps)
  | .actionEnded caps | .actionStart caps | .actionTop caps => .timed (actionClock caps)
  | .footer | .property _ | .mainEngineReturn _ | .plain => .untimed

def makeEntry (filePath message : Text) (component : Option String) (severity : Severity) :
    LogEntry :=
  { message   := message
    component := component.map String.toList
    severity  := severity
    format    := .timestamped
    filePath  := filePath }

def withStamp (entry : LogEntry) (time : Option Int × Option Text) : LogEntry :=
  { entry with timestamp := time.1, timestampDisplay := time.2 }

def engineComponent (context : Text) : String :=
  if context = ['s'] then "MSI-server"
  else if context = ['a'] then "MSI-action"
  else if context = ['N'] then "MSI-nested"
  else "MSI-client"

/-- The row of a line, with the time of a timed line left out. -/
def Line.entry (host : Host) (filePath trimmed : Text) : Line → LogEntry
  | .header caps =>
    let entry := makeEntry filePath trimmed (some "MSI-header") .info
    match headerDate caps with
    | some date =>
      withStamp entry (buildTimestamp date ((headerClock caps).getD
        { hour := 0, minute := 0, second := 0, milli := 0 }))
    | none => entry
  | .footer => makeEntry filePath trimmed (some "MSI-header") .info
  | .engine caps =>
    let message := (caps.group 8).getD []
    let pidHex := (caps.group 2).getD ['0']
    let tidHex := (caps.group 3).getD ['0']
    { makeEntry filePath message (some (engineComponent ((caps.group 1).getD ['c'])))
        (determineEngineSeverity host message) with
      thread        := parseUnsigned 16 u32Max tidHex
      threadDisplay := some (pidHex ++ ':' :: tidHex) }
  | .actionEnded caps =>
    { makeEntry filePath trimmed none (severityFromActionReturn (groupNumber caps 5)) with
      component := some ((caps.group 4).getD "Unknown".toList) }
  | .actionStart caps | .actionTop caps =>
    { makeEntry filePath trimmed none .info with
      component := some ((caps.group 4).getD "Unknown".toList) }
  | .property caps => makeEntry filePath ((caps.group 1).getD []) (some "MSI-properties") .info
  | .mainEngineReturn caps =>
    makeEntry filePath trimmed (some "MSI-engine") (severityFromMsiExitCode (groupNumber caps 1))
  | .plain => makeEntry filePath trimmed none (msiTextSeverity host trimmed)

def parseMsiLine (host : Host) (filePath : Text) (st : MsiParserState) (line : Text) :
    LogEntry × MsiParserState :=
  let trimmed := trimEnd line
  let kind := recognize host trimmed
  let entry := kind.entry host filePath trimmed
  match kind.timing with
  | .header date secs => (entry, st.setDate date secs)
  | .timed c =>
    let st := st.advanceTime c.secs
    (withStamp entry (stamp st.currentDate c), st)
  | .untimed => (entry, st)

def reader (host : Host) (filePath : Text) : LineReader MsiParserState :=
  { initial := {}
    read    := fun st line =>
      if trim line = [] then (none, st)
      else
        let parsed := parseMsiLine host filePath st line
        let isFallback := parsed.1.component.isNone && parsed.1.timestamp.isNone &&
          !footerRe.isMatch (trim line)
        (some (parsed.1, isFallback), parsed.2) }

def parseLines (host : Host) (filePath : Text) : List Text → List LogEntry × Nat :=
  parseWith (reader host filePath)

example : (parseLines .ascii [] [
    "=== Verbose logging started: 6/13/2023  23:59:58  Build type: SHIP ===".toList,
    "Action start 23:59:59: InstallFiles.".toList,
    "MSI (s) (8C:98) [00:00:01:452]: Doing action".toList]).1.map LogEntry.timestampDisplay =
      [some "06-13-2023 23:59:58.000".toList, some "06-13-2023 23:59:59.000".toList,
        some "06-14-2023 00:00:01.452".toList] := by
  decide +kernel

end Msi
end Parser
end CmTrace
