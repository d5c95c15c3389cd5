import CmTrace.Log.Entry
import CmTrace.Text.Regex
import CmTrace.Time.Calendar

/-!
# What the parsers take from outside

The Unicode tables behind case mapping and the classes of regular expressions,
and the time zone of the machine.  The severity of a plain text needs neither.
-/

namespace CmTrace

open Text Log Time

structure Host where
  /-- The class `\d`: decimal digits of every script. -/
  isDecimalNumber : Char → Bool
  /-- The class `\w`. -/
  isWordChar : Char → Bool
  toLowercase : Text → Text
  toUppercase : Text → Text
  /-- The calendar library at the format `%Y-%m-%d %H:%M:%S`. -/
  parseFromStr : Text → Option NaiveDateTime
  /-- The epoch of a reading on the local clock, if it names one instant. -/
  localWallClockMillis : NaiveDateTime → Option Int

namespace Host

/-- A reading written with exactly the digits its format shows. -/
def readFixed (s : Text) : Option NaiveDateTime := do
  let number := fun start width => parseUnsigned 10 9999 ((s.drop start).take width)
  let separators := [(4, '-'), (7, '-'), (10, ' '), (13, ':'), (16, ':')]
  let year ← number 0 4
  let month ← number 5 2
  let day ← number 8 2
  let hour ← number 11 2
  let minute ← number 14 2
  let second ← number 17 2
  let date ← NaiveDate.fromYmd year month day
  if s.length = 19 ∧ !s.contains '+' ∧ separators.all (fun sep => s[sep.1]? == some sep.2) then
    date.andHms hour minute second
  else none

def decimalNumber (host : Host) : Regex := .char host.isDecimalNumber

def wordChar (host : Host) : Regex := .char host.isWordChar

def ascii : Host :=
  { isDecimalNumber      := Char.isDigit
    isWordChar           := fun c => c.isAlphanum || c == '_'
    toLowercase          := fun s => s.map Char.toLower
    toUppercase          := fun s => s.map Char.toUpper
    parseFromStr         := readFixed
    localWallClockMillis := fun t => some t.utcMillis }

end Host

namespace Parser

def contains (s needle : Text) : Bool := s.tails.any fun tail => needle.isPrefixOf tail

def containsCi (haystack needle : Text) : Bool := contains (toAsciiLowercase haystack) needle

def detectSeverityFromText (text : Text) : Severity :=
  if containsCi text "error".toList || containsCi text "exception".toList ||
      containsCi text "critical".toList || containsCi text "fatal".toList then .error
  else if containsCi text "fail".toList && !containsCi text "failover".toList then .error
  else if containsCi text "warn".toList then .warning
  else .info

example : detectSeverityFromText "Operation FAILED after failover".toList = .info := by decide

def stripPrefix (start s : Text) : Option Text :=
  if start.isPrefixOf s then some (s.drop start.length) else none

def parseU32 (s : Text) : Option Nat := parseUnsigned 10 u32Max s

def parseI32 (s : Text) : Option Int :=
  match s with
  | '-' :: digits =>
    -- a second sign is refused
    if digits.head? = some '+' then none
    else (parseUnsigned 10 (2 ^ 31) digits).map fun n => -(n : Int)
  | _ => (parseUnsigned 10 (2 ^ 31 - 1) s).map fun n => (n : Int)

end Parser
end CmTrace
