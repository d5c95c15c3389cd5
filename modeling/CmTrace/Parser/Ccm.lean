import CmTrace.Parser.Host

/-!
# Fields of configuration manager records
-/

namespace CmTrace
namespace Parser
namespace Ccm

open Text Log Time

def truncateSubsecondToMillis (value : Text) : Option Nat :=
  match value.length with
  | 1 => (parseU32 value).map (· * 100)
  | 2 => (parseU32 value).map (· * 10)
  | _ => if value.length < 3 then none else parseU32 (value.take 3)

/-- The instant of a reading at an offset in minutes; an offset of a day or more
is passed over. -/
def naiveToUtcMillis (naive : NaiveDateTime) (offsetMinutes : Option Int) : Int :=
  match offsetMinutes with
  | some offset =>
    if (offset * 60).natAbs < 86400 then naive.utcMillis - offset * 60000 else naive.utcMillis
  | none => naive.utcMillis

def buildTimestamp (month day : Nat) (year : Int) (hour minute second millis : Nat)
    (timezoneOffset : Option Int) : Option Int × Option Text :=
  (((NaiveDate.fromYmd year month day).bind fun date =>
      date.andHmsMilli hour minute second millis).map fun naive =>
        naiveToUtcMillis naive timezoneOffset,
    some (padded 2 month ++ '-' :: padded 2 day ++ '-' :: paddedInt 4 year ++ ' ' ::
      padded 2 hour ++ ':' :: padded 2 minute ++ ':' :: padded 2 second ++ '.' :: padded 3 millis))

def severityFromTypeField (typeValue : Option Nat) (message : Text) : Severity :=
  match typeValue with
  | some 0 => .success
  | some 2 => .warning
  | some 3 => .error
  | some _ => .info
  | none => detectSeverityFromText message

/-- The number in decimal, and in at least four upper-case hexadecimal digits. -/
def formatThreadDisplay (thread : Nat) : Text :=
  let hex := (Nat.toDigits 16 thread).map Char.toUpper
  decimal thread ++ " (0x".toList ++ List.replicate (4 - hex.length) '0' ++ hex ++ [')']

end Ccm
end Parser
end CmTrace
