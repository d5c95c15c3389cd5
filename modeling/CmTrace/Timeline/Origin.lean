import CmTrace.Collections.Sorted
import CmTrace.Log.Entry
import CmTrace.Time.Calendar
import CmTrace.Timeline.Observation

/-!
# Items of a timeline and where they come from

A timeline has the lines of text logs and Windows events.  An origin is ordered
as its textual key would be, field by field and without the key being built.
-/

namespace CmTrace
namespace Timeline

open Std Text Collections Time
open Log (LogEntry Severity)

inductive TimelineSeverity where
  | verbose
  | info
  | warning
  | error
  | critical
  deriving DecidableEq, Repr

namespace TimelineSeverity

/-- The place in the declaration, which orders the severities. -/
def rank : TimelineSeverity → Nat
  | verbose  => 0
  | info     => 1
  | warning  => 2
  | error    => 3
  | critical => 4

theorem rank_injective : Function.Injective rank := by
  intro a b h
  cases a <;> cases b <;> first | rfl | cases h

def fromLog : Severity → TimelineSeverity
  | .error   => error
  | .warning => warning
  | .info    => info
  | .success => info

end TimelineSeverity

/-- A line of a text log. -/
structure LogOrigin where
  file : Text
  component : Option Text
  line : Nat
  source : Text
  machine : Option Text
  bundle : Option Text
  recordId : Nat
  deriving DecidableEq, Repr

/-- A Windows event. -/
structure EventOrigin where
  stableId : Text
  source : Text
  machine : Option Text
  bundle : Option Text
  channel : Text
  provider : Text
  processId : Option Nat
  activityId : Option Text
  relatedActivityId : Option Text
  sessionId : Option Text
  deviceId : Option Text
  userId : Option Text
  processStartTime : Option Text
  identityConflicts : List Text
  eventId : Nat
  recordId : Nat
  recordIdText : Option Text
  deriving DecidableEq, Repr

inductive TimelineOrigin where
  | log (origin : LogOrigin)
  | event (origin : EventOrigin)
  deriving DecidableEq, Repr

structure TimelineItem where
  /-- Milliseconds since the epoch. -/
  timestampMs : Int
  severity : TimelineSeverity
  message : Text
  origin : TimelineOrigin
  deriving DecidableEq, Repr

inductive UnplacedReason where
  | missingTimestamp
  deriving DecidableEq, Repr

structure UnplacedItem where
  origin : TimelineOrigin
  reason : UnplacedReason
  deriving DecidableEq, Repr

/-! ## The order of origins -/

/-- Numbers in the order of their digits, which a terminator ends. -/
def compareDecimalText (terminator : Char) (left right : Nat) : Ordering :=
  textOrder (decimal left ++ [terminator]) (decimal right ++ [terminator])

/-- Texts in the order of a length in digits and the text. -/
def compareKeyPart : Text → Text → Ordering :=
  compareLex (orderOn (compareDecimalText ':') byteLen) textOrder

def compareOptionalText : Option Text → Option Text → Ordering := someFirst compareKeyPart

def compareOptionalNumber : Option Nat → Option Nat → Ordering :=
  noneFirst (compareDecimalText '|')

def compareConflicts : List Text → List Text → Ordering := longerFirst compareKeyPart

theorem terminated_injective (terminator : Char) :
    Function.Injective fun n => decimal n ++ [terminator] := fun _ _ h =>
  decimal_injective (List.append_cancel_right h)

instance (terminator : Char) : TransCmp (compareDecimalText terminator) :=
  inferInstanceAs (TransCmp (orderOn textOrder fun n => decimal n ++ [terminator]))

instance (terminator : Char) : LawfulEqCmp (compareDecimalText terminator) :=
  orderOn_lawful textOrder (terminated_injective terminator)

instance : TransCmp compareKeyPart := inferInstanceAs (TransCmp (compareLex _ _))

instance : LawfulEqCmp compareKeyPart where
  compare_self := cmp_self (compareLex (orderOn _ byteLen) textOrder) _
  eq_of_compare h := eq_of_cmp textOrder (compareLex_eq_iff.mp h).2

instance : TransCmp compareOptionalText := inferInstanceAs (TransCmp (someFirst _))

instance : LawfulEqCmp compareOptionalText := inferInstanceAs (LawfulEqCmp (someFirst _))

instance : TransCmp compareOptionalNumber := inferInstanceAs (TransCmp (noneFirst _))

instance : LawfulEqCmp compareOptionalNumber := inferInstanceAs (LawfulEqCmp (noneFirst _))

instance : TransCmp compareConflicts := inferInstanceAs (TransCmp (longerFirst _))

instance : LawfulEqCmp compareConflicts := inferInstanceAs (LawfulEqCmp (longerFirst _))

abbrev natOrder : Nat → Nat → Ordering := compare

def logSortCmp : LogOrigin → LogOrigin → Ordering :=
  compareLex (orderOn compareKeyPart (·.source)) <|
  compareLex (orderOn compareKeyPart (·.file)) <|
  compareLex (orderOn natOrder (·.line)) <|
  compareLex (orderOn natOrder (·.recordId)) <|
  compareLex (orderOn compareOptionalText (·.component)) <|
  compareLex (orderOn compareOptionalText (·.machine)) <|
  orderOn compareOptionalText (·.bundle)

def eventSortCmp : EventOrigin → EventOrigin → Ordering :=
  compareLex (orderOn compareKeyPart (·.stableId)) <|
  compareLex (orderOn compareKeyPart (·.source)) <|
  compareLex (orderOn compareOptionalText (·.machine)) <|
  compareLex (orderOn compareOptionalText (·.bundle)) <|
  compareLex (orderOn compareKeyPart (·.channel)) <|
  compareLex (orderOn compareKeyPart (·.provider)) <|
  compareLex (orderOn compareOptionalNumber (·.processId)) <|
  compareLex (orderOn compareOptionalText (·.activityId)) <|
  compareLex (orderOn compareOptionalText (·.relatedActivityId)) <|
  compareLex (orderOn compareOptionalText (·.sessionId)) <|
  compareLex (orderOn compareOptionalText (·.deviceId)) <|
  compareLex (orderOn compareOptionalText (·.userId)) <|
  compareLex (orderOn compareOptionalText (·.processStartTime)) <|
  compareLex (orderOn compareConflicts (·.identityConflicts)) <|
  compareLex (orderOn natOrder (·.eventId)) <|
  compareLex (orderOn natOrder (·.recordId)) <|
  orderOn compareOptionalText (·.recordIdText)

def originSortCmp : TimelineOrigin → TimelineOrigin → Ordering
  | .log left, .log right     => logSortCmp left right
  | .event left, .event right => eventSortCmp left right
  | .event _, .log _          => .lt
  | .log _, .event _          => .gt

instance : TransCmp logSortCmp := inferInstanceAs (TransCmp (compareLex _ _))

instance : TransCmp eventSortCmp := inferInstanceAs (TransCmp (compareLex _ _))

instance : LawfulEqCmp logSortCmp where
  compare_self := cmp_self (compareLex (orderOn compareKeyPart _) _) _
  eq_of_compare {x y} h := by
    simp only [logSortCmp, compareLex_eq_iff, orderOn, LawfulEqCmp.compare_eq_iff_eq] at h
    cases x
    cases y
    simp_all

instance : LawfulEqCmp eventSortCmp where
  compare_self := cmp_self (compareLex (orderOn compareKeyPart _) _) _
  eq_of_compare {x y} h := by
    simp only [eventSortCmp, compareLex_eq_iff, orderOn, LawfulEqCmp.compare_eq_iff_eq] at h
    cases x
    cases y
    simp_all

instance : TransCmp originSortCmp where
  eq_swap {x y} := by
    cases x with
    | log x => cases y with
      | log y => exact cmp_swap logSortCmp _ _
      | event y => rfl
    | event x => cases y with
      | log y => rfl
      | event y => exact cmp_swap eventSortCmp _ _
  isLE_trans {x y z} hxy hyz := by
    cases x with
    | log x => cases y with
      | event y => cases hxy
      | log y => cases z with
        | event z => cases hyz
        | log z => exact cmp_trans logSortCmp hxy hyz
    | event x => cases z with
      | log z => rfl
      | event z => cases y with
        | log y => cases hyz
        | event y => exact cmp_trans eventSortCmp hxy hyz

instance : LawfulEqCmp originSortCmp where
  compare_self {x} := by
    cases x with
    | log x => exact cmp_self logSortCmp _
    | event x => exact cmp_self eventSortCmp _
  eq_of_compare {x y} h := by
    cases x with
    | log x => cases y with
      | log y => rw [eq_of_cmp logSortCmp h]
      | event y => cases h
    | event x => cases y with
      | log y => cases h
      | event y => rw [eq_of_cmp eventSortCmp h]

/-! ## Lines of a log -/

/-- Text up to the last separator and what follows it. -/
def rsplitOnce (sep : Char) (s : Text) : Option (Text × Text) :=
  (splitOnce sep s.reverse).map fun r => (r.2.reverse, r.1.reverse)

def digitsValue (s : Text) : Nat := (parseUnsigned 10 (2 ^ 31 - 1) s).getD 0

def allDigits (s : Text) : Bool := s.all isAsciiDigit

/-- The directory name a collector gives a bundle. -/
def isCollectorBundleId (segment : Text) : Bool :=
  let prefixText := "CMTRACE-".toList
  if !eqIgnoreAsciiCase (segment.take prefixText.length) prefixText then false
  else match splitOnce '-' (segment.drop prefixText.length) with
    | none => false
    | some (date, rest) => match splitOnce '-' rest with
      | none => false
      | some (time, hostAndNonce) => match rsplitOnce '-' hostAndNonce with
        | none => false
        | some (hostname, nonce) =>
          let year := digitsValue (date.take 4)
          let validDate := date.length == 8 && allDigits date && decide (1 ≤ year) &&
            isDate year (digitsValue ((date.drop 4).take 2)) (digitsValue (date.drop 6))
          let validTime := time.length == 6 && allDigits time &&
            isClock (digitsValue (time.take 2)) (digitsValue ((time.drop 2).take 2))
              (digitsValue (time.drop 4)) 0
          validDate && validTime && !hostname.isEmpty && nonce.length == 32 &&
            nonce.all fun c => (digit 16 c).isSome

/-- The bundle whose evidence directory a path runs through. -/
def bundleFromSource (source : Text) : Option Text :=
  let segments := (source.splitOnP fun c => c == '/' || c == '\\').filter fun segment =>
    !segment.isEmpty
  (segments.zip segments.tail).findSome? fun pair =>
    if eqIgnoreAsciiCase pair.2 "evidence".toList && isCollectorBundleId pair.1 then some pair.1
    else none

def originOf (entry : LogEntry) : TimelineOrigin :=
  let file := entry.filePath
  let source := entry.sourceFile.getD file
  .log
    { file      := file
      component := entry.component
      line      := entry.lineNumber
      source    := source
      machine   := none
      bundle    := (bundleFromSource source).or (bundleFromSource file)
      recordId  := entry.id }

def fromLogEntry (entry : LogEntry) : Except UnplacedItem TimelineItem :=
  match entry.timestamp with
  | some timestampMs => .ok
      { timestampMs := timestampMs
        severity    := .fromLog entry.severity
        message     := entry.message
        origin      := originOf entry }
  | none => .error { origin := originOf entry, reason := .missingTimestamp }

end Timeline
end CmTrace
