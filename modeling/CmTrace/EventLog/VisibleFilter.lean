import CmTrace.EventLog.Chains
import CmTrace.EventQuery.Build
import CmTrace.XPath.Semantics

/-!
# The filter of the event list and the filter of its queries

The text of event ids is read once and used twice: locally, on the records that
are there, and in the filter that goes with a query, for the records that are to
come.
-/

namespace CmTrace
namespace EventLog

open Js EventQuery XPath

inductive EvtxLevel where
  | critical
  | error
  | warning
  | information
  | verbose
  deriving DecidableEq, Repr

namespace EvtxLevel

/-- The level of a raw level; there are many that mean information. -/
def fromLevelValue : Nat → EvtxLevel
  | 1 => critical
  | 2 => error
  | 3 => warning
  | 5 => verbose
  | _ => information

def indexOf : EvtxLevel → Nat
  | critical    => 0
  | error       => 1
  | warning     => 2
  | information => 3
  | verbose     => 4

end EvtxLevel

def allLevels : List EvtxLevel := [.critical, .error, .warning, .information, .verbose]

/-- The chosen levels in the order they were chosen. -/
structure LevelSet where
  levels : List EvtxLevel
  nodup : levels.Nodup
  deriving DecidableEq

inductive EvtxTimeWindow where
  | hour
  | day
  | week
  | month
  | all
  deriving DecidableEq, Repr

/-- How far back a window reaches, if there is an end to it. -/
def EvtxTimeWindow.milliseconds : EvtxTimeWindow → Option Nat
  | hour  => some (60 * 60 * 1000)
  | day   => some (24 * 60 * 60 * 1000)
  | week  => some (7 * 24 * 60 * 60 * 1000)
  | month => some (30 * 24 * 60 * 60 * 1000)
  | all   => none

structure EvtxRecord where
  channel : JsString
  level : EvtxLevel
  eventId : Nat
  timestampEpoch : Int
  deriving DecidableEq

/-! ## Event ids -/

def maxEventId : Nat := 0xffffffff

def maxSafeInteger : Nat := 2 ^ 53 - 1

def isDigit (u : UInt16) : Bool := decide (0x30 ≤ u.toNat ∧ u.toNat ≤ 0x39)

/-- The value of digits.  A number that is too large to be exact is refused for
its size. -/
def numberOf (digits : JsString) : Nat := digits.foldl (fun n u => 10 * n + (u.toNat - 0x30)) 0

def isEventId (n : Nat) : Bool := decide (n ≤ maxSafeInteger) && decide (n ≤ maxEventId)

def matchRange (token : JsString) : Option (JsString × JsString) :=
  match token.dropWhile isDigit with
  | hyphen :: high =>
    let low := token.takeWhile isDigit
    if hyphen = unit '-' ∧ low ≠ [] ∧ high ≠ [] ∧ high.all isDigit then some (low, high) else none
  | [] => none

/-- The selector of a token, whose bounds may stand in either order. -/
def parseToken (token : JsString) : Option EventIdSelector :=
  match matchRange token with
  | some (first, second) =>
    let low := numberOf first
    let high := numberOf second
    if isEventId low && isEventId high then some (.range (min low high) (max low high)) else none
  | none =>
    if !token.isEmpty && token.all isDigit then
      let id := numberOf token
      if isEventId id then some (.single id) else none
    else none

structure EventIdSelectorParseResult where
  selectors : List EventIdSelector
  invalid : Bool
  deriving DecidableEq, Repr

/-- What stands between separators, empty pieces left out. -/
def tokens (text : JsString) : List JsString :=
  (text.splitOnP fun u => isSpace u || u == unit ',').filter fun token => !token.isEmpty

def parseEventIdSelectors (raw : JsString) : EventIdSelectorParseResult :=
  let trimmed := trimSpace raw
  if trimmed.isEmpty then ⟨[], false⟩
  else
    let parsed := (tokens trimmed).map parseToken
    ⟨parsed.filterMap id, parsed.any Option.isNone⟩

def hasInvalidEventIdFilter (raw : JsString) : Bool :=
  let trimmed := trimSpace raw
  !trimmed.isEmpty && (parseEventIdSelectors trimmed).invalid

/-! ## The local filter -/

def eventIdMatchesSelectors (eventId : Nat) (parsed : EventIdSelectorParseResult) : Bool :=
  !parsed.invalid && parsed.selectors.any fun
    | .single id => id == eventId
    | .range low high => decide (low ≤ eventId) && decide (eventId ≤ high)

def isWithinTimeWindow (timestampEpoch : Int) (window : EvtxTimeWindow) (nowEpoch : Int) : Bool :=
  match window.milliseconds with
  | none => true
  | some milliseconds => decide (nowEpoch - milliseconds ≤ timestampEpoch)

/-- What the filter of a query is made from. -/
structure FilterSnapshot where
  timeWindow : EvtxTimeWindow
  filterEventIds : JsString
  filterLevels : LevelSet
  deriving DecidableEq

/-- Whether a record is shown.  The text searches, of which no query is made, are
the `remaining` stages. -/
def recordMatchesVisibleFilter (remaining : EvtxRecord → Bool) (selectedChannels : List JsString)
    (filters : FilterSnapshot) (nowEpoch : Int) (record : EvtxRecord) : Bool :=
  selectedChannels.contains record.channel &&
  isWithinTimeWindow record.timestampEpoch filters.timeWindow nowEpoch &&
  filters.filterLevels.levels.contains record.level &&
  ((trimSpace filters.filterEventIds).isEmpty ||
    eventIdMatchesSelectors record.eventId (parseEventIdSelectors filters.filterEventIds)) &&
  remaining record

/-! ## The filter of a query -/

/-- Levels stay local with information among them, whose raw levels are many. -/
def serverLevels (filterLevels : LevelSet) : List Nat :=
  if 0 < filterLevels.levels.length ∧ filterLevels.levels.length < allLevels.length ∧
      .information ∉ filterLevels.levels then
    filterLevels.levels.map fun level => level.indexOf + 1
  else []

def buildServerFilter (filters : FilterSnapshot) : EventQueryFilter :=
  let parsedIds := parseEventIdSelectors filters.filterEventIds
  { time := filters.timeWindow.milliseconds.map .last
    levels := serverLevels filters.filterLevels
    eventIds := if 0 < parsedIds.selectors.length ∧ ¬ parsedIds.invalid then parsedIds.selectors
      else []
    eventIdMode := .inclusion }

def autoLoadMaxEvents : Nat := 2000

/-- What the store asks of the backend for a channel. -/
inductive EventRequest where
  /-- No more records than the limit, if there is one. -/
  | query (maxEvents : Option Nat) (filter : EventQueryFilter)
  /-- The records that will be written. -/
  | tail (filter : EventQueryFilter)
  deriving DecidableEq, Repr

/-- The actions of the store that ask for records. -/
inductive LoadAction where
  | enumerateChannels
  | queryChannels (maxEvents : Option Nat)
  | refreshLoadedChannels
  | startLiveTail
  deriving DecidableEq, Repr

/-- The request an action makes for each of its channels. -/
def LoadAction.request (filters : FilterSnapshot) : LoadAction → EventRequest
  | enumerateChannels =>
    .query (if hasInvalidEventIdFilter filters.filterEventIds then some 0 else some autoLoadMaxEvents)
      (buildServerFilter filters)
  | queryChannels maxEvents =>
    .query (if hasInvalidEventIdFilter filters.filterEventIds then some 0 else maxEvents)
      (buildServerFilter filters)
  | refreshLoadedChannels =>
    .query (if hasInvalidEventIdFilter filters.filterEventIds then some 0 else some autoLoadMaxEvents)
      (buildServerFilter filters)
  | startLiveTail => .tail (buildServerFilter filters)

def recordOf (channel : JsString) (ev : Event) : EvtxRecord where
  channel := channel
  level := .fromLevelValue ev.level
  eventId := ev.eventId
  timestampEpoch := ev.created

example : parseEventIdSelectors (js " 4624, 10-2 ") = ⟨[.single 4624, .range 2 10], false⟩ ∧
    (parseEventIdSelectors (js "4294967296")).invalid = true := by
  decide +kernel

end EventLog
end CmTrace
