import CmTrace.Machine
import CmTrace.Text.Basic

/-!
# Firewall records and coverage

The fields of a Windows Firewall row as the log spells them, and the cumulative
counts of what could not be read, each with a bounded sample of the physical
lines it comes from.
-/

namespace CmTrace
namespace Firewall

inductive FirewallSchemaOrigin where
  | header
  | canonical
  | unavailable
  deriving DecidableEq, Repr

inductive FirewallTimeBasis where
  | localTime
  | utc
  | unknown
  deriving DecidableEq, Repr

inductive FirewallRecordKind where
  | traffic
  | eventsLost
  | malformed
  deriving DecidableEq, Repr

structure FirewallField where
  name : Text
  value : Option Text
  deriving DecidableEq, Repr

structure FirewallRecord where
  rawLine : Text
  declaredFields : List Text
  fields : List FirewallField
  schemaOrigin : FirewallSchemaOrigin
  timeBasis : FirewallTimeBasis
  recordKind : FirewallRecordKind
  truncated : Bool
  deriving DecidableEq, Repr

/-- The first field of that name, ignoring case; missing values stay absent. -/
def FirewallRecord.field (r : FirewallRecord) (name : Text) : Option Text :=
  (r.fields.find? fun f => Text.eqIgnoreAsciiCase f.name name).bind fun f => f.value

def maxFirewallWarningSamples : Nat := 8

structure FirewallMetric where
  count : Nat := 0
  lines : List Nat := []
  deriving DecidableEq, Repr

namespace FirewallMetric

/-- Keep `line` while there is room and it is not there yet. -/
def sample (lines : List Nat) (line : Nat) : List Nat :=
  if lines.length < maxFirewallWarningSamples ∧ ¬ lines.contains line then lines ++ [line]
  else lines

def add (m : FirewallMetric) (count line : Nat) : FirewallMetric :=
  { count := saturatingAdd u64Max m.count count,
    lines := if 0 < count then sample m.lines line else m.lines }

def merge (m other : FirewallMetric) : FirewallMetric :=
  { count := saturatingAdd u64Max m.count other.count,
    lines := other.lines.foldl sample m.lines }

end FirewallMetric

structure FirewallCoverage where
  padding : FirewallMetric := {}
  malformed : FirewallMetric := {}
  oversized : FirewallMetric := {}
  lossEvents : FirewallMetric := {}
  lostEvents : FirewallMetric := {}
  unknownLossCount : FirewallMetric := {}
  unplacedTimestamps : FirewallMetric := {}
  deriving DecidableEq, Repr

namespace FirewallCoverage

def merge (c other : FirewallCoverage) : FirewallCoverage :=
  { padding := c.padding.merge other.padding,
    malformed := c.malformed.merge other.malformed,
    oversized := c.oversized.merge other.oversized,
    lossEvents := c.lossEvents.merge other.lossEvents,
    lostEvents := c.lostEvents.merge other.lostEvents,
    unknownLossCount := c.unknownLossCount.merge other.unknownLossCount,
    unplacedTimestamps := c.unplacedTimestamps.merge other.unplacedTimestamps }

/-- Malformed and oversized rows; other coverage is not an error. -/
def parseErrors (c : FirewallCoverage) : Nat :=
  min (saturatingAdd u64Max c.malformed.count c.oversized.count) u32Max

end FirewallCoverage
end Firewall
end CmTrace
