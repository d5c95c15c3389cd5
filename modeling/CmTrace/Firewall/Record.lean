import CmTrace.Log.Entry
import CmTrace.Text.Address

/-!
# The Windows Firewall grammar

A physical line is a directive, which changes the schema or the clock, or a
record, which is read under the schema in force.  `parseRecord` never fails: a
line that does not fit the schema becomes a malformed row that keeps its text.

`parseFromStr` stands for the calendar reader of the program's date library at
the format `%Y-%m-%d %H:%M:%S`; its value is the instant in UTC, in milliseconds.
-/

namespace CmTrace
namespace Firewall

open Log Text

def maxFirewallLineBytes : Nat := 65536

def canonicalFields : List Text :=
  ["date".toList, "time".toList, "action".toList, "protocol".toList, "src-ip".toList,
   "dst-ip".toList, "src-port".toList, "dst-port".toList, "size".toList, "tcpflags".toList,
   "tcpsyn".toList, "tcpack".toList, "tcpwin".toList, "icmptype".toList, "icmpcode".toList,
   "info".toList, "path".toList, "pid".toList]

/-- Schema and clock in force for the records that follow. -/
structure FirewallContext where
  declaredFields : Option (List Text) := none
  timeBasis : FirewallTimeBasis := .unknown
  rejectedFields : List Text := []
  deriving DecidableEq, Repr

namespace FirewallContext

/-- A declaration is usable when it names at least one column, each in letters,
digits, hyphens and underscores, and no column twice up to case. -/
def validFields (fields : List Text) : Bool :=
  !fields.isEmpty &&
    fields.all (fun f => f.all fun c => isAsciiAlphanumeric c || c == '-' || c == '_') &&
    decide (fields.map toAsciiLowercase).Nodup

/-- Install a complete directive.  The answer says whether the line is a comment,
not whether it changed anything. -/
def directive (context : FirewallContext) (line : Text) : Bool × FirewallContext :=
  let line := trim line
  match line with
  | '#' :: comment =>
    match splitOnce ':' comment with
    | none => (true, context)
    | some (name, value) =>
      let value := trim value
      if eqIgnoreAsciiCase name "Software".toList then (true, {})
      else if eqIgnoreAsciiCase name "Time Format".toList then
        (true, { context with
          timeBasis :=
            if eqIgnoreAsciiCase value "Local".toList then .localTime
            else if eqIgnoreAsciiCase value "UTC".toList then .utc
            else .unknown })
      else if eqIgnoreAsciiCase name "Fields".toList then
        -- an oversized header installs nothing, and the schema before it is gone
        let context := { context with declaredFields := none, rejectedFields := [] }
        if maxFirewallLineBytes < byteLen line then (true, context)
        else
          let fields := splitWhitespace value
          if validFields fields then (true, { context with declaredFields := some fields })
          else (true, { context with rejectedFields := fields })
      else (true, context)
  | _ => (false, context)

end FirewallContext

section
variable (parseFromStr : Text → Option Int)

def stamp (date time : Text) : Option Int :=
  if byteLen date ≠ 10 ∨ byteLen time ≠ 8 then none
  else parseFromStr (date ++ ' ' :: time)

def numberOrHyphen (s : Text) : Bool :=
  s == ['-'] || (!s.isEmpty && s.all isAsciiDigit)

/-- The strict shape that lets a record without a declaration be read. -/
def canonical (tokens : List Text) : Bool :=
  let token := fun i => tokens.getD i []
  if ¬ (tokens.length = 17 ∨ tokens.length = 18) ∨ (stamp parseFromStr (token 0) (token 1)).isNone
  then false
  else
    let loss := token 2 == "INFO-EVENTS-LOST".toList
    let protocol := token 3
    ["ALLOW".toList, "DROP".toList, "INFO-EVENTS-LOST".toList].contains (token 2) &&
    (["TCP".toList, "UDP".toList, "ICMP".toList, "ICMPV6".toList, "ICMPv6".toList,
        "IPv6".toList].contains protocol ||
      (parseUnsigned 10 u8Max protocol).isSome || (loss && protocol == ['-'])) &&
    [4, 5].all (fun i => token i == ['-'] || isIpAddr (token i)) &&
    [6, 7, 8, 10, 11, 12, 13, 14].all (fun i => numberOrHyphen (token i)) &&
    (tokens.length != 18 || numberOrHyphen (token 17)) &&
    (token 9).all (fun c => isAsciiAlphabetic c || c == '-') &&
    ["SEND".toList, "RECEIVE".toList, "FORWARD".toList, ['-']].contains (token 16)

structure FirewallRecordResult where
  entry : LogEntry
  /-- What this record alone contributes. -/
  coverage : FirewallCoverage
  deriving DecidableEq, Repr

def endpoint (ip port : Option Text) : Text :=
  let ip := ip.getD ['-']
  match port.filter fun s => s != ['-'] with
  | some port =>
    if ip.contains ':' then '[' :: ip ++ "]:".toList ++ port else ip ++ ':' :: port
  | none => ip

/-- The schema a line is read under, and where it comes from. -/
def schema (tokens : List Text) (context : FirewallContext) : List Text × FirewallSchemaOrigin :=
  match context.declaredFields with
  | some fields => (fields, .header)
  | none =>
    if canonical parseFromStr tokens then (canonicalFields.take tokens.length, .canonical)
    else (context.rejectedFields, .unavailable)

def record (line : Text) (context : FirewallContext) : FirewallRecord :=
  let tokens := splitWhitespace line
  let (declared, origin) := schema parseFromStr tokens context
  let actionPos := declared.findIdx? fun f => eqIgnoreAsciiCase f "action".toList
  let isLoss := actionPos.bind (fun i => tokens[i]?) == some "INFO-EVENTS-LOST".toList
  let missingFinalPid := isLoss &&
    declared.getLast?.any (fun f => eqIgnoreAsciiCase f "pid".toList) &&
    tokens.length + 1 == declared.length
  let mapped := origin != .unavailable &&
    (tokens.length == declared.length || missingFinalPid) && !line.contains '\x00'
  { rawLine := line,
    declaredFields := declared,
    fields :=
      if mapped then declared.mapIdx fun i name => { name := name, value := tokens[i]? } else [],
    schemaOrigin := origin,
    timeBasis := context.timeBasis,
    recordKind := if !mapped then .malformed else if isLoss then .eventsLost else .traffic,
    truncated := false }

def parseRecord (line : Text) (context : FirewallContext) (id lineNumber : Nat) (filePath : Text) :
    FirewallRecordResult :=
  let record := record parseFromStr line context
  let field := fun name : String => record.field name.toList
  let display := match field "date", field "time" with
    | some date, some time =>
      some (date ++ ' ' :: time ++ (if context.timeBasis = .utc then " UTC".toList else []))
    | _, _ => none
  let timestamp := match field "date", field "time" with
    | some date, some time =>
      if context.timeBasis = .utc then stamp parseFromStr date time else none
    | _, _ => none
  let coverage : FirewallCoverage :=
    if timestamp.isNone then { unplacedTimestamps := ({} : FirewallMetric).add 1 lineNumber }
    else {}
  let (message, severity, coverage) := match record.recordKind with
    | .malformed =>
      ("Unparsed firewall record: ".toList ++ line, Severity.info,
        { coverage with malformed := coverage.malformed.add 1 lineNumber })
    | .eventsLost =>
      let coverage := { coverage with lossEvents := coverage.lossEvents.add 1 lineNumber }
      match (field "info").bind (parseUnsigned 10 u64Max) with
      | some n =>
        ("INFO-EVENTS-LOST: ".toList ++ decimal n ++ " events lost".toList, Severity.warning,
          { coverage with lostEvents := coverage.lostEvents.add n lineNumber })
      | none =>
        ("INFO-EVENTS-LOST: loss count unavailable".toList, Severity.warning,
          { coverage with unknownLossCount := coverage.unknownLossCount.add 1 lineNumber })
    | .traffic =>
      ((field "action").getD ['-'] ++ ' ' :: (field "protocol").getD ['-'] ++ ' ' ::
          endpoint (field "src-ip") (field "src-port") ++ " → ".toList ++
          endpoint (field "dst-ip") (field "dst-port") ++ " (".toList ++
          (field "path").getD ['-'] ++ [')'], Severity.info, coverage)
  { entry :=
      { id := id, lineNumber := lineNumber, message := message, timestamp := timestamp,
        timestampDisplay := display, severity := severity,
        timezoneOffset := timestamp.map fun _ => 0, format := .timestamped,
        filePath := filePath, firewall := some record },
    coverage := coverage }

@[simp] theorem parseRecord_id (line : Text) (context : FirewallContext) (id lineNumber : Nat)
    (filePath : Text) :
    (parseRecord parseFromStr line context id lineNumber filePath).entry.id = id := rfl

@[simp] theorem parseRecord_lineNumber (line : Text) (context : FirewallContext)
    (id lineNumber : Nat) (filePath : Text) :
    (parseRecord parseFromStr line context id lineNumber filePath).entry.lineNumber =
      lineNumber := rfl

end

end Firewall
end CmTrace
