import CmTrace.Firewall.Coverage

/-!
# Log entries

The row every parser produces.  The columns kept are the ones the modelled
parsers write; the spans of error codes inside a message are left out, being a
function of the message alone.
-/

namespace CmTrace
namespace Log

open Firewall (FirewallRecord)

inductive Severity where
  | success
  | info
  | warning
  | error
  deriving DecidableEq, Repr

inductive EntryKind where
  | log
  | section
  | iteration
  | header
  deriving DecidableEq, Repr

inductive LogFormat where
  | ccm
  | simple
  | plain
  | timestamped
  | dnsDebug
  | dnsAudit
  | cmtLog
  deriving DecidableEq, Repr

structure LogEntry where
  firewall : Option FirewallRecord := none
  id : Nat := 0
  /-- Counted from one in the source file. -/
  lineNumber : Nat := 0
  message : Text := []
  component : Option Text := none
  /-- Milliseconds since the epoch. -/
  timestamp : Option Int := none
  timestampDisplay : Option Text := none
  severity : Severity := .info
  thread : Option Nat := none
  threadDisplay : Option Text := none
  sourceFile : Option Text := none
  format : LogFormat := .plain
  filePath : Text := []
  timezoneOffset : Option Int := none
  httpMethod : Option Text := none
  uriStem : Option Text := none
  uriQuery : Option Text := none
  statusCode : Option Nat := none
  subStatus : Option Nat := none
  timeTakenMs : Option Nat := none
  clientIp : Option Text := none
  serverIp : Option Text := none
  userAgent : Option Text := none
  serverPort : Option Nat := none
  username : Option Text := none
  win32Status : Option Nat := none
  queryName : Option Text := none
  queryType : Option Text := none
  responseCode : Option Text := none
  dnsDirection : Option Text := none
  dnsProtocol : Option Text := none
  sourceIp : Option Text := none
  dnsFlags : Option Text := none
  entryKind : Option EntryKind := none
  whatif : Option Bool := none
  sectionName : Option Text := none
  sectionColor : Option Text := none
  iteration : Option Text := none
  tags : Option (List Text) := none
  deriving DecidableEq, Repr

def LogEntry.withId (entry : LogEntry) (id : Nat) : LogEntry := { entry with id := id }

def LogEntry.atLine (lineNumber : Nat) (entry : LogEntry) : LogEntry :=
  { entry with lineNumber := lineNumber }

/-- Records as rows seen through `view`, each numbered by its first line. -/
def shown {R β : Type} (entry : R → LogEntry) (view : LogEntry → β) (rows : List (Nat × R)) : List β :=
  rows.map fun kr => view ((entry kr.2).atLine kr.1)

@[simp] theorem shown_nil {R β : Type} (entry : R → LogEntry) (view : LogEntry → β) :
    shown entry view [] = [] := rfl

theorem shown_append {R β : Type} (entry : R → LogEntry) (view : LogEntry → β)
    (xs ys : List (Nat × R)) :
    shown entry view (xs ++ ys) = shown entry view xs ++ shown entry view ys :=
  List.map_append

end Log
end CmTrace
