import CmTrace.Diagnosis.Summary
import CmTrace.ErrorDb.Mentions
import CmTrace.Text.ByteOrder

/-!
# What an event says about an operation

An event is read for a status field, for words of failure and of success, and for
error codes.  A word counts unless its clause or the word before it negates it.
-/

namespace CmTrace
namespace Diagnosis

open Text Collections
open CmTrace.Parser (contains)
open ErrorDb (ErrorCode ErrorLookupResult lookupErrorCode detectErrorCodeSpans)

inductive EventLogSeverity where
  | critical
  | error
  | warning
  | information
  | verbose
  | unknown
  deriving DecidableEq, Repr

inductive EventLogChannel where
  | deviceManagementAdmin
  | deviceManagementOperational
  | autopilot
  | aadOperational
  | deliveryOptimizationOperational
  | managementService
  | provisioningDiagnosticsAdmin
  | shellCoreOperational
  | timeServiceOperational
  | userDeviceRegistrationAdmin
  | cryptoDpapiOperational
  | kerberosOperational
  | systemLog
  | other (name : Text)
  deriving DecidableEq, Repr

namespace EventLogChannel

def displayName : EventLogChannel → Text
  | deviceManagementAdmin           => "MDM Admin".toList
  | deviceManagementOperational     => "MDM Operational".toList
  | autopilot                       => "Autopilot".toList
  | aadOperational                  => "AAD Operational".toList
  | deliveryOptimizationOperational => "DO Operational".toList
  | managementService               => "Management Service".toList
  | provisioningDiagnosticsAdmin    => "Provisioning Admin".toList
  | shellCoreOperational            => "Shell Core".toList
  | timeServiceOperational          => "Time Service".toList
  | userDeviceRegistrationAdmin     => "User Device Reg".toList
  | cryptoDpapiOperational          => "Crypto DPAPI".toList
  | kerberosOperational             => "Kerberos".toList
  | systemLog                       => "System".toList
  | other name                      => name

end EventLogChannel

structure EventLogEntry where
  id : Nat
  channel : EventLogChannel
  channelDisplay : Text
  provider : Text
  eventId : Nat
  severity : EventLogSeverity
  timestamp : Text
  computer : Option Text := none
  message : Text
  correlationActivityId : Option Text := none
  sourceFile : Text
  deriving DecidableEq, Repr

/-! ## The family of an event -/

def familyFromText (value : Text) : Option EventFamily :=
  let lower := toAsciiLowercase value
  let mentions (word : String) : Bool := contains lower word.toList
  if mentions "configmgr" || mentions "configuration manager" ||
      mentions "configurationmanagement" || mentions "sccm" || mentions "ccm" then
    some .configMgrClient
  else if mentions "autopilot" then some .autopilot
  else if mentions "enrollment status" ||
      (lower.splitOnP fun c => !isAsciiAlphanumeric c).any (· == "esp".toList) ||
      mentions "provisioning" then
    some .esp
  else if mentions "devicemanagement" || mentions "mdm" then some .mdmEnrollment
  else none

def eventFamily (entry : EventLogEntry) : EventFamily :=
  match entry.channel with
  | .autopilot => .autopilot
  | .provisioningDiagnosticsAdmin => .esp
  | .deviceManagementAdmin | .deviceManagementOperational => .mdmEnrollment
  | _ =>
    ((familyFromText (entry.channelDisplay ++ ' ' :: entry.provider)).or
      (familyFromText entry.message)).getD .other

def familyLabel : EventFamily → Text
  | .autopilot       => "Autopilot".toList
  | .esp             => "ESP".toList
  | .mdmEnrollment   => "MDM enrollment".toList
  | .configMgrClient => "ConfigMgr client".toList
  | .other           => "event".toList

def eventSeverity : EventLogSeverity → FindingSeverity
  | .critical => .critical
  | .error    => .error
  | .warning  => .warning
  | .information | .verbose | .unknown => .info

/-! ## Words of failure and of success -/

def clauses (message : Text) : List Text :=
  (toAsciiLowercase message).splitOnP fun c => c ∈ ['.', ',', ';', '\n']

/-- Each word of failure with what takes it back in its clause. -/
def failureMarkers : List (String × List String) :=
  [("failed", ["not failed", "did not fail", "no failure", "without failure"]),
    ("failure", ["no failure", "without failure", "failure-free"]),
    ("error", ["not an error", "no error", "without error", "error-free", "errorcode=0",
      "errorcode=0x0", "errorcode:0", "error code = 0", "error code: 0"]),
    ("denied", ["not denied", "no denial", "without denial"]),
    ("blocked", ["not blocked", "no block", "without block"]),
    ("timeout", ["no timeout", "without timeout", "not timed out"]),
    ("timed out", ["no timeout", "without timeout", "not timed out"])]

def explicitFailure (message : Text) : Bool :=
  (clauses message).any fun clause => failureMarkers.any fun marker =>
    contains clause marker.1.toList && !marker.2.any fun value => contains clause value.toList

def successWords : List String :=
  ["succeed", "succeeded", "success", "successful", "successfully", "complete", "completed",
    "installed", "enrolled"]

/-- The words of a clause, each with the one before it. -/
def wordsInContext (clause : Text) : List (Option Text × Text) :=
  let words := (clause.splitOnP fun c => !isAsciiAlphanumeric c).filter fun word => !word.isEmpty
  (none :: words.map some).zip words

def explicitSuccess (message : Text) : Bool :=
  (clauses message).any fun clause => (wordsInContext clause).any fun word =>
    (successWords.map String.toList).contains word.2 &&
      !word.1.any fun previous => (["not", "no", "without"].map String.toList).contains previous

/-! ## The status of an event -/

def statusField (name : Text) : Bool :=
  (["status", "result", "state", "profilestatus", "enrollmentstatus", "operationstatus"].map
    String.toList).contains (toAsciiLowercase name)

def eventStatus (pairs : List (Text × Text)) : Option (Text × Text) :=
  pairs.find? fun pair => statusField pair.1

def statusMatches (value : Text) (markers : List String) : Bool :=
  let lower := toAsciiLowercase (trim value)
  markers.any fun marker =>
    lower == marker.toList || (marker.toList ++ [':']).isPrefixOf lower ||
      (marker.toList ++ [' ']).isPrefixOf lower || contains lower (' ' :: marker.toList ++ [' '])

def failureStatus (value : Text) : Bool :=
  statusMatches value ["failed", "failure", "error", "denied", "blocked", "timeout", "timed out"]

def successStatus (value : Text) : Bool :=
  statusMatches value ["success", "succeeded", "completed", "complete", "enrolled", "installed"]

def pendingStatus (value : Text) : Bool :=
  statusMatches value ["pending", "started", "running", "retry", "queued", "waiting",
    "in progress", "in-progress"]

/-! ## Error codes -/

def u128Max : Nat := 2 ^ 128 - 1

def nonzeroErrorToken (tokens : List ErrorToken) : Bool :=
  tokens.any fun token =>
    !token.malformed &&
      ((token.decimal.map fun value => decide (value ≠ 0)).or
        (token.hex.bind fun value =>
          let digits :=
            if "0x".toList.isPrefixOf value || "0X".toList.isPrefixOf value then value.drop 2
            else value
          (parseUnsigned 16 u128Max digits).map fun number => decide (number ≠ 0))).getD false

/-- A decimal number with its sign, in 64 bits. -/
def parseI64 : Text → Option Int
  | '-' :: digits =>
    if digits.head? = some '+' then none
    else (parseUnsigned 10 (2 ^ 63) digits).map fun n => -(n : Int)
  | s => (parseUnsigned 10 (2 ^ 63 - 1) s).map fun n => (n : Int)

def ErrorToken.fromLookup (raw : Text) (lookup : ErrorLookupResult) : ErrorToken :=
  { raw         := raw
    decimal     := parseI64 lookup.codeDecimal
    hex         := if lookup.codeHex.isEmpty then none else some lookup.codeHex
    malformed   := lookup.codeHex.isEmpty
    found       := lookup.found
    description :=
      if !lookup.description.isEmpty ∧ lookup.description ≠ "Unknown error code".toList ∧
          lookup.description ≠ "Invalid error code format".toList then
        some lookup.description
      else none
    category    := if lookup.category.isEmpty then none else some lookup.category }

end Diagnosis
end CmTrace
