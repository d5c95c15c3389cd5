import CmTrace.Collections.Greatest
import CmTrace.Collections.Groups
import CmTrace.Collections.Keyed
import CmTrace.Esp.Texts
import CmTrace.Time.Calendar

/-!
# Processes

Samples of a process are one process when its id and the instant of its start are, and an
instant is trusted as an identity only where its time stamp says it without loss.  A process
that was the parent of another was started no later and was seen while the other ran.
-/

namespace CmTrace
namespace Esp

open Text Collections Time

inductive EspTimestampKind where
  | utc
  | offset
  | localTime
  | unspecified
  | invalid
  deriving DecidableEq, Repr

structure EspTimestamp where
  rawText : Text
  originalOffset : Option Text := none
  normalizedUtc : Option Text := none
  kind : EspTimestampKind
  deriving DecidableEq, Repr

structure EspEvidenceRef where
  evidenceId : Text
  sourceArtifactId : Text
  deriving DecidableEq, Repr

inductive EspSourceKind where
  | registry
  | json
  | eventLog
  | imeLog
  | deploymentLog
  | process
  | system
  | deliveryOptimization
  | graph
  | coverage
  deriving DecidableEq, Repr

inductive EspSensitivity where
  | «public»
  | sensitive
  | restricted
  deriving DecidableEq, Repr

inductive EspParseState where
  | parsed
  | raw
  | malformed
  | unsupported
  deriving DecidableEq, Repr

inductive EspSourceAccessState where
  | available
  | missing
  | permissionDenied
  | failed
  | unsupported
  deriving DecidableEq, Repr

structure EspRegistryProvenance where
  hive : Text
  key : Text
  valueName : Option Text
  deriving DecidableEq, Repr

structure EspEventProvenance where
  channel : Text
  eventId : Nat
  recordId : Option Nat
  namedData : List (Text × Text)
  deriving DecidableEq, Repr

structure EspEvidenceProvenance where
  sourceKind : EspSourceKind := .process
  sourceArtifactId : Text
  filePath : Option Text := none
  lineNumber : Option Nat := none
  recordNumber : Option Nat := none
  registry : Option EspRegistryProvenance := none
  event : Option EspEventProvenance := none
  deriving DecidableEq, Repr

structure EspObservationContext where
  evidenceRef : EspEvidenceRef
  provenance : EspEvidenceProvenance
  sourceTimestamp : Option EspTimestamp := none
  observedAtUtc : Text
  sensitivity : EspSensitivity := .sensitive
  parseState : EspParseState := .parsed
  accessState : EspSourceAccessState := .available
  deriving DecidableEq, Repr

structure EspProcessObservation where
  context : EspObservationContext
  pid : Nat
  processStartTime : EspTimestamp
  parentPid : Option Nat := none
  executableName : Text
  sanitizedCommandLine : Option Text := none
  referencedLogPath : Option Text := none
  appId : Option Text := none
  productCode : Option Text := none
  deriving DecidableEq, Repr

/-- The calendar library. -/
structure Chrono (Instant : Type) where
  /-- The instant of an RFC 3339 time stamp. -/
  parseRfc3339 : Text → Option Instant
  /-- The time stamp of an instant, in UTC and with the digits that it needs. -/
  toRfc3339 : Instant → Text
  /-- The instant of an hour, a minute, a second and a nanosecond of a date at an offset in
  seconds. -/
  ofLocal : NaiveDate → Nat → Nat → Nat → Nat → Int → Option Instant
  /-- The instant so many minutes before another, in the range of the calendar. -/
  subMinutes : Nat → Instant → Option Instant
  /-- The instant so many minutes after another, in the range of the calendar. -/
  addMinutes : Nat → Instant → Option Instant

abbrev ProcessIdentity (Instant : Type) := Nat × Instant

abbrev ProcessSamples := List EspProcessObservation

def maxParentChainDepth : Nat := 16

/-! ## Instants -/

section Instants

variable {Instant : Type} [LinearOrder Instant] (chrono : Chrono Instant)

def timestampValue (timestamp : EspTimestamp) : Option Instant :=
  chrono.parseRfc3339 (timestamp.normalizedUtc.getD timestamp.rawText)

def contextTimestamp (context : EspObservationContext) : Option Instant :=
  (context.sourceTimestamp.bind (timestampValue chrono)).or
    (chrono.parseRfc3339 context.observedAtUtc)

/-- A part of a time stamp that is digits only. -/
def wmiComponent (raw : Text) (start stop : Nat) : Option Nat :=
  let value := (raw.drop start).take (stop - start)
  if value.all isAsciiDigit then parseUnsigned 10 (2 ^ 32 - 1) value else none

def rawLooksLikeWmiDatetime (raw : Text) : Bool :=
  byteLen raw == 25 && (utf8Bytes raw)[14]? == some 46

def wmiSign : Option Char → Option Int
  | some '+' => some 1
  | some '-' => some (-1)
  | _        => none

/-- A leap second is second 59 and a second of nanoseconds more. -/
def parseWmiProcessStart (raw : Text) : Option Instant := do
  guard (rawLooksLikeWmiDatetime raw && raw.all fun c => decide (c.toNat < 128))
  let year ← wmiComponent raw 0 4
  let month ← wmiComponent raw 4 6
  let day ← wmiComponent raw 6 8
  let hour ← wmiComponent raw 8 10
  let minute ← wmiComponent raw 10 12
  let second ← wmiComponent raw 12 14
  let microseconds ← wmiComponent raw 15 21
  guard (second ≤ 60)
  let carry := if second = 60 then 1000000000 else 0
  let date ← NaiveDate.fromYmd year month day
  let sign ← wmiSign raw[21]?
  let offset ← wmiComponent raw 22 25
  chrono.ofLocal date hour minute (min second 59) (microseconds * 1000 + carry)
    (sign * offset * 60)

/-- No digit past the ninth of a fraction says anything. -/
def rfc3339FractionIsRepresentable (raw : Text) : Bool :=
  let bytes := utf8Bytes raw
  if bytes[19]? ≠ some 46 then true
  else
    (((bytes.drop 20).takeWhile fun b => decide (48 ≤ b.toNat ∧ b.toNat ≤ 57)).drop 9).all
      fun b => b == 48

def parseRfc3339Utc (raw : Text) : Option Instant :=
  if rfc3339FractionIsRepresentable raw then chrono.parseRfc3339 raw else none

def rawUsesUtcDesignator (raw : Text) : Bool :=
  raw.getLast? == some 'Z' || raw.getLast? == some 'z'

/-- The instant of a start, where it is an identity. -/
def processStartInstant (timestamp : EspTimestamp) : Option Instant :=
  let raw := timestamp.rawText
  if trim raw = [] then none
  else match timestamp.kind with
    | .utc =>
      if rawUsesUtcDesignator raw || "+00:00".toList.isSuffixOf raw then parseRfc3339Utc chrono raw
      else none
    | .offset =>
      if rawLooksLikeWmiDatetime raw then parseWmiProcessStart chrono raw
      else if !rawUsesUtcDesignator raw && !"-00:00".toList.isSuffixOf raw then
        parseRfc3339Utc chrono raw
      else none
    | .localTime | .invalid | .unspecified => none

/-- When a sample was taken, the later of what is known of it. -/
def processSampleTimestamp (process : EspProcessObservation) : Option Instant :=
  ((chrono.parseRfc3339 process.context.observedAtUtc).toList ++
    (process.context.sourceTimestamp.bind (timestampValue chrono)).toList).max?

def processIdentityKey (process : EspProcessObservation) : Option (ProcessIdentity Instant) :=
  (processStartInstant chrono process.processStartTime).map fun started => (process.pid, started)

def processStartTimestamp (samples : ProcessSamples) : Option Instant :=
  (samples.filterMap fun process => processStartInstant chrono process.processStartTime).max?

def latestProcessSampleTimestamp (samples : ProcessSamples) : Option Instant :=
  (processStartTimestamp chrono samples).bind fun started =>
    ((samples.filterMap (processSampleTimestamp chrono)).filter fun sampled =>
      decide (started ≤ sampled)).max?

def observationWithinProcessWindow (samples : ProcessSamples) (context : EspObservationContext) :
    Bool :=
  ((processStartTimestamp chrono samples).bind fun started =>
    (contextTimestamp chrono context).bind fun observed =>
      (latestProcessSampleTimestamp chrono samples).map fun sampled =>
        decide (started ≤ observed ∧ observed ≤ sampled)).getD false

end Instants

def processPid (samples : ProcessSamples) : Option Nat :=
  samples.head?.map EspProcessObservation.pid

def uniqueParentPid (samples : ProcessSamples) : Option Nat :=
  match sortedDistinct compare (samples.filterMap EspProcessObservation.parentPid) with
  | [pid] => some pid
  | _     => none

/-! ## Samples in order -/

section Samples

variable {Instant : Type} [LinearOrder Instant] (chrono : Chrono Instant)

def information (process : EspProcessObservation) : Nat :=
  [process.appId.any hasNormalizedIdentifier,
    process.productCode.any hasNormalizedIdentifier,
    (process.referencedLogPath.bind canonicalInstallerLogPath).isSome,
    process.sanitizedCommandLine.any fun commandLine => !isBlank commandLine].count true

def artifactOf (process : EspProcessObservation) : Text :=
  process.context.provenance.sourceArtifactId

def evidenceOf (process : EspProcessObservation) : Text := process.context.evidenceRef.evidenceId

def preferenceOrder : EspProcessObservation → EspProcessObservation → Ordering :=
  compareLex (orderOn compare information)
    (compareLex (orderOn (noneFirst compare) (processSampleTimestamp chrono))
      (compareLex (orderOn compare artifactOf) (orderOn compare evidenceOf)))

def preferredProcess (samples : ProcessSamples) : Option EspProcessObservation :=
  maxBy (preferenceOrder chrono) samples

abbrev identityOrder : ProcessIdentity Instant → ProcessIdentity Instant → Ordering :=
  pairOrder compare compare

instance : @Std.LawfulBEqCmp (ProcessIdentity Instant) instBEqOfDecidableEq identityOrder :=
  @Std.LawfulBEqCmp.mk _ instBEqOfDecidableEq _ fun {a b} =>
    Iff.trans ⟨eq_of_cmp identityOrder, fun h => h ▸ cmp_self identityOrder a⟩
      (@beq_iff_eq _ instBEqOfDecidableEq _ a b).symm

/-- The identity of a sample that was taken after the process started. -/
def sampledIdentity (process : EspProcessObservation) : Option (ProcessIdentity Instant) :=
  (processIdentityKey chrono process).bind fun identity =>
    (processSampleTimestamp chrono process).bind fun sampled =>
      if sampled < identity.2 then none else some identity

abbrev ProcessGroups (Instant : Type) := List (ProcessIdentity Instant × ProcessSamples)

/-- The samples of each process, in the order of preference. -/
def groupProcessObservations (processes : ProcessSamples) : ProcessGroups Instant :=
  let identified := processes.filterMap fun process =>
    (sampledIdentity chrono process).map fun identity => (identity, process)
  (sortBy (orderOn identityOrder Prod.fst) (groupBy Prod.fst identified)).map fun group =>
    (group.1, sortBy (preferenceOrder chrono) (group.2.map Prod.snd))

def processGroupIdentity (samples : ProcessSamples) : Option (ProcessIdentity Instant) :=
  samples.head?.bind (processIdentityKey chrono)

/-- The start of a process and what was sampled of it while a child of it ran. -/
def sampledWhile (childStarted childSampled : Instant) (samples : ProcessSamples) :
    Option (Instant × ProcessSamples) :=
  (processStartTimestamp chrono samples).bind fun started =>
    if childStarted < started then none
    else
      let inWindow := samples.filter fun process =>
        (processSampleTimestamp chrono process).any fun sampled =>
          decide (childStarted ≤ sampled ∧ sampled ≤ childSampled)
      if inWindow = [] then none else some (started, inWindow)

def parentOrder : Instant × ProcessSamples → Instant × ProcessSamples → Ordering :=
  compareLex (orderOn compare Prod.fst)
    (compareLex (orderOn (noneFirst (preferenceOrder chrono)) fun parent =>
        preferredProcess chrono parent.2)
      (orderOn (noneFirst identityOrder) fun parent => processGroupIdentity chrono parent.2))

def parentOf (groups : ProcessGroups Instant) (current : ProcessSamples) :
    Option ProcessSamples :=
  (uniqueParentPid current).bind fun parentPid =>
    (processStartTimestamp chrono current).bind fun childStarted =>
      (latestProcessSampleTimestamp chrono current).bind fun childSampled =>
        (maxBy (parentOrder chrono)
          ((groups.filter fun group => processPid group.2 == some parentPid).filterMap
            fun group => sampledWhile chrono childStarted childSampled group.2)).map Prod.snd

/-- A process and those it descends from, through at most so many parents. -/
def lineageFrom (groups : ProcessGroups Instant) :
    Nat → List (ProcessIdentity Instant) → ProcessSamples → List ProcessSamples
  | 0, _, current                => [current]
  | depth + 1, visited, current  =>
    match parentOf chrono groups current with
    | none        => [current]
    | some parent =>
      match processGroupIdentity chrono parent with
      | none          => [current]
      | some identity =>
        if visited.contains identity then [current]
        else current :: lineageFrom groups depth (identity :: visited) parent

def processLineage (groups : ProcessGroups Instant) (root : ProcessSamples) :
    List ProcessSamples :=
  match processGroupIdentity chrono root with
  | none          => [root]
  | some identity => lineageFrom chrono groups maxParentChainDepth [identity] root

end Samples

end Esp
end CmTrace
