import CmTrace.Collections.Keyed
import CmTrace.Sccm.Catalog
import CmTrace.Text.Number
import CmTrace.Timeline.Observation

/-!
# Correlating client facts with server facts

Facts of both sides are put in order and capped, and each client fact is reduced
to one result.  A result says causal when nothing at all speaks against it: it is
read off the reasons that were noted, of which there are none then.
-/

namespace CmTrace
namespace Sccm

open Std Text Collections
open Timeline (textOrder)

inductive CorrelationPair where
  | contentDistributionPoint
  | policyManagementPoint
  | updatesSoftwareUpdatePoint
  deriving DecidableEq, Repr

namespace CorrelationPair

def stableName : CorrelationPair → Text
  | contentDistributionPoint   => "content-distribution-point".toList
  | policyManagementPoint      => "policy-management-point".toList
  | updatesSoftwareUpdatePoint => "updates-software-update-point".toList

def clientRequest : CorrelationPair → Text
  | contentDistributionPoint   => "client-content".toList
  | policyManagementPoint      => "client-policy-agent".toList
  | updatesSoftwareUpdatePoint => "client-updates".toList

def serverRequest : CorrelationPair → Text
  | contentDistributionPoint   => "server-dp-distribution".toList
  | policyManagementPoint      => "server-mp-policy".toList
  | updatesSoftwareUpdatePoint => "server-sup-sync".toList

end CorrelationPair

inductive CorrelationOutcome where
  | causalFinding
  | candidateOnly
  | counterpartRequested
  | coverageGap
  | incompatible
  | notCausal
  | profileGap
  deriving DecidableEq, Repr

def CorrelationOutcome.debug : CorrelationOutcome → Text
  | causalFinding        => "CausalFinding".toList
  | candidateOnly        => "CandidateOnly".toList
  | counterpartRequested => "CounterpartRequested".toList
  | coverageGap          => "CoverageGap".toList
  | incompatible         => "Incompatible".toList
  | notCausal            => "NotCausal".toList
  | profileGap           => "ProfileGap".toList

inductive LinkStrength where
  | exactCorroborated
  | exactPartial
  | candidate
  | incompatible
  | unlinked
  deriving DecidableEq, Repr

def LinkStrength.debug : LinkStrength → Text
  | exactCorroborated => "ExactCorroborated".toList
  | exactPartial      => "ExactPartial".toList
  | candidate         => "Candidate".toList
  | incompatible      => "Incompatible".toList
  | unlinked          => "Unlinked".toList

inductive CorrelationConfidence where
  | low
  | medium
  | high
  deriving DecidableEq, Repr

def CorrelationConfidence.debug : CorrelationConfidence → Text
  | low    => "Low".toList
  | medium => "Medium".toList
  | high   => "High".toList

inductive CorrelationGuard where
  | conflictingExactKey
  | incompatibleTopology
  | invalidTimestampOffset
  | missingClientCounterpart
  | missingServerCounterpart
  | partialCapture
  | redactionBoundary
  | reorderedInput
  | rotationSplit
  | sameTimeNoKey
  | unknownExtractionProfile
  | unrelatedTerminalError
  | versionMismatch
  deriving DecidableEq, Repr

namespace CorrelationGuard

def all : List CorrelationGuard :=
  [conflictingExactKey, incompatibleTopology, invalidTimestampOffset, missingClientCounterpart,
    missingServerCounterpart, partialCapture, redactionBoundary, reorderedInput, rotationSplit,
    sameTimeNoKey, unknownExtractionProfile, unrelatedTerminalError, versionMismatch]

end CorrelationGuard

inductive CorrelationReason where
  | clientCounterpartMissing
  | exactKeyConflict
  | inputCapExceeded
  | orderingNotCausal
  | orderingUnavailable
  | partialSourceCoverage
  | profileUnvalidated
  | profileVersionMismatch
  | rotationIncomplete
  | sameTimeWithoutExactKey
  | serverCounterpartMissing
  | terminalRelationMissing
  | topologyMismatch
  | unrelatedServerTerminal
  deriving DecidableEq, Repr

namespace CorrelationReason

/-- The place in the declaration, which orders the reasons. -/
def rank : CorrelationReason → Nat
  | clientCounterpartMissing => 0
  | exactKeyConflict         => 1
  | inputCapExceeded         => 2
  | orderingNotCausal        => 3
  | orderingUnavailable      => 4
  | partialSourceCoverage    => 5
  | profileUnvalidated       => 6
  | profileVersionMismatch   => 7
  | rotationIncomplete       => 8
  | sameTimeWithoutExactKey  => 9
  | serverCounterpartMissing => 10
  | terminalRelationMissing  => 11
  | topologyMismatch         => 12
  | unrelatedServerTerminal  => 13

theorem rank_injective : Function.Injective rank := by
  intro a b h
  cases a <;> cases b <;> first | rfl | cases h

def debug : CorrelationReason → Text
  | clientCounterpartMissing => "ClientCounterpartMissing".toList
  | exactKeyConflict         => "ExactKeyConflict".toList
  | inputCapExceeded         => "InputCapExceeded".toList
  | orderingNotCausal        => "OrderingNotCausal".toList
  | orderingUnavailable      => "OrderingUnavailable".toList
  | partialSourceCoverage    => "PartialSourceCoverage".toList
  | profileUnvalidated       => "ProfileUnvalidated".toList
  | profileVersionMismatch   => "ProfileVersionMismatch".toList
  | rotationIncomplete       => "RotationIncomplete".toList
  | sameTimeWithoutExactKey  => "SameTimeWithoutExactKey".toList
  | serverCounterpartMissing => "ServerCounterpartMissing".toList
  | terminalRelationMissing  => "TerminalRelationMissing".toList
  | topologyMismatch         => "TopologyMismatch".toList
  | unrelatedServerTerminal  => "UnrelatedServerTerminal".toList

end CorrelationReason

abbrev reasonOrder : CorrelationReason → CorrelationReason → Ordering :=
  orderOn compare CorrelationReason.rank

instance : LawfulEqCmp reasonOrder := orderOn_lawful _ CorrelationReason.rank_injective

inductive CorrelationSide where
  | client
  | server
  deriving DecidableEq, Repr

namespace CorrelationSide

def rank : CorrelationSide → Nat
  | client => 0
  | server => 1

def debug : CorrelationSide → Text
  | client => "Client".toList
  | server => "Server".toList

end CorrelationSide

structure ArtifactRequest where
  side : CorrelationSide
  logicalArtifactId : Text
  reasonCode : CorrelationReason
  deriving DecidableEq, Repr

def requestOrder : ArtifactRequest → ArtifactRequest → Ordering :=
  compareLex (orderOn compare (·.side.rank)) <|
  compareLex (orderOn textOrder (·.logicalArtifactId)) (orderOn reasonOrder (·.reasonCode))

inductive GuardState where
  | passed
  | triggered
  deriving DecidableEq, Repr

structure GuardCheck where
  guardId : CorrelationGuard
  state : GuardState
  deriving DecidableEq, Repr

structure CorrelationResult where
  resultId : Text
  outcome : CorrelationOutcome
  linkStrength : LinkStrength
  confidence : CorrelationConfidence
  guardChecks : List GuardCheck
  reasonCodes : List CorrelationReason
  clientFactHandle : Option Text
  serverFactHandle : Option Text
  artifactRequests : List ArtifactRequest
  deriving DecidableEq, Repr

def correlationSchemaVersion : Nat := 1

structure CorrelationAnalysis where
  schemaVersion : Nat
  pair : CorrelationPair
  sourceFindingsPreserved : Bool
  results : List CorrelationResult
  deriving DecidableEq, Repr

inductive ProfileAuthority where
  | validated
  | unknown
  | versionMismatch
  deriving DecidableEq, Repr

/-! ## Facts -/

structure CanonicalFact where
  exactKey : Text
  topology : Text
  utcMillis : Option Int
  orderingUsable : Bool
  terminalFailure : Bool
  stableSource : Text
  deriving DecidableEq, Repr

abbrev boolOrder : Bool → Bool → Ordering := orderOn compare Bool.toNat

abbrev millisOrder : Option Int → Option Int → Ordering := noneFirst compare

def factOrder : CanonicalFact → CanonicalFact → Ordering :=
  compareLex (orderOn textOrder (·.exactKey)) <|
  compareLex (orderOn textOrder (·.topology)) <|
  compareLex (orderOn millisOrder (·.utcMillis)) <|
  compareLex (orderOn boolOrder (·.orderingUsable)) <|
  compareLex (orderOn boolOrder (·.terminalFailure)) (orderOn textOrder (·.stableSource))

structure CanonicalInput where
  pair : CorrelationPair
  clientFacts : List CanonicalFact
  serverFacts : List CanonicalFact
  clientProfile : ProfileAuthority
  serverProfile : ProfileAuthority
  clientCoverageComplete : Bool
  serverCoverageComplete : Bool
  clientRotationComplete : Bool
  serverRotationComplete : Bool
  inputCapped : Bool
  deriving DecidableEq, Repr

def maxFactsPerSide : Nat := 128

def maxResults : Nat := 256

def CanonicalInput.normalize (input : CanonicalInput) : CanonicalInput :=
  let clientFacts := sortedDistinct factOrder input.clientFacts
  let serverFacts := sortedDistinct factOrder input.serverFacts
  { input with
    inputCapped := input.inputCapped || decide (maxFactsPerSide < clientFacts.length) ||
      decide (maxFactsPerSide < serverFacts.length)
    clientFacts := clientFacts.take maxFactsPerSide
    serverFacts := serverFacts.take maxFactsPerSide }

/-! ## Digests -/

def showBool : Bool → Text
  | true => "true".toList
  | false => "false".toList

def showInt : Int → Text
  | .ofNat n => decimal n
  | .negSucc n => '-' :: decimal (n + 1)

def debugOption : Option Text → Text
  | none => "None".toList
  | some shown => "Some(".toList ++ shown ++ [')']

def barred (parts : List Text) : Text := join ['|'] parts

def hexDigit (n : Nat) : Char := (Nat.digitChar n)

abbrev Digest := List.Vector (Fin 256) 32

def Digest.hex (digest : Digest) : Text :=
  digest.toList.flatMap fun byte => [hexDigit (byte.val / 16), hexDigit (byte.val % 16)]

/-- What the digest of a fact is taken of.  Whether its time can be used is not in it. -/
def CanonicalFact.preimage (fact : CanonicalFact) (side : CorrelationSide) (pair : CorrelationPair) :
    Text :=
  barred [pair.stableName, side.debug, fact.exactKey, fact.topology,
    debugOption (fact.utcMillis.map showInt), showBool fact.terminalFailure, fact.stableSource]

section

variable (sha256 : Text → Digest)

def CanonicalFact.handle (fact : CanonicalFact) (side : CorrelationSide) (pair : CorrelationPair) :
    Text :=
  "corrfact:sha256:".toList ++ (sha256 (fact.preimage side pair)).hex

/-! ## Results -/

/-- What speaks against a link, as it is gathered. -/
structure Gathered where
  triggered : List CorrelationGuard := []
  reasons : TreeSet CorrelationReason reasonOrder := ∅
  requests : List ArtifactRequest := []

namespace Gathered

def trigger (g : Gathered) (guardId : CorrelationGuard) : Gathered :=
  { g with triggered := guardId :: g.triggered }

def note (g : Gathered) (reason : CorrelationReason) : Gathered :=
  { g with reasons := g.reasons.insert reason }

def request (g : Gathered) (side : CorrelationSide) (logicalArtifactId : Text)
    (reasonCode : CorrelationReason) : Gathered :=
  { g with requests := g.requests ++ [⟨side, logicalArtifactId, reasonCode⟩] }

/-- A step that is made when something is the case. -/
def when (condition : Bool) (step : Gathered → Gathered) (g : Gathered) : Gathered :=
  if condition then step g else g

end Gathered

def guardProfile (authority : ProfileAuthority) (g : Gathered) : Gathered :=
  match authority with
  | .validated => g
  | .unknown => (g.trigger .unknownExtractionProfile).note .profileUnvalidated
  | .versionMismatch => (g.trigger .versionMismatch).note .profileVersionMismatch

def applyGlobalGuards (input : CanonicalInput) (g : Gathered) : Gathered :=
  let g := guardProfile input.serverProfile (guardProfile input.clientProfile g)
  let g := g.when (!input.clientCoverageComplete || !input.serverCoverageComplete ||
      input.inputCapped) fun g =>
    (((g.trigger .partialCapture).note .partialSourceCoverage).when input.inputCapped
      (·.note .inputCapExceeded)).when (!input.clientCoverageComplete)
        (·.request .client input.pair.clientRequest .partialSourceCoverage)
      |>.when (!input.serverCoverageComplete)
        (·.request .server input.pair.serverRequest .partialSourceCoverage)
  g.when (!input.clientRotationComplete || !input.serverRotationComplete) fun g =>
    ((g.trigger .rotationSplit).note .rotationIncomplete).when (!input.clientRotationComplete)
        (·.request .client input.pair.clientRequest .rotationIncomplete)
      |>.when (!input.serverRotationComplete)
        (·.request .server input.pair.serverRequest .rotationIncomplete)

def resultPreimage (pair : CorrelationPair) (outcome : CorrelationOutcome) (strength : LinkStrength)
    (confidence : CorrelationConfidence) (reasons : List CorrelationReason)
    (clientFactHandle serverFactHandle : Option Text) : Text :=
  -- the digits and letters of a handle need no escape between quotes
  let quoted (handle : Text) := '"' :: handle ++ ['"']
  barred [pair.stableName, outcome.debug, strength.debug, confidence.debug,
    '[' :: join ", ".toList (reasons.map CorrelationReason.debug) ++ [']'],
    debugOption (clientFactHandle.map quoted), debugOption (serverFactHandle.map quoted)]

def buildResult (pair : CorrelationPair) (outcome : CorrelationOutcome) (strength : LinkStrength)
    (confidence : CorrelationConfidence) (g : Gathered)
    (clientFactHandle serverFactHandle : Option Text) : CorrelationResult :=
  let reasonCodes := g.reasons.toList
  { resultId := "corr:sha256:".toList ++ (sha256 (resultPreimage pair outcome strength confidence
      reasonCodes clientFactHandle serverFactHandle)).hex
    outcome := outcome
    linkStrength := strength
    confidence := confidence
    guardChecks := CorrelationGuard.all.map fun guardId =>
      ⟨guardId, if g.triggered.contains guardId then .triggered else .passed⟩
    reasonCodes := reasonCodes
    clientFactHandle := clientFactHandle
    serverFactHandle := serverFactHandle
    artifactRequests := sortedDistinct requestOrder g.requests }

def reduceMissing (input : CanonicalInput) : CorrelationResult :=
  let g : Gathered := {}
  let g := g.when input.clientFacts.isEmpty fun g =>
    ((g.trigger .missingClientCounterpart).note .clientCounterpartMissing).request .client
      input.pair.clientRequest .clientCounterpartMissing
  let g := g.when input.serverFacts.isEmpty fun g =>
    ((g.trigger .missingServerCounterpart).note .serverCounterpartMissing).request .server
      input.pair.serverRequest .serverCounterpartMissing
  buildResult sha256 input.pair .counterpartRequested .unlinked .low (applyGlobalGuards input g)
    none none

/-- Server facts with the key of a client fact, wherever they are from. -/
def identityMatches (input : CanonicalInput) (client : CanonicalFact) : List CanonicalFact :=
  input.serverFacts.filter fun server => server.exactKey = client.exactKey

def topologyMatches (input : CanonicalInput) (client : CanonicalFact) : List CanonicalFact :=
  (identityMatches input client).filter fun server => server.topology = client.topology

/-- The one counterpart of a client fact, if there is one, and what else there is. -/
def matchCounterpart (input : CanonicalInput) (client : CanonicalFact) (g : Gathered) :
    Option CanonicalFact × Gathered :=
  if (identityMatches input client).isEmpty then
    let g := (g.trigger .conflictingExactKey).note .exactKeyConflict
    let g := g.when (input.serverFacts.any fun item =>
        item.utcMillis = client.utcMillis ∧ item.utcMillis.isSome) fun g =>
      (g.trigger .sameTimeNoKey).note .sameTimeWithoutExactKey
    let g := g.when (input.serverFacts.any (·.terminalFailure)) fun g =>
      (g.trigger .unrelatedTerminalError).note .unrelatedServerTerminal
    (none, g)
  else if (topologyMatches input client).isEmpty then
    (none, (g.trigger .incompatibleTopology).note .topologyMismatch)
  else if (topologyMatches input client).length ≠ 1 then
    (none, (g.trigger .conflictingExactKey).note .exactKeyConflict)
  else ((topologyMatches input client).head?, g)

/-- What speaks against a client fact and its counterpart. -/
def compareTimes (client server : CanonicalFact) (g : Gathered) : Gathered :=
  let g :=
    if !client.orderingUsable || !server.orderingUsable then
      (g.trigger .invalidTimestampOffset).note .orderingUnavailable
    else if millisOrder server.utcMillis client.utcMillis = .lt then g.note .orderingNotCausal
    else g
  g.when (!server.terminalFailure) (·.note .terminalRelationMissing)

/-- The outcome that what was gathered amounts to. -/
def verdict (server : Option CanonicalFact) (g : Gathered) :
    CorrelationOutcome × LinkStrength × CorrelationConfidence :=
  if server.isSome && g.reasons.isEmpty then (.causalFinding, .exactCorroborated, .high)
  else if g.triggered.contains .unknownExtractionProfile then (.profileGap, .candidate, .low)
  else if g.triggered.contains .sameTimeNoKey then (.candidateOnly, .candidate, .low)
  else if g.triggered.contains .versionMismatch || g.triggered.contains .conflictingExactKey ||
      g.triggered.contains .incompatibleTopology then (.incompatible, .incompatible, .low)
  else if g.triggered.contains .partialCapture || g.triggered.contains .rotationSplit then
    (.coverageGap, .exactPartial, .low)
  else (.notCausal, if server.isSome then .exactPartial else .unlinked, .medium)

def reduceClientFact (input : CanonicalInput) (client : CanonicalFact) : CorrelationResult :=
  let g := applyGlobalGuards input {}
  let matched := matchCounterpart input client g
  let server := matched.1
  let g := match server with
    | some server => compareTimes client server matched.2
    | none => matched.2
  let decided := verdict server g
  buildResult sha256 input.pair decided.1 decided.2.1 decided.2.2 g
    (some (client.handle sha256 .client input.pair))
    (server.map fun fact => fact.handle sha256 .server input.pair)

def correlate (input : CanonicalInput) : CorrelationAnalysis :=
  let results :=
    if input.clientFacts.isEmpty || input.serverFacts.isEmpty then [reduceMissing sha256 input]
    else (input.clientFacts.take maxResults).map (reduceClientFact sha256 input)
  { schemaVersion := correlationSchemaVersion
    pair := input.pair
    sourceFindingsPreserved := true
    results := dedupBy (fun left right => left.resultId = right.resultId)
      (sortBy (orderOn textOrder (·.resultId)) results) }

end

end Sccm
end CmTrace
