import CmTrace.Sccm.Catalog
import CmTrace.Text.Json

/-!
# What a client intake takes for safe

Identities, names and paths are of closed vocabularies, so that nothing a bundle
declares can be a machine's own path or a user's own words.
-/

namespace CmTrace
namespace Sccm

open Text

def maxSccmClientIntakeArtifacts : Nat := 4096

def maxArtifactIdChars : Nat := 160

def maxBasenameChars : Nat := 160

def maxCollectedAtChars : Nat := 64

def maxPathIdentityChars : Nat := 512

def sccmTaskSequenceProvenanceVersion : Nat := 1

def maxSccmTaskSequencePathEvidenceChars : Nat := 256

def maxSccmTaskSequenceRelocationLineageChars : Nat := 128

def maxSyntheticFingerprintTokens : Nat := 10

def reviewedUnsupportedSyntheticBasenames : List Text :=
  ["CustomVendorHook.log".toList, "CustomVendorHook.lo_".toList, "PolicyAgent.log.backup".toList]

def syntheticFingerprintTokens : List Text :=
  ["a absent access agent app approved artifact auth b basename bits boundary c".toList,
    "cache candidate capped ccmsetup client collision complete completeness content".toList,
    "contradictory current custom deferred denied dependency deployment detect".toList,
    "detection download dp enforce enforcement evaluate evaluation exit failure false".toList,
    "fingerprint gate health identity incomplete intent invalid lo location lookalike".toList,
    "malformed missing mp multiline negative no not numbered offset one or path".toList,
    "persist policy recovery relative report reporting requirements root rotation".toList,
    "rotations scheduler services setup site state success supplemental targeted time".toList,
    "transfer transport two unknown unsafe update updates valid version".toList].flatMap (splitOn ' ')

/-- The groups of sources, each by its logical artifact. -/
def clientSourceGroups : List Text := [
  "client-app-enforce".toList,
  "client-app-intent".toList,
  "client-ccmsetup".toList,
  "client-compliance".toList,
  "client-content".toList,
  "client-evaluation".toList,
  "client-identity".toList,
  "client-inventory".toList,
  "client-location".toList,
  "client-location-services-shared".toList,
  "client-maintenance-window".toList,
  "client-metering".toList,
  "client-policy-agent".toList,
  "client-task-sequence-smsts".toList,
  "client-policy-state".toList,
  "client-reboot".toList,
  "client-updates".toList,
  "client-windows-update-supplemental".toList]

inductive SccmTaskSequencePathClass where
  | winPe
  | setup
  | fullOs
  | client
  | unknown
  deriving DecidableEq, Repr

structure SccmTaskSequenceProvenance where
  version : Nat
  pathClass : SccmTaskSequencePathClass
  smstsLogPathEvidence : Option Text
  relocationLineage : Text
  relocationOrdinal : Nat
  deriving DecidableEq, Repr

/-! ## Names of sources -/

def expectedRotatedName (basename : Text) : SccmRotation → Option Text
  | .current => some basename
  | .loUnderscore =>
    if ".log".toList.isSuffixOf basename then
      some (basename.take (basename.length - 4) ++ ".lo_".toList)
    else none
  | .numbered number => if 0 < number then some (basename ++ '.' :: decimal number) else none
  | .timestamped timestamp => some (basename ++ '.' :: timestamp)
  | .unknown _ => none

def cataloguedClientSource (displayName : Text) (rotation : SccmRotation) :
    Option SccmClientSourceMembership :=
  let classified := classifyArtifactName displayName
  if classified.supportedForDiagnosis = false ∨ classified.rotation ≠ rotation then none
  else
    match clientSourceMemberships.find? fun source =>
        eqIgnoreAsciiCase source.basename classified.basename with
    | none => none
    | some source =>
      if expectedRotatedName source.basename rotation = some displayName then some source else none

def matchingGroups (displayName : Text) (rotation : SccmRotation) : List Text :=
  match cataloguedClientSource displayName rotation with
  | none => []
  | some source => source.logicalArtifactIds.filterMap fun logicalArtifactId =>
      clientSourceGroups.find? fun group => group = logicalArtifactId

def sourceMatchesGroup (displayName : Text) (rotation : SccmRotation) (logicalArtifactId : Text) :
    Bool :=
  (matchingGroups displayName rotation).any fun group => group = logicalArtifactId

def taskSequenceGroup : Text := "client-task-sequence-smsts".toList

def sourceBasenameIdentity (displayName : Text) (rotation : SccmRotation) : Text :=
  match cataloguedClientSource displayName rotation with
  | some source => toAsciiLowercase source.basename
  | none => toAsciiLowercase displayName

/-- What tells the rotations of a source apart. -/
def rotationIdentity : SccmRotation → Text
  | .current => "current".toList
  | .loUnderscore => "lo".toList
  | .numbered number => "numbered-".toList ++ decimal number
  | .timestamped timestamp => "timestamped-".toList ++ timestamp
  | .unknown unknown => "unknown:".toList ++ unknown.kind ++ ':' ::
      match unknown.value with
      | some (.string value) => value
      | _ => []

/-! ## Safe texts -/

def isLowercaseHex (value : Text) : Bool :=
  value.all fun c => isAsciiDigit c || (decide ('a' ≤ c) && decide (c ≤ 'f'))

def isSha256Digest (value : Text) : Bool := decide (value.length = 64) && isLowercaseHex value

def isLowercaseHexHandle (value : Text) : Bool :=
  (decide (value.length = 16) || decide (value.length = 64)) && isLowercaseHex value

/-- What follows a text at the front, if it is there. -/
def stripPrefix (front value : Text) : Option Text :=
  if front.isPrefixOf value then some (value.drop front.length) else none

def stripSuffix (back value : Text) : Option Text :=
  if back.isSuffixOf value then some (value.take (value.length - back.length)) else none

/-- Tokens are of the vocabulary, or a number of two digits that comes last, after a
word that says so. -/
def safeTokens : Option Text → List Text → Bool
  | _, [] => true
  | previous, token :: rest =>
    !token.isEmpty &&
      (syntheticFingerprintTokens.contains token ||
        (decide (token.length ≤ 2) && token.all isAsciiDigit && rest.isEmpty &&
          previous == some "numbered".toList)) &&
      safeTokens (some token) rest

def isSafeSyntheticFingerprint (payload : Text) : Bool :=
  let tokens := splitOn ':' (payload.map fun c => if c = '-' then ':' else c)
  decide (tokens.length ≤ maxSyntheticFingerprintTokens) && safeTokens none tokens

def isSafeArtifactId (value : Text) : Bool :=
  if value = [] ∨ maxArtifactIdChars < value.length then false
  else
    match stripPrefix "fixture-".toList value with
    | some payload => isSafeSyntheticFingerprint payload
    | none => (stripPrefix "sccm-artifact:v1:sha256:".toList value).any isSha256Digest

def isCanonicalClientBasename (value : Text) : Bool :=
  clientSourceMemberships.any fun source => source.basename = value

def isOpaqueUnsupportedBasename (value : Text) : Bool :=
  ((stripPrefix "sccm-unknown-v1-sha256-".toList value).bind (stripSuffix ".log".toList)).any
    isSha256Digest

def SccmRotation.isUnknown : SccmRotation → Bool
  | .unknown _ => true
  | _ => false

def isSafeBasename (value : Text) (rotation : SccmRotation) : Bool :=
  let structurallySafe := !value.isEmpty && decide (value = trim value) &&
    decide (value.length ≤ maxBasenameChars) && value.all (fun c => decide (c.toNat < 128)) &&
    !value.any (fun c => ['/', '\\', ':', '@'].contains c) && !value.any isControl
  structurallySafe &&
    (!(matchingGroups value rotation).isEmpty ||
      (rotation.isUnknown && isCanonicalClientBasename value) ||
      reviewedUnsupportedSyntheticBasenames.contains value || isOpaqueUnsupportedBasename value)

def isSafeUnknownRotation : SccmRotation → Bool
  | .unknown unknown => decide (unknown.kind = "cmtraceopen.rotation.opaque.v1".toList) &&
      match unknown.value with
      | some (.string value) => (stripPrefix "sha256:".toList value).any isSha256Digest
      | _ => false
  | _ => true

def isFourAsciiDigits (value : Text) : Bool := decide (value.length = 4) && value.all isAsciiDigit

def isSafeConfigmgrVersion (value : Text) : Bool :=
  ["5.00.TEST.0000".toList, "5.00.UNKNOWN.0000".toList].contains value ||
    match splitOn '.' value with
    | [major, minor, build, revision] => decide (major = "5".toList) && decide (minor = "00".toList) &&
        isFourAsciiDigits build && isFourAsciiDigits revision
    | _ => false

def isSupportedEncoding (value : Text) : Bool :=
  ["utf-8".toList, "utf-16le".toList, "utf-16be".toList, "windows-1252".toList].contains value

def isSafePathIdentity (value : Text) : Bool :=
  if value = [] ∨ maxPathIdentityChars < value.length then false
  else
    match stripPrefix "synthetic-".toList value with
    | some payload => isSafeSyntheticFingerprint payload
    | none =>
      match splitOnce ':' value with
      | some (scheme, rest) =>
        if scheme = "synthetic".toList then isSafeSyntheticFingerprint rest
        else if scheme = "sha256".toList then isSha256Digest rest
        else false
      | none => false

def isSafeRotationLineage (value : Text) : Bool :=
  (stripPrefix "synthetic:".toList value).any isSafeSyntheticFingerprint ||
    (stripPrefix "cmtraceopen.lineage.sha256.v1:".toList value).any isSha256Digest

/-! ## Paths in a bundle -/

def isSafeRootPathSegment (value : Text) : Bool :=
  (stripPrefix "root-".toList value).any fun root =>
    [['a'], ['b']].contains root || isLowercaseHexHandle root

def isSafePathSegment (value : Text) : Bool :=
  !value.isEmpty && decide (value ≠ ".".toList) && decide (value ≠ "..".toList) &&
    decide (value.length ≤ maxBasenameChars) &&
    value.all fun c => isAsciiAlphanumeric c || ['-', '.', '_'].contains c

def sharedLocationGroup : Text := "client-location-services-shared".toList

def isSafeClientBundleGroup (value : Text) : Bool :=
  decide (value = "unknown".toList) || decide (value = sharedLocationGroup) ||
    clientSourceGroups.contains value

def isExpectedClientBundleGroup (group displayName : Text) (rotation : SccmRotation) : Bool :=
  match matchingGroups displayName rotation with
  | [] => decide (group = "unknown".toList)
  | [matchingGroup] => decide (group = matchingGroup)
  | _ => decide (group = sharedLocationGroup) &&
      (cataloguedClientSource displayName rotation).any fun source =>
        source.basename = "LocationServices.log".toList

def isExpectedRotationPathSegment : Option Text → SccmRotation → Bool
  | none, .current => true
  | none, .unknown _ => true
  | some segment, .current => decide (segment = "current".toList)
  | some segment, .loUnderscore => decide (segment = "lo".toList)
  | some segment, .numbered number => decide (segment = "numbered-".toList ++ decimal number)
  | some segment, .timestamped timestamp =>
    decide (segment = "timestamped-".toList ++ timestamp)
  | _, _ => false

def taskSequencePathClass (value : Text) : Option SccmTaskSequencePathClass :=
  if value = "winpe".toList then some .winPe
  else if value = "setup".toList then some .setup
  else if value = "full-os".toList then some .fullOs
  else if value = "client".toList then some .client
  else if value = "unknown".toList then some .unknown
  else none

def isSafeTaskSequenceRelativePath (body : List Text) (displayName : Text) (rotation : SccmRotation) :
    Bool :=
  let safe (pathClass : Text) (root rotationSegment : Option Text) (basename : Text) : Bool :=
    (taskSequencePathClass pathClass).isSome && root.all isSafeRootPathSegment &&
      isExpectedClientBundleGroup taskSequenceGroup displayName rotation &&
      decide (basename = displayName) && isSafePathSegment basename &&
      isExpectedRotationPathSegment rotationSegment rotation
  match body with
  | [_, pathClass, basename] => safe pathClass none none basename
  | [_, second, rotationSegment, basename] =>
    if isSafeRootPathSegment second then
      safe "client".toList (some second) (some rotationSegment) basename
    else safe second none (some rotationSegment) basename
  | [_, pathClass, root, rotationSegment, basename] =>
    safe pathClass (some root) (some rotationSegment) basename
  | _ => false

/-- The path below the evidence of the client, or of the bundle. -/
def evidenceBody (value : Text) : Option (List Text) :=
  let segments := splitOn '/' value
  if ["evidence".toList, "sccm".toList, "client".toList].isPrefixOf segments then
    some (segments.drop 3)
  else if ["evidence".toList].isPrefixOf segments then some (segments.drop 1)
  else none

def isSafeRelativePath (value displayName : Text) (rotation : SccmRotation) : Bool :=
  if maxPathIdentityChars < value.length then false
  else
    match evidenceBody value with
    | none => false
    | some body =>
      let safe (group : Text) (rotationSegment : Option Text) (basename : Text) (rootIsSafe : Bool) :
          Bool :=
        rootIsSafe && isSafeClientBundleGroup group &&
          isExpectedClientBundleGroup group displayName rotation && decide (basename = displayName) &&
          isSafePathSegment basename && isExpectedRotationPathSegment rotationSegment rotation
      if body.head? = some taskSequenceGroup then
        isSafeTaskSequenceRelativePath body displayName rotation
      else
        match body with
        | [group, basename] => safe group none basename true
        | [group, rotationSegment, basename] => safe group (some rotationSegment) basename true
        | [group, root, rotationSegment, basename] =>
          safe group (some rotationSegment) basename (isSafeRootPathSegment root)
        | _ => false

/-! ## Provenance of task sequences -/

def taskSequencePathClassForRelativePath (value : Text) : Option SccmTaskSequencePathClass :=
  match evidenceBody value with
  | some (group :: second :: rest) =>
    if group = taskSequenceGroup then
      if rest.length = 2 ∧ isSafeRootPathSegment second = true then some .client
      else taskSequencePathClass second
    else none
  | _ => none

def taskSequencePathClassForEvidence (value : Text) : Option SccmTaskSequencePathClass :=
  if ["SYNTHETIC://winpe/Windows/temp/smstslog/smsts.log".toList,
      "synthetic:smsts-path:winpe".toList].contains value then some .winPe
  else if ["SYNTHETIC://setup/smstslog/smsts.log".toList,
      "synthetic:smsts-path:setup".toList].contains value then some .setup
  else if ["SYNTHETIC://full-os/_SMSTaskSequence/Logs/smstslog/smsts.log".toList,
      "synthetic:smsts-path:full-os".toList].contains value then some .fullOs
  else if ["SYNTHETIC://client/CCM/Logs/smsts.log".toList,
      "SYNTHETIC://client/CCM/Logs/smstslog/smsts.log".toList,
      "SYNTHETIC://client/root-a/CCM/Logs/smstslog/smsts.log".toList,
      "SYNTHETIC://client/root-b/CCM/Logs/smstslog/smsts.log".toList,
      "synthetic:smsts-path:client".toList].contains value then some .client
  else if ["SYNTHETIC://unknown/observed/smsts.log".toList,
      "synthetic:smsts-path:unknown".toList].contains value then some .unknown
  else none

def isSafeTaskSequenceRelocationLineage (value : Text) : Bool :=
  !value.isEmpty && decide (value.length ≤ maxSccmTaskSequenceRelocationLineageChars) &&
    ("synthetic:".toList.isPrefixOf value ||
      "cmtraceopen.task-sequence.relocation.sha256.v1:".toList.isPrefixOf value) &&
    value.all fun c => isAsciiAlphanumeric c || [':', '.', '_', '-'].contains c

/-- Two dots one after the other are somewhere in the text. -/
def hasDoubleDot (value : Text) : Bool := (lastIndexOf "..".toList value).isSome

def isSafeTaskSequencePathEvidence (value : Text) : Bool :=
  if value = [] ∨ maxSccmTaskSequencePathEvidenceChars < value.length ∨
      value.any isControl = true ∨ hasDoubleDot value = true then false
  else (taskSequencePathClassForEvidence value).isSome

def isValidTaskSequenceProvenance (provenance : SccmTaskSequenceProvenance)
    (relativePath : Option Text) : Bool :=
  decide (provenance.version = sccmTaskSequenceProvenanceVersion) &&
    isSafeTaskSequenceRelocationLineage provenance.relocationLineage &&
    provenance.smstsLogPathEvidence.all isSafeTaskSequencePathEvidence &&
    relativePath.all (fun value =>
      taskSequencePathClassForRelativePath value = some provenance.pathClass) &&
    provenance.smstsLogPathEvidence.all fun value =>
      (taskSequencePathClassForEvidence value).all fun pathClass => pathClass = provenance.pathClass

end Sccm
end CmTrace
