import CmTrace.Collections.Sorted
import CmTrace.Sccm.SafeNames
import CmTrace.Timeline.Observation

/-!
# Taking in what a client's bundle declares

A bundle declares artifacts and gaps in their capture.  The declarations are checked
one after the other against indexes of those before, and then projected on the groups
of the catalog.  A check that relies on one made elsewhere panics where that one was
not made.
-/

namespace CmTrace
namespace Sccm

open Std Text Collections
open Timeline (textOrder)

inductive SccmCoverageState where
  | captured
  | absent
  | accessDenied
  | capped
  | skipped
  | unsupported
  | parseFailed
  deriving DecidableEq, Repr

inductive SccmRole where
  | client
  | siteServer
  | managementPoint
  | distributionPoint
  | softwareUpdatePoint
  | wsUs
  | provider
  | adminService
  | unknown (name : Text)
  deriving DecidableEq, Repr

structure SccmArtifact where
  artifactId : Text
  displayName : Text
  originalPath : Option Text
  host : Option Text
  role : SccmRole
  configmgrVersion : Option Text
  collectedAtUtc : Option Text
  rotation : SccmRotation
  coverage : SccmCoverageState
  encoding : Option Text
  deriving DecidableEq, Repr

structure SccmClientIntakeArtifact where
  artifact : SccmArtifact
  pathFingerprint : Option Text
  rotationLineage : Option Text
  relativePath : Option Text
  taskSequenceProvenance : Option SccmTaskSequenceProvenance
  fragmentComplete : Option Bool
  declaredByteLength : Option Nat
  contentSha256 : Option Text
  deriving DecidableEq, Repr

structure SccmClientIntakeCaptureGap where
  artifactId : Text
  basename : Text
  rotation : SccmRotation
  coverage : SccmCoverageState
  pathFingerprint : Text
  rotationLineage : Text
  deriving DecidableEq, Repr

structure SccmClientIntakeBundle where
  artifacts : List SccmClientIntakeArtifact
  captureGaps : List SccmClientIntakeCaptureGap
  deriving DecidableEq, Repr

structure SccmClientIntakeFragment where
  artifactId : Text
  basename : Text
  rotation : SccmRotation
  coverage : SccmCoverageState
  pathFingerprint : Option Text
  rotationLineage : Option Text
  relativePath : Option Text
  taskSequenceProvenance : Option SccmTaskSequenceProvenance
  fragmentComplete : Option Bool
  configmgrVersion : Option Text
  collectedAtUtc : Option Text
  encoding : Option Text
  declaredByteLength : Option Nat
  contentSha256 : Option Text
  deriving DecidableEq, Repr

structure SccmClientIntakeGroup where
  logicalArtifactId : Text
  coverage : SccmCoverageState
  fragments : List SccmClientIntakeFragment
  deriving DecidableEq, Repr

structure SccmClientIntakeCoverageGap where
  logicalArtifactId : Text
  artifactId : Option Text
  role : SccmRole
  coverage : SccmCoverageState
  reason : Text
  deriving DecidableEq, Repr

structure SccmClientUnsupportedArtifact where
  artifactId : Text
  basename : Text
  declaredCoverage : SccmCoverageState
  classification : SccmCoverageState
  rotation : SccmRotation
  pathFingerprint : Option Text
  rotationLineage : Option Text
  relativePath : Option Text
  fragmentComplete : Option Bool
  configmgrVersion : Option Text
  collectedAtUtc : Option Text
  encoding : Option Text
  deriving DecidableEq, Repr

structure SccmClientIntakeAssessment where
  schemaVersion : Nat
  groups : List SccmClientIntakeGroup
  physicalArtifacts : List SccmClientIntakeFragment
  unsupportedArtifacts : List SccmClientUnsupportedArtifact
  captureGaps : List SccmClientIntakeCaptureGap
  coverageGaps : List SccmClientIntakeCoverageGap
  deriving DecidableEq, Repr

inductive SccmClientIntakeError where
  | artifactLimitExceeded
  | invalidArtifactId
  | invalidBasename
  | invalidRotation
  | invalidCollectedAt
  | invalidConfigMgrVersion
  | invalidEncoding
  | roleMismatch
  | duplicateArtifactId
  | invalidPathFingerprint
  | invalidRotationLineage
  | invalidRelativePath
  | collidingPhysicalIdentity
  | missingTaskSequenceProvenance
  | invalidTaskSequenceProvenance
  | collidingTaskSequenceRelocation
  | missingPhysicalProvenance
  | missingFragmentCompleteness
  | invalidFragmentCompleteness
  | invalidContentBinding
  | invalidCaptureGap
  deriving DecidableEq, Repr

def SccmClientIntakeError.message : SccmClientIntakeError → Text
  | .artifactLimitExceeded => "client intake artifact count exceeds the supported limit".toList
  | .invalidArtifactId => "client intake artifact identity is empty, unsafe, or too long".toList
  | .invalidBasename => "client intake artifact basename is empty, unsafe, or too long".toList
  | .invalidRotation => "client intake artifact rotation is malformed or unsafe".toList
  | .invalidCollectedAt => "client intake artifact collection timestamp is not RFC 3339".toList
  | .invalidConfigMgrVersion =>
    "client intake artifact ConfigMgr version is unsafe or too long".toList
  | .invalidEncoding => "client intake artifact encoding is unsafe or too long".toList
  | .roleMismatch =>
    "client intake accepts only artifacts explicitly classified as the client role".toList
  | .duplicateArtifactId =>
    "client intake contains a duplicate artifact ID or source declaration".toList
  | .invalidPathFingerprint => "client intake contains an invalid path fingerprint".toList
  | .invalidRotationLineage => "client intake contains an invalid rotation lineage".toList
  | .invalidRelativePath => "client intake contains an invalid bundle-relative evidence path".toList
  | .collidingPhysicalIdentity => "client intake contains a colliding path identity".toList
  | .missingTaskSequenceProvenance =>
    "a physical Task Sequence artifact is missing relocation provenance".toList
  | .invalidTaskSequenceProvenance =>
    "Task Sequence relocation provenance is malformed or unsafe".toList
  | .collidingTaskSequenceRelocation =>
    "Task Sequence relocation lineage and ordinal collide".toList
  | .missingPhysicalProvenance =>
    "a physical capture state is missing its collision-safe path provenance".toList
  | .missingFragmentCompleteness =>
    "client intake fragment completeness must be explicitly declared".toList
  | .invalidFragmentCompleteness =>
    "client intake fragment completeness contradicts its declared coverage state".toList
  | .invalidContentBinding =>
    "client intake content length and digest binding is malformed or not capture-local".toList
  | .invalidCaptureGap =>
    "client intake capture gap is malformed, unsupported, or not coverage-only".toList

/-- How a check ends that does not go through. -/
inductive IntakeFault where
  | error (error : SccmClientIntakeError)
  | panic (message : Text)
  deriving DecidableEq, Repr

/-- Time stamps as the calendar library reads and writes them. -/
structure Rfc3339 (Instant : Type) where
  /-- The instant of a time stamp, with its offset applied. -/
  parse : Text → Option Instant
  /-- The time stamp of an instant, without an offset. -/
  print : Instant → Text

def require (condition : Bool) (error : SccmClientIntakeError) : Except IntakeFault Unit :=
  if condition then .ok () else .error (.error error)

def orError {A : Type} (value : Option A) (error : SccmClientIntakeError) : Except IntakeFault A :=
  match value with
  | some a => .ok a
  | none => .error (.error error)

def expect {A : Type} (value : Option A) (message : Text) : Except IntakeFault A :=
  match value with
  | some a => .ok a
  | none => .error (.panic message)

def isPhysicalState : SccmCoverageState → Bool
  | .captured | .capped | .parseFailed => true
  | _ => false

/-! ## Indexes of the declarations before -/

structure IntakeIndexes where
  artifactIds : List Text := []
  pathFingerprintBindings : List (Text × Option Text × Text) := []
  rotationLineageBindings : List (Text × Text × Option Text) := []
  lineageRotationIdentities : List (Text × Text) := []
  relativePaths : List Text := []
  taskSequenceRelocations : List ((Text × Nat) × Text × SccmTaskSequencePathClass) := []
  physicalSourceIdentities : List (Text × Text) := []
  pinnedMarkerIdentities : List (Text × Text) := []
  unpinnedMarkerIdentities : List (Text × Text) := []

namespace IntakeIndexes

variable (ix : IntakeIndexes)

def bindArtifactId (artifactId : Text) : Except IntakeFault IntakeIndexes := do
  let identity := toAsciiLowercase artifactId
  require (!ix.artifactIds.contains identity) .duplicateArtifactId
  .ok { ix with artifactIds := identity :: ix.artifactIds }

/-- A lineage is of one source at one place, and has each rotation once. -/
def bindLineage (lineage basename : Text) (fingerprint : Option Text) (rotation : Text) :
    Except IntakeFault IntakeIndexes := do
  let bound ← match ix.rotationLineageBindings.lookup lineage with
    | some binding => do
      require (binding = (basename, fingerprint)) .collidingPhysicalIdentity
      .ok ix
    | none => .ok { ix with
        rotationLineageBindings := (lineage, basename, fingerprint) :: ix.rotationLineageBindings }
  require (!bound.lineageRotationIdentities.contains (lineage, rotation)) .collidingPhysicalIdentity
  .ok { bound with
    lineageRotationIdentities := (lineage, rotation) :: bound.lineageRotationIdentities }

/-- A place is shared by the rotations of one lineage alone. -/
def bindFingerprint (fingerprint : Text) (lineage : Option Text) (basename : Text) :
    Except IntakeFault IntakeIndexes :=
  match ix.pathFingerprintBindings.lookup fingerprint with
  | some binding => do
    require (lineage.isSome && binding = (lineage, basename)) .collidingPhysicalIdentity
    .ok ix
  | none => .ok { ix with
      pathFingerprintBindings := (fingerprint, lineage, basename) :: ix.pathFingerprintBindings }

def bindRelativePath (relativePath : Text) : Except IntakeFault IntakeIndexes := do
  let identity := toAsciiLowercase relativePath
  require (!ix.relativePaths.contains identity) .collidingPhysicalIdentity
  .ok { ix with relativePaths := identity :: ix.relativePaths }

/-- One relocation is of one place and one class of paths. -/
def bindRelocation (relocationKey : Text × Nat) (identity : Text × SccmTaskSequencePathClass) :
    Except IntakeFault IntakeIndexes := do
  let bound := { ix with
    taskSequenceRelocations := (relocationKey, identity) :: ix.taskSequenceRelocations }
  match ix.taskSequenceRelocations.lookup relocationKey with
  | some previous => do
    require (previous = identity) .collidingTaskSequenceRelocation
    .ok bound
  | none => .ok bound

def bindPhysical (source : Text × Text) : Except IntakeFault IntakeIndexes := do
  require (!ix.unpinnedMarkerIdentities.contains source) .collidingPhysicalIdentity
  .ok { ix with physicalSourceIdentities := source :: ix.physicalSourceIdentities }

def bindPinned (source : Text × Text) : Except IntakeFault IntakeIndexes := do
  require (!ix.unpinnedMarkerIdentities.contains source) .duplicateArtifactId
  .ok { ix with pinnedMarkerIdentities := source :: ix.pinnedMarkerIdentities }

def bindUnpinned (source : Text × Text) : Except IntakeFault IntakeIndexes := do
  require (!ix.physicalSourceIdentities.contains source) .collidingPhysicalIdentity
  require (!ix.pinnedMarkerIdentities.contains source &&
    !ix.unpinnedMarkerIdentities.contains source) .duplicateArtifactId
  .ok { ix with unpinnedMarkerIdentities := source :: ix.unpinnedMarkerIdentities }

end IntakeIndexes

/-! ## Checking the declarations -/

section

variable {Instant : Type} (chrono : Rfc3339 Instant)

def isSafeCollectedAt (value : Text) : Bool :=
  !value.isEmpty && decide (byteLen value ≤ maxCollectedAtChars) &&
    value.all (fun c => decide (c.toNat < 128)) && (chrono.parse value).isSome

def checkFields (source : SccmClientIntakeArtifact) : Except IntakeFault Unit := do
  let artifact := source.artifact
  require (artifact.role = .client) .roleMismatch
  require (isSafeArtifactId artifact.artifactId) .invalidArtifactId
  require (artifact.rotation.serializes && isSafeUnknownRotation artifact.rotation) .invalidRotation
  require (isSafeBasename artifact.displayName artifact.rotation) .invalidBasename
  require (artifact.collectedAtUtc.all (isSafeCollectedAt chrono)) .invalidCollectedAt
  require (artifact.configmgrVersion.all isSafeConfigmgrVersion) .invalidConfigMgrVersion
  require (artifact.encoding.all isSupportedEncoding) .invalidEncoding

end

/-- Bind the lineage and the place of an artifact, as far as it has them. -/
def bindPlace (ix : IntakeIndexes) (source : SccmClientIntakeArtifact) :
    Except IntakeFault IntakeIndexes := do
  require (source.rotationLineage.all isSafeRotationLineage) .invalidRotationLineage
  require (source.pathFingerprint.all isSafePathIdentity) .invalidPathFingerprint
  let pathFingerprint := source.pathFingerprint.map toAsciiLowercase
  let basename := sourceBasenameIdentity source.artifact.displayName source.artifact.rotation
  let ix ← match source.rotationLineage with
    | some lineage =>
      ix.bindLineage lineage basename pathFingerprint (rotationIdentity source.artifact.rotation)
    | none => .ok ix
  match pathFingerprint with
  | some fingerprint => ix.bindFingerprint fingerprint source.rotationLineage basename
  | none => .ok ix

def bindPath (ix : IntakeIndexes) (source : SccmClientIntakeArtifact) :
    Except IntakeFault IntakeIndexes :=
  match source.relativePath with
  | some relativePath => do
    require (isSafeRelativePath relativePath source.artifact.displayName source.artifact.rotation)
      .invalidRelativePath
    ix.bindRelativePath relativePath
  | none => .ok ix

def isTaskSequence (source : SccmClientIntakeArtifact) : Bool :=
  sourceMatchesGroup source.artifact.displayName source.artifact.rotation taskSequenceGroup

def bindTaskSequence (ix : IntakeIndexes) (source : SccmClientIntakeArtifact) :
    Except IntakeFault IntakeIndexes :=
  if isTaskSequence source && isPhysicalState source.artifact.coverage then do
    let provenance ← orError source.taskSequenceProvenance .missingTaskSequenceProvenance
    require (isValidTaskSequenceProvenance provenance source.relativePath)
      .invalidTaskSequenceProvenance
    -- the fingerprint of a physical artifact is asked for only further down
    let pathFingerprint ← expect source.pathFingerprint
      "physical source path provenance is validated above".toList
    ix.bindRelocation (provenance.relocationLineage, provenance.relocationOrdinal)
      (toAsciiLowercase pathFingerprint, provenance.pathClass)
  else do
    require source.taskSequenceProvenance.isNone .invalidTaskSequenceProvenance
    .ok ix

/-- A length and a digest come together, and for complete captured bytes alone; those
of a task sequence need not be complete. -/
def isValidContentBinding (source : SccmClientIntakeArtifact) (fragmentComplete : Bool) : Bool :=
  match source.declaredByteLength, source.contentSha256 with
  | none, none => true
  | some _, some digest => isSha256Digest digest &&
      decide (source.artifact.coverage = .captured) && (fragmentComplete || isTaskSequence source) &&
      !(matchingGroups source.artifact.displayName source.artifact.rotation).isEmpty
  | _, _ => false

def sourceIdentity (displayName : Text) (rotation : SccmRotation) : Text × Text :=
  (toAsciiLowercase displayName, rotationIdentity rotation)

/-- Bind what an artifact is, bytes or a marker of where there are none. -/
def bindSource (ix : IntakeIndexes) (source : SccmClientIntakeArtifact) (fragmentComplete : Bool) :
    Except IntakeFault IntakeIndexes :=
  let identity := sourceIdentity source.artifact.displayName source.artifact.rotation
  if isPhysicalState source.artifact.coverage then do
    require (!(decide (source.artifact.coverage = .capped) && fragmentComplete))
      .invalidFragmentCompleteness
    let _ ← orError source.pathFingerprint .missingPhysicalProvenance
    let _ ← orError source.relativePath .missingPhysicalProvenance
    ix.bindPhysical identity
  else do
    require source.relativePath.isNone .invalidRelativePath
    require (!fragmentComplete) .invalidFragmentCompleteness
    if source.pathFingerprint.isSome then ix.bindPinned identity else ix.bindUnpinned identity

def validateArtifact {Instant : Type} (chrono : Rfc3339 Instant) (ix : IntakeIndexes)
    (source : SccmClientIntakeArtifact) : Except IntakeFault IntakeIndexes := do
  checkFields chrono source
  let ix ← ix.bindArtifactId source.artifact.artifactId
  let ix ← bindPlace ix source
  let ix ← bindPath ix source
  let ix ← bindTaskSequence ix source
  let fragmentComplete ← orError source.fragmentComplete .missingFragmentCompleteness
  require (isValidContentBinding source fragmentComplete) .invalidContentBinding
  bindSource ix source fragmentComplete

def isValidCaptureGapShape (captureGap : SccmClientIntakeCaptureGap) : Bool :=
  isSafeArtifactId captureGap.artifactId && captureGap.rotation.serializes &&
    isSafeUnknownRotation captureGap.rotation &&
    isSafeBasename captureGap.basename captureGap.rotation &&
    (decide (captureGap.coverage = .capped) || decide (captureGap.coverage = .parseFailed)) &&
    isSafePathIdentity captureGap.pathFingerprint &&
    isSafeRotationLineage captureGap.rotationLineage &&
    !(matchingGroups captureGap.basename captureGap.rotation).isEmpty

def validateCaptureGap (ix : IntakeIndexes) (captureGap : SccmClientIntakeCaptureGap) :
    Except IntakeFault IntakeIndexes := do
  require (isValidCaptureGapShape captureGap) .invalidCaptureGap
  let ix ← ix.bindArtifactId captureGap.artifactId
  let pathFingerprint := toAsciiLowercase captureGap.pathFingerprint
  let basename := sourceBasenameIdentity captureGap.basename captureGap.rotation
  let ix ← ix.bindLineage captureGap.rotationLineage basename (some pathFingerprint)
    (rotationIdentity captureGap.rotation)
  let ix ← ix.bindFingerprint pathFingerprint (some captureGap.rotationLineage) basename
  ix.bindPinned (sourceIdentity captureGap.basename captureGap.rotation)

def validateBundle {Instant : Type} (chrono : Rfc3339 Instant) (bundle : SccmClientIntakeBundle) :
    Except IntakeFault Unit := do
  require (bundle.artifacts.length + bundle.captureGaps.length ≤ maxSccmClientIntakeArtifacts)
    .artifactLimitExceeded
  let ix ← bundle.artifacts.foldlM (validateArtifact chrono) {}
  let _ ← bundle.captureGaps.foldlM validateCaptureGap ix

end Sccm
end CmTrace
