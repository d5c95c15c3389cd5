import CmTrace.Collections.Keyed
import CmTrace.Sccm.Intake

/-!
# The assessment of a bundle

Each artifact is projected on the groups of its source, or noted as unsupported.
An assessment that is read is taken apart into a bundle and assessed again, and must
come out the same.
-/

namespace CmTrace
namespace Sccm

open Std Text Collections
open Timeline (textOrder)

/-! ## Orders -/

def rotationRank : SccmRotation → Nat
  | .current       => 0
  | .loUnderscore  => 1
  | .numbered _    => 2
  | .timestamped _ => 3
  | .unknown _     => 4

def compareRotation (left right : SccmRotation) : Ordering :=
  (compare (rotationRank left) (rotationRank right)).then <|
    match left, right with
    | .numbered left, .numbered right => compare left right
    | .timestamped left, .timestamped right => textOrder left right
    | .unknown left, .unknown right =>
      textOrder (rotationIdentity (.unknown left)) (rotationIdentity (.unknown right))
    | _, _ => .eq

def compareFragments : SccmClientIntakeFragment → SccmClientIntakeFragment → Ordering :=
  compareLex (orderOn textOrder fun f => f.pathFingerprint.getD []) <|
  compareLex (orderOn textOrder fun f => f.rotationLineage.getD []) <|
  compareLex (orderOn compareRotation fun f => f.rotation) <|
  compareLex (orderOn textOrder fun f => f.basename) (orderOn textOrder fun f => f.artifactId)

def compareCaptureGaps : SccmClientIntakeCaptureGap → SccmClientIntakeCaptureGap → Ordering :=
  compareLex (orderOn textOrder fun g => g.pathFingerprint) <|
  compareLex (orderOn textOrder fun g => g.rotationLineage) <|
  compareLex (orderOn compareRotation fun g => g.rotation) <|
  compareLex (orderOn textOrder fun g => g.basename) (orderOn textOrder fun g => g.artifactId)

def compareUnsupported : SccmClientUnsupportedArtifact → SccmClientUnsupportedArtifact → Ordering :=
  compareLex (orderOn textOrder fun u => u.artifactId) (orderOn textOrder fun u => u.basename)

/-! ## Coverage -/

def coverageRank : SccmCoverageState → Nat
  | .captured     => 0
  | .absent       => 1
  | .unsupported  => 2
  | .skipped      => 3
  | .capped       => 4
  | .accessDenied => 5
  | .parseFailed  => 6

def maxByRank : List SccmCoverageState → Option SccmCoverageState
  | [] => none
  | coverage :: rest => some (rest.foldl
      (fun best next => if coverageRank best ≤ coverageRank next then next else best) coverage)

def groupCoverage (fragments : List SccmClientIntakeFragment)
    (captureGaps : List SccmClientIntakeCaptureGap) : SccmCoverageState :=
  (maxByRank (fragments.map (·.coverage) ++ captureGaps.map (·.coverage))).getD .absent

def coverageReason : SccmCoverageState → Text
  | .absent => "No artifact for this bounded client source group was supplied.".toList
  | .accessDenied => "Access was denied for this bounded client source group.".toList
  | .capped => "The bounded client source group reached its capture limit.".toList
  | .skipped => "The bounded client source group was intentionally skipped.".toList
  | .unsupported => "The supplied client source group is unsupported by this contract.".toList
  | .parseFailed =>
    "The supplied client source group could not be normalized as CCM evidence.".toList
  | .captured => []

def sourceCoverageReason (fragment : SccmClientIntakeFragment) : Option Text :=
  match fragment.coverage with
  | .absent => some ("No artifact for client source ".toList ++ fragment.basename ++
      " was supplied.".toList)
  | .accessDenied => some ("Access was denied for client source ".toList ++ fragment.basename ++ ['.'])
  | .capped => some ("Client source ".toList ++ fragment.basename ++
      " reached its capture limit.".toList)
  | .skipped => some ("Client source ".toList ++ fragment.basename ++
      " was intentionally skipped.".toList)
  | .unsupported => some ("Client source ".toList ++ fragment.basename ++
      " was declared unsupported.".toList)
  | .parseFailed => some ("Client source ".toList ++ fragment.basename ++
      " could not be normalized as CCM evidence.".toList)
  | .captured =>
    if fragment.fragmentComplete = some false then
      some ("Client source ".toList ++ fragment.basename ++
        " was captured with an incomplete logical-record boundary.".toList)
    else none

def captureGapCoverageReason (captureGap : SccmClientIntakeCaptureGap) : Except IntakeFault Text :=
  match captureGap.coverage with
  | .capped => .ok ("Client source rotation ".toList ++ captureGap.basename ++
      " was omitted because its capture limit was reached.".toList)
  | .parseFailed => .ok ("Client source rotation ".toList ++ captureGap.basename ++
      " was omitted because capture could not be completed.".toList)
  | _ => .error (.panic "capture gaps are validated as Capped or ParseFailed".toList)

/-! ## Projecting artifacts -/

/-- An artifact, projected: unsupported, or a fragment of so many groups. -/
inductive Projected where
  | unsupported (artifact : SccmClientUnsupportedArtifact)
  | recognized (fragment : SccmClientIntakeFragment) (groups : List Text)
  deriving DecidableEq, Repr

namespace Projected

def unsupported? : Projected → Option SccmClientUnsupportedArtifact
  | unsupported artifact => some artifact
  | recognized _ _ => none

def physical? : Projected → Option SccmClientIntakeFragment
  | recognized fragment _ => if isPhysicalState fragment.coverage then some fragment else none
  | unsupported _ => none

/-- The fragment, as often as its groups have one of that name. -/
def memberships (logicalArtifactId : Text) : Projected → List SccmClientIntakeFragment
  | recognized fragment groups => (groups.filter fun group => group = logicalArtifactId).map
      fun _ => fragment
  | unsupported _ => []

end Projected

section

variable {Instant : Type} (chrono : Rfc3339 Instant)

def normalizedCollectedAt : Option Text → Except IntakeFault (Option Text)
  | none => .ok none
  | some value => do
    let instant ← expect (chrono.parse value)
      "client intake validates collection timestamps before projection".toList
    .ok (some (chrono.print instant))

/-- The fragment of an artifact, given its time of collection. -/
def intakeFragment (source : SccmClientIntakeArtifact) (collectedAtUtc : Option Text) :
    SccmClientIntakeFragment where
  artifactId := source.artifact.artifactId
  basename := source.artifact.displayName
  rotation := source.artifact.rotation
  coverage := source.artifact.coverage
  pathFingerprint := source.pathFingerprint
  rotationLineage := source.rotationLineage
  relativePath := source.relativePath
  taskSequenceProvenance := source.taskSequenceProvenance
  fragmentComplete := source.fragmentComplete
  configmgrVersion := source.artifact.configmgrVersion
  collectedAtUtc := collectedAtUtc
  encoding := source.artifact.encoding
  declaredByteLength := source.declaredByteLength
  contentSha256 := source.contentSha256

def unsupportedArtifact (source : SccmClientIntakeArtifact) (collectedAtUtc : Option Text) :
    SccmClientUnsupportedArtifact where
  artifactId := source.artifact.artifactId
  basename := source.artifact.displayName
  declaredCoverage := source.artifact.coverage
  classification := .unsupported
  rotation := source.artifact.rotation
  pathFingerprint := source.pathFingerprint
  rotationLineage := source.rotationLineage
  relativePath := source.relativePath
  fragmentComplete := source.fragmentComplete
  configmgrVersion := source.artifact.configmgrVersion
  collectedAtUtc := collectedAtUtc
  encoding := source.artifact.encoding

def projectArtifact (source : SccmClientIntakeArtifact) : Except IntakeFault Projected := do
  let collectedAtUtc ← normalizedCollectedAt chrono source.artifact.collectedAtUtc
  let groups := matchingGroups source.artifact.displayName source.artifact.rotation
  if groups.isEmpty then .ok (.unsupported (unsupportedArtifact source collectedAtUtc))
  else .ok (.recognized (intakeFragment source collectedAtUtc) groups)

/-- The gaps of a group, as often as the group is one of theirs. -/
def gapMemberships (captureGaps : List SccmClientIntakeCaptureGap) (logicalArtifactId : Text) :
    List SccmClientIntakeCaptureGap :=
  captureGaps.flatMap fun captureGap =>
    ((matchingGroups captureGap.basename captureGap.rotation).filter fun group =>
      group = logicalArtifactId).map fun _ => captureGap

def sccmDiagnosticsSchemaVersion : Nat := 1

/-- A group's fragments and gaps, in order. -/
structure GroupParts where
  logicalArtifactId : Text
  fragments : List SccmClientIntakeFragment
  captureGaps : List SccmClientIntakeCaptureGap

namespace GroupParts

def coverage (parts : GroupParts) : SccmCoverageState :=
  groupCoverage parts.fragments parts.captureGaps

def group (parts : GroupParts) : SccmClientIntakeGroup :=
  ⟨parts.logicalArtifactId, parts.coverage, parts.fragments⟩

def gapOf (parts : GroupParts) (captureGap : SccmClientIntakeCaptureGap) :
    Except IntakeFault SccmClientIntakeCoverageGap := do
  let reason ← captureGapCoverageReason captureGap
  .ok ⟨parts.logicalArtifactId, some captureGap.artifactId, .client, captureGap.coverage, reason⟩

def fragmentGap? (parts : GroupParts) (fragment : SccmClientIntakeFragment) :
    Option SccmClientIntakeCoverageGap :=
  (sourceCoverageReason fragment).map fun reason =>
    ⟨parts.logicalArtifactId, some fragment.artifactId, .client, fragment.coverage, reason⟩

def coverageGaps (parts : GroupParts) : Except IntakeFault (List SccmClientIntakeCoverageGap) :=
  if parts.fragments.isEmpty && parts.captureGaps.isEmpty then
    .ok [⟨parts.logicalArtifactId, none, .client, parts.coverage, coverageReason parts.coverage⟩]
  else do
    let gaps ← parts.captureGaps.mapM parts.gapOf
    .ok (parts.fragments.filterMap parts.fragmentGap? ++ gaps)

end GroupParts

/-- What each group has of the projected artifacts and of the gaps. -/
def groupParts (projected : List Projected) (captureGaps : List SccmClientIntakeCaptureGap)
    (logicalArtifactId : Text) : GroupParts where
  logicalArtifactId := logicalArtifactId
  fragments := sortBy compareFragments (projected.flatMap (Projected.memberships logicalArtifactId))
  captureGaps := sortBy compareCaptureGaps (gapMemberships captureGaps logicalArtifactId)

def assessClientIntake (bundle : SccmClientIntakeBundle) :
    Except IntakeFault SccmClientIntakeAssessment := do
  validateBundle chrono bundle
  let projected ← bundle.artifacts.mapM (projectArtifact chrono)
  let parts := clientSourceGroups.map (groupParts projected bundle.captureGaps)
  let coverageGaps ← parts.mapM GroupParts.coverageGaps
  .ok {
    schemaVersion := sccmDiagnosticsSchemaVersion
    groups := parts.map GroupParts.group
    physicalArtifacts := sortBy compareFragments (projected.filterMap Projected.physical?)
    unsupportedArtifacts := sortBy compareUnsupported (projected.filterMap Projected.unsupported?)
    captureGaps := sortBy compareCaptureGaps bundle.captureGaps
    coverageGaps := coverageGaps.flatten }

/-! ## Assessments that are read or written -/

def fragmentAsIntakeArtifact (fragment : SccmClientIntakeFragment) : SccmClientIntakeArtifact where
  artifact :=
    { artifactId := fragment.artifactId
      displayName := fragment.basename
      originalPath := none
      host := none
      role := .client
      configmgrVersion := fragment.configmgrVersion
      collectedAtUtc := fragment.collectedAtUtc
      rotation := fragment.rotation
      coverage := fragment.coverage
      encoding := fragment.encoding }
  pathFingerprint := fragment.pathFingerprint
  rotationLineage := fragment.rotationLineage
  relativePath := fragment.relativePath
  taskSequenceProvenance := fragment.taskSequenceProvenance
  fragmentComplete := fragment.fragmentComplete
  declaredByteLength := fragment.declaredByteLength
  contentSha256 := fragment.contentSha256

def unsupportedAsIntakeArtifact (unsupported : SccmClientUnsupportedArtifact) :
    SccmClientIntakeArtifact where
  artifact :=
    { artifactId := unsupported.artifactId
      displayName := unsupported.basename
      originalPath := none
      host := none
      role := .client
      configmgrVersion := unsupported.configmgrVersion
      collectedAtUtc := unsupported.collectedAtUtc
      rotation := unsupported.rotation
      coverage := unsupported.declaredCoverage
      encoding := unsupported.encoding }
  pathFingerprint := unsupported.pathFingerprint
  rotationLineage := unsupported.rotationLineage
  relativePath := unsupported.relativePath
  taskSequenceProvenance := none
  fragmentComplete := unsupported.fragmentComplete
  declaredByteLength := none
  contentSha256 := none

/-- Why an assessment is not one that a bundle has. -/
inductive ProjectionFault where
  | error (message : Text)
  | panic (message : Text)
  deriving DecidableEq, Repr

abbrev FragmentIndex := TreeMap Text SccmClientIntakeFragment textOrder

/-- One fragment for each artifact, as long as it is the same in every group. -/
def indexNonphysical : FragmentIndex → List SccmClientIntakeFragment →
    Except ProjectionFault FragmentIndex
  | index, [] => .ok index
  | index, fragment :: rest =>
    match index[fragment.artifactId]? with
    | some existing =>
      if existing = fragment then indexNonphysical (index.insert fragment.artifactId fragment) rest
      else .error (.error
        "client intake assessment repeats one artifact ID with conflicting projections".toList)
    | none => indexNonphysical (index.insert fragment.artifactId fragment) rest

def nonphysicalFragments (assessment : SccmClientIntakeAssessment) : List SccmClientIntakeFragment :=
  (assessment.groups.flatMap (·.fragments)).filter fun fragment => !isPhysicalState fragment.coverage

def validateAssessmentProjection (assessment : SccmClientIntakeAssessment) :
    Except ProjectionFault Unit :=
  match indexNonphysical ∅ (nonphysicalFragments assessment) with
  | .error fault => .error fault
  | .ok nonphysical =>
    match assessClientIntake chrono
        { artifacts := assessment.physicalArtifacts.map fragmentAsIntakeArtifact ++
            (indexed nonphysical).map fragmentAsIntakeArtifact ++
            assessment.unsupportedArtifacts.map unsupportedAsIntakeArtifact
          captureGaps := assessment.captureGaps } with
    | .error (.error error) =>
      .error (.error ("invalid client intake assessment projection: ".toList ++ error.message))
    | .error (.panic message) => .error (.panic message)
    | .ok canonical =>
      if canonical = assessment then .ok ()
      else .error (.error
        "client intake assessment is not the canonical projection of its artifacts".toList)

end

end Sccm
end CmTrace
