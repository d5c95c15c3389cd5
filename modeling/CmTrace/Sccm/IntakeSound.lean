import CmTrace.Sccm.IntakeAccepts

/-!
# The checks of one declaration

What each stage asks of the indexes and what it enters there; put together, an artifact
or a gap goes through when it is sound and the indexes admit it.
-/

namespace CmTrace
namespace Sccm

open Text

section

variable {A B : Type}

theorem require_bind_ok_iff {condition : Bool} {error : SccmClientIntakeError}
    {x : Except IntakeFault A} {a : A} :
    (require condition error >>= fun _ => x) = .ok a ↔ condition = true ∧ x = .ok a := by
  rw [bind_ok_iff]
  constructor
  · rintro ⟨u, hu, hx⟩
    exact ⟨require_ok_iff.mp hu, hx⟩
  · rintro ⟨hc, hx⟩
    exact ⟨(), require_ok_iff.mpr hc, hx⟩

theorem ok_bind_iff {a : A} {f : A → Except IntakeFault B} {b : B} :
    ((.ok a : Except IntakeFault A) >>= f) = .ok b ↔ f a = .ok b := Iff.rfl

theorem ok_iff_eq {a b : A} : (.ok a : Except IntakeFault A) = .ok b ↔ b = a :=
  ok_inj.trans eq_comm

theorem not_contains_iff [BEq A] [LawfulBEq A] {xs : List A} {a : A} :
    (!xs.contains a) = true ↔ a ∉ xs := by
  simp

end

/-! ## Binding -/

namespace IntakeIndexes

variable {ix ix' : IntakeIndexes}

theorem bindArtifactId_ok_iff {artifactId : Text} :
    ix.bindArtifactId artifactId = .ok ix' ↔ toAsciiLowercase artifactId ∉ ix.artifactIds ∧
      ix' = { ix with artifactIds := toAsciiLowercase artifactId :: ix.artifactIds } := by
  simp only [bindArtifactId, require_bind_ok_iff, ok_iff_eq, not_contains_iff]

theorem bindLineage_ok_iff {lineage basename rotation : Text} {fingerprint : Option Text} :
    ix.bindLineage lineage basename fingerprint rotation = .ok ix' ↔
      ((∀ v, ix.rotationLineageBindings.lookup lineage = some v → v = (basename, fingerprint)) ∧
        (lineage, rotation) ∉ ix.lineageRotationIdentities) ∧
      ix' = { ix with
        rotationLineageBindings :=
          enter ix.rotationLineageBindings lineage (basename, fingerprint)
        lineageRotationIdentities := (lineage, rotation) :: ix.lineageRotationIdentities } := by
  unfold bindLineage enter
  cases ix.rotationLineageBindings.lookup lineage with
  | some binding =>
    simp only [ok_bind_iff, require_bind_ok_iff, ok_iff_eq, not_contains_iff, decide_eq_true_eq,
      Option.some.injEq, forall_eq', and_assoc]
  | none =>
    simp only [ok_bind_iff, require_bind_ok_iff, ok_iff_eq, not_contains_iff, reduceCtorEq,
      false_implies, implies_true, true_and]

theorem bindFingerprint_ok_iff {fingerprint basename : Text} {lineage : Option Text} :
    ix.bindFingerprint fingerprint lineage basename = .ok ix' ↔
      (∀ v, ix.pathFingerprintBindings.lookup fingerprint = some v →
        lineage.isSome = true ∧ v = (lineage, basename)) ∧
      ix' = { ix with
        pathFingerprintBindings :=
          enter ix.pathFingerprintBindings fingerprint (lineage, basename) } := by
  unfold bindFingerprint enter
  cases ix.pathFingerprintBindings.lookup fingerprint with
  | some binding =>
    simp only [require_bind_ok_iff, ok_iff_eq, Bool.and_eq_true, decide_eq_true_eq,
      Option.some.injEq, forall_eq']
  | none =>
    simp only [ok_iff_eq, reduceCtorEq, false_implies, implies_true, true_and]

theorem bindRelativePath_ok_iff {relativePath : Text} :
    ix.bindRelativePath relativePath = .ok ix' ↔
      toAsciiLowercase relativePath ∉ ix.relativePaths ∧
      ix' = { ix with relativePaths := toAsciiLowercase relativePath :: ix.relativePaths } := by
  simp only [bindRelativePath, require_bind_ok_iff, ok_iff_eq, not_contains_iff]

theorem bindRelocation_ok_iff {relocationKey : Text × Nat}
    {identity : Text × SccmTaskSequencePathClass} :
    ix.bindRelocation relocationKey identity = .ok ix' ↔
      (∀ w, ix.taskSequenceRelocations.lookup relocationKey = some w → w = identity) ∧
      ix' = { ix with
        taskSequenceRelocations := (relocationKey, identity) :: ix.taskSequenceRelocations } := by
  unfold bindRelocation
  cases ix.taskSequenceRelocations.lookup relocationKey with
  | some previous =>
    simp only [require_bind_ok_iff, ok_iff_eq, decide_eq_true_eq, Option.some.injEq, forall_eq']
  | none => simp only [ok_iff_eq, reduceCtorEq, false_implies, implies_true, true_and]

theorem bindPhysical_ok_iff {source : Text × Text} :
    ix.bindPhysical source = .ok ix' ↔ source ∉ ix.unpinnedMarkerIdentities ∧
      ix' = { ix with physicalSourceIdentities := source :: ix.physicalSourceIdentities } := by
  simp only [bindPhysical, require_bind_ok_iff, ok_iff_eq, not_contains_iff]

theorem bindPinned_ok_iff {source : Text × Text} :
    ix.bindPinned source = .ok ix' ↔ source ∉ ix.unpinnedMarkerIdentities ∧
      ix' = { ix with pinnedMarkerIdentities := source :: ix.pinnedMarkerIdentities } := by
  simp only [bindPinned, require_bind_ok_iff, ok_iff_eq, not_contains_iff]

theorem bindUnpinned_ok_iff {source : Text × Text} :
    ix.bindUnpinned source = .ok ix' ↔
      (source ∉ ix.physicalSourceIdentities ∧ source ∉ ix.pinnedMarkerIdentities ∧
        source ∉ ix.unpinnedMarkerIdentities) ∧
      ix' = { ix with unpinnedMarkerIdentities := source :: ix.unpinnedMarkerIdentities } := by
  simp only [bindUnpinned, require_bind_ok_iff, ok_iff_eq, not_contains_iff, Bool.and_eq_true,
    and_assoc]

end IntakeIndexes

/-! ## Sound artifacts -/

/-- The checks of an artifact alone that come before those of its provenance. -/
structure EarlyChecks {Instant : Type} (chrono : Rfc3339 Instant) (a : SccmClientIntakeArtifact) :
    Prop where
  role : a.artifact.role = .client
  artifactId : isSafeArtifactId a.artifact.artifactId = true
  rotation : a.artifact.rotation.serializes = true ∧ isSafeUnknownRotation a.artifact.rotation = true
  basename : isSafeBasename a.artifact.displayName a.artifact.rotation = true
  collectedAtUtc : a.artifact.collectedAtUtc.all (isSafeCollectedAt chrono) = true
  configmgrVersion : a.artifact.configmgrVersion.all isSafeConfigmgrVersion = true
  encoding : a.artifact.encoding.all isSupportedEncoding = true
  rotationLineage : a.rotationLineage.all isSafeRotationLineage = true
  pathFingerprint : a.pathFingerprint.all isSafePathIdentity = true
  relativePath : a.relativePath.all (fun relativePath =>
    isSafeRelativePath relativePath a.artifact.displayName a.artifact.rotation) = true

/-- The provenance of a task sequence is asked for where its bytes are. -/
def expectsProvenance (a : SccmClientIntakeArtifact) : Bool :=
  isTaskSequence a && isPhysicalState a.artifact.coverage

/-- The provenance that an artifact has is sound, and others have none. -/
def SoundProvenance (a : SccmClientIntakeArtifact) : Prop :=
  if expectsProvenance a then
    ∃ provenance, a.taskSequenceProvenance = some provenance ∧
      isValidTaskSequenceProvenance provenance a.relativePath = true
  else a.taskSequenceProvenance = none

/-- What an artifact says of its bytes is sound. -/
structure SoundBytes (a : SccmClientIntakeArtifact) (fragmentComplete : Bool) : Prop where
  content : isValidContentBinding a fragmentComplete = true
  complete : fragmentComplete = true →
    isPhysicalState a.artifact.coverage = true ∧ a.artifact.coverage ≠ .capped
  physical : isPhysicalState a.artifact.coverage = true →
    a.pathFingerprint.isSome = true ∧ a.relativePath.isSome = true
  marker : isPhysicalState a.artifact.coverage = false → a.relativePath = none

/-- The checks of an artifact alone from those of its provenance on. -/
structure LateChecks (a : SccmClientIntakeArtifact) : Prop where
  provenance : SoundProvenance a
  bytes : ∃ fragmentComplete, a.fragmentComplete = some fragmentComplete ∧
    SoundBytes a fragmentComplete

/-- An artifact that is sound by itself. -/
structure Sound {Instant : Type} (chrono : Rfc3339 Instant) (a : SccmClientIntakeArtifact) :
    Prop where
  early : EarlyChecks chrono a
  late : LateChecks a

/-! ## Stages -/

theorem checkFields_ok_iff {Instant : Type} {chrono : Rfc3339 Instant}
    {a : SccmClientIntakeArtifact} {u : Unit} :
    checkFields chrono a = .ok u ↔ a.artifact.role = .client ∧
      isSafeArtifactId a.artifact.artifactId = true ∧
      (a.artifact.rotation.serializes = true ∧
        isSafeUnknownRotation a.artifact.rotation = true) ∧
      isSafeBasename a.artifact.displayName a.artifact.rotation = true ∧
      a.artifact.collectedAtUtc.all (isSafeCollectedAt chrono) = true ∧
      a.artifact.configmgrVersion.all isSafeConfigmgrVersion = true ∧
      a.artifact.encoding.all isSupportedEncoding = true := by
  simp only [checkFields, require_bind_ok_iff, require_ok_iff, decide_eq_true_eq,
    Bool.and_eq_true]

/-- What the checks before those of the provenance enter. -/
def IntakeIndexes.recordEarly (ix : IntakeIndexes) (d : Declared) : IntakeIndexes :=
  { ix with
    artifactIds := (ix.record d).artifactIds
    pathFingerprintBindings := (ix.record d).pathFingerprintBindings
    rotationLineageBindings := (ix.record d).rotationLineageBindings
    lineageRotationIdentities := (ix.record d).lineageRotationIdentities
    relativePaths := (ix.record d).relativePaths }

theorem bindPlace_ok_iff {ix ix' : IntakeIndexes} {a : SccmClientIntakeArtifact} :
    bindPlace ix a = .ok ix' ↔
      (a.rotationLineage.all isSafeRotationLineage = true ∧
        a.pathFingerprint.all isSafePathIdentity = true) ∧
      ((∀ l, a.rotationLineage = some l →
        (∀ v, ix.rotationLineageBindings.lookup l = some v →
          v = ((Declared.ofArtifact a).basename, (Declared.ofArtifact a).fingerprint)) ∧
          (l, (Declared.ofArtifact a).rotation) ∉ ix.lineageRotationIdentities) ∧
        (∀ f, (Declared.ofArtifact a).fingerprint = some f →
          ∀ v, ix.pathFingerprintBindings.lookup f = some v →
          a.rotationLineage.isSome = true ∧ v = (a.rotationLineage,
            (Declared.ofArtifact a).basename))) ∧
      ix' = { ix with
        pathFingerprintBindings := (ix.record (Declared.ofArtifact a)).pathFingerprintBindings
        rotationLineageBindings := (ix.record (Declared.ofArtifact a)).rotationLineageBindings
        lineageRotationIdentities :=
          (ix.record (Declared.ofArtifact a)).lineageRotationIdentities } := by
  unfold bindPlace
  simp only [require_bind_ok_iff]
  cases hl : a.rotationLineage with
  | none =>
    cases hf : a.pathFingerprint with
    | none =>
      simp [IntakeIndexes.record, Declared.ofArtifact, hl, hf, ok_bind_iff,
        eq_comm (a := ix')]
    | some fingerprint =>
      simp [IntakeIndexes.record, Declared.ofArtifact, hl, hf, ok_bind_iff,
        IntakeIndexes.bindFingerprint_ok_iff]
  | some lineage =>
    cases hf : a.pathFingerprint with
    | none =>
      simp [IntakeIndexes.record, Declared.ofArtifact, hl, hf, bind_ok_iff,
        IntakeIndexes.bindLineage_ok_iff, and_assoc, eq_comm (a := ix')]
    | some fingerprint =>
      simp [IntakeIndexes.record, Declared.ofArtifact, hl, hf, bind_ok_iff,
        IntakeIndexes.bindLineage_ok_iff, IntakeIndexes.bindFingerprint_ok_iff, and_assoc]

theorem bindPath_ok_iff {ix ix' : IntakeIndexes} {a : SccmClientIntakeArtifact} :
    bindPath ix a = .ok ix' ↔
      a.relativePath.all (fun relativePath =>
        isSafeRelativePath relativePath a.artifact.displayName a.artifact.rotation) = true ∧
      (∀ p, (Declared.ofArtifact a).relativePath = some p → p ∉ ix.relativePaths) ∧
      ix' = { ix with relativePaths := (ix.record (Declared.ofArtifact a)).relativePaths } := by
  unfold bindPath
  cases hp : a.relativePath with
  | none => simp [IntakeIndexes.record, Declared.ofArtifact, hp, eq_comm (a := ix')]
  | some relativePath =>
    simp [IntakeIndexes.record, Declared.ofArtifact, hp, require_bind_ok_iff,
      IntakeIndexes.bindRelativePath_ok_iff]

def bindEarly {Instant : Type} (chrono : Rfc3339 Instant) (ix : IntakeIndexes)
    (source : SccmClientIntakeArtifact) : Except IntakeFault IntakeIndexes := do
  checkFields chrono source
  let ix ← ix.bindArtifactId source.artifact.artifactId
  let ix ← bindPlace ix source
  bindPath ix source

/-- The checks from those of the provenance on. -/
def bindLate (ix : IntakeIndexes) (source : SccmClientIntakeArtifact) :
    Except IntakeFault IntakeIndexes := do
  let ix ← bindTaskSequence ix source
  let fragmentComplete ← orError source.fragmentComplete .missingFragmentCompleteness
  require (isValidContentBinding source fragmentComplete) .invalidContentBinding
  bindSource ix source fragmentComplete

theorem validateArtifact_eq {Instant : Type} (chrono : Rfc3339 Instant) (ix : IntakeIndexes)
    (a : SccmClientIntakeArtifact) :
    validateArtifact chrono ix a = bindEarly chrono ix a >>= fun ix => bindLate ix a := by
  simp only [validateArtifact, bindEarly, bindLate, bind_assoc]

theorem bindEarly_ok_iff {Instant : Type} {chrono : Rfc3339 Instant} {ix ix' : IntakeIndexes}
    {a : SccmClientIntakeArtifact} :
    bindEarly chrono ix a = .ok ix' ↔ EarlyChecks chrono a ∧
      ix.AdmitsEarly (Declared.ofArtifact a) ∧ ix' = ix.recordEarly (Declared.ofArtifact a) := by
  unfold bindEarly
  simp only [bind_ok_iff, checkFields_ok_iff, IntakeIndexes.bindArtifactId_ok_iff,
    bindPlace_ok_iff, bindPath_ok_iff]
  constructor
  · rintro ⟨-, ⟨hrole, hid, hrotation, hbasename, hcollected, hversion, hencoding⟩,
      ix₁, ⟨hnew, rfl⟩, ix₂, ⟨⟨hsafeLineage, hsafePath⟩, ⟨hlineage, hfingerprint⟩, rfl⟩,
      hsafeRelative, hrelative, rfl⟩
    exact ⟨⟨hrole, hid, hrotation, hbasename, hcollected, hversion, hencoding, hsafeLineage,
      hsafePath, hsafeRelative⟩, ⟨hnew, hlineage, hfingerprint, hrelative⟩, rfl⟩
  · rintro ⟨hearly, hadmits, rfl⟩
    exact ⟨(), ⟨hearly.role, hearly.artifactId, hearly.rotation, hearly.basename,
      hearly.collectedAtUtc, hearly.configmgrVersion, hearly.encoding⟩,
      _, ⟨hadmits.artifactId, rfl⟩,
      _, ⟨⟨hearly.rotationLineage, hearly.pathFingerprint⟩,
        ⟨hadmits.lineage, hadmits.fingerprint⟩, rfl⟩,
      hearly.relativePath, hadmits.relativePath, rfl⟩

theorem relocation_ofArtifact (a : SccmClientIntakeArtifact) :
    (Declared.ofArtifact a).relocation =
      if expectsProvenance a then
        match a.taskSequenceProvenance, a.pathFingerprint with
        | some provenance, some fingerprint =>
          some ((provenance.relocationLineage, provenance.relocationOrdinal),
            toAsciiLowercase fingerprint, provenance.pathClass)
        | _, _ => none
      else none := rfl

theorem bindTaskSequence_ok_iff {ix ix' : IntakeIndexes} {a : SccmClientIntakeArtifact} :
    bindTaskSequence ix a = .ok ix' ↔
      SoundProvenance a ∧ (expectsProvenance a = true → a.pathFingerprint.isSome = true) ∧
      (∀ k v, (Declared.ofArtifact a).relocation = some (k, v) →
        ∀ w, ix.taskSequenceRelocations.lookup k = some w → w = v) ∧
      ix' = { ix with
        taskSequenceRelocations :=
          (ix.record (Declared.ofArtifact a)).taskSequenceRelocations } := by
  have hbind : bindTaskSequence ix a = if expectsProvenance a then _ else _ := rfl
  rw [hbind, IntakeIndexes.record, relocation_ofArtifact, SoundProvenance]
  cases expectsProvenance a with
  | false => simp [require_bind_ok_iff, eq_comm (a := ix')]
  | true =>
    cases hprovenance : a.taskSequenceProvenance with
    | none => simp [bind_ok_iff, orError_ok_iff]
    | some provenance =>
      cases hfingerprint : a.pathFingerprint with
      | none => simp [bind_ok_iff, orError_ok_iff, expect_ok_iff]
      | some fingerprint =>
        simp [bind_ok_iff, orError_ok_iff, require_ok_iff, expect_ok_iff,
          IntakeIndexes.bindRelocation_ok_iff]

def IntakeIndexes.recordSource (ix : IntakeIndexes) (d : Declared) : IntakeIndexes :=
  { ix with
    physicalSourceIdentities := (ix.record d).physicalSourceIdentities
    pinnedMarkerIdentities := (ix.record d).pinnedMarkerIdentities
    unpinnedMarkerIdentities := (ix.record d).unpinnedMarkerIdentities }

theorem shape_ofArtifact (a : SccmClientIntakeArtifact) :
    (Declared.ofArtifact a).shape =
      if isPhysicalState a.artifact.coverage then .physical
      else if a.pathFingerprint.isSome then .pinned else .unpinned := rfl

theorem bindSource_ok_iff {ix ix' : IntakeIndexes} {a : SccmClientIntakeArtifact}
    {fragmentComplete : Bool} :
    bindSource ix a fragmentComplete = .ok ix' ↔
      ((fragmentComplete = true →
          isPhysicalState a.artifact.coverage = true ∧ a.artifact.coverage ≠ .capped) ∧
        (isPhysicalState a.artifact.coverage = true →
          a.pathFingerprint.isSome = true ∧ a.relativePath.isSome = true) ∧
        (isPhysicalState a.artifact.coverage = false → a.relativePath = none)) ∧
      ((Declared.ofArtifact a).source ∉ ix.unpinnedMarkerIdentities ∧
        ((Declared.ofArtifact a).shape = .unpinned →
          (Declared.ofArtifact a).source ∉ ix.physicalSourceIdentities ∧
            (Declared.ofArtifact a).source ∉ ix.pinnedMarkerIdentities)) ∧
      ix' = ix.recordSource (Declared.ofArtifact a) := by
  simp only [IntakeIndexes.recordSource, IntakeIndexes.record, shape_ofArtifact, bindSource]
  cases hphysical : isPhysicalState a.artifact.coverage with
  | true =>
    cases hfingerprint : a.pathFingerprint with
    | none => simp [bind_ok_iff, require_ok_iff, orError_ok_iff]
    | some fingerprint =>
      cases hrelative : a.relativePath with
      | none => simp [bind_ok_iff, require_ok_iff, orError_ok_iff]
      | some relativePath =>
        cases fragmentComplete <;>
          simp [bind_ok_iff, require_ok_iff, orError_ok_iff,
            IntakeIndexes.bindPhysical_ok_iff, Declared.ofArtifact]
  | false =>
    cases hfingerprint : a.pathFingerprint with
    | none =>
      cases fragmentComplete <;>
        simp [require_bind_ok_iff, IntakeIndexes.bindUnpinned_ok_iff, Declared.ofArtifact]
      tauto
    | some fingerprint =>
      cases fragmentComplete <;>
        simp [require_bind_ok_iff, IntakeIndexes.bindPinned_ok_iff, Declared.ofArtifact]

/-- What the checks from those of the provenance on enter. -/
def IntakeIndexes.recordLate (ix : IntakeIndexes) (d : Declared) : IntakeIndexes :=
  { ix.recordSource d with taskSequenceRelocations := (ix.record d).taskSequenceRelocations }

theorem bindLate_ok_iff {ix ix' : IntakeIndexes} {a : SccmClientIntakeArtifact} :
    bindLate ix a = .ok ix' ↔ LateChecks a ∧ ix.AdmitsLate (Declared.ofArtifact a) ∧
      ix' = ix.recordLate (Declared.ofArtifact a) := by
  unfold bindLate
  simp only [bind_ok_iff, require_ok_iff, orError_ok_iff, bindTaskSequence_ok_iff,
    bindSource_ok_iff]
  constructor
  · rintro ⟨ix₁, ⟨hprovenance, -, hrelocation, rfl⟩, fragmentComplete, hcomplete, -, hcontent,
      ⟨hphysical, hplace, hmarker⟩, ⟨hnotUnpinned, hunpinned⟩, rfl⟩
    exact ⟨⟨hprovenance, fragmentComplete, hcomplete, hcontent, hphysical, hplace, hmarker⟩,
      ⟨hrelocation, hnotUnpinned, hunpinned⟩, rfl⟩
  · rintro ⟨⟨hprovenance, fragmentComplete, hcomplete, hbytes⟩, hadmits, rfl⟩
    -- the place of the bytes is asked for last, and the provenance relies on it before
    have hexpects : expectsProvenance a = true → a.pathFingerprint.isSome = true := fun h =>
      (hbytes.physical (Bool.and_eq_true_iff.mp h).2).1
    exact ⟨_, ⟨hprovenance, hexpects, hadmits.relocation, rfl⟩, fragmentComplete, hcomplete,
      (), hbytes.content, ⟨hbytes.complete, hbytes.physical, hbytes.marker⟩,
      ⟨hadmits.notUnpinned, hadmits.unpinned⟩, rfl⟩

theorem validateArtifact_ok_iff {Instant : Type} {chrono : Rfc3339 Instant}
    {ix ix' : IntakeIndexes} {a : SccmClientIntakeArtifact} :
    validateArtifact chrono ix a = .ok ix' ↔ Sound chrono a ∧
      ix.Admits (Declared.ofArtifact a) ∧ ix' = ix.record (Declared.ofArtifact a) := by
  rw [validateArtifact_eq, bind_ok_iff]
  simp only [bindEarly_ok_iff, bindLate_ok_iff]
  constructor
  · rintro ⟨ix₁, ⟨hearly, hadmitsEarly, rfl⟩, hlate, hadmitsLate, rfl⟩
    exact ⟨⟨hearly, hlate⟩, ⟨hadmitsEarly,
      ⟨hadmitsLate.relocation, hadmitsLate.notUnpinned, hadmitsLate.unpinned⟩⟩, rfl⟩
  · rintro ⟨hsound, hadmits, rfl⟩
    exact ⟨_, ⟨hsound.early, hadmits.toAdmitsEarly, rfl⟩, hsound.late,
      ⟨hadmits.relocation, hadmits.notUnpinned, hadmits.unpinned⟩, rfl⟩

theorem validateCaptureGap_ok_iff {ix ix' : IntakeIndexes} {g : SccmClientIntakeCaptureGap} :
    validateCaptureGap ix g = .ok ix' ↔ isValidCaptureGapShape g = true ∧
      ix.Admits (Declared.ofCaptureGap g) ∧ ix' = ix.record (Declared.ofCaptureGap g) := by
  unfold validateCaptureGap
  simp only [bind_ok_iff, require_ok_iff, IntakeIndexes.bindArtifactId_ok_iff,
    IntakeIndexes.bindLineage_ok_iff, IntakeIndexes.bindFingerprint_ok_iff,
    IntakeIndexes.bindPinned_ok_iff]
  constructor
  · rintro ⟨-, hshape, ix₁, ⟨hnew, rfl⟩, ix₂, ⟨hlineage, rfl⟩, ix₃, ⟨hfingerprint, rfl⟩,
      hnotUnpinned, rfl⟩
    refine ⟨hshape, ⟨⟨hnew, ?_, ?_, ?_⟩, ⟨?_, hnotUnpinned, ?_⟩⟩, rfl⟩
    · rintro _ ⟨⟩
      exact hlineage
    · rintro _ ⟨⟩
      exact hfingerprint
    · rintro p ⟨⟩
    · rintro k v ⟨⟩
    · rintro ⟨⟩
  · rintro ⟨hshape, hadmits, rfl⟩
    exact ⟨(), hshape, _, ⟨hadmits.artifactId, rfl⟩, _, ⟨hadmits.lineage _ rfl, rfl⟩,
      _, ⟨hadmits.fingerprint _ rfl, rfl⟩, hadmits.notUnpinned, rfl⟩

end Sccm
end CmTrace
