import CmTrace.Sccm.IntakeProjection

/-!
# Where taking in a bundle panics

One of the checks relies on a later one: the provenance of a task sequence is bound to
its place before the place is asked for.  The others rely on earlier ones.
-/

namespace CmTrace
namespace Sccm

open Std Text Collections

/-! ## Panics -/

def Panics {A : Type} (x : Except IntakeFault A) : Prop :=
  ∃ message, x = .error (.panic message)

section

variable {A B : Type}

theorem not_panics_ok (a : A) : ¬ Panics (.ok a : Except IntakeFault A) := by
  rintro ⟨message, h⟩
  cases h

theorem panics_bind_iff {x : Except IntakeFault A} {f : A → Except IntakeFault B} :
    Panics (x >>= f) ↔ Panics x ∨ ∃ a, x = .ok a ∧ Panics (f a) := by
  cases x with
  | error fault =>
    constructor
    · rintro ⟨message, h⟩
      cases h
      exact .inl ⟨message, rfl⟩
    · rintro (⟨message, h⟩ | ⟨a, h, -⟩)
      · cases h
        exact ⟨message, rfl⟩
      · cases h
  | ok a =>
    constructor
    · intro h
      exact .inr ⟨a, rfl, h⟩
    · rintro (h | ⟨b, hb, h⟩)
      · exact absurd h (not_panics_ok a)
      · cases hb
        exact h

theorem not_panics_bind {x : Except IntakeFault A} {f : A → Except IntakeFault B}
    (hx : ¬ Panics x) (hf : ∀ a, x = .ok a → ¬ Panics (f a)) : ¬ Panics (x >>= f) := by
  rw [panics_bind_iff]
  rintro (h | ⟨a, ha, h⟩)
  · exact hx h
  · exact hf a ha h

theorem not_panics_require (condition : Bool) (error : SccmClientIntakeError) :
    ¬ Panics (require condition error) := by
  rintro ⟨message, h⟩
  cases condition <;> cases h

theorem not_panics_orError (value : Option A) (error : SccmClientIntakeError) :
    ¬ Panics (orError value error) := by
  rintro ⟨message, h⟩
  cases value <;> cases h

theorem panics_expect_iff {value : Option A} {message : Text} :
    Panics (expect value message) ↔ value = none := by
  cases value with
  | none => exact ⟨fun _ => rfl, fun _ => ⟨message, rfl⟩⟩
  | some a => exact ⟨fun h => absurd h (not_panics_ok a), fun h => by cases h⟩

theorem not_panics_require_bind {condition : Bool} {error : SccmClientIntakeError}
    {x : Except IntakeFault A} (hx : ¬ Panics x) :
    ¬ Panics (require condition error >>= fun _ => x) :=
  not_panics_bind (not_panics_require condition error) fun _ _ => hx

theorem panics_foldlM_iff {S X : Type} {step : S → X → Except IntakeFault S} (xs : List X) (s : S) :
    Panics (xs.foldlM step s) ↔ ∃ before x after s', xs = before ++ x :: after ∧
      before.foldlM step s = .ok s' ∧ Panics (step s' x) := by
  induction xs generalizing s with
  | nil =>
    constructor
    · intro h
      exact absurd h (not_panics_ok s)
    · rintro ⟨before, x, after, s', heq, -⟩
      cases before <;> cases heq
  | cons y ys ih =>
    rw [List.foldlM_cons, panics_bind_iff]
    constructor
    · rintro (h | ⟨s₁, hy, h⟩)
      · exact ⟨[], y, ys, s, rfl, rfl, h⟩
      · obtain ⟨before, x, after, s', rfl, hbefore, hx⟩ := (ih s₁).mp h
        refine ⟨y :: before, x, after, s', rfl, ?_, hx⟩
        rw [List.foldlM_cons]
        exact bind_ok_iff.mpr ⟨s₁, hy, hbefore⟩
    · rintro ⟨before, x, after, s', heq, hbefore, hx⟩
      cases before with
      | nil =>
        obtain ⟨rfl, rfl⟩ := List.cons.inj heq
        exact .inl (ok_inj.mp hbefore ▸ hx)
      | cons z before =>
        obtain ⟨rfl, rfl⟩ := List.cons.inj heq
        obtain ⟨s₁, hz, hbefore⟩ := bind_ok_iff.mp (List.foldlM_cons.symm.trans hbefore)
        exact .inr ⟨s₁, hz, (ih s₁).mpr ⟨before, x, after, s', rfl, hbefore, hx⟩⟩

end

/-! ## One artifact -/

namespace IntakeIndexes

variable (ix : IntakeIndexes)

theorem not_panics_bindArtifactId (artifactId : Text) : ¬ Panics (ix.bindArtifactId artifactId) :=
  not_panics_require_bind (not_panics_ok _)

theorem not_panics_bindLineage (lineage basename rotation : Text) (fingerprint : Option Text) :
    ¬ Panics (ix.bindLineage lineage basename fingerprint rotation) := by
  unfold bindLineage
  cases ix.rotationLineageBindings.lookup lineage with
  | some binding =>
    refine not_panics_require_bind ?_
    exact not_panics_require_bind (not_panics_ok _)
  | none => exact not_panics_require_bind (not_panics_ok _)

theorem not_panics_bindFingerprint (fingerprint basename : Text) (lineage : Option Text) :
    ¬ Panics (ix.bindFingerprint fingerprint lineage basename) := by
  unfold bindFingerprint
  cases ix.pathFingerprintBindings.lookup fingerprint with
  | some binding => exact not_panics_require_bind (not_panics_ok _)
  | none => exact not_panics_ok _

theorem not_panics_bindRelativePath (relativePath : Text) :
    ¬ Panics (ix.bindRelativePath relativePath) :=
  not_panics_require_bind (not_panics_ok _)

theorem not_panics_bindRelocation (relocationKey : Text × Nat)
    (identity : Text × SccmTaskSequencePathClass) :
    ¬ Panics (ix.bindRelocation relocationKey identity) := by
  unfold bindRelocation
  cases ix.taskSequenceRelocations.lookup relocationKey with
  | some previous => exact not_panics_require_bind (not_panics_ok _)
  | none => exact not_panics_ok _

theorem not_panics_bindPhysical (source : Text × Text) : ¬ Panics (ix.bindPhysical source) :=
  not_panics_require_bind (not_panics_ok _)

theorem not_panics_bindPinned (source : Text × Text) : ¬ Panics (ix.bindPinned source) :=
  not_panics_require_bind (not_panics_ok _)

theorem not_panics_bindUnpinned (source : Text × Text) : ¬ Panics (ix.bindUnpinned source) :=
  not_panics_require_bind (not_panics_require_bind (not_panics_ok _))

end IntakeIndexes

section

variable {Instant : Type} {chrono : Rfc3339 Instant}

theorem not_panics_bindEarly (ix : IntakeIndexes) (a : SccmClientIntakeArtifact) :
    ¬ Panics (bindEarly chrono ix a) := by
  have hfields : ¬ Panics (checkFields chrono a) := by
    unfold checkFields
    iterate 6 refine not_panics_require_bind ?_
    exact not_panics_require _ _
  have hplace : ∀ ix, ¬ Panics (bindPlace ix a) := by
    intro ix
    unfold bindPlace
    refine not_panics_require_bind (not_panics_require_bind ?_)
    cases a.rotationLineage with
    | some lineage =>
      refine not_panics_bind (ix.not_panics_bindLineage _ _ _ _) fun ix' _ => ?_
      cases a.pathFingerprint with
      | some fingerprint => exact ix'.not_panics_bindFingerprint _ _ _
      | none => exact not_panics_ok _
    | none =>
      cases a.pathFingerprint with
      | some fingerprint => exact ix.not_panics_bindFingerprint _ _ _
      | none => exact not_panics_ok _
  have hpath : ∀ ix, ¬ Panics (bindPath ix a) := by
    intro ix
    unfold bindPath
    cases a.relativePath with
    | some relativePath => exact not_panics_require_bind (ix.not_panics_bindRelativePath _)
    | none => exact not_panics_ok _
  exact not_panics_bind hfields fun _ _ => not_panics_bind (ix.not_panics_bindArtifactId _)
    fun ix₁ _ => not_panics_bind (hplace ix₁) fun ix₂ _ => hpath ix₂

theorem not_panics_bindSource (ix : IntakeIndexes) (a : SccmClientIntakeArtifact)
    (fragmentComplete : Bool) : ¬ Panics (bindSource ix a fragmentComplete) := by
  unfold bindSource
  cases isPhysicalState a.artifact.coverage with
  | true =>
    refine not_panics_require_bind (not_panics_bind (not_panics_orError _ _) fun _ _ => ?_)
    exact not_panics_bind (not_panics_orError _ _) fun _ _ => ix.not_panics_bindPhysical _
  | false =>
    refine not_panics_require_bind (not_panics_require_bind ?_)
    cases a.pathFingerprint with
    | some fingerprint => exact ix.not_panics_bindPinned _
    | none => exact ix.not_panics_bindUnpinned _

/-- A task sequence with bytes and a sound provenance, but no place. -/
structure Unplaced (a : SccmClientIntakeArtifact) : Prop where
  expects : expectsProvenance a = true
  provenance : SoundProvenance a
  pathFingerprint : a.pathFingerprint = none

theorem panics_bindTaskSequence_iff {ix : IntakeIndexes} {a : SccmClientIntakeArtifact} :
    Panics (bindTaskSequence ix a) ↔ Unplaced a := by
  have hbind : bindTaskSequence ix a = if expectsProvenance a then _ else _ := rfl
  rw [hbind]
  constructor
  · intro h
    cases hexpects : expectsProvenance a with
    | false =>
      rw [if_neg (by rw [hexpects]; exact Bool.false_ne_true)] at h
      exact absurd h (not_panics_require_bind (not_panics_ok _))
    | true =>
      rw [if_pos hexpects] at h
      rcases panics_bind_iff.mp h with h | ⟨provenance, hprovenance, h⟩
      · exact absurd h (not_panics_orError _ _)
      rcases panics_bind_iff.mp h with h | ⟨_, hvalid, h⟩
      · exact absurd h (not_panics_require _ _)
      have hsound : SoundProvenance a := by
        rw [SoundProvenance, if_pos hexpects]
        exact ⟨provenance, orError_ok_iff.mp hprovenance, require_ok_iff.mp hvalid⟩
      rcases panics_bind_iff.mp h with h | ⟨_, -, h⟩
      · exact ⟨hexpects, hsound, panics_expect_iff.mp h⟩
      · exact absurd h (ix.not_panics_bindRelocation _ _)
  · rintro ⟨hexpects, hsound, hnone⟩
    rw [SoundProvenance, if_pos hexpects] at hsound
    obtain ⟨provenance, hprovenance, hvalid⟩ := hsound
    rw [if_pos hexpects]
    refine panics_bind_iff.mpr (.inr ⟨provenance, orError_ok_iff.mpr hprovenance, ?_⟩)
    refine panics_bind_iff.mpr (.inr ⟨(), require_ok_iff.mpr hvalid, ?_⟩)
    exact panics_bind_iff.mpr (.inl (panics_expect_iff.mpr hnone))

theorem panics_validateArtifact_iff {ix : IntakeIndexes} {a : SccmClientIntakeArtifact} :
    Panics (validateArtifact chrono ix a) ↔ EarlyChecks chrono a ∧
      ix.AdmitsEarly (Declared.ofArtifact a) ∧ Unplaced a := by
  have hlate : ∀ ix, Panics (bindLate ix a) ↔ Unplaced a := by
    intro ix
    rw [bindLate, panics_bind_iff, panics_bindTaskSequence_iff]
    refine or_iff_left ?_
    rintro ⟨ix', -, h⟩
    exact not_panics_bind (not_panics_orError _ _)
      (fun _ _ => not_panics_require_bind (not_panics_bindSource _ _ _)) h
  rw [validateArtifact_eq, panics_bind_iff, or_iff_right (not_panics_bindEarly ix a)]
  simp only [hlate, bindEarly_ok_iff]
  constructor
  · rintro ⟨_, ⟨hearly, hadmits, -⟩, hunplaced⟩
    exact ⟨hearly, hadmits, hunplaced⟩
  · rintro ⟨hearly, hadmits, hunplaced⟩
    exact ⟨_, ⟨hearly, hadmits, rfl⟩, hunplaced⟩

/-! ## One gap -/

theorem not_panics_validateCaptureGap (ix : IntakeIndexes) (g : SccmClientIntakeCaptureGap) :
    ¬ Panics (validateCaptureGap ix g) :=
  not_panics_require_bind <| not_panics_bind (ix.not_panics_bindArtifactId _) fun ix₁ _ =>
    not_panics_bind (ix₁.not_panics_bindLineage _ _ _ _) fun ix₂ _ =>
      not_panics_bind (ix₂.not_panics_bindFingerprint _ _ _) fun ix₃ _ =>
        ix₃.not_panics_bindPinned _

/-! ## Bundles -/

/-- A bundle with a task sequence that is not placed, and all before it accepted. -/
structure Unguarded {Instant : Type} (chrono : Rfc3339 Instant) (bundle : SccmClientIntakeBundle) :
    Prop where
  count : bundle.artifacts.length + bundle.captureGaps.length ≤ maxSccmClientIntakeArtifacts
  reached : ∃ before source after, bundle.artifacts = before ++ source :: after ∧
    (∀ a ∈ before, Sound chrono a) ∧ (before.map Declared.ofArtifact).Pairwise Compatible ∧
    EarlyChecks chrono source ∧
    (∀ a ∈ before, CompatibleEarly (Declared.ofArtifact a) (Declared.ofArtifact source)) ∧
    Unplaced source

theorem panics_validateBundle_iff {bundle : SccmClientIntakeBundle} :
    Panics (validateBundle chrono bundle) ↔ Unguarded chrono bundle := by
  have hgaps : ∀ ix, ¬ Panics (bundle.captureGaps.foldlM validateCaptureGap ix) := by
    intro ix h
    obtain ⟨-, g, -, ix', -, -, h⟩ := (panics_foldlM_iff _ _).mp h
    exact not_panics_validateCaptureGap ix' g h
  constructor
  · intro h
    rcases panics_bind_iff.mp h with h | ⟨_, hcount, h⟩
    · exact absurd h (not_panics_require _ _)
    rcases panics_bind_iff.mp h with h | ⟨ix, -, h⟩
    · obtain ⟨before, source, after, ix, heq, hbefore, h⟩ := (panics_foldlM_iff _ _).mp h
      obtain ⟨hearly, hadmits, hunplaced⟩ := panics_validateArtifact_iff.mp h
      obtain ⟨hsound, hpairwise, -⟩ := foldlM_validateArtifact_ok_iff.mp hbefore
      have hcompatible := (IntakeIndexes.admitsEarly_iff (indexOf_artifacts hbefore) _).mp hadmits
      refine ⟨of_decide_eq_true (require_ok_iff.mp hcount), before, source, after, heq, hsound,
        hpairwise, hearly, fun a ha => ?_, hunplaced⟩
      exact hcompatible _ (List.mem_reverse.mpr (List.mem_map_of_mem ha))
    · exact absurd h (not_panics_bind (hgaps ix) fun _ _ => not_panics_ok _)
  · rintro ⟨hcount, before, source, after, heq, hsound, hpairwise, hearly, hcompatible,
      hunplaced⟩
    have hbefore := foldlM_validateArtifact_ok_iff.mpr ⟨hsound, hpairwise, rfl⟩
    refine panics_bind_iff.mpr (.inr ⟨(), require_ok_iff.mpr (decide_eq_true hcount), ?_⟩)
    refine panics_bind_iff.mpr (.inl ((panics_foldlM_iff _ _).mpr
      ⟨before, source, after, _, heq, hbefore, ?_⟩))
    refine panics_validateArtifact_iff.mpr ⟨hearly, ?_, hunplaced⟩
    refine (IntakeIndexes.admitsEarly_iff (indexOf_artifacts hbefore) _).mpr fun d hd => ?_
    obtain ⟨a, ha, rfl⟩ := List.mem_map.mp (List.mem_reverse.mp hd)
    exact hcompatible a ha

theorem panics_assessClientIntake_iff {bundle : SccmClientIntakeBundle} :
    Panics (assessClientIntake chrono bundle) ↔ Unguarded chrono bundle := by
  rw [← panics_validateBundle_iff]
  constructor
  · intro h
    by_contra hvalid
    cases hvalidate : validateBundle chrono bundle with
    | ok u =>
      -- what an accepted bundle is projected on is checked already
      rw [(validateBundle_ok_iff.mp hvalidate).assess_eq] at h
      exact not_panics_ok _ h
    | error fault =>
      rw [assessClientIntake, panics_bind_iff] at h
      rcases h with h | ⟨u, hu, -⟩
      · exact hvalid h
      · rw [hvalidate] at hu
        cases hu
  · intro h
    exact panics_bind_iff.mpr (.inl h)

/-- The bundle that an assessment is taken apart into. -/
def assessedBundle (assessment : SccmClientIntakeAssessment) (nonphysical : FragmentIndex) :
    SccmClientIntakeBundle where
  artifacts := assessment.physicalArtifacts.map fragmentAsIntakeArtifact ++
    (indexed nonphysical).map fragmentAsIntakeArtifact ++
    assessment.unsupportedArtifacts.map unsupportedAsIntakeArtifact
  captureGaps := assessment.captureGaps

theorem validateAssessmentProjection_panics_iff {assessment : SccmClientIntakeAssessment} :
    (∃ message, validateAssessmentProjection chrono assessment = .error (.panic message)) ↔
      ∃ nonphysical, indexNonphysical ∅ (nonphysicalFragments assessment) = .ok nonphysical ∧
        Unguarded chrono (assessedBundle assessment nonphysical) := by
  have hindex : ∀ (index : FragmentIndex) fragments message,
      indexNonphysical index fragments ≠ .error (.panic message) := by
    intro index fragments message
    induction fragments generalizing index with
    | nil =>
      intro h
      cases h
    | cons fragment rest ih =>
      rw [indexNonphysical]
      cases index[fragment.artifactId]? with
      | none => exact ih _
      | some existing =>
        dsimp only
        split
        · exact ih _
        · intro h
          cases h
  simp only [← panics_assessClientIntake_iff, validateAssessmentProjection, assessedBundle]
  cases hnonphysical : indexNonphysical ∅ (nonphysicalFragments assessment) with
  | error fault =>
    constructor
    · rintro ⟨message, h⟩
      obtain rfl : fault = .panic message := Except.error.inj h
      exact absurd hnonphysical (hindex _ _ message)
    · rintro ⟨nonphysical, h, -⟩
      cases h
  | ok nonphysical =>
    dsimp only
    constructor
    · rintro ⟨message, h⟩
      refine ⟨nonphysical, rfl, ?_⟩
      split at h
      · cases h
      · case h_2 message' hassess => exact ⟨message', hassess⟩
      · split at h <;> cases h
    · rintro ⟨nonphysical', h, message, hassess⟩
      obtain rfl : nonphysical = nonphysical' := Except.ok.inj h
      rw [hassess]
      exact ⟨message, rfl⟩

/-- Bundles and assessments are taken in without a panic but for a task sequence that has
bytes and a sound provenance and is without a place. -/
theorem intake_never_panics_iff {Instant : Type} (chrono : Rfc3339 Instant) :
    (∀ bundle, ((¬ Panics (assessClientIntake chrono bundle)) ↔ ¬ Unguarded chrono bundle) ∧
      ((¬ Panics (validateBundle chrono bundle)) ↔ ¬ Unguarded chrono bundle)) ∧
    ∀ assessment,
      (∀ message, validateAssessmentProjection chrono assessment ≠ .error (.panic message)) ↔
        ∀ nonphysical, indexNonphysical ∅ (nonphysicalFragments assessment) = .ok nonphysical →
          ¬ Unguarded chrono (assessedBundle assessment nonphysical) := by
  refine ⟨fun bundle => ?_, fun assessment => ?_⟩
  · exact ⟨not_congr panics_assessClientIntake_iff, not_congr panics_validateBundle_iff⟩
  · rw [← not_exists, validateAssessmentProjection_panics_iff, not_exists]
    exact forall_congr' fun _ => not_and

end

def noCalendar : Rfc3339 Unit where
  parse := fun _ => none
  print := fun _ => []

/-- A captured task sequence with its provenance, but without a fingerprint of its path. -/
def unplacedTaskSequence : SccmClientIntakeArtifact where
  artifact :=
    { artifactId := "sccm-artifact:v1:sha256:".toList ++ List.replicate 64 '0'
      displayName := "smsts.log".toList
      originalPath := none
      host := none
      role := .client
      configmgrVersion := none
      collectedAtUtc := none
      rotation := .current
      coverage := .captured
      encoding := none }
  pathFingerprint := none
  rotationLineage := none
  relativePath := some "evidence/client-task-sequence-smsts/client/smsts.log".toList
  taskSequenceProvenance := some
    { version := 1
      pathClass := .client
      smstsLogPathEvidence := none
      relocationLineage := "synthetic:relocation".toList
      relocationOrdinal := 0 }
  fragmentComplete := some true
  declaredByteLength := none
  contentSha256 := none

theorem unplaced_task_sequence_panics :
    assessClientIntake noCalendar ⟨[unplacedTaskSequence], []⟩ =
        .error (.panic "physical source path provenance is validated above".toList) ∧
      validateBundle noCalendar ⟨[unplacedTaskSequence], []⟩ =
        .error (.panic "physical source path provenance is validated above".toList) := by
  have hvalidate : validateBundle noCalendar ⟨[unplacedTaskSequence], []⟩ =
      .error (.panic "physical source path provenance is validated above".toList) := by
    decide +kernel
  refine ⟨?_, hvalidate⟩
  rw [assessClientIntake, hvalidate]
  rfl

end Sccm
end CmTrace
