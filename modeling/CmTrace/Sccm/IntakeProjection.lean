import CmTrace.Sccm.IntakeSound
import CmTrace.Sccm.Assessment

/-!
# A whole bundle

The declarations go through one after the other.  A run of them goes through when each
is sound and any two are compatible, and then the indexes are of all of them.
-/

namespace CmTrace
namespace Sccm

open Text Std Collections

/-! ## Runs -/

section

variable {X : Type} {step : IntakeIndexes → X → Except IntakeFault IntakeIndexes}
  {P : X → Prop} {declared : X → Declared}

/-- A check lets in what is sound and admitted, and enters it. -/
def Checks (step : IntakeIndexes → X → Except IntakeFault IntakeIndexes) (P : X → Prop)
    (declared : X → Declared) : Prop :=
  ∀ ix ix' x, step ix x = .ok ix' ↔
    P x ∧ ix.Admits (declared x) ∧ ix' = ix.record (declared x)

theorem foldlM_ok_iff (hstep : Checks step P declared)
    (xs : List X) {ix ix' : IntakeIndexes} {ds : List Declared} (h : ix.IndexOf ds) :
    xs.foldlM step ix = .ok ix' ↔
      (∀ x ∈ xs, P x) ∧ (∀ x ∈ xs, ∀ e ∈ ds, Compatible e (declared x)) ∧
      (xs.map declared).Pairwise Compatible ∧ ix' = (xs.map declared).foldl .record ix := by
  induction xs generalizing ix ds with
  | nil =>
    refine ok_iff_eq.trans ⟨fun heq => ⟨?_, ?_, .nil, heq⟩, fun heq => heq.2.2.2⟩
    · intro x hx
      cases hx
    · intro x hx
      cases hx
  | cons x xs ih =>
    rw [List.foldlM_cons, bind_ok_iff]
    constructor
    · rintro ⟨ix₁, hx, hrest⟩
      obtain ⟨hp, hadmits, rfl⟩ := (hstep _ _ _).mp hx
      have hcompatible := (IntakeIndexes.admits_iff h _).mp hadmits
      obtain ⟨hall, hbefore, hpairwise, rfl⟩ :=
        (ih (IntakeIndexes.indexOf_record h hadmits)).mp hrest
      refine ⟨List.forall_mem_cons.mpr ⟨hp, hall⟩, List.forall_mem_cons.mpr ⟨hcompatible, ?_⟩,
        List.pairwise_cons.mpr ⟨?_, hpairwise⟩, rfl⟩
      · intro y hy e he
        exact hbefore y hy e (List.mem_cons_of_mem _ he)
      · intro d hd
        obtain ⟨y, hy, rfl⟩ := List.mem_map.mp hd
        exact hbefore y hy _ List.mem_cons_self
    · rintro ⟨hall, hbefore, hpairwise, rfl⟩
      obtain ⟨hp, hall⟩ := List.forall_mem_cons.mp hall
      obtain ⟨hcompatible, hbefore⟩ := List.forall_mem_cons.mp hbefore
      obtain ⟨hfirst, hpairwise⟩ := List.pairwise_cons.mp hpairwise
      have hadmits := (IntakeIndexes.admits_iff h _).mpr hcompatible
      refine ⟨_, (hstep _ _ _).mpr ⟨hp, hadmits, rfl⟩,
        (ih (IntakeIndexes.indexOf_record h hadmits)).mpr ⟨hall, ?_, hpairwise, rfl⟩⟩
      intro y hy e he
      rcases List.mem_cons.mp he with rfl | he
      · exact hfirst _ (List.mem_map_of_mem hy)
      · exact hbefore y hy e he

theorem indexOf_foldlM (hstep : Checks step P declared)
    (xs : List X) {ix ix' : IntakeIndexes} {ds : List Declared} (h : ix.IndexOf ds)
    (hrun : xs.foldlM step ix = .ok ix') : ix'.IndexOf ((xs.map declared).reverse ++ ds) := by
  induction xs generalizing ix ds with
  | nil =>
    obtain rfl := ok_inj.mp hrun
    exact h
  | cons x xs ih =>
    rw [List.foldlM_cons, bind_ok_iff] at hrun
    obtain ⟨ix₁, hx, hrest⟩ := hrun
    obtain ⟨-, hadmits, rfl⟩ := (hstep _ _ _).mp hx
    have hindex := ih (IntakeIndexes.indexOf_record h hadmits) hrest
    rwa [List.map_cons, List.reverse_cons, List.append_assoc]

end

/-! ## Bundles that are accepted -/

def SccmClientIntakeBundle.declared (bundle : SccmClientIntakeBundle) : List Declared :=
  bundle.artifacts.map Declared.ofArtifact ++ bundle.captureGaps.map Declared.ofCaptureGap

/-- A bundle that is within the limit, of declarations that are sound and compatible. -/
structure Accepted {Instant : Type} (chrono : Rfc3339 Instant) (bundle : SccmClientIntakeBundle) :
    Prop where
  count : bundle.artifacts.length + bundle.captureGaps.length ≤ maxSccmClientIntakeArtifacts
  artifacts : ∀ a ∈ bundle.artifacts, Sound chrono a
  captureGaps : ∀ g ∈ bundle.captureGaps, isValidCaptureGapShape g = true
  compatible : bundle.declared.Pairwise Compatible

section

variable {Instant : Type} {chrono : Rfc3339 Instant}

theorem validateArtifact_checks :
    Checks (validateArtifact chrono) (Sound chrono) Declared.ofArtifact :=
  fun _ _ _ => validateArtifact_ok_iff

theorem validateCaptureGap_checks :
    Checks validateCaptureGap (fun g => isValidCaptureGapShape g = true) Declared.ofCaptureGap :=
  fun _ _ _ => validateCaptureGap_ok_iff

theorem foldlM_validateArtifact_ok_iff {artifacts : List SccmClientIntakeArtifact}
    {ix' : IntakeIndexes} :
    artifacts.foldlM (validateArtifact chrono) {} = .ok ix' ↔ (∀ a ∈ artifacts, Sound chrono a) ∧
      (artifacts.map Declared.ofArtifact).Pairwise Compatible ∧
      ix' = (artifacts.map Declared.ofArtifact).foldl .record {} := by
  rw [foldlM_ok_iff validateArtifact_checks artifacts IntakeIndexes.indexOf_nil]
  constructor
  · rintro ⟨hsound, -, hpairwise, rfl⟩
    exact ⟨hsound, hpairwise, rfl⟩
  · rintro ⟨hsound, hpairwise, rfl⟩
    refine ⟨hsound, ?_, hpairwise, rfl⟩
    intro a _ e he
    cases he

theorem indexOf_artifacts {artifacts : List SccmClientIntakeArtifact} {ix : IntakeIndexes}
    (hrun : artifacts.foldlM (validateArtifact chrono) {} = .ok ix) :
    ix.IndexOf (artifacts.map Declared.ofArtifact).reverse := by
  have hindex := indexOf_foldlM validateArtifact_checks artifacts
    IntakeIndexes.indexOf_nil hrun
  rwa [List.append_nil] at hindex

theorem validateBundle_ok_iff {bundle : SccmClientIntakeBundle} {u : Unit} :
    validateBundle chrono bundle = .ok u ↔ Accepted chrono bundle := by
  simp only [validateBundle, bind_ok_iff, require_ok_iff, decide_eq_true_eq]
  constructor
  · rintro ⟨-, hcount, ix, hartifacts, ix', hgaps, -⟩
    obtain ⟨hsound, hpairwise, -⟩ := foldlM_validateArtifact_ok_iff.mp hartifacts
    obtain ⟨hshape, hacross, hgapPairwise, -⟩ := (foldlM_ok_iff
      validateCaptureGap_checks _ (indexOf_artifacts hartifacts)).mp hgaps
    refine ⟨hcount, hsound, hshape, List.pairwise_append.mpr ⟨hpairwise, hgapPairwise, ?_⟩⟩
    intro d hd e he
    obtain ⟨g, hg, rfl⟩ := List.mem_map.mp he
    exact hacross g hg d (List.mem_reverse.mpr hd)
  · intro haccepted
    obtain ⟨hpairwise, hgapPairwise, hacross⟩ := List.pairwise_append.mp haccepted.compatible
    have hartifacts := foldlM_validateArtifact_ok_iff.mpr
      ⟨haccepted.artifacts, hpairwise, rfl⟩
    have hgaps := (foldlM_ok_iff validateCaptureGap_checks bundle.captureGaps
      (indexOf_artifacts hartifacts)).mpr ⟨haccepted.captureGaps, ?_, hgapPairwise, rfl⟩
    · exact ⟨(), haccepted.count, _, hartifacts, _, hgaps, rfl⟩
    · intro g hg d hd
      exact hacross d (List.mem_reverse.mp hd) _ (List.mem_map_of_mem hg)

end

/-! ## What an accepted bundle is projected on

No check fails once a bundle is accepted, so its assessment is a function of its
declarations, and one that does not depend on their order: identities tell them apart,
and what is listed is sorted by comparators that end in the identity.
-/

open Timeline (textOrder)

/-! ## Orders -/

/-- What orders the rotations of one rank: a number, then a text. -/
def rotationNumber : SccmRotation → Nat
  | .numbered number => number
  | _ => 0

def rotationText : SccmRotation → Text
  | .timestamped timestamp => timestamp
  | .unknown unknown => rotationIdentity (.unknown unknown)
  | _ => []

theorem compareRotation_eq : compareRotation =
    compareLex (orderOn compare rotationRank)
      (compareLex (orderOn compare rotationNumber) (orderOn textOrder rotationText)) := by
  funext left right
  cases left <;> cases right <;>
    simp [compareRotation, compareLex, orderOn, rotationRank, rotationNumber, rotationText] <;> rfl

instance : TransCmp compareRotation := by
  rw [compareRotation_eq]
  infer_instance

instance : TransCmp compareFragments := by
  unfold compareFragments
  infer_instance

instance : TransCmp compareCaptureGaps := by
  unfold compareCaptureGaps
  infer_instance

instance : TransCmp compareUnsupported := by
  unfold compareUnsupported
  infer_instance

theorem artifactId_of_compareFragments {f g : SccmClientIntakeFragment}
    (h : compareFragments f g = .eq) : f.artifactId = g.artifactId := by
  simp only [compareFragments, compareLex_eq_iff] at h
  exact eq_of_cmp textOrder h.2.2.2.2

theorem artifactId_of_compareCaptureGaps {f g : SccmClientIntakeCaptureGap}
    (h : compareCaptureGaps f g = .eq) : f.artifactId = g.artifactId := by
  simp only [compareCaptureGaps, compareLex_eq_iff] at h
  exact eq_of_cmp textOrder h.2.2.2.2

theorem artifactId_of_compareUnsupported {f g : SccmClientUnsupportedArtifact}
    (h : compareUnsupported f g = .eq) : f.artifactId = g.artifactId := by
  simp only [compareUnsupported, compareLex_eq_iff] at h
  exact eq_of_cmp textOrder h.1

/-! ## Identities -/

section

variable {Instant : Type} {chrono : Rfc3339 Instant} {bundle : SccmClientIntakeBundle}

theorem Accepted.nodup_artifacts (h : Accepted chrono bundle) :
    (bundle.artifacts.map fun a => a.artifact.artifactId).Nodup := by
  have hpairwise := List.pairwise_map.mp (List.pairwise_append.mp h.compatible).1
  refine List.pairwise_map.mpr (hpairwise.imp fun hcompatible heq => ?_)
  exact hcompatible.artifactId (congrArg toAsciiLowercase heq)

theorem Accepted.nodup_captureGaps (h : Accepted chrono bundle) :
    (bundle.captureGaps.map fun g => g.artifactId).Nodup := by
  have hpairwise := List.pairwise_map.mp (List.pairwise_append.mp h.compatible).2.1
  refine List.pairwise_map.mpr (hpairwise.imp fun hcompatible heq => ?_)
  exact hcompatible.artifactId (congrArg toAsciiLowercase heq)

theorem Accepted.artifact_eq (h : Accepted chrono bundle) {a b : SccmClientIntakeArtifact}
    (ha : a ∈ bundle.artifacts) (hb : b ∈ bundle.artifacts)
    (hid : a.artifact.artifactId = b.artifact.artifactId) : a = b :=
  List.inj_on_of_nodup_map h.nodup_artifacts ha hb hid

theorem Accepted.captureGap_eq (h : Accepted chrono bundle) {g k : SccmClientIntakeCaptureGap}
    (hg : g ∈ bundle.captureGaps) (hk : k ∈ bundle.captureGaps)
    (hid : g.artifactId = k.artifactId) : g = k :=
  List.inj_on_of_nodup_map h.nodup_captureGaps hg hk hid

theorem Accepted.perm (h : Accepted chrono bundle) {other : SccmClientIntakeBundle}
    (hartifacts : bundle.artifacts.Perm other.artifacts)
    (hgaps : bundle.captureGaps.Perm other.captureGaps) : Accepted chrono other where
  count := by
    rw [← hartifacts.length_eq, ← hgaps.length_eq]
    exact h.count
  artifacts := fun a ha => h.artifacts a (hartifacts.mem_iff.mpr ha)
  captureGaps := fun g hg => h.captureGaps g (hgaps.mem_iff.mpr hg)
  compatible := by
    have hperm : bundle.declared.Perm other.declared := (hartifacts.map _).append (hgaps.map _)
    exact (hperm.pairwise_iff fun hcompatible => hcompatible.symm).mp h.compatible

end

/-! ## Projections without checks -/

section

theorem mapM_ok {E A B : Type} {f : A → Except E B} {g : A → B} :
    ∀ {xs : List A}, (∀ x ∈ xs, f x = .ok (g x)) → xs.mapM f = .ok (xs.map g)
  | [], _ => rfl
  | x :: xs, h => by
    rw [List.mapM_cons, h x List.mem_cons_self,
      mapM_ok fun y hy => h y (List.mem_cons_of_mem x hy)]
    rfl

variable {Instant : Type} (chrono : Rfc3339 Instant)

def normalized (collectedAtUtc : Option Text) : Option Text :=
  collectedAtUtc.bind fun value => (chrono.parse value).map chrono.print

def projectedOf (a : SccmClientIntakeArtifact) : Projected :=
  if (matchingGroups a.artifact.displayName a.artifact.rotation).isEmpty then
    .unsupported (unsupportedArtifact a (normalized chrono a.artifact.collectedAtUtc))
  else
    .recognized (intakeFragment a (normalized chrono a.artifact.collectedAtUtc))
      (matchingGroups a.artifact.displayName a.artifact.rotation)

/-- The reason of a gap, that is capped or could not be captured. -/
def gapReason (captureGap : SccmClientIntakeCaptureGap) : Text :=
  match captureGapCoverageReason captureGap with
  | .ok reason => reason
  | .error _ => []

def coverageGapsOf (parts : GroupParts) : List SccmClientIntakeCoverageGap :=
  if parts.fragments.isEmpty && parts.captureGaps.isEmpty then
    [⟨parts.logicalArtifactId, none, .client, parts.coverage, coverageReason parts.coverage⟩]
  else
    parts.fragments.filterMap parts.fragmentGap? ++ parts.captureGaps.map fun captureGap =>
      ⟨parts.logicalArtifactId, some captureGap.artifactId, .client, captureGap.coverage,
        gapReason captureGap⟩

def assessmentOf (bundle : SccmClientIntakeBundle) : SccmClientIntakeAssessment :=
  let projected := bundle.artifacts.map (projectedOf chrono)
  let parts := clientSourceGroups.map (groupParts projected bundle.captureGaps)
  { schemaVersion := sccmDiagnosticsSchemaVersion
    groups := parts.map GroupParts.group
    physicalArtifacts := sortBy compareFragments (projected.filterMap Projected.physical?)
    unsupportedArtifacts := sortBy compareUnsupported (projected.filterMap Projected.unsupported?)
    captureGaps := sortBy compareCaptureGaps bundle.captureGaps
    coverageGaps := (parts.map coverageGapsOf).flatten }

variable {chrono} {bundle : SccmClientIntakeBundle}

theorem Sound.parse_isSome {a : SccmClientIntakeArtifact} (hsound : Sound chrono a) {value : Text}
    (hvalue : a.artifact.collectedAtUtc = some value) : (chrono.parse value).isSome = true := by
  have hsafe := hsound.early.collectedAtUtc
  rw [hvalue, Option.all_some, isSafeCollectedAt, Bool.and_eq_true] at hsafe
  exact hsafe.2

theorem projectArtifact_ok {a : SccmClientIntakeArtifact} (hsound : Sound chrono a) :
    projectArtifact chrono a = .ok (projectedOf chrono a) := by
  have hcollected : normalizedCollectedAt chrono a.artifact.collectedAtUtc =
      .ok (normalized chrono a.artifact.collectedAtUtc) := by
    cases hvalue : a.artifact.collectedAtUtc with
    | none => rfl
    | some value =>
      obtain ⟨instant, hinstant⟩ := Option.isSome_iff_exists.mp (hsound.parse_isSome hvalue)
      rw [normalizedCollectedAt, normalized, Option.bind_some, hinstant]
      rfl
  rw [projectArtifact, hcollected, projectedOf]
  split_ifs with hempty
  · exact if_pos hempty
  · exact if_neg hempty

theorem capped_or_parseFailed {g : SccmClientIntakeCaptureGap}
    (h : isValidCaptureGapShape g = true) : g.coverage = .capped ∨ g.coverage = .parseFailed := by
  simp only [isValidCaptureGapShape, Bool.and_eq_true, Bool.or_eq_true, decide_eq_true_eq] at h
  exact h.1.1.1.2

theorem captureGapCoverageReason_ok {g : SccmClientIntakeCaptureGap}
    (h : isValidCaptureGapShape g = true) : captureGapCoverageReason g = .ok (gapReason g) := by
  unfold gapReason captureGapCoverageReason
  rcases capped_or_parseFailed h with hcoverage | hcoverage
  · rw [hcoverage]
  · rw [hcoverage]

theorem mem_gapMemberships {gaps : List SccmClientIntakeCaptureGap} {logicalArtifactId : Text}
    {g : SccmClientIntakeCaptureGap} (hg : g ∈ gapMemberships gaps logicalArtifactId) :
    g ∈ gaps := by
  obtain ⟨g', hg', hmem⟩ := List.mem_flatMap.mp hg
  obtain ⟨-, -, rfl⟩ := List.mem_map.mp hmem
  exact hg'

theorem coverageGaps_ok {projected : List Projected} {gaps : List SccmClientIntakeCaptureGap}
    (hgaps : ∀ g ∈ gaps, isValidCaptureGapShape g = true) (logicalArtifactId : Text) :
    (groupParts projected gaps logicalArtifactId).coverageGaps =
      .ok (coverageGapsOf (groupParts projected gaps logicalArtifactId)) := by
  have hreasons : ∀ g ∈ (groupParts projected gaps logicalArtifactId).captureGaps,
      (groupParts projected gaps logicalArtifactId).gapOf g =
        .ok ⟨logicalArtifactId, some g.artifactId, .client, g.coverage, gapReason g⟩ := by
    intro g hg
    have hmem : g ∈ gaps := mem_gapMemberships (mem_sortBy.mp hg)
    rw [GroupParts.gapOf, captureGapCoverageReason_ok (hgaps g hmem)]
    rfl
  rw [GroupParts.coverageGaps, coverageGapsOf, mapM_ok hreasons]
  split_ifs with hempty
  · rfl
  · rfl

theorem Accepted.assess_eq (h : Accepted chrono bundle) :
    assessClientIntake chrono bundle = .ok (assessmentOf chrono bundle) := by
  have hgaps : ∀ parts ∈ clientSourceGroups.map
      (groupParts (bundle.artifacts.map (projectedOf chrono)) bundle.captureGaps),
      parts.coverageGaps = .ok (coverageGapsOf parts) := by
    intro parts hparts
    obtain ⟨logicalArtifactId, -, rfl⟩ := List.mem_map.mp hparts
    exact coverageGaps_ok h.captureGaps logicalArtifactId
  have hprojected := mapM_ok fun a ha => projectArtifact_ok (h.artifacts a ha)
  rw [assessClientIntake, (validateBundle_ok_iff (u := ())).mpr h]
  show (bundle.artifacts.mapM (projectArtifact chrono) >>= _) = _
  rw [hprojected]
  show (List.mapM GroupParts.coverageGaps _ >>= _) = _
  rw [mapM_ok hgaps]
  rfl

/-! ## What is projected -/

theorem filterMap_ite {A B : Type} (p : A → Bool) (f : A → B) (xs : List A) :
    xs.filterMap (fun x => if p x then some (f x) else none) = (xs.filter p).map f := by
  induction xs with
  | nil => rfl
  | cons x xs ih =>
    cases hp : p x with
    | true => rw [List.filterMap_cons_some (by rw [hp]; rfl), ih, List.filter_cons_of_pos hp,
        List.map_cons]
    | false => rw [List.filterMap_cons_none (by rw [hp]; rfl), ih,
        List.filter_cons_of_neg (by rw [hp]; exact Bool.false_ne_true)]

def groupsOf (a : SccmClientIntakeArtifact) : List Text :=
  matchingGroups a.artifact.displayName a.artifact.rotation

def isRecognized (a : SccmClientIntakeArtifact) : Bool := !(groupsOf a).isEmpty

def isPhysicalFragment (a : SccmClientIntakeArtifact) : Bool :=
  isRecognized a && isPhysicalState a.artifact.coverage

variable (chrono) in
def fragmentOf (a : SccmClientIntakeArtifact) : SccmClientIntakeFragment :=
  intakeFragment a (normalized chrono a.artifact.collectedAtUtc)

variable (chrono) in
def unsupportedOf (a : SccmClientIntakeArtifact) : SccmClientUnsupportedArtifact :=
  unsupportedArtifact a (normalized chrono a.artifact.collectedAtUtc)

theorem projectedOf_of_recognized {a : SccmClientIntakeArtifact} (h : isRecognized a = true) :
    projectedOf chrono a = .recognized (fragmentOf chrono a) (groupsOf a) := by
  rw [isRecognized, Bool.not_eq_true'] at h
  refine if_neg ?_
  rw [← groupsOf, h]
  exact Bool.false_ne_true

theorem projectedOf_of_not_recognized {a : SccmClientIntakeArtifact} (h : isRecognized a = false) :
    projectedOf chrono a = .unsupported (unsupportedOf chrono a) := by
  rw [isRecognized, Bool.not_eq_false'] at h
  exact if_pos h

theorem groupsOf_of_not_recognized {a : SccmClientIntakeArtifact} (h : isRecognized a = false) :
    groupsOf a = [] := by
  rw [isRecognized, Bool.not_eq_false', List.isEmpty_iff] at h
  exact h

theorem memberships_projectedOf (logicalArtifactId : Text) (a : SccmClientIntakeArtifact) :
    (projectedOf chrono a).memberships logicalArtifactId =
      ((groupsOf a).filter fun group => group = logicalArtifactId).map fun _ =>
        fragmentOf chrono a := by
  cases h : isRecognized a with
  | true => rw [projectedOf_of_recognized h, Projected.memberships]
  | false =>
    rw [projectedOf_of_not_recognized h, groupsOf_of_not_recognized h]
    rfl

theorem physical?_projectedOf (a : SccmClientIntakeArtifact) :
    (projectedOf chrono a).physical? =
      if isPhysicalFragment a then some (fragmentOf chrono a) else none := by
  cases h : isRecognized a with
  | true =>
    rw [projectedOf_of_recognized h, Projected.physical?, isPhysicalFragment, h, Bool.true_and]
    rfl
  | false =>
    rw [projectedOf_of_not_recognized h, isPhysicalFragment, h]
    rfl

theorem unsupported?_projectedOf (a : SccmClientIntakeArtifact) :
    (projectedOf chrono a).unsupported? =
      if !isRecognized a then some (unsupportedOf chrono a) else none := by
  cases h : isRecognized a with
  | true =>
    rw [projectedOf_of_recognized h]
    rfl
  | false =>
    rw [projectedOf_of_not_recognized h]
    rfl

theorem flatMap_memberships (artifacts : List SccmClientIntakeArtifact) (logicalArtifactId : Text) :
    (artifacts.map (projectedOf chrono)).flatMap (Projected.memberships logicalArtifactId) =
      artifacts.flatMap fun a => ((groupsOf a).filter fun group => group = logicalArtifactId).map
        fun _ => fragmentOf chrono a := by
  rw [List.flatMap_map]
  exact List.flatMap_congr fun a _ => memberships_projectedOf logicalArtifactId a

theorem filterMap_physical? (artifacts : List SccmClientIntakeArtifact) :
    (artifacts.map (projectedOf chrono)).filterMap Projected.physical? =
      (artifacts.filter isPhysicalFragment).map (fragmentOf chrono) := by
  rw [List.filterMap_map, ← filterMap_ite]
  exact List.filterMap_congr fun a _ => physical?_projectedOf a

theorem filterMap_unsupported? (artifacts : List SccmClientIntakeArtifact) :
    (artifacts.map (projectedOf chrono)).filterMap Projected.unsupported? =
      (artifacts.filter fun a => !isRecognized a).map (unsupportedOf chrono) := by
  rw [List.filterMap_map, ← filterMap_ite]
  exact List.filterMap_congr fun a _ => unsupported?_projectedOf a

/-! ## In any order -/

theorem mem_flatMap_memberships {artifacts : List SccmClientIntakeArtifact}
    {logicalArtifactId : Text} {f : SccmClientIntakeFragment}
    (hf : f ∈ (artifacts.map (projectedOf chrono)).flatMap
      (Projected.memberships logicalArtifactId)) :
    ∃ a ∈ artifacts, logicalArtifactId ∈ groupsOf a ∧ fragmentOf chrono a = f := by
  rw [flatMap_memberships] at hf
  obtain ⟨a, ha, hmem⟩ := List.mem_flatMap.mp hf
  obtain ⟨group, hgroup, rfl⟩ := List.mem_map.mp hmem
  obtain ⟨hgroup, heq⟩ := List.mem_filter.mp hgroup
  exact ⟨a, ha, of_decide_eq_true heq ▸ hgroup, rfl⟩

theorem Accepted.fragment_eq (h : Accepted chrono bundle) {a b : SccmClientIntakeArtifact}
    (ha : a ∈ bundle.artifacts) (hb : b ∈ bundle.artifacts)
    (hcompare : compareFragments (fragmentOf chrono a) (fragmentOf chrono b) = .eq) :
    fragmentOf chrono a = fragmentOf chrono b :=
  congrArg (fragmentOf chrono) (h.artifact_eq ha hb (artifactId_of_compareFragments hcompare))

theorem Accepted.assessmentOf_perm (h : Accepted chrono bundle) {other : SccmClientIntakeBundle}
    (hartifacts : bundle.artifacts.Perm other.artifacts)
    (hgaps : bundle.captureGaps.Perm other.captureGaps) :
    assessmentOf chrono bundle = assessmentOf chrono other := by
  have hprojected := hartifacts.map (projectedOf chrono)
  have hparts : groupParts (bundle.artifacts.map (projectedOf chrono)) bundle.captureGaps =
      groupParts (other.artifacts.map (projectedOf chrono)) other.captureGaps := by
    funext logicalArtifactId
    have hfragments := sortBy_congr_of_tells (c := compareFragments)
      (hprojected.flatMap_right (Projected.memberships logicalArtifactId)) fun f hf g hg hfg => by
        obtain ⟨a, ha, -, rfl⟩ := mem_flatMap_memberships hf
        obtain ⟨b, hb, -, rfl⟩ := mem_flatMap_memberships hg
        exact h.fragment_eq ha hb hfg
    have hcaptureGaps := sortBy_congr_of_tells (c := compareCaptureGaps)
      (l := gapMemberships bundle.captureGaps logicalArtifactId)
      (hgaps.flatMap_right _) fun f hf g hg hfg =>
        h.captureGap_eq (mem_gapMemberships hf) (mem_gapMemberships hg)
          (artifactId_of_compareCaptureGaps hfg)
    rw [groupParts, groupParts, hfragments]
    exact congrArg (GroupParts.mk _ _) hcaptureGaps
  have hphysical := sortBy_congr_of_tells (c := compareFragments)
    (hprojected.filterMap Projected.physical?) fun f hf g hg hfg => by
      rw [filterMap_physical?] at hf hg
      obtain ⟨a, ha, rfl⟩ := List.mem_map.mp hf
      obtain ⟨b, hb, rfl⟩ := List.mem_map.mp hg
      exact h.fragment_eq (List.mem_filter.mp ha).1 (List.mem_filter.mp hb).1 hfg
  have hunsupported := sortBy_congr_of_tells (c := compareUnsupported)
    (hprojected.filterMap Projected.unsupported?) fun f hf g hg hfg => by
      rw [filterMap_unsupported?] at hf hg
      obtain ⟨a, ha, rfl⟩ := List.mem_map.mp hf
      obtain ⟨b, hb, rfl⟩ := List.mem_map.mp hg
      exact congrArg (unsupportedOf chrono) (h.artifact_eq (List.mem_filter.mp ha).1
        (List.mem_filter.mp hb).1 (artifactId_of_compareUnsupported hfg))
  have hcaptureGaps := sortBy_congr_of_tells (c := compareCaptureGaps) hgaps
    fun f hf g hg hfg => h.captureGap_eq hf hg (artifactId_of_compareCaptureGaps hfg)
  simp only [assessmentOf, hparts, hphysical, hunsupported, hcaptureGaps]

end

end Sccm
end CmTrace
