import CmTrace.Sccm.Intake

/-!
# What a bundle must be to be taken in

The checks of one declaration against the indexes of those before come to a relation
of two declarations, which is symmetric: a bundle is accepted when each declaration
is sound and any two are compatible, in whatever order they come.
-/

namespace CmTrace
namespace Sccm

open Text

/-! ## Checks that go through -/

section

variable {E A B : Type}

theorem bind_ok_iff {x : Except E A} {f : A → Except E B} {b : B} :
    (x >>= f) = .ok b ↔ ∃ a, x = .ok a ∧ f a = .ok b := by
  cases x with
  | error e =>
    constructor
    · intro h
      cases h
    · rintro ⟨a, ha, -⟩
      cases ha
  | ok a =>
    constructor
    · intro h
      exact ⟨a, rfl, h⟩
    · rintro ⟨a', ha, h⟩
      cases ha
      exact h

theorem ok_inj {a b : A} : (.ok a : Except E A) = .ok b ↔ a = b := by
  constructor
  · intro h
    cases h
    rfl
  · rintro rfl
    rfl

end

theorem require_ok_iff {condition : Bool} {error : SccmClientIntakeError} {u : Unit} :
    require condition error = .ok u ↔ condition = true := by
  cases condition with
  | true => exact ⟨fun _ => rfl, fun _ => rfl⟩
  | false => exact ⟨fun h => (by cases h), fun h => (by cases h)⟩

theorem orError_ok_iff {A : Type} {value : Option A} {error : SccmClientIntakeError} {a : A} :
    orError value error = .ok a ↔ value = some a := by
  cases value with
  | none => exact ⟨fun h => (by cases h), fun h => (by cases h)⟩
  | some b => exact ok_inj.trans (Option.some.injEq b a).symm.to_iff

theorem expect_ok_iff {A : Type} {value : Option A} {message : Text} {a : A} :
    expect value message = .ok a ↔ value = some a := by
  cases value with
  | none => exact ⟨fun h => (by cases h), fun h => (by cases h)⟩
  | some b => exact ok_inj.trans (Option.some.injEq b a).symm.to_iff

/-! ## Declarations -/

inductive DeclaredShape where
  | physical
  | pinned
  | unpinned
  deriving DecidableEq, Repr

/-- What others may collide with in a declaration. -/
structure Declared where
  artifactId : Text
  lineage : Option Text
  fingerprint : Option Text
  basename : Text
  rotation : Text
  relativePath : Option Text
  relocation : Option ((Text × Nat) × Text × SccmTaskSequencePathClass)
  source : Text × Text
  shape : DeclaredShape

def Declared.ofArtifact (a : SccmClientIntakeArtifact) : Declared where
  artifactId := toAsciiLowercase a.artifact.artifactId
  lineage := a.rotationLineage
  fingerprint := a.pathFingerprint.map toAsciiLowercase
  basename := sourceBasenameIdentity a.artifact.displayName a.artifact.rotation
  rotation := rotationIdentity a.artifact.rotation
  relativePath := a.relativePath.map toAsciiLowercase
  relocation :=
    if isTaskSequence a && isPhysicalState a.artifact.coverage then
      match a.taskSequenceProvenance, a.pathFingerprint with
      | some provenance, some fingerprint =>
        some ((provenance.relocationLineage, provenance.relocationOrdinal),
          toAsciiLowercase fingerprint, provenance.pathClass)
      | _, _ => none
    else none
  source := sourceIdentity a.artifact.displayName a.artifact.rotation
  shape :=
    if isPhysicalState a.artifact.coverage then .physical
    else if a.pathFingerprint.isSome then .pinned else .unpinned

def Declared.ofCaptureGap (g : SccmClientIntakeCaptureGap) : Declared where
  artifactId := toAsciiLowercase g.artifactId
  lineage := some g.rotationLineage
  fingerprint := some (toAsciiLowercase g.pathFingerprint)
  basename := sourceBasenameIdentity g.basename g.rotation
  rotation := rotationIdentity g.rotation
  relativePath := none
  relocation := none
  source := sourceIdentity g.basename g.rotation
  shape := .pinned

/-- Two declarations that the checks before those of the provenance let into one bundle. -/
structure CompatibleEarly (d e : Declared) : Prop where
  artifactId : d.artifactId ≠ e.artifactId
  lineage : ∀ l, d.lineage = some l → e.lineage = some l →
    d.basename = e.basename ∧ d.fingerprint = e.fingerprint ∧ d.rotation ≠ e.rotation
  fingerprint : ∀ f, d.fingerprint = some f → e.fingerprint = some f →
    d.lineage.isSome = true ∧ d.lineage = e.lineage ∧ d.basename = e.basename
  relativePath : ∀ p, d.relativePath = some p → e.relativePath ≠ some p

/-- Two declarations that can be in one bundle. -/
structure Compatible (d e : Declared) : Prop extends CompatibleEarly d e where
  relocation : ∀ k v w, d.relocation = some (k, v) → e.relocation = some (k, w) → v = w
  unpinned : d.shape = .unpinned ∨ e.shape = .unpinned → d.source ≠ e.source

theorem Compatible.symm {d e : Declared} (h : Compatible d e) : Compatible e d where
  artifactId := h.artifactId.symm
  lineage := fun l he hd =>
    have ⟨hbasename, hfingerprint, hrotation⟩ := h.lineage l hd he
    ⟨hbasename.symm, hfingerprint.symm, hrotation.symm⟩
  fingerprint := fun f he hd =>
    have ⟨hsome, hlineage, hbasename⟩ := h.fingerprint f hd he
    ⟨hlineage ▸ hsome, hlineage.symm, hbasename.symm⟩
  relativePath := fun p he hd => h.relativePath p hd he
  relocation := fun k v w he hd => (h.relocation k w v hd he).symm
  unpinned := fun hshape => (h.unpinned hshape.symm).symm

/-! ## Indexes -/

namespace IntakeIndexes

/-- What the checks before those of the provenance ask of the indexes. -/
structure AdmitsEarly (ix : IntakeIndexes) (d : Declared) : Prop where
  artifactId : d.artifactId ∉ ix.artifactIds
  lineage : ∀ l, d.lineage = some l →
    (∀ v, ix.rotationLineageBindings.lookup l = some v → v = (d.basename, d.fingerprint)) ∧
      (l, d.rotation) ∉ ix.lineageRotationIdentities
  fingerprint : ∀ f, d.fingerprint = some f → ∀ v, ix.pathFingerprintBindings.lookup f = some v →
    d.lineage.isSome = true ∧ v = (d.lineage, d.basename)
  relativePath : ∀ p, d.relativePath = some p → p ∉ ix.relativePaths

/-- What the checks from those of the provenance on ask of the indexes. -/
structure AdmitsLate (ix : IntakeIndexes) (d : Declared) : Prop where
  relocation : ∀ k v, d.relocation = some (k, v) →
    ∀ w, ix.taskSequenceRelocations.lookup k = some w → w = v
  notUnpinned : d.source ∉ ix.unpinnedMarkerIdentities
  unpinned : d.shape = .unpinned →
    d.source ∉ ix.physicalSourceIdentities ∧ d.source ∉ ix.pinnedMarkerIdentities

/-- The indexes let a declaration in. -/
structure Admits (ix : IntakeIndexes) (d : Declared) : Prop extends AdmitsEarly ix d, AdmitsLate ix d

def enter {K V : Type} [BEq K] (bindings : List (K × V)) (key : K) (value : V) : List (K × V) :=
  match bindings.lookup key with
  | some _ => bindings
  | none => (key, value) :: bindings

/-- The indexes with a declaration that was let in. -/
def record (ix : IntakeIndexes) (d : Declared) : IntakeIndexes where
  artifactIds := d.artifactId :: ix.artifactIds
  pathFingerprintBindings := match d.fingerprint with
    | some f => enter ix.pathFingerprintBindings f (d.lineage, d.basename)
    | none => ix.pathFingerprintBindings
  rotationLineageBindings := match d.lineage with
    | some l => enter ix.rotationLineageBindings l (d.basename, d.fingerprint)
    | none => ix.rotationLineageBindings
  lineageRotationIdentities := match d.lineage with
    | some l => (l, d.rotation) :: ix.lineageRotationIdentities
    | none => ix.lineageRotationIdentities
  relativePaths := match d.relativePath with
    | some p => p :: ix.relativePaths
    | none => ix.relativePaths
  taskSequenceRelocations := match d.relocation with
    | some r => r :: ix.taskSequenceRelocations
    | none => ix.taskSequenceRelocations
  physicalSourceIdentities := match d.shape with
    | .physical => d.source :: ix.physicalSourceIdentities
    | _ => ix.physicalSourceIdentities
  pinnedMarkerIdentities := match d.shape with
    | .pinned => d.source :: ix.pinnedMarkerIdentities
    | _ => ix.pinnedMarkerIdentities
  unpinnedMarkerIdentities := match d.shape with
    | .unpinned => d.source :: ix.unpinnedMarkerIdentities
    | _ => ix.unpinnedMarkerIdentities

/-- The indexes are of these declarations. -/
structure IndexOf (ix : IntakeIndexes) (ds : List Declared) : Prop where
  artifactIds : ∀ t, t ∈ ix.artifactIds ↔ ∃ d ∈ ds, d.artifactId = t
  lineages : ∀ l v, ix.rotationLineageBindings.lookup l = some v ↔
    ∃ d ∈ ds, d.lineage = some l ∧ (d.basename, d.fingerprint) = v
  lineageRotations : ∀ l r, (l, r) ∈ ix.lineageRotationIdentities ↔
    ∃ d ∈ ds, d.lineage = some l ∧ d.rotation = r
  fingerprints : ∀ f v, ix.pathFingerprintBindings.lookup f = some v ↔
    ∃ d ∈ ds, d.fingerprint = some f ∧ (d.lineage, d.basename) = v
  relativePaths : ∀ p, p ∈ ix.relativePaths ↔ ∃ d ∈ ds, d.relativePath = some p
  relocations : ∀ k v, ix.taskSequenceRelocations.lookup k = some v ↔
    ∃ d ∈ ds, d.relocation = some (k, v)
  physical : ∀ s, s ∈ ix.physicalSourceIdentities ↔ ∃ d ∈ ds, d.shape = .physical ∧ d.source = s
  pinned : ∀ s, s ∈ ix.pinnedMarkerIdentities ↔ ∃ d ∈ ds, d.shape = .pinned ∧ d.source = s
  unpinned : ∀ s, s ∈ ix.unpinnedMarkerIdentities ↔ ∃ d ∈ ds, d.shape = .unpinned ∧ d.source = s

theorem indexOf_nil : IndexOf {} [] := by
  constructor <;> simp

theorem admitsEarly_iff {ix : IntakeIndexes} {ds : List Declared} (h : IndexOf ix ds)
    (d : Declared) : ix.AdmitsEarly d ↔ ∀ e ∈ ds, CompatibleEarly e d := by
  constructor
  · intro hadmits e he
    constructor
    case artifactId =>
      rintro heq
      exact hadmits.artifactId ((h.artifactIds _).mpr ⟨e, he, heq⟩)
    case lineage =>
      intro l hel hdl
      obtain ⟨hbinding, hrotation⟩ := hadmits.lineage l hdl
      have hpair := hbinding _ ((h.lineages l _).mpr ⟨e, he, hel, rfl⟩)
      refine ⟨congrArg Prod.fst hpair, congrArg Prod.snd hpair, fun heq => hrotation ?_⟩
      exact (h.lineageRotations l _).mpr ⟨e, he, hel, heq⟩
    case fingerprint =>
      intro f hef hdf
      obtain ⟨hsome, hpair⟩ := hadmits.fingerprint f hdf _
        ((h.fingerprints f _).mpr ⟨e, he, hef, rfl⟩)
      have hlineage : e.lineage = d.lineage := congrArg Prod.fst hpair
      exact ⟨hlineage ▸ hsome, hlineage, congrArg Prod.snd hpair⟩
    case relativePath =>
      intro p hep hdp
      exact hadmits.relativePath p hdp ((h.relativePaths p).mpr ⟨e, he, hep⟩)
  · intro hall
    constructor
    case artifactId =>
      intro hmem
      obtain ⟨e, he, heq⟩ := (h.artifactIds _).mp hmem
      exact (hall e he).artifactId heq
    case lineage =>
      intro l hdl
      constructor
      · intro v hv
        obtain ⟨e, he, hel, rfl⟩ := (h.lineages l v).mp hv
        obtain ⟨hbasename, hfingerprint, -⟩ := (hall e he).lineage l hel hdl
        rw [hbasename, hfingerprint]
      · intro hmem
        obtain ⟨e, he, hel, heq⟩ := (h.lineageRotations l _).mp hmem
        exact ((hall e he).lineage l hel hdl).2.2 heq
    case fingerprint =>
      intro f hdf v hv
      obtain ⟨e, he, hef, rfl⟩ := (h.fingerprints f v).mp hv
      obtain ⟨hsome, hlineage, hbasename⟩ := (hall e he).fingerprint f hef hdf
      exact ⟨hlineage ▸ hsome, by rw [hlineage, hbasename]⟩
    case relativePath =>
      intro p hdp hmem
      obtain ⟨e, he, hep⟩ := (h.relativePaths p).mp hmem
      exact (hall e he).relativePath p hep hdp

theorem admitsLate_iff {ix : IntakeIndexes} {ds : List Declared} (h : IndexOf ix ds)
    (d : Declared) : ix.AdmitsLate d ↔ ∀ e ∈ ds,
      (∀ k v w, e.relocation = some (k, v) → d.relocation = some (k, w) → v = w) ∧
      (e.shape = .unpinned ∨ d.shape = .unpinned → e.source ≠ d.source) := by
  constructor
  · intro hadmits e he
    constructor
    · intro k v w hek hdk
      exact hadmits.relocation k w hdk v ((h.relocations k v).mpr ⟨e, he, hek⟩)
    · rintro (hshape | hshape) heq
      · exact hadmits.notUnpinned ((h.unpinned _).mpr ⟨e, he, hshape, heq⟩)
      · obtain ⟨hphysical, hpinned⟩ := hadmits.unpinned hshape
        cases hes : e.shape with
        | physical => exact hphysical ((h.physical _).mpr ⟨e, he, hes, heq⟩)
        | pinned => exact hpinned ((h.pinned _).mpr ⟨e, he, hes, heq⟩)
        | unpinned => exact hadmits.notUnpinned ((h.unpinned _).mpr ⟨e, he, hes, heq⟩)
  · intro hall
    constructor
    case relocation =>
      intro k v hdk w hw
      obtain ⟨e, he, hek⟩ := (h.relocations k w).mp hw
      exact (hall e he).1 k w v hek hdk
    case notUnpinned =>
      intro hmem
      obtain ⟨e, he, hshape, heq⟩ := (h.unpinned _).mp hmem
      exact (hall e he).2 (.inl hshape) heq
    case unpinned =>
      intro hshape
      constructor
      · intro hmem
        obtain ⟨e, he, -, heq⟩ := (h.physical _).mp hmem
        exact (hall e he).2 (.inr hshape) heq
      · intro hmem
        obtain ⟨e, he, -, heq⟩ := (h.pinned _).mp hmem
        exact (hall e he).2 (.inr hshape) heq

theorem admits_iff {ix : IntakeIndexes} {ds : List Declared} (h : IndexOf ix ds) (d : Declared) :
    ix.Admits d ↔ ∀ e ∈ ds, Compatible e d := by
  constructor
  · intro hadmits e he
    have hearly := (admitsEarly_iff h d).mp hadmits.toAdmitsEarly e he
    have hlate := (admitsLate_iff h d).mp hadmits.toAdmitsLate e he
    exact ⟨hearly, hlate.1, hlate.2⟩
  · intro hall
    have hearly := (admitsEarly_iff h d).mpr fun e he => (hall e he).toCompatibleEarly
    have hlate := (admitsLate_iff h d).mpr fun e he => ⟨(hall e he).relocation, (hall e he).unpinned⟩
    exact ⟨hearly, hlate⟩

/-! ### Entering a declaration -/

section

variable {K V : Type} [BEq K] [LawfulBEq K]

theorem lookup_cons_iff {bindings : List (K × V)} {key : K} {value : V}
    (hsame : ∀ v, bindings.lookup key = some v → v = value) (k : K) (v : V) :
    ((key, value) :: bindings).lookup k = some v ↔
      (key = k ∧ value = v) ∨ bindings.lookup k = some v := by
  rw [List.lookup_cons]
  cases hkey : k == key with
  | true =>
    obtain rfl := eq_of_beq hkey
    constructor
    · intro hv
      exact .inl ⟨rfl, Option.some.inj hv⟩
    · rintro (⟨-, rfl⟩ | hv)
      · rfl
      · exact congrArg some (hsame v hv).symm
  | false =>
    have hne : key ≠ k := fun heq => by
      rw [heq, beq_self_eq_true] at hkey
      cases hkey
    exact ⟨.inr, fun hv => hv.resolve_left fun ⟨heq, _⟩ => hne heq⟩

theorem lookup_enter_iff {bindings : List (K × V)} {key : K} {value : V}
    (hsame : ∀ v, bindings.lookup key = some v → v = value) (k : K) (v : V) :
    (enter bindings key value).lookup k = some v ↔
      (key = k ∧ value = v) ∨ bindings.lookup k = some v := by
  unfold enter
  cases hbound : bindings.lookup key with
  | some w =>
    constructor
    · exact .inr
    · rintro (⟨rfl, rfl⟩ | hv)
      · exact hsame w hbound ▸ hbound
      · exact hv
  | none => exact lookup_cons_iff (fun w hw => by rw [hbound] at hw; cases hw) k v

end

theorem exists_mem_cons_or {d : Declared} {ds : List Declared} {P : Declared → Prop} {Q : Prop}
    (h : Q ↔ ∃ e ∈ ds, P e) : P d ∨ Q ↔ ∃ e ∈ d :: ds, P e := by
  rw [h]
  constructor
  · rintro (hd | ⟨e, he, hp⟩)
    · exact ⟨d, List.mem_cons_self, hd⟩
    · exact ⟨e, List.mem_cons_of_mem d he, hp⟩
  · rintro ⟨e, he, hp⟩
    rcases List.mem_cons.mp he with rfl | he
    · exact .inl hp
    · exact .inr ⟨e, he, hp⟩

theorem indexOf_record {ix : IntakeIndexes} {ds : List Declared} (h : IndexOf ix ds)
    {d : Declared} (hadmits : ix.Admits d) : IndexOf (ix.record d) (d :: ds) where
  artifactIds := fun t => by
    rw [← exists_mem_cons_or (h.artifactIds t)]
    exact List.mem_cons.trans (or_congr_left eq_comm)
  lineages := fun l v => by
    rw [← exists_mem_cons_or (h.lineages l v)]
    cases hl : d.lineage with
    | none => simp [record, hl]
    | some lineage =>
      have hsame := (hadmits.lineage lineage hl).1
      simp only [record, hl, lookup_enter_iff hsame l v, Option.some.injEq]
  lineageRotations := fun l r => by
    rw [← exists_mem_cons_or (h.lineageRotations l r)]
    cases hl : d.lineage with
    | none => simp [record, hl]
    | some lineage => simp [record, hl, eq_comm]
  fingerprints := fun f v => by
    rw [← exists_mem_cons_or (h.fingerprints f v)]
    cases hf : d.fingerprint with
    | none => simp [record, hf]
    | some fingerprint =>
      have hsame := fun v hv => (hadmits.fingerprint fingerprint hf v hv).2
      simp only [record, hf, lookup_enter_iff hsame f v, Option.some.injEq]
  relativePaths := fun p => by
    rw [← exists_mem_cons_or (h.relativePaths p)]
    cases hp : d.relativePath with
    | none => simp [record, hp]
    | some relativePath => simp [record, hp, eq_comm]
  relocations := fun k v => by
    rw [← exists_mem_cons_or (h.relocations k v)]
    cases hr : d.relocation with
    | none => simp [record, hr]
    | some relocation =>
      obtain ⟨key, value⟩ := relocation
      have hsame := hadmits.relocation key value hr
      simp only [record, hr, lookup_cons_iff hsame k v, Option.some.injEq, Prod.mk.injEq]
  physical := fun s => by
    rw [← exists_mem_cons_or (h.physical s)]
    cases hshape : d.shape <;> simp [record, hshape, eq_comm]
  pinned := fun s => by
    rw [← exists_mem_cons_or (h.pinned s)]
    cases hshape : d.shape <;> simp [record, hshape, eq_comm]
  unpinned := fun s => by
    rw [← exists_mem_cons_or (h.unpinned s)]
    cases hshape : d.shape <;> simp [record, hshape, eq_comm]

end IntakeIndexes

end Sccm
end CmTrace
