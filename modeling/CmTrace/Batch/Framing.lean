import Mathlib

/-!
# Records of several lines read in batches

A grammar says what each line does to the record before it.  Lines are read
whole, or cut into batches that each begin with no record open.  The two agree
exactly when no batch begins with a line that belongs to an open record.
-/

namespace CmTrace
namespace Framing

variable {L R : Type}

/-- What a line does. -/
inductive Role (R : Type) where
  /-- Begins a record, which stays open. -/
  | opens (record : R)
  /-- Is a record of its own and leaves none open. -/
  | alone (record : R)
  | blank
  /-- Belongs to the open record. -/
  | body
  deriving DecidableEq

structure Grammar (L R : Type) where
  role : L → Role R
  extend : R → L → R
  /-- What a body line gives when no record is open. -/
  orphan : L → Option R

namespace Grammar

variable (g : Grammar L R)

/-- The records a line numbered `n` settles, and the record open after it. -/
def step (held : Option (Nat × R)) (n : Nat) (line : L) : List (Nat × R) × Option (Nat × R) :=
  match g.role line with
  | .opens r => (held.toList, some (n, r))
  | .alone r => (held.toList ++ [(n, r)], none)
  | .blank => ([], held)
  | .body =>
    match held with
    | some (k, r) => ([], some (k, g.extend r line))
    | none => (((g.orphan line).map fun r => (n, r)).toList, none)

/-- The records of lines numbered from `n`, each with the number of its first
line, when `held` is open. -/
def rows : Option (Nat × R) → Nat → List L → List (Nat × R)
  | held, _, [] => held.toList
  | held, n, line :: lines =>
    (g.step held n line).1 ++ rows (g.step held n line).2 (n + 1) lines

def leaves (held : Bool) (line : L) : Bool :=
  match g.role line with
  | .opens _ => true
  | .alone _ => false
  | .blank | .body => held

def opened (held : Bool) (lines : List L) : Bool := lines.foldl g.leaves held

/-- The first line that is not blank belongs to a record begun before. -/
def continues : List L → Bool
  | [] => false
  | line :: lines =>
    match g.role line with
    | .opens _ | .alone _ => false
    | .blank => continues lines
    | .body => true

/-- The records of batches that each begin with no record open. -/
def batchRows : Nat → List (List L) → List (Nat × R)
  | _, [] => []
  | n, lines :: batches => g.rows none n lines ++ batchRows (n + lines.length) batches

/-- No batch continues a record that the lines before it leave open. -/
def Uncut : Bool → List (List L) → Prop
  | _, [] => True
  | held, lines :: batches =>
    ¬ (held = true ∧ g.continues lines = true) ∧ Uncut (g.opened held lines) batches

instance decidableUncut : ∀ held batches, Decidable (g.Uncut held batches)
  | _, [] => .isTrue trivial
  | held, lines :: batches =>
    have := decidableUncut (g.opened held lines) batches
    inferInstanceAs (Decidable (¬ (held = true ∧ g.continues lines = true) ∧
      g.Uncut (g.opened held lines) batches))

theorem step_isSome (held : Option (Nat × R)) (n : Nat) (line : L) :
    (g.step held n line).2.isSome = g.leaves held.isSome line := by
  unfold step leaves
  cases g.role line with
  | opens r => rfl
  | alone r => rfl
  | blank => rfl
  | body => cases held <;> rfl

/-- Reading some lines settles records and leaves at most one open, whatever
follows. -/
theorem rows_append (held : Option (Nat × R)) (n : Nat) (lines : List L) :
    ∃ settled held', held'.isSome = g.opened held.isSome lines ∧
      ∀ rest, g.rows held n (lines ++ rest) = settled ++ g.rows held' (n + lines.length) rest := by
  induction lines generalizing held n with
  | nil => exact ⟨[], held, rfl, fun _ => rfl⟩
  | cons line lines ih =>
    obtain ⟨settled, held', hopen, hrest⟩ := ih (g.step held n line).2 (n + 1)
    refine ⟨(g.step held n line).1 ++ settled, held', ?_, fun rest => ?_⟩
    · rw [hopen, step_isSome]
      rfl
    · have hn : n + (line :: lines).length = n + 1 + lines.length := by
        rw [List.length_cons]
        omega
      rw [List.cons_append, rows, hrest, hn, List.append_assoc]

def shift (d : Nat) (kr : Nat × R) : Nat × R := (kr.1 + d, kr.2)

theorem step_shift (d : Nat) (held : Option (Nat × R)) (n : Nat) (line : L) :
    g.step (held.map (shift d)) (n + d) line =
      ((g.step held n line).1.map (shift d), (g.step held n line).2.map (shift d)) := by
  unfold step
  cases g.role line with
  | opens r => cases held <;> rfl
  | alone r => cases held <;> rfl
  | blank => rfl
  | body =>
    cases held with
    | none => cases g.orphan line <;> rfl
    | some kr => rfl

theorem rows_shift (d : Nat) (held : Option (Nat × R)) (n : Nat) (lines : List L) :
    g.rows (held.map (shift d)) (n + d) lines = (g.rows held n lines).map (shift d) := by
  induction lines generalizing held n with
  | nil => cases held <;> rfl
  | cons line lines ih =>
    have hn : n + d + 1 = n + 1 + d := by omega
    rw [rows, rows, step_shift, List.map_append, hn, ih]

theorem rows_closed {lines : List L} (h : g.continues lines = false) (kr : Nat × R) (n : Nat) :
    g.rows (some kr) n lines = kr :: g.rows none n lines := by
  induction lines generalizing n with
  | nil => rfl
  | cons line lines ih =>
    rw [continues] at h
    rw [rows, rows, step, step]
    cases hr : g.role line with
    | opens r => rfl
    | alone r => rfl
    | blank =>
      rw [hr] at h
      exact ih h (n + 1)
    | body =>
      rw [hr] at h
      cases h

/-! ## What a cut record costs

`weight` is any measure of records that a body line makes larger as an orphan
than as a part of its record. -/

section Weight

variable {g} {weight : R → Int}

def total (weight : R → Int) (rows : List (Nat × R)) : Int := (rows.map fun kr => weight kr.2).sum

@[simp] theorem total_nil : total weight [] = 0 := rfl

@[simp] theorem total_cons (kr : Nat × R) (rows : List (Nat × R)) :
    total weight (kr :: rows) = weight kr.2 + total weight rows := by
  rw [total, List.map_cons, List.sum_cons, total]

@[simp] theorem total_append (xs ys : List (Nat × R)) :
    total weight (xs ++ ys) = total weight xs + total weight ys := by
  rw [total, List.map_append, List.sum_append, total, total]

def orphanWeight (g : Grammar L R) (weight : R → Int) (line : L) : Int :=
  ((g.orphan line).map weight).getD 0

variable (hbody : ∀ line r, g.role line = .body →
  weight (g.extend r line) < weight r + g.orphanWeight weight line)
include hbody

theorem total_held (lines : List L) (kr : Nat × R) (n : Nat) :
    total weight (g.rows (some kr) n lines) ≤ weight kr.2 + total weight (g.rows none n lines) ∧
      (g.continues lines = true →
        total weight (g.rows (some kr) n lines) <
          weight kr.2 + total weight (g.rows none n lines)) := by
  induction lines generalizing kr n with
  | nil => exact ⟨by simp [rows], fun h => by cases h⟩
  | cons line lines ih =>
    rw [continues, rows, rows, step, step]
    cases hr : g.role line with
    | opens r => exact ⟨by simp, fun h => by cases h⟩
    | alone r => exact ⟨by simp, fun h => by cases h⟩
    | blank => exact ih kr (n + 1)
    | body =>
      have hrest := (ih (kr.1, g.extend kr.2 line) (n + 1)).1
      have hline := hbody line kr.2 hr
      have horphan : total weight ((g.orphan line).map fun r => (n, r)).toList =
          g.orphanWeight weight line := by
        rw [orphanWeight]
        cases g.orphan line <;> simp
      have hlt : total weight (g.rows (some (kr.1, g.extend kr.2 line)) (n + 1) lines) <
          weight kr.2 + total weight (((g.orphan line).map fun r => (n, r)).toList ++
            g.rows none (n + 1) lines) := by
        rw [total_append, horphan]
        simp only at hrest
        omega
      exact ⟨le_of_lt hlt, fun _ => hlt⟩

/-- Cutting a batch off costs nothing when it does not continue a record, and
makes the rows heavier when it does. -/
theorem rows_cut (held : Option (Nat × R)) (n : Nat) (lines : List L) :
    (¬ (held.isSome = true ∧ g.continues lines = true) →
      g.rows held n lines = held.toList ++ g.rows none n lines) ∧
    total weight (g.rows held n lines) ≤ total weight (held.toList ++ g.rows none n lines) ∧
    (held.isSome = true ∧ g.continues lines = true →
      total weight (g.rows held n lines) < total weight (held.toList ++ g.rows none n lines)) := by
  cases held with
  | none => exact ⟨fun _ => rfl, le_refl _, fun h => absurd h.1 Bool.false_ne_true⟩
  | some kr =>
    obtain ⟨hle, hlt⟩ := total_held hbody lines kr n
    refine ⟨fun h => ?_, by simpa using hle, fun h => by simpa using hlt h.2⟩
    have hc : g.continues lines = false := by
      cases hc : g.continues lines with
      | false => rfl
      | true => exact absurd ⟨rfl, hc⟩ h
    exact g.rows_closed hc kr n

/-- Whole and batched reading agree when no record is cut; otherwise the
batched rows are heavier. -/
theorem rows_batches (batches : List (List L)) (held : Option (Nat × R)) (n : Nat) :
    (g.Uncut held.isSome batches →
      g.rows held n batches.flatten = held.toList ++ g.batchRows n batches) ∧
    total weight (g.rows held n batches.flatten) ≤
      total weight (held.toList ++ g.batchRows n batches) ∧
    (¬ g.Uncut held.isSome batches →
      total weight (g.rows held n batches.flatten) <
        total weight (held.toList ++ g.batchRows n batches)) := by
  induction batches generalizing held n with
  | nil =>
    refine ⟨fun _ => ?_, le_of_eq ?_, fun h => absurd trivial h⟩ <;>
      simp [rows, batchRows]
  | cons lines batches ih =>
    obtain ⟨settled, held', hopen, happend⟩ := g.rows_append held n lines
    obtain ⟨heq, hle, hlt⟩ := ih held' (n + lines.length)
    obtain ⟨hcut, hcutle, hcutlt⟩ := rows_cut hbody held n lines
    -- the first batch on its own, as the whole reading settles it
    have hfirst : g.rows held n lines = settled ++ held'.toList := by
      have hnil := happend []
      rwa [List.append_nil, rows] at hnil
    rw [List.flatten_cons, happend, batchRows, Uncut, ← hopen]
    rw [hfirst] at hcut hcutle hcutlt
    simp only [total_append] at hle hlt hcutle hcutlt ⊢
    refine ⟨fun h => ?_, by omega, fun h => ?_⟩
    · rw [heq h.2, ← List.append_assoc, hcut h.1, List.append_assoc]
    · by_cases hc : held.isSome = true ∧ g.continues lines = true
      · have := hcutlt hc
        omega
      · have := hlt fun hu => h ⟨hc, hu⟩
        omega

end Weight

end Grammar
end Framing
end CmTrace
