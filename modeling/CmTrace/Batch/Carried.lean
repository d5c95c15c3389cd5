import Mathlib

/-!
# Lines read with a context

A reader gives each line an output and hands a context on to the next.  Lines
are read whole, or cut into batches that each begin with the initial context.
The two agree exactly when every batch gives the same outputs from the context
it would have been handed.
-/

namespace CmTrace
namespace Carried

variable {L C R : Type}

structure Reader (L C R : Type) where
  initial : C
  read : C → L → Option R × C

namespace Reader

variable (rd : Reader L C R)

def outs : C → List L → List (Option R)
  | _, [] => []
  | c, line :: lines => (rd.read c line).1 :: outs (rd.read c line).2 lines

def after (c : C) (lines : List L) : C := lines.foldl (fun c line => (rd.read c line).2) c

@[simp] theorem outs_length (c : C) (lines : List L) : (rd.outs c lines).length = lines.length := by
  induction lines generalizing c with
  | nil => rfl
  | cons line lines ih => rw [outs, List.length_cons, ih, List.length_cons]

theorem outs_append (c : C) (xs ys : List L) :
    rd.outs c (xs ++ ys) = rd.outs c xs ++ rd.outs (rd.after c xs) ys := by
  induction xs generalizing c with
  | nil => rfl
  | cons line xs ih =>
    rw [List.cons_append, outs, outs, ih, List.cons_append]
    rfl

/-- What batches give that each begin with the initial context. -/
def batchOuts (batches : List (List L)) : List (Option R) := batches.flatMap (rd.outs rd.initial)

@[simp] theorem batchOuts_cons (lines : List L) (batches : List (List L)) :
    rd.batchOuts (lines :: batches) = rd.outs rd.initial lines ++ rd.batchOuts batches := rfl

/-- `P` holds of every batch with the context of the lines before it. -/
def Along (P : C → List L → Prop) : C → List (List L) → Prop
  | _, [] => True
  | c, lines :: batches => P c lines ∧ Along P (rd.after c lines) batches

/-- The context gives what the initial one does, as far as `view` tells. -/
def Agrees {β : Type} (view : R → β) (c : C) (lines : List L) : Prop :=
  (rd.outs c lines).map (Option.map view) = (rd.outs rd.initial lines).map (Option.map view)

variable {rd}

theorem Along.mono {P Q : C → List L → Prop} (h : ∀ c lines, P c lines → Q c lines)
    {batches : List (List L)} {c : C} (hP : rd.Along P c batches) : rd.Along Q c batches := by
  induction batches generalizing c with
  | nil => trivial
  | cons lines batches ih => exact ⟨h c lines hP.1, ih hP.2⟩

theorem outs_batches_iff {β : Type} (view : R → β) (batches : List (List L)) (c : C) :
    (rd.outs c batches.flatten).map (Option.map view) =
        (rd.batchOuts batches).map (Option.map view) ↔
      rd.Along (rd.Agrees view) c batches := by
  induction batches generalizing c with
  | nil => exact ⟨fun _ => trivial, fun _ => rfl⟩
  | cons lines batches ih =>
    rw [List.flatten_cons, outs_append, batchOuts_cons, List.map_append, List.map_append, Along,
      ← ih]
    constructor
    · intro h
      exact List.append_inj h (by simp)
    · rintro ⟨hfirst, hrest⟩
      rw [hfirst, hrest]

/-! ### Contexts that some lines set and all others keep -/

/-- Lines that `resets` set the context whatever it was; all others keep it, and
those that `needs` it give something else from the initial one. -/
structure Resets {β : Type} (rd : Reader L C R) (view : R → β) (resets : L → Bool)
    (needs : C → L → Bool) : Prop where
  reset : ∀ {line}, resets line = true → ∀ c, rd.read c line = rd.read rd.initial line
  keeps : ∀ {line}, resets line = false → ∀ c, (rd.read c line).2 = c
  same : ∀ {line c}, resets line = false → needs c line = false →
    (rd.read c line).1 = (rd.read rd.initial line).1
  differs : ∀ {line c}, resets line = false → needs c line = true →
    (rd.read c line).1.map view ≠ (rd.read rd.initial line).1.map view

/-- No line before the next reset needs the context. -/
def Unneeded (resets : L → Bool) (needs : C → L → Bool) (c : C) (lines : List L) : Prop :=
  ∀ line ∈ lines.takeWhile fun line => !resets line, needs c line = false

instance (resets : L → Bool) (needs : C → L → Bool) (c : C) (lines : List L) :
    Decidable (Unneeded resets needs c lines) :=
  inferInstanceAs (Decidable (∀ line ∈ _, _))

namespace Resets

variable {β : Type} {view : R → β} {resets : L → Bool} {needs : C → L → Bool}

theorem outs_of_unneeded (h : Resets rd view resets needs) {lines : List L} {c : C}
    (hu : Unneeded resets needs c lines) : rd.outs c lines = rd.outs rd.initial lines := by
  induction lines with
  | nil => rfl
  | cons line lines ih =>
    rw [outs, outs]
    cases hr : resets line with
    | true => rw [h.reset hr]
    | false =>
      rw [Unneeded, List.takeWhile_cons_of_pos (by rw [hr]; rfl)] at hu
      rw [h.same hr (hu line List.mem_cons_self), h.keeps hr, h.keeps hr,
        ih fun line' hmem => hu line' (List.mem_cons_of_mem _ hmem)]

theorem unneeded_of_agrees (h : Resets rd view resets needs) {lines : List L} {c : C}
    (ha : rd.Agrees view c lines) : Unneeded resets needs c lines := by
  induction lines with
  | nil => intro line hmem; cases hmem
  | cons line lines ih =>
    rw [Agrees, outs, outs, List.map_cons, List.map_cons] at ha
    obtain ⟨hfirst, hrest⟩ := List.cons.inj ha
    intro line' hmem
    cases hr : resets line with
    | true =>
      rw [List.takeWhile_cons_of_neg (by rw [hr]; exact Bool.false_ne_true)] at hmem
      cases hmem
    | false =>
      rw [List.takeWhile_cons_of_pos (by rw [hr]; rfl)] at hmem
      rw [h.keeps hr, h.keeps hr] at hrest
      rcases List.mem_cons.mp hmem with rfl | hmem
      · by_contra hneeds
        exact h.differs hr (Bool.not_eq_false _ ▸ hneeds) hfirst
      · exact ih hrest line' hmem

end Resets

end Reader

/-! ## Numbered outputs -/

/-- The outputs that are there, each with its position counted from `n`. -/
def numbered {α : Type} : Nat → List (Option α) → List (Nat × α)
  | _, [] => []
  | n, none :: outs => numbered (n + 1) outs
  | n, some a :: outs => (n, a) :: numbered (n + 1) outs

variable {α β : Type}

theorem numbered_append (n : Nat) (xs ys : List (Option α)) :
    numbered n (xs ++ ys) = numbered n xs ++ numbered (n + xs.length) ys := by
  induction xs generalizing n with
  | nil => rfl
  | cons x xs ih =>
    have hn : n + (x :: xs).length = n + 1 + xs.length := by
      rw [List.length_cons]
      omega
    rw [hn]
    cases x with
    | none => exact ih (n + 1)
    | some a => rw [List.cons_append, numbered, numbered, ih, List.cons_append]

theorem numbered_map (f : α → β) (n : Nat) (xs : List (Option α)) :
    numbered n (xs.map (Option.map f)) = (numbered n xs).map fun na => (na.1, f na.2) := by
  induction xs generalizing n with
  | nil => rfl
  | cons x xs ih =>
    cases x with
    | none => exact ih (n + 1)
    | some a => exact congrArg ((n, f a) :: ·) (ih (n + 1))

theorem numbered_shift (d n : Nat) (xs : List (Option α)) :
    numbered (n + d) xs = (numbered n xs).map fun na => (na.1 + d, na.2) := by
  induction xs generalizing n with
  | nil => rfl
  | cons x xs ih =>
    have hn : n + d + 1 = n + 1 + d := by omega
    cases x with
    | none => rw [numbered, numbered, hn, ih]
    | some a => rw [numbered, numbered, hn, ih, List.map_cons]

theorem le_of_mem_numbered {n : Nat} {xs : List (Option α)} {na : Nat × α}
    (h : na ∈ numbered n xs) : n ≤ na.1 := by
  induction xs generalizing n with
  | nil => cases h
  | cons x xs ih =>
    cases x with
    | none => exact Nat.le_of_succ_le (ih h)
    | some a =>
      rcases List.mem_cons.mp h with rfl | h
      · exact Nat.le_refl _
      · exact Nat.le_of_succ_le (ih h)

theorem numbered_inj {n : Nat} {xs ys : List (Option α)} (hlen : xs.length = ys.length)
    (h : numbered n xs = numbered n ys) : xs = ys := by
  induction xs generalizing n ys with
  | nil => exact (List.length_eq_zero_iff.mp hlen.symm).symm
  | cons x xs ih =>
    cases ys with
    | nil => cases hlen
    | cons y ys =>
      have hlen' : xs.length = ys.length := Nat.succ.inj hlen
      have habsurd : ∀ {a : α} {zs rest : List (Option α)},
          ¬ (n, a) :: numbered (n + 1) zs = numbered (n + 1) rest := by
        intro a zs rest he
        have hmem : (n, a) ∈ numbered (n + 1) rest := he ▸ List.mem_cons_self
        exact absurd (le_of_mem_numbered hmem) (Nat.not_succ_le_self n)
      cases x with
      | none =>
        cases y with
        | none => rw [ih hlen' h]
        | some b => exact absurd h.symm habsurd
      | some a =>
        cases y with
        | none => exact absurd h habsurd
        | some b =>
          obtain ⟨hab, hrest⟩ := List.cons.inj h
          rw [(Prod.mk.inj hab).2, ih hlen' hrest]

end Carried
end CmTrace
