import Mathlib

/-!
# Lists with a bound and a summary

A report that must not grow without bound keeps its first entries and says in one
more how many were left out.
-/

namespace CmTrace
namespace Collections

variable {A : Type}

/-- As it is up to `full` entries; beyond that the first `kept` and a summary of
how many there are besides. -/
def coalesce (full kept : Nat) (summary : Nat → A) (xs : List A) : List A :=
  if xs.length ≤ full then xs else xs.take kept ++ [summary (xs.length - kept)]

variable {full kept : Nat} {summary : Nat → A} {xs : List A}

theorem coalesce_of_le (h : xs.length ≤ full) : coalesce full kept summary xs = xs := if_pos h

theorem length_coalesce_le (hfull : full ≤ kept + 1) :
    (coalesce full kept summary xs).length ≤ kept + 1 := by
  rw [coalesce]
  split_ifs with h
  · omega
  · rw [List.length_append, List.length_take, List.length_singleton]
    omega

theorem coalesce_ne_nil (h : xs ≠ []) : coalesce full kept summary xs ≠ [] := by
  rw [coalesce]
  split_ifs
  · exact h
  · exact List.append_ne_nil_of_right_ne_nil _ (List.cons_ne_nil _ _)

theorem coalesce_snoc (x : A) :
    coalesce kept kept summary (xs ++ [x]) =
      if xs.length < kept then coalesce kept kept summary xs ++ [x]
      else xs.take kept ++ [summary (xs.length + 1 - kept)] := by
  rw [coalesce, List.length_append, List.length_singleton]
  by_cases h : xs.length < kept
  · rw [if_pos h, if_pos (show xs.length + 1 ≤ kept by omega), coalesce_of_le h.le]
  · rw [if_neg h, if_neg (show ¬ xs.length + 1 ≤ kept by omega),
      List.take_append_of_le_length (by omega)]

theorem length_coalesce_eq :
    (coalesce kept kept summary xs).length = if xs.length ≤ kept then xs.length else kept + 1 := by
  rw [coalesce]
  split_ifs with h
  · rfl
  · rw [List.length_append, List.length_take, List.length_singleton]
    omega

end Collections
end CmTrace
