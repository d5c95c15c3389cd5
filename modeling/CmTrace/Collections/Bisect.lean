import Mathlib.Data.List.TakeWhile

/-!
# Binary search

The first place of a range from which on a condition holds, found by halving the
range.  In a list whose elements keep the condition once one has it, the elements
before that place are those without it.
-/

namespace CmTrace
namespace Collections

/-- The place where `stops` begins to hold, between `lo` and `hi`. -/
def bisect (stops : Nat → Bool) (lo hi : Nat) : Nat :=
  if lo < hi then
    if stops ((lo + hi) / 2) then bisect stops lo ((lo + hi) / 2)
    else bisect stops ((lo + hi) / 2 + 1) hi
  else lo
termination_by hi - lo

/-- Below `lo` the condition does not hold, from `hi` on it does. -/
structure Brackets (stops : Nat → Bool) (n lo hi : Nat) : Prop where
  le : lo ≤ hi
  below : ∀ i < lo, stops i = false
  above : ∀ i, hi ≤ i → i < n → stops i = true

variable {stops : Nat → Bool} {n : Nat}

theorem Brackets.halve {lo hi : Nat} (h : Brackets stops n lo hi) (hlt : lo < hi) (hhi : hi ≤ n)
    (hmono : ∀ i j, i ≤ j → j < n → stops i = true → stops j = true) :
    if stops ((lo + hi) / 2) then Brackets stops n lo ((lo + hi) / 2)
    else Brackets stops n ((lo + hi) / 2 + 1) hi := by
  have hmid : lo ≤ (lo + hi) / 2 ∧ (lo + hi) / 2 < hi := by omega
  split_ifs with hstop
  · refine ⟨hmid.1, h.below, fun i hi' hn => ?_⟩
    exact hmono _ i hi' hn hstop
  · refine ⟨hmid.2, fun i hi' => ?_, h.above⟩
    by_contra htrue
    rw [Bool.not_eq_false] at htrue
    exact hstop (hmono i _ (Nat.lt_succ_iff.mp hi') (by omega) htrue)

theorem bisect_brackets {lo hi : Nat} (h : Brackets stops n lo hi) (hhi : hi ≤ n)
    (hmono : ∀ i j, i ≤ j → j < n → stops i = true → stops j = true) :
    bisect stops lo hi ≤ hi ∧ Brackets stops n (bisect stops lo hi) (bisect stops lo hi) := by
  fun_induction bisect stops lo hi with
  | case1 lo hi hlt hstop ih =>
    have hhalf := h.halve hlt hhi hmono
    rw [if_pos hstop] at hhalf
    obtain ⟨hle, hbrackets⟩ := ih hhalf (by omega)
    exact ⟨by omega, hbrackets⟩
  | case2 lo hi hlt hstop ih =>
    have hhalf := h.halve hlt hhi hmono
    rw [if_neg hstop] at hhalf
    exact ih hhalf hhi
  | case3 lo hi hlt =>
    obtain rfl := Nat.le_antisymm h.le (Nat.not_lt.mp hlt)
    exact ⟨Nat.le_refl lo, h⟩

section Lists

variable {A : Type} {stop : A → Bool} {xs : List A}

/-- Whether the element at a place has the condition. -/
def stopsAt (stop : A → Bool) (xs : List A) (i : Nat) : Bool := xs[i]?.any stop

theorem bisect_splits (hsorted : xs.Pairwise fun a b => stop a = true → stop b = true) {m : Nat}
    (hm : m ≤ xs.length) :
    bisect (stopsAt stop xs) 0 m ≤ m ∧
      (∀ x ∈ xs.take (bisect (stopsAt stop xs) 0 m), stop x = false) ∧
      ∀ x ∈ (xs.take m).drop (bisect (stopsAt stop xs) 0 m), stop x = true := by
  have hmono : ∀ i j, i ≤ j → j < m → stopsAt stop xs i = true → stopsAt stop xs j = true := by
    intro i j hij hj hi
    rw [stopsAt, List.getElem?_eq_getElem (by omega)] at hi ⊢
    rcases Nat.lt_or_eq_of_le hij with hlt | rfl
    · exact List.pairwise_iff_getElem.mp hsorted i j _ _ hlt hi
    · exact hi
  obtain ⟨hle, hbrackets⟩ := bisect_brackets (n := m)
    ⟨Nat.zero_le _, fun i hi => absurd hi (Nat.not_lt_zero i),
      fun i hi hn => absurd hn (Nat.not_lt.mpr hi)⟩ (Nat.le_refl _) hmono
  refine ⟨hle, fun x hx => ?_, fun x hx => ?_⟩
  · obtain ⟨i, hi, rfl⟩ := List.mem_iff_getElem.mp hx
    rw [List.length_take] at hi
    have hbelow := hbrackets.below i (by omega)
    rw [stopsAt, List.getElem?_eq_getElem (by omega)] at hbelow
    rw [List.getElem_take]
    exact hbelow
  · obtain ⟨i, hi, rfl⟩ := List.mem_iff_getElem.mp hx
    rw [List.length_drop, List.length_take] at hi
    have habove := hbrackets.above _ (Nat.le_add_right _ i) (by omega)
    rw [stopsAt, List.getElem?_eq_getElem (by omega)] at habove
    rw [List.getElem_drop, List.getElem_take]
    exact habove

end Lists

end Collections
end CmTrace
