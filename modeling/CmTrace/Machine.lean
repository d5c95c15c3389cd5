import Mathlib

/-!
# Machine integers and fallible steps

Counters of the program are natural numbers.  Where the program saturates, the
limit of its type is written out.  A fallible step is an `Except`, taken apart
by the two rules at the end.
-/

namespace CmTrace

def u8Max : Nat := 2 ^ 8 - 1
def u16Max : Nat := 2 ^ 16 - 1
def u32Max : Nat := 2 ^ 32 - 1
def u64Max : Nat := 2 ^ 64 - 1

/-- Addition in a type whose largest value is `limit`. -/
def saturatingAdd (limit a b : Nat) : Nat := min (a + b) limit

theorem saturatingAdd_zero {limit a : Nat} (h : a ≤ limit) : saturatingAdd limit a 0 = a :=
  Nat.min_eq_left h

theorem saturatingAdd_le (limit a b : Nat) : saturatingAdd limit a b ≤ limit :=
  Nat.min_le_right _ _

theorem bind_ok {ε α β : Type} {x : Except ε α} {f : α → Except ε β} {b : β} :
    x >>= f = .ok b ↔ ∃ a, x = .ok a ∧ f a = .ok b := by
  cases x with
  | error e => simp [bind, Except.bind]
  | ok a => simp [bind, Except.bind]

theorem bind_error {ε α β : Type} {x : Except ε α} {f : α → Except ε β} {e : ε} :
    x >>= f = .error e ↔ x = .error e ∨ ∃ a, x = .ok a ∧ f a = .error e := by
  cases x with
  | error e' => simp [bind, Except.bind]
  | ok a => simp [bind, Except.bind]

theorem pure_ok {ε α : Type} {a b : α} : (pure a : Except ε α) = .ok b ↔ a = b := by
  simp [pure, Except.pure]

end CmTrace
