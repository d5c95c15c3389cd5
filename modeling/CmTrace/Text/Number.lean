import CmTrace.Machine
import CmTrace.Text.Basic

/-!
# Reading and writing numbers

Unsigned integers are read in the forms the standard parser accepts: an optional
plus sign and at least one digit, with a value inside the type.
-/

namespace CmTrace
namespace Text

def digit (radix : Nat) (c : Char) : Option Nat :=
  let n := c.toNat
  let v := if 48 ≤ n ∧ n ≤ 57 then some (n - 48)
    else if 97 ≤ n ∧ n ≤ 102 then some (n - 87)
    else if 65 ≤ n ∧ n ≤ 70 then some (n - 55)
    else none
  v.filter fun d => d < radix

def digitsFrom (radix limit : Nat) : Nat → Text → Option Nat
  | acc, [] => some acc
  | acc, c :: rest =>
    match digit radix c with
    | some d =>
      if acc * radix + d ≤ limit then digitsFrom radix limit (acc * radix + d) rest else none
    | none => none

/-- An unsigned integer of a type whose largest value is `limit`. -/
def parseUnsigned (radix limit : Nat) (s : Text) : Option Nat :=
  match s with
  | [] => none
  | '+' :: rest => if rest = [] then none else digitsFrom radix limit 0 rest
  | s => digitsFrom radix limit 0 s

def decimal (n : Nat) : Text := Nat.toDigits 10 n

theorem decimal_injective : Function.Injective decimal := by
  intro m n h
  have hvalue := congrArg (Nat.ofDigitChars 10 · 0) h
  simpa only [decimal, Nat.ofDigitChars_ten_toDigits] using hvalue

theorem not_mem_decimal {c : Char} (h : c.isDigit = false) (n : Nat) : c ∉ decimal n := by
  intro hmem
  have hdigit : c.isDigit = true := Nat.isDigit_of_mem_toDigits (by omega) (by omega) hmem
  rw [h] at hdigit
  cases hdigit

/-! ## Numbers read as they were written -/

theorem digitsFrom_append (radix limit acc : Nat) (a b : Text) :
    digitsFrom radix limit acc (a ++ b) =
      (digitsFrom radix limit acc a).bind fun acc => digitsFrom radix limit acc b := by
  induction a generalizing acc with
  | nil => rfl
  | cons c rest ih =>
    rw [List.cons_append, digitsFrom, digitsFrom]
    cases digit radix c with
    | none => rfl
    | some d =>
      dsimp only
      split_ifs
      · exact ih _
      · rfl

theorem digit_digitChar : ∀ {d : Nat}, d < 10 → digit 10 (Nat.digitChar d) = some d := by
  decide

theorem digitsFrom_decimal {limit : Nat} (n : Nat) (h : n ≤ limit) :
    digitsFrom 10 limit 0 (decimal n) = some n := by
  induction n using Nat.strongRecOn with
  | ind n ih =>
    rcases Nat.lt_or_ge n 10 with hlt | hge
    · rw [decimal, Nat.toDigits_of_lt_base hlt, digitsFrom, digit_digitChar hlt]
      simp only [Nat.zero_mul, Nat.zero_add, if_pos h]
      rfl
    · have hdiv : n / 10 < n := Nat.div_lt_self (by omega) (by omega)
      have hvalue : n / 10 * 10 + n % 10 = n := by omega
      have hstart := ih (n / 10) hdiv (by omega)
      rw [decimal] at hstart
      rw [decimal, Nat.toDigits_of_base_le (by omega) hge, digitsFrom_append, hstart,
        Option.bind_some, digitsFrom, digit_digitChar (Nat.mod_lt n (by omega))]
      simp only [hvalue, if_pos h]
      rfl

theorem decimal_ne_nil (n : Nat) : decimal n ≠ [] := Nat.toDigits_ne_nil

theorem parseUnsigned_of_not_mem {radix limit : Nat} {s : Text} (hne : s ≠ []) (hplus : '+' ∉ s) :
    parseUnsigned radix limit s = digitsFrom radix limit 0 s := by
  cases s with
  | nil => exact absurd rfl hne
  | cons c rest =>
    have hc : c ≠ '+' := fun heq => hplus (by rw [heq]; exact List.mem_cons_self)
    rw [parseUnsigned]
    · intro heq
      cases heq
    · intro rest' heq
      exact hc (List.cons.inj heq).1

theorem digitsFrom_le {radix limit acc n : Nat} {s : Text} (hacc : acc ≤ limit)
    (h : digitsFrom radix limit acc s = some n) : n ≤ limit := by
  induction s generalizing acc with
  | nil =>
    rw [digitsFrom, Option.some_inj] at h
    exact h ▸ hacc
  | cons c rest ih =>
    rw [digitsFrom] at h
    cases hd : digit radix c with
    | none =>
      rw [hd] at h
      cases h
    | some d =>
      rw [hd] at h
      dsimp only at h
      by_cases hle : acc * radix + d ≤ limit
      · rw [if_pos hle] at h
        exact ih hle h
      · rw [if_neg hle] at h
        cases h

theorem parseUnsigned_le {radix limit n : Nat} {s : Text}
    (h : parseUnsigned radix limit s = some n) : n ≤ limit := by
  unfold parseUnsigned at h
  split at h
  · cases h
  · split_ifs at h
    exact digitsFrom_le (Nat.zero_le _) h
  · exact digitsFrom_le (Nat.zero_le _) h

theorem parseUnsigned_decimal {limit n : Nat} (h : n ≤ limit) :
    parseUnsigned 10 limit (decimal n) = some n := by
  rw [parseUnsigned_of_not_mem (decimal_ne_nil n) (not_mem_decimal (by decide) n),
    digitsFrom_decimal n h]

end Text
end CmTrace
