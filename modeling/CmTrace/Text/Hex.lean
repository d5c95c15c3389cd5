import CmTrace.Text.Number

/-!
# Hexadecimal numbers

Numbers written with a fixed count of upper case digits read back as they were.
Decimal digits are hexadecimal digits too, and read in radix sixteen they stand
for a larger number.
-/

namespace CmTrace
namespace Text

/-- Digit of a value below sixteen, in upper case. -/
def hexUpper (d : Nat) : Char := (Nat.digitChar d).toUpper

def hexPadded : Nat → Nat → Text
  | 0, _ => []
  | width + 1, n => hexPadded width (n / 16) ++ [hexUpper (n % 16)]

@[simp] theorem length_hexPadded (width n : Nat) : (hexPadded width n).length = width := by
  induction width generalizing n with
  | zero => rfl
  | succ width ih => rw [hexPadded, List.length_append, ih, List.length_singleton]

theorem digit_hexUpper : ∀ {d : Nat}, d < 16 → digit 16 (hexUpper d) = some d := by
  decide

theorem mem_hexPadded {width n : Nat} {c : Char} (h : c ∈ hexPadded width n) :
    ∃ d < 16, c = hexUpper d := by
  induction width generalizing n with
  | zero => exact absurd h List.not_mem_nil
  | succ width ih =>
    rw [hexPadded, List.mem_append, List.mem_singleton] at h
    rcases h with h | h
    · exact ih h
    · exact ⟨n % 16, Nat.mod_lt n (by omega), h⟩

theorem digitsFrom_hexPadded {width limit n : Nat} (hwidth : n < 16 ^ width) (h : n ≤ limit) :
    digitsFrom 16 limit 0 (hexPadded width n) = some n := by
  induction width generalizing n with
  | zero =>
    have hzero : n = 0 := by omega
    rw [hzero]
    rfl
  | succ width ih =>
    have hvalue : n / 16 * 16 + n % 16 = n := by omega
    have hdiv : n / 16 < 16 ^ width := by
      rw [Nat.pow_succ] at hwidth
      omega
    rw [hexPadded, digitsFrom_append, ih hdiv (by omega), Option.bind_some, digitsFrom,
      digit_hexUpper (Nat.mod_lt n (by omega))]
    simp only [hvalue, if_pos h]
    rfl

theorem digitsFrom_of_digits {radix limit acc : Nat} {s : Text}
    (hdigits : ∀ c ∈ s, (digit radix c).isSome = true)
    (h : (acc + 1) * radix ^ s.length ≤ limit + 1) :
    ∃ n, digitsFrom radix limit acc s = some n := by
  induction s generalizing acc with
  | nil => exact ⟨acc, rfl⟩
  | cons c s ih =>
    obtain ⟨d, hd⟩ := Option.isSome_iff_exists.mp (hdigits c List.mem_cons_self)
    have hlt : d < radix := of_decide_eq_true (Option.filter_eq_some_iff.mp hd).2
    have hstep : acc * radix + d + 1 ≤ (acc + 1) * radix := by
      rw [Nat.add_mul]
      omega
    have hnext : (acc * radix + d + 1) * radix ^ s.length ≤ limit + 1 := by
      refine Nat.le_trans (Nat.mul_le_mul_right _ hstep) ?_
      rwa [Nat.mul_assoc, ← Nat.pow_succ']
    have hpos : 1 ≤ radix ^ s.length := Nat.pow_pos (by omega)
    have hfits : acc * radix + d ≤ limit := by
      have hle := Nat.le_mul_of_pos_right (acc * radix + d + 1) hpos
      omega
    rw [digitsFrom, hd]
    dsimp only
    rw [if_pos hfits]
    exact ih (fun c' hc' => hdigits c' (List.mem_cons_of_mem c hc')) hnext

/-! ## Decimal digits read in radix sixteen -/

/-- What the decimal digits of `n` say in radix sixteen. -/
def hexReading (n : Nat) : Nat := Nat.ofDigits 16 (Nat.digits 10 n)

theorem hexReading_of_pos {n : Nat} (h : 0 < n) :
    hexReading n = hexReading (n / 10) * 16 + n % 10 := by
  rw [hexReading, Nat.digits_def' (by omega) h, Nat.ofDigits_cons, hexReading]
  omega

theorem hexReading_of_lt {n : Nat} (h : n < 10) : hexReading n = n := by
  rcases Nat.eq_zero_or_pos n with rfl | hpos
  · rfl
  · have hzero : n / 10 = 0 := by omega
    rw [hexReading_of_pos hpos, hzero]
    show 0 * 16 + n % 10 = n
    omega

theorem le_hexReading (n : Nat) : n ≤ hexReading n := by
  induction n using Nat.strongRecOn with
  | ind n ih =>
    rcases Nat.eq_zero_or_pos n with rfl | hpos
    · exact Nat.zero_le _
    · have hstart := ih (n / 10) (by omega)
      rw [hexReading_of_pos hpos]
      omega

theorem lt_hexReading {n : Nat} (h : 10 ≤ n) : n < hexReading n := by
  have hstart := le_hexReading (n / 10)
  rw [hexReading_of_pos (by omega)]
  omega

theorem pow_le_hexReading {k n : Nat} (h : 10 ^ k ≤ n) : 16 ^ k ≤ hexReading n := by
  induction k generalizing n with
  | zero => exact Nat.le_trans h (le_hexReading n)
  | succ k ih =>
    have hten : 0 < 10 ^ k := Nat.pow_pos (by omega)
    rw [Nat.pow_succ] at h
    have hstart : 16 ^ k ≤ hexReading (n / 10) := ih (by omega)
    rw [hexReading_of_pos (by omega), Nat.pow_succ]
    omega

theorem hexReading_lt_pow {k n : Nat} (h : n < 10 ^ k) : hexReading n < 16 ^ k := by
  induction k generalizing n with
  | zero =>
    have hzero : n = 0 := by omega
    rw [hzero]
    decide
  | succ k ih =>
    rcases Nat.eq_zero_or_pos n with rfl | hpos
    · exact Nat.pow_pos (by omega)
    · rw [Nat.pow_succ] at h
      have hstart : hexReading (n / 10) < 16 ^ k := ih (by omega)
      rw [hexReading_of_pos hpos, Nat.pow_succ]
      omega

theorem digit_sixteen_digitChar : ∀ {d : Nat}, d < 10 → digit 16 (Nat.digitChar d) = some d := by
  decide

theorem digitsFrom_sixteen_decimal (limit n : Nat) :
    digitsFrom 16 limit 0 (decimal n) =
      if hexReading n ≤ limit then some (hexReading n) else none := by
  induction n using Nat.strongRecOn with
  | ind n ih =>
    rcases Nat.lt_or_ge n 10 with hlt | hge
    · rw [decimal, Nat.toDigits_of_lt_base hlt, digitsFrom, digit_sixteen_digitChar hlt,
        hexReading_of_lt hlt]
      simp only [Nat.zero_mul, Nat.zero_add]
      rfl
    · have hstart := ih (n / 10) (by omega)
      have hreading : hexReading n = hexReading (n / 10) * 16 + n % 10 :=
        hexReading_of_pos (by omega)
      rw [decimal] at hstart
      rw [decimal, Nat.toDigits_of_base_le (by omega) hge, digitsFrom_append, hstart, hreading]
      by_cases hle : hexReading (n / 10) ≤ limit
      · rw [if_pos hle, Option.bind_some, digitsFrom,
          digit_sixteen_digitChar (Nat.mod_lt n (by omega))]
        rfl
      · -- a reading past the limit stays past it
        rw [if_neg hle, if_neg (by omega)]
        rfl

/-! ## Lower case -/

def hexLower (width n : Nat) : Text :=
  List.replicate (width - (Nat.toDigits 16 n).length) '0' ++ Nat.toDigits 16 n

theorem mem_toDigits_sixteen {n : Nat} {c : Char} (h : c ∈ Nat.toDigits 16 n) :
    ∃ d < 16, c = Nat.digitChar d := by
  induction n using Nat.strongRecOn with
  | ind n ih =>
    rcases Nat.lt_or_ge n 16 with hlt | hge
    · rw [Nat.toDigits_of_lt_base hlt, List.mem_singleton] at h
      exact ⟨n, hlt, h⟩
    · rw [Nat.toDigits_of_base_le (by omega) hge, List.mem_append, List.mem_singleton] at h
      rcases h with h | h
      · exact ih (n / 16) (by omega) h
      · exact ⟨n % 16, Nat.mod_lt n (by omega), h⟩

theorem mem_hexLower {width n : Nat} {c : Char} (h : c ∈ hexLower width n) :
    ∃ d < 16, c = Nat.digitChar d := by
  rw [hexLower, List.mem_append] at h
  rcases h with h | h
  · exact ⟨0, by omega, (List.mem_replicate.mp h).2⟩
  · exact mem_toDigits_sixteen h

theorem length_hexLower {width n : Nat} (hwidth : 0 < width) (h : n < 16 ^ width) :
    (hexLower width n).length = width := by
  have hlen : (Nat.toDigits 16 n).length ≤ width :=
    (Nat.length_toDigits_le_iff (by omega) hwidth).mpr h
  rw [hexLower, List.length_append, List.length_replicate]
  omega

theorem digit_sixteen_lower : ∀ {d : Nat}, d < 16 → digit 16 (Nat.digitChar d) = some d := by
  decide

theorem digitsFrom_toDigits_sixteen {limit n : Nat} (h : n ≤ limit) :
    digitsFrom 16 limit 0 (Nat.toDigits 16 n) = some n := by
  induction n using Nat.strongRecOn with
  | ind n ih =>
    rcases Nat.lt_or_ge n 16 with hlt | hge
    · rw [Nat.toDigits_of_lt_base hlt, digitsFrom, digit_sixteen_lower hlt]
      simp only [Nat.zero_mul, Nat.zero_add, if_pos h]
      rfl
    · have hvalue : n / 16 * 16 + n % 16 = n := by omega
      rw [Nat.toDigits_of_base_le (by omega) hge, digitsFrom_append,
        ih (n / 16) (by omega) (by omega),
        Option.bind_some, digitsFrom, digit_sixteen_lower (Nat.mod_lt n (by omega))]
      simp only [hvalue, if_pos h]
      rfl

theorem digitsFrom_hexLower {width limit n : Nat} (h : n ≤ limit) :
    digitsFrom 16 limit 0 (hexLower width n) = some n := by
  have hzeros : ∀ k, digitsFrom 16 limit 0 (List.replicate k '0') = some 0 := by
    intro k
    induction k with
    | zero => rfl
    | succ k ih =>
      rw [List.replicate_succ, digitsFrom, show digit 16 '0' = some 0 from by decide]
      exact ih
  rw [hexLower, digitsFrom_append, hzeros, Option.bind_some, digitsFrom_toDigits_sixteen h]

end Text
end CmTrace
