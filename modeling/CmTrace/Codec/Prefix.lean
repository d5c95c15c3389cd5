import Mathlib

/-!
# Codes read off the front of a byte sequence

A `PrefixCode` says what the first item of a byte sequence is, or that the bytes
are too few to tell, or that no continuation makes them valid.  Its laws are the
ones a resumable decoder rests on: a decision is not revised by bytes that
arrive later, and an undecided front is short.

`decode_append` is the theorem this file exists for: decoding what was left over
together with what came next gives the items that decoding everything at once
would have given.
-/

namespace CmTrace
namespace Codec

/-- What the front of a byte sequence decodes to. -/
inductive Head (α : Type) where
  | done (item : α) (width : Nat)
  | incomplete
  | invalid
  deriving DecidableEq, Repr

/-- A code whose items are read one at a time off the front of a sequence. -/
structure PrefixCode (α : Type) where
  head : List UInt8 → Head α
  /-- The longest front the code leaves undecided. -/
  maxCarry : Nat
  head_nil : head [] = .incomplete
  width_bound : ∀ {bs : List UInt8} {a : α} {n : Nat},
    head bs = .done a n → 0 < n ∧ n ≤ bs.length
  done_append : ∀ {bs : List UInt8} {a : α} {n : Nat} (cs : List UInt8),
    head bs = .done a n → head (bs ++ cs) = .done a n
  invalid_append : ∀ {bs : List UInt8} (cs : List UInt8),
    head bs = .invalid → head (bs ++ cs) = .invalid
  incomplete_length : ∀ {bs : List UInt8}, head bs = .incomplete → bs.length ≤ maxCarry

namespace PrefixCode

variable {α : Type} (c : PrefixCode α)

/-- Read items until the front is undecided, with their widths in bytes. -/
def decodeFuel : Nat → List UInt8 → Option (List (α × Nat) × List UInt8)
  | 0, bs => some ([], bs)
  | fuel + 1, bs =>
    match c.head bs with
    | .done a n =>
      match decodeFuel fuel (bs.drop n) with
      | some (items, carry) => some ((a, n) :: items, carry)
      | none => none
    | .incomplete => some ([], bs)
    | .invalid => none

/-- All the items of a sequence and the undecided rest, or nothing when an item
is invalid.  Every item takes a byte, so the length is fuel enough. -/
def decode (bs : List UInt8) : Option (List (α × Nat) × List UInt8) :=
  c.decodeFuel bs.length bs

theorem decodeFuel_nil (fuel : Nat) : c.decodeFuel fuel [] = some ([], []) := by
  cases fuel with
  | zero => rfl
  | succ fuel => rw [decodeFuel, c.head_nil]

theorem decodeFuel_congr (m : Nat) : ∀ (n : Nat) {bs : List UInt8},
    bs.length ≤ m → bs.length ≤ n → c.decodeFuel m bs = c.decodeFuel n bs := by
  induction m with
  | zero =>
    intro n bs hm _
    rw [List.eq_nil_of_length_eq_zero (Nat.le_zero.mp hm), decodeFuel_nil, decodeFuel_nil]
  | succ m ih =>
    intro n bs hm hn
    cases n with
    | zero =>
      rw [List.eq_nil_of_length_eq_zero (Nat.le_zero.mp hn), decodeFuel_nil, decodeFuel_nil]
    | succ n =>
      rw [decodeFuel, decodeFuel]
      cases hh : c.head bs with
      | incomplete => rfl
      | invalid => rfl
      | done a w =>
        have hw := c.width_bound hh
        have hdrop : (bs.drop w).length = bs.length - w := List.length_drop
        simp only
        rw [ih n (by omega) (by omega)]

theorem decode_nil : c.decode [] = some ([], []) := c.decodeFuel_nil 0

theorem decode_done {bs : List UInt8} {a : α} {w : Nat} (h : c.head bs = .done a w) :
    c.decode bs = (c.decode (bs.drop w)).map fun r => ((a, w) :: r.1, r.2) := by
  have hw := c.width_bound h
  have hdrop : (bs.drop w).length = bs.length - w := List.length_drop
  cases hn : bs.length with
  | zero => omega
  | succ n =>
    rw [decode, hn, decodeFuel, h]
    simp only
    rw [decode, c.decodeFuel_congr n (bs.drop w).length (by omega) (Nat.le_refl _)]
    cases c.decodeFuel (bs.drop w).length (bs.drop w) <;> rfl

theorem decode_incomplete {bs : List UInt8} (h : c.head bs = .incomplete) :
    c.decode bs = some ([], bs) := by
  rw [decode]
  cases bs.length with
  | zero => rfl
  | succ n => rw [decodeFuel, h]

theorem decode_invalid {bs : List UInt8} (h : c.head bs = .invalid) : c.decode bs = none := by
  cases bs with
  | nil => rw [c.head_nil] at h; cases h
  | cons b rest =>
    rw [decode, List.length_cons, decodeFuel, h]

/-- Decoding a front and then its undecided rest together with what follows is
decoding the whole at once. -/
theorem decode_append (bs cs : List UInt8) :
    c.decode (bs ++ cs) = (c.decode bs).bind fun r =>
      (c.decode (r.2 ++ cs)).map fun r' => (r.1 ++ r'.1, r'.2) := by
  induction hn : bs.length using Nat.strongRecOn generalizing bs with
  | ind n ih =>
    cases hh : c.head bs with
    | incomplete =>
      rw [c.decode_incomplete hh]
      cases h : c.decode (bs ++ cs) <;> simp [h]
    | invalid => rw [c.decode_invalid hh, c.decode_invalid (c.invalid_append cs hh)]; rfl
    | done a w =>
      have hw := c.width_bound hh
      have hdrop : (bs.drop w).length = bs.length - w := List.length_drop
      rw [c.decode_done (c.done_append cs hh), c.decode_done hh,
        List.drop_append_of_le_length hw.2, ih (bs.drop w).length (by omega) _ rfl]
      cases c.decode (bs.drop w) with
      | none => rfl
      | some r => cases h : c.decode (r.2 ++ cs) <;> simp [h]

theorem decode_carry (bs : List UInt8) {items : List (α × Nat)} {carry : List UInt8}
    (h : c.decode bs = some (items, carry)) : c.head carry = .incomplete := by
  induction hn : bs.length using Nat.strongRecOn generalizing bs items with
  | ind n ih =>
    cases hh : c.head bs with
    | incomplete =>
      rw [c.decode_incomplete hh] at h
      cases h
      exact hh
    | invalid => rw [c.decode_invalid hh] at h; cases h
    | done a w =>
      have hw := c.width_bound hh
      have hdrop : (bs.drop w).length = bs.length - w := List.length_drop
      rw [c.decode_done hh, Option.map_eq_some_iff] at h
      obtain ⟨r, hr, he⟩ := h
      cases he
      exact ih (bs.drop w).length (by omega) (bs.drop w) hr rfl

theorem decode_carry_length {bs : List UInt8} {items : List (α × Nat)} {carry : List UInt8}
    (h : c.decode bs = some (items, carry)) : carry.length ≤ c.maxCarry :=
  c.incomplete_length (c.decode_carry bs h)

theorem decode_forall {P : α → Nat → Prop}
    (hP : ∀ {bs : List UInt8} {a : α} {n : Nat}, c.head bs = .done a n → P a n)
    (bs : List UInt8) {items : List (α × Nat)} {carry : List UInt8}
    (h : c.decode bs = some (items, carry)) : ∀ item ∈ items, P item.1 item.2 := by
  induction hn : bs.length using Nat.strongRecOn generalizing bs items with
  | ind n ih =>
    cases hh : c.head bs with
    | incomplete =>
      rw [c.decode_incomplete hh] at h
      cases h
      simp
    | invalid => rw [c.decode_invalid hh] at h; cases h
    | done a w =>
      have hw := c.width_bound hh
      have hdrop : (bs.drop w).length = bs.length - w := List.length_drop
      rw [c.decode_done hh, Option.map_eq_some_iff] at h
      obtain ⟨r, hr, he⟩ := h
      cases he
      intro item hi
      rcases List.mem_cons.mp hi with rfl | hi
      · exact hP hh
      · exact ih (bs.drop w).length (by omega) (bs.drop w) hr rfl item hi

theorem decode_widths (bs : List UInt8) {items : List (α × Nat)} {carry : List UInt8}
    (h : c.decode bs = some (items, carry)) :
    (items.map Prod.snd).sum + carry.length = bs.length := by
  induction hn : bs.length using Nat.strongRecOn generalizing bs items with
  | ind n ih =>
    cases hh : c.head bs with
    | incomplete =>
      rw [c.decode_incomplete hh] at h
      cases h
      simpa using hn
    | invalid => rw [c.decode_invalid hh] at h; cases h
    | done a w =>
      have hw := c.width_bound hh
      have hdrop : (bs.drop w).length = bs.length - w := List.length_drop
      rw [c.decode_done hh, Option.map_eq_some_iff] at h
      obtain ⟨r, hr, he⟩ := h
      cases he
      have hrec := ih (bs.drop w).length (by omega) (bs.drop w) hr rfl
      rw [List.map_cons, List.sum_cons]
      omega

theorem decode_unread {bs : List UInt8} {carry : List UInt8}
    (h : c.decode bs = some ([], carry)) : carry = bs := by
  cases hh : c.head bs with
  | incomplete =>
    rw [c.decode_incomplete hh] at h
    cases h
    rfl
  | invalid => rw [c.decode_invalid hh] at h; cases h
  | done a w =>
    rw [c.decode_done hh, Option.map_eq_some_iff] at h
    obtain ⟨_, -, he⟩ := h
    cases he

end PrefixCode
end Codec
end CmTrace
