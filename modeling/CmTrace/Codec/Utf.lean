import CmTrace.Codec.Prefix

/-!
# The UTF-8, UTF-16 and Windows-1252 codes

Each code is a `PrefixCode`.  UTF-8 accepts the well-formed sequences only: the
second byte of a sequence is bounded by its lead, which excludes overlong forms,
surrogates and values past U+10FFFF.  An ill-formed byte makes the sequence
invalid even when the bytes after it have not arrived.
-/

namespace CmTrace
namespace Codec

/-- What a UTF-8 lead byte announces: the continuation bytes to come, the range
of the first of them and the bits the lead contributes. -/
structure Utf8Lead where
  count : Nat
  lo : Nat
  hi : Nat
  bits : Nat
  deriving DecidableEq, Repr

def utf8Lead (b : Nat) : Option Utf8Lead :=
  if b < 0x80 then some ⟨0, 0x80, 0xBF, b⟩
  else if b < 0xC2 then none
  else if b < 0xE0 then some ⟨1, 0x80, 0xBF, b - 0xC0⟩
  else if b = 0xE0 then some ⟨2, 0xA0, 0xBF, 0⟩
  else if b = 0xED then some ⟨2, 0x80, 0x9F, 0xD⟩
  else if b < 0xF0 then some ⟨2, 0x80, 0xBF, b - 0xE0⟩
  else if b = 0xF0 then some ⟨3, 0x90, 0xBF, 0⟩
  else if b < 0xF4 then some ⟨3, 0x80, 0xBF, b - 0xF0⟩
  else if b = 0xF4 then some ⟨3, 0x80, 0x8F, 4⟩
  else none

/-- Read `count` continuation bytes, the first of them between `lo` and `hi`. -/
def utf8Tail : Nat → Nat → Nat → Nat → Nat → List UInt8 → Head Char
  | 0, _, _, bits, width, _ => .done (Char.ofNat bits) width
  | _ + 1, _, _, _, _, [] => .incomplete
  | count + 1, lo, hi, bits, width, b :: rest =>
    if lo ≤ b.toNat ∧ b.toNat ≤ hi then
      utf8Tail count 0x80 0xBF (bits * 64 + (b.toNat - 0x80)) (width + 1) rest
    else .invalid

def utf8Head : List UInt8 → Head Char
  | [] => .incomplete
  | b :: rest =>
    match utf8Lead b.toNat with
    | some lead => utf8Tail lead.count lead.lo lead.hi lead.bits 1 rest
    | none => .invalid

theorem utf8Tail_width : ∀ {count lo hi bits width n : Nat} {bs : List UInt8} {ch : Char},
    utf8Tail count lo hi bits width bs = .done ch n → n = width + count ∧ count ≤ bs.length
  | 0, _, _, _, _, _, _, _, h => by
    rw [utf8Tail] at h
    cases h
    exact ⟨rfl, Nat.zero_le _⟩
  | count + 1, _, _, _, _, _, [], _, h => by rw [utf8Tail] at h; cases h
  | count + 1, lo, hi, bits, width, n, b :: rest, ch, h => by
    rw [utf8Tail] at h
    split at h
    · have := utf8Tail_width h
      simp only [List.length_cons]
      omega
    · cases h

theorem utf8Tail_done_append : ∀ {count lo hi bits width n : Nat} {bs : List UInt8} {ch : Char}
    (cs : List UInt8), utf8Tail count lo hi bits width bs = .done ch n →
      utf8Tail count lo hi bits width (bs ++ cs) = .done ch n
  | 0, _, _, _, _, _, _, _, _, h => by rw [utf8Tail] at h ⊢; exact h
  | _ + 1, _, _, _, _, _, [], _, _, h => by rw [utf8Tail] at h; cases h
  | count + 1, lo, hi, bits, width, n, b :: rest, ch, cs, h => by
    rw [utf8Tail] at h
    rw [List.cons_append, utf8Tail]
    split at h
    · rename_i hb
      rw [if_pos hb]
      exact utf8Tail_done_append cs h
    · cases h

theorem utf8Tail_invalid_append : ∀ {count lo hi bits width : Nat} {bs : List UInt8}
    (cs : List UInt8), utf8Tail count lo hi bits width bs = .invalid →
      utf8Tail count lo hi bits width (bs ++ cs) = .invalid
  | 0, _, _, _, _, _, _, h => by rw [utf8Tail] at h; cases h
  | _ + 1, _, _, _, _, [], _, h => by rw [utf8Tail] at h; cases h
  | count + 1, lo, hi, bits, width, b :: rest, cs, h => by
    rw [utf8Tail] at h
    rw [List.cons_append, utf8Tail]
    split at h
    · rename_i hb
      rw [if_pos hb]
      exact utf8Tail_invalid_append cs h
    · rename_i hb
      rw [if_neg hb]

theorem utf8Tail_incomplete : ∀ {count lo hi bits width : Nat} {bs : List UInt8},
    utf8Tail count lo hi bits width bs = .incomplete → bs.length < count
  | 0, _, _, _, _, _, h => by rw [utf8Tail] at h; cases h
  | _ + 1, _, _, _, _, [], _ => by simp
  | count + 1, lo, hi, bits, width, b :: rest, h => by
    rw [utf8Tail] at h
    split at h
    · have := utf8Tail_incomplete h
      simp only [List.length_cons]
      omega
    · cases h

theorem utf8Lead_count {b : Nat} {lead : Utf8Lead} (h : utf8Lead b = some lead) :
    lead.count ≤ 3 := by
  unfold utf8Lead at h
  split_ifs at h <;> cases h <;> simp

theorem utf8Size_ofNat {n : Nat} (h : n < 0xD800 ∨ 0xDFFF < n ∧ n < 0x110000) :
    (Char.ofNat n).utf8Size =
      if n ≤ 0x7F then 1 else if n ≤ 0x7FF then 2 else if n ≤ 0xFFFF then 3 else 4 := by
  have hv : n.isValidChar := h
  have hn : (Char.ofNat n).val.toNat = n := by
    rw [Char.ofNat, dif_pos hv]
    rfl
  simp only [Char.utf8Size, UInt32.le_iff_toNat_le, hn, UInt32.toNat_ofNatLT]

theorem utf8Tail_range : ∀ {count bits width n : Nat} {bs : List UInt8} {ch : Char},
    utf8Tail count 0x80 0xBF bits width bs = .done ch n →
      ∃ v, ch = Char.ofNat v ∧ bits * 64 ^ count ≤ v ∧ v < (bits + 1) * 64 ^ count
  | 0, bits, _, _, _, _, h => by
    rw [utf8Tail] at h
    cases h
    exact ⟨bits, rfl, by omega, by omega⟩
  | count + 1, _, _, _, [], _, h => by rw [utf8Tail] at h; cases h
  | count + 1, bits, width, n, b :: rest, ch, h => by
    rw [utf8Tail] at h
    split at h
    · rename_i hb
      obtain ⟨v, hv, hlo, hhi⟩ := utf8Tail_range h
      have hpow : 0 < 64 ^ count := Nat.pow_pos (by omega)
      refine ⟨v, hv, ?_, ?_⟩
      · calc bits * 64 ^ (count + 1) = (bits * 64) * 64 ^ count := by rw [Nat.pow_succ]; ring
          _ ≤ (bits * 64 + (b.toNat - 0x80)) * 64 ^ count := Nat.mul_le_mul_right _ (by omega)
          _ ≤ v := hlo
      · calc v < (bits * 64 + (b.toNat - 0x80) + 1) * 64 ^ count := hhi
          _ ≤ ((bits + 1) * 64) * 64 ^ count := Nat.mul_le_mul_right _ (by omega)
          _ = (bits + 1) * 64 ^ (count + 1) := by rw [Nat.pow_succ]; ring
    · cases h

/-- A lead and the range of its first continuation byte fix the length of the
scalar's own encoding. -/
theorem utf8Head_utf8Size {bs : List UInt8} {ch : Char} {n : Nat}
    (h : utf8Head bs = .done ch n) : n = ch.utf8Size := by
  cases bs with
  | nil => cases h
  | cons b rest =>
    rw [utf8Head] at h
    split at h
    · rename_i lead hl
      have hn := (utf8Tail_width h).1
      unfold utf8Lead at hl
      have hb : b.toNat < 256 := b.toNat_lt
      split_ifs at hl <;> cases hl <;> simp only at h hn
      · rw [utf8Tail] at h
        cases h
        rw [utf8Size_ofNat (by omega)]
        split_ifs <;> omega
      all_goals
        cases rest with
        | nil => rw [utf8Tail] at h; cases h
        | cons c rest =>
          rw [utf8Tail] at h
          split at h
          · obtain ⟨v, rfl, hlo, hhi⟩ := utf8Tail_range h
            rw [utf8Size_ofNat (by omega)]
            split_ifs <;> omega
          · cases h
    · cases h

def utf8 : PrefixCode Char where
  head := utf8Head
  maxCarry := 3
  head_nil := rfl
  width_bound := by
    intro bs a n h
    cases bs with
    | nil => cases h
    | cons b rest =>
      rw [utf8Head] at h
      split at h
      · have := utf8Tail_width h
        simp only [List.length_cons]
        omega
      · cases h
  done_append := by
    intro bs a n cs h
    cases bs with
    | nil => cases h
    | cons b rest =>
      rw [utf8Head] at h
      rw [List.cons_append, utf8Head]
      split at h
      · exact utf8Tail_done_append cs h
      · cases h
  invalid_append := by
    intro bs cs h
    cases bs with
    | nil => cases h
    | cons b rest =>
      rw [utf8Head] at h
      rw [List.cons_append, utf8Head]
      split at h
      · exact utf8Tail_invalid_append cs h
      · rfl
  incomplete_length := by
    intro bs h
    cases bs with
    | nil => simp
    | cons b rest =>
      rw [utf8Head] at h
      split at h
      · rename_i lead hl
        have := utf8Tail_incomplete h
        have := utf8Lead_count hl
        simp only [List.length_cons]
        omega
      · cases h

theorem utf8_decode_utf8Size {bs : List UInt8} {items : List (Char × Nat)} {carry : List UInt8}
    (h : utf8.decode bs = some (items, carry)) :
    (items.map fun item => (item.1, item.1.utf8Size)) = items := by
  have hw := utf8.decode_forall (P := fun ch n => n = ch.utf8Size) utf8Head_utf8Size bs h
  calc (items.map fun item => (item.1, item.1.utf8Size)) = items.map id := by
        refine List.map_congr_left fun item hi => ?_
        rw [← hw item hi, id]
    _ = items := List.map_id items

/-- The first 16-bit unit of a sequence, in the byte order given. -/
def utf16Unit (le : Bool) (a b : UInt8) : Nat :=
  if le then a.toNat + 256 * b.toNat else 256 * a.toNat + b.toNat

def isHighSurrogate (unit : Nat) : Bool := decide (0xD800 ≤ unit ∧ unit ≤ 0xDBFF)

def isLowSurrogate (unit : Nat) : Bool := decide (0xDC00 ≤ unit ∧ unit ≤ 0xDFFF)

/-- A high surrogate is half an item: nothing is decided until its pair is
there, and any other unit than a low surrogate in that place is invalid. -/
def utf16Head (le : Bool) : List UInt8 → Head Char
  | [] => .incomplete
  | [_] => .incomplete
  | a :: b :: rest =>
    let first := utf16Unit le a b
    if isHighSurrogate first then
      match rest with
      | c :: d :: _ =>
        let second := utf16Unit le c d
        if isLowSurrogate second then
          .done (Char.ofNat (0x10000 + (first - 0xD800) * 0x400 + (second - 0xDC00))) 4
        else .invalid
      | _ => .incomplete
    else if isLowSurrogate first then .invalid
    else .done (Char.ofNat first) 2

theorem utf16Head_cases (le : Bool) (bs : List UInt8) :
    (bs.length ≤ 3 ∧ utf16Head le bs = .incomplete) ∨
    (∃ a b rest, bs = a :: b :: rest ∧ ∀ tail, utf16Head le (a :: b :: tail) = utf16Head le bs ∧
      (utf16Head le bs = .invalid ∨ ∃ ch, utf16Head le bs = .done ch 2)) ∨
    (∃ a b c d rest, bs = a :: b :: c :: d :: rest ∧
      ∀ tail, utf16Head le (a :: b :: c :: d :: tail) = utf16Head le bs ∧
      (utf16Head le bs = .invalid ∨ ∃ ch, utf16Head le bs = .done ch 4)) := by
  match bs with
  | [] => exact .inl ⟨by simp, rfl⟩
  | [_] => exact .inl ⟨by simp, rfl⟩
  | a :: b :: rest =>
    by_cases hh : isHighSurrogate (utf16Unit le a b) = true
    · match rest with
      | [] => exact .inl ⟨by simp, by simp only [utf16Head, hh, if_true]⟩
      | [_] => exact .inl ⟨by simp, by simp only [utf16Head, hh, if_true]⟩
      | c :: d :: rest =>
        refine .inr (.inr ⟨a, b, c, d, rest, rfl, fun tail => ?_⟩)
        simp only [utf16Head, hh, if_true]
        refine ⟨trivial, ?_⟩
        split
        · exact .inr ⟨_, rfl⟩
        · exact .inl rfl
    · refine .inr (.inl ⟨a, b, rest, rfl, fun tail => ?_⟩)
      simp only [utf16Head, hh, Bool.false_eq_true, if_false]
      refine ⟨trivial, ?_⟩
      split
      · exact .inl rfl
      · exact .inr ⟨_, rfl⟩

/-- The scalars of well-formed UTF-16, little-endian or big-endian. -/
def utf16 (le : Bool) : PrefixCode Char where
  head := utf16Head le
  maxCarry := 3
  head_nil := rfl
  width_bound := by
    intro bs a n h
    rcases utf16Head_cases le bs with
      ⟨_, hi⟩ | ⟨_, _, rest, rfl, ht⟩ | ⟨_, _, _, _, rest, rfl, ht⟩
    · rw [hi] at h; cases h
    all_goals
      rcases (ht []).2 with hi | ⟨ch, hd⟩
      · rw [hi] at h; cases h
      · rw [hd] at h
        cases h
        simp
  done_append := by
    intro bs a n cs h
    rcases utf16Head_cases le bs with
      ⟨_, hi⟩ | ⟨_, _, rest, rfl, ht⟩ | ⟨_, _, _, _, rest, rfl, ht⟩
    · rw [hi] at h; cases h
    all_goals
      rw [← h]
      exact (ht (rest ++ cs)).1
  invalid_append := by
    intro bs cs h
    rcases utf16Head_cases le bs with
      ⟨_, hi⟩ | ⟨_, _, rest, rfl, ht⟩ | ⟨_, _, _, _, rest, rfl, ht⟩
    · rw [hi] at h; cases h
    all_goals
      rw [← h]
      exact (ht (rest ++ cs)).1
  incomplete_length := by
    intro bs h
    rcases utf16Head_cases le bs with
      ⟨hl, _⟩ | ⟨_, _, rest, rfl, ht⟩ | ⟨_, _, _, _, rest, rfl, ht⟩
    · exact hl
    all_goals
      rcases (ht []).2 with hi | ⟨ch, hd⟩
      · rw [hi] at h; cases h
      · rw [hd] at h; cases h

/-- The code points of bytes 0x80 to 0x9F.  The five bytes the code page leaves
unassigned stand for the control of their own value. -/
def windows1252High : List Nat :=
  [0x20AC, 0x81, 0x201A, 0x0192, 0x201E, 0x2026, 0x2020, 0x2021,
   0x02C6, 0x2030, 0x0160, 0x2039, 0x0152, 0x8D, 0x017D, 0x8F,
   0x90, 0x2018, 0x2019, 0x201C, 0x201D, 0x2022, 0x2013, 0x2014,
   0x02DC, 0x2122, 0x0161, 0x203A, 0x0153, 0x9D, 0x017E, 0x0178]

def windows1252Char (b : UInt8) : Char :=
  if 0x80 ≤ b.toNat ∧ b.toNat ≤ 0x9F then
    Char.ofNat (windows1252High.getD (b.toNat - 0x80) 0)
  else Char.ofNat b.toNat

def windows1252 : PrefixCode Char where
  head
    | [] => .incomplete
    | b :: _ => .done (windows1252Char b) 1
  maxCarry := 0
  head_nil := rfl
  width_bound := by
    intro bs a n h
    cases bs with
    | nil => cases h
    | cons b rest => cases h; simp
  done_append := by
    intro bs a n cs h
    cases bs with
    | nil => cases h
    | cons b rest => exact h
  invalid_append := by
    intro bs cs h
    cases bs with
    | nil => cases h
    | cons b rest => cases h
  incomplete_length := by
    intro bs h
    cases bs with
    | nil => simp
    | cons b rest => cases h

theorem windows1252_decode (bs : List UInt8) :
    windows1252.decode bs = some (bs.map fun b => (windows1252Char b, 1), []) := by
  induction bs with
  | nil => rfl
  | cons b rest ih =>
    have hd : windows1252.head (b :: rest) = .done (windows1252Char b) 1 := rfl
    rw [windows1252.decode_done hd, List.drop_one, List.tail_cons, ih]
    rfl

end Codec
end CmTrace
