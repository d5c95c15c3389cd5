import CmTrace.Collections.SortKeys
import CmTrace.Text.Basic

/-!
# The order of the bytes of a text

The UTF-8 forms of two texts compare byte by byte as the texts do character by
character.
-/

namespace CmTrace
namespace Text

open Std Collections

def utf8Bytes (s : Text) : List UInt8 := s.flatMap String.utf8EncodeChar

abbrev byteOrder : UInt8 → UInt8 → Ordering := compare

theorem compare_ofNat_lt {a b : Nat} (ha : a < 256) (hb : b < 256) (h : a < b) :
    byteOrder (.ofNat a) (.ofNat b) = .lt := by
  rw [byteOrder, Std.compare_eq_lt, UInt8.lt_iff_toNat_lt, UInt8.toNat_ofNat', UInt8.toNat_ofNat']
  omega

def codeBytes (v : Nat) : List Nat :=
  if v ≤ 0x7f then [v]
  else if v ≤ 0x7ff then [v / 64 + 0xc0, v % 64 + 0x80]
  else if v ≤ 0xffff then [v / 4096 + 0xe0, v / 64 % 64 + 0x80, v % 64 + 0x80]
  else [v / 262144 + 0xf0, v / 4096 % 64 + 0x80, v / 64 % 64 + 0x80, v % 64 + 0x80]

theorem toNat_lt_size (c : Char) : c.toNat < 0x110000 := by
  have hvalid : c.toNat < 0xd800 ∨ 0xdfff < c.toNat ∧ c.toNat < 0x110000 := c.valid
  omega

theorem utf8EncodeChar_eq (c : Char) :
    String.utf8EncodeChar c = (codeBytes c.toNat).map UInt8.ofNat := by
  have hlt := toNat_lt_size c
  have hval : c.val.toNat = c.toNat := rfl
  simp only [String.utf8EncodeChar, hval, codeBytes]
  split_ifs with h1 h2 h3
  · rfl
  · rw [Nat.mod_eq_of_lt (by omega : c.toNat / 64 < 0x20)]
    rfl
  · rw [Nat.mod_eq_of_lt (by omega : c.toNat / 4096 < 0x10)]
    rfl
  · rw [Nat.mod_eq_of_lt (by omega : c.toNat / 262144 < 0x08)]
    rfl

/-- Lists of numbers of which one is less at the first difference within both. -/
inductive LessAt : List Nat → List Nat → Prop
  | here {a b : Nat} (xs ys : List Nat) (h : a < b) : LessAt (a :: xs) (b :: ys)
  | later {xs ys : List Nat} (a : Nat) (h : LessAt xs ys) : LessAt (a :: xs) (a :: ys)

theorem LessAt.lex {xs ys : List Nat} (h : LessAt xs ys) (hxs : ∀ a ∈ xs, a < 256)
    (hys : ∀ b ∈ ys, b < 256) (s t : List UInt8) :
    List.compareLex byteOrder (xs.map UInt8.ofNat ++ s) (ys.map UInt8.ofNat ++ t) = .lt := by
  induction h with
  | here xs ys h =>
    have hlt := compare_ofNat_lt (hxs _ List.mem_cons_self) (hys _ List.mem_cons_self) h
    rw [List.map_cons, List.map_cons, List.cons_append, List.cons_append,
      List.compareLex_cons_cons, hlt]
    rfl
  | later a h ih =>
    rw [List.map_cons, List.map_cons, List.cons_append, List.cons_append, compareLex_cons_self]
    exact ih (fun b hb => hxs b (List.mem_cons_of_mem a hb))
      fun b hb => hys b (List.mem_cons_of_mem a hb)

theorem codeBytes_lt_256 {v : Nat} (h : v < 0x110000) : ∀ b ∈ codeBytes v, b < 256 := by
  rw [codeBytes]
  split_ifs with h1 h2 h3
  · simp only [List.mem_singleton]
    omega
  all_goals
    simp only [List.mem_cons, List.not_mem_nil, or_false]
    omega

theorem lessAt_digits_one {v w : Nat} (h : v < w) (hdiv : v / 64 = w / 64) :
    LessAt [v % 64 + 0x80] [w % 64 + 0x80] := .here _ _ (by omega)

theorem lessAt_digits_two {v w : Nat} (h : v < w) (hdiv : v / 4096 = w / 4096) :
    LessAt [v / 64 % 64 + 0x80, v % 64 + 0x80] [w / 64 % 64 + 0x80, w % 64 + 0x80] := by
  by_cases hone : v / 64 = w / 64
  · rw [hone]
    exact .later _ (lessAt_digits_one h hone)
  · exact .here _ _ (by omega)

theorem lessAt_digits_three {v w : Nat} (h : v < w) (hdiv : v / 262144 = w / 262144) :
    LessAt [v / 4096 % 64 + 0x80, v / 64 % 64 + 0x80, v % 64 + 0x80]
      [w / 4096 % 64 + 0x80, w / 64 % 64 + 0x80, w % 64 + 0x80] := by
  by_cases htwo : v / 4096 = w / 4096
  · rw [htwo]
    exact .later _ (lessAt_digits_two h htwo)
  · exact .here _ _ (by omega)

theorem codeBytes_lessAt {v w : Nat} (h : v < w) (hw : w < 0x110000) :
    LessAt (codeBytes v) (codeBytes w) := by
  rw [codeBytes, codeBytes]
  split_ifs
  all_goals first
    | exact .here _ _ (by omega)
    | omega
    | skip
  · by_cases hlead : v / 64 = w / 64
    · rw [hlead]
      exact .later _ (lessAt_digits_one h hlead)
    · exact .here _ _ (by omega)
  · by_cases hlead : v / 4096 = w / 4096
    · rw [hlead]
      exact .later _ (lessAt_digits_two h hlead)
    · exact .here _ _ (by omega)
  · by_cases hlead : v / 262144 = w / 262144
    · rw [hlead]
      exact .later _ (lessAt_digits_three h hlead)
    · exact .here _ _ (by omega)

theorem compare_char (c d : Char) : compare c d = compare c.toNat d.toNat := by
  rcases Nat.lt_trichotomy c.toNat d.toNat with h | h | h
  · rw [Nat.compare_eq_lt.mpr h]
    exact compare_lt_iff_lt.mpr h
  · obtain rfl := Char.toNat_inj.mp h
    rw [Nat.compare_eq_eq.mpr rfl]
    exact cmp_self compare c
  · rw [Nat.compare_eq_gt.mpr h]
    exact compare_gt_iff_gt.mpr h

theorem decides_utf8EncodeChar :
    Decides byteOrder (fun _ => True) compare String.utf8EncodeChar := by
  have hless : ∀ c d : Char, c.toNat < d.toNat → ∀ s t, List.compareLex byteOrder
      (String.utf8EncodeChar c ++ s) (String.utf8EncodeChar d ++ t) = .lt := by
    intro c d h s t
    rw [utf8EncodeChar_eq, utf8EncodeChar_eq]
    exact (codeBytes_lessAt h (toNat_lt_size d)).lex (codeBytes_lt_256 (toNat_lt_size c))
      (codeBytes_lt_256 (toNat_lt_size d)) s t
  intro c d _ _ s t
  rw [compare_char]
  rcases Nat.lt_trichotomy c.toNat d.toNat with h | h | h
  · rw [Nat.compare_eq_lt.mpr h, hless c d h]
    rfl
  · obtain rfl := Char.toNat_inj.mp h
    rw [Nat.compare_eq_eq.mpr rfl, Decides.compareLex_append_left]
    rfl
  · rw [Nat.compare_eq_gt.mpr h, cmp_swap (List.compareLex byteOrder), hless d c h]
    rfl

theorem compare_utf8Bytes (a b : Text) : compare (utf8Bytes a) (utf8Bytes b) = compare a b := by
  show List.compareLex byteOrder (utf8Bytes a) (utf8Bytes b) = List.compareLex compare a b
  induction a generalizing b with
  | nil =>
    cases b with
    | nil => rfl
    | cons d b =>
      rw [utf8Bytes, utf8Bytes, List.flatMap_cons]
      cases hbytes : String.utf8EncodeChar d with
      | nil => exact absurd hbytes String.utf8EncodeChar_ne_nil
      | cons byte bytes => rfl
  | cons c a ih =>
    cases b with
    | nil =>
      rw [utf8Bytes, utf8Bytes, List.flatMap_cons]
      cases hbytes : String.utf8EncodeChar c with
      | nil => exact absurd hbytes String.utf8EncodeChar_ne_nil
      | cons byte bytes => rfl
    | cons d b =>
      have hrest := ih b
      rw [utf8Bytes, utf8Bytes] at hrest
      rw [utf8Bytes, utf8Bytes, List.flatMap_cons, List.flatMap_cons,
        decides_utf8EncodeChar c d trivial trivial, hrest, List.compareLex_cons_cons]

end Text
end CmTrace
