import CmTrace.Collections.Sorted
import CmTrace.Codec.Utf
import CmTrace.Text.Number

/-!
# Texts of the client

A text of the client is a sequence of UTF-16 units, compared unit by unit; a
surrogate in it need not have its other half.  Keys are made of parts that a
length in UTF-8 precedes, so that no two lists of parts have one key.
-/

namespace CmTrace
namespace Js

open Std Text Collections Codec

abbrev JsString := List UInt16

instance : LawfulBEq JsString := inferInstance

/-- The unit of a character of the basic plane. -/
def unit (c : Char) : UInt16 := .ofNat c.toNat

def js (s : String) : JsString := s.toList.map unit

abbrev unitOrder : UInt16 → UInt16 → Ordering := compare

abbrev compareStrings : JsString → JsString → Ordering := List.compareLex unitOrder

def isHigh (u : UInt16) : Bool := isHighSurrogate u.toNat

def isLow (u : UInt16) : Bool := isLowSurrogate u.toNat

/-- The size of a unit that is not half of a pair; what has no other half is
replaced. -/
def unitBytes (u : UInt16) : Nat :=
  if u.toNat < 0x80 then 1 else if u.toNat < 0x800 then 2 else 3

def utf8Length : JsString → Nat
  | [] => 0
  | [u] => unitBytes u
  | u :: v :: rest =>
    if isHigh u && isLow v then 4 + utf8Length rest else unitBytes u + utf8Length (v :: rest)

def digits (n : Nat) : JsString := (decimal n).map unit

def keyPart (value : JsString) : JsString := digits (utf8Length value) ++ unit ':' :: value

def joinWith (separator : UInt16) : List JsString → JsString
  | [] => []
  | [s] => s
  | s :: t :: rest => s ++ separator :: joinWith separator (t :: rest)

def keyOf (parts : List JsString) : JsString := joinWith (unit '|') (parts.map keyPart)

/-! ## Keys -/

theorem unitBytes_le (u : UInt16) : 1 ≤ unitBytes u ∧ unitBytes u ≤ 3 := by
  rw [unitBytes]
  split_ifs <;> omega

theorem utf8Length_pos : ∀ {s : JsString}, s ≠ [] → 0 < utf8Length s
  | [], h => absurd rfl h
  | [u], _ => (unitBytes_le u).1
  | u :: v :: rest, _ => by
    have hu := (unitBytes_le u).1
    rw [utf8Length]
    split_ifs <;> omega

theorem utf8Length_append_lt : ∀ (a : JsString) {t : JsString}, t ≠ [] →
    utf8Length a < utf8Length (a ++ t)
  | [], _, ht => utf8Length_pos ht
  | [u], [], ht => absurd rfl ht
  | [u], v :: t, _ => by
    have hu := (unitBytes_le u).2
    have hv := utf8Length_pos (List.cons_ne_nil v t)
    rw [List.singleton_append, utf8Length, utf8Length]
    split_ifs <;> omega
  | u :: v :: a, t, ht => by
    have hpair := utf8Length_append_lt a ht
    have hsingle := utf8Length_append_lt (v :: a) ht
    rw [List.cons_append, List.cons_append, utf8Length, utf8Length]
    split_ifs
    · omega
    · rw [List.cons_append] at hsingle
      omega

theorem append_inj_of_utf8Length {a b x y : JsString} (h : a ++ x = b ++ y)
    (hlen : utf8Length a = utf8Length b) : a = b ∧ x = y := by
  have hpre : ∀ {a b x y : JsString}, a ++ x = b ++ y → utf8Length a = utf8Length b →
      a.length ≤ b.length → a = b := by
    intro a b x y h hlen hle
    obtain ⟨t, rfl⟩ := List.prefix_of_prefix_length_le (List.prefix_append a x)
      (h ▸ List.prefix_append b y) hle
    cases t with
    | nil => rw [List.append_nil]
    | cons u t =>
      have hlt := utf8Length_append_lt a (List.cons_ne_nil u t)
      omega
  have hab : a = b := by
    rcases le_total a.length b.length with hle | hle
    · exact hpre h hlen hle
    · exact (hpre h.symm hlen.symm hle).symm
  subst hab
  exact ⟨rfl, List.append_cancel_left h⟩

theorem unit_injective {c d : Char} (hc : c.toNat < 0x10000) (hd : d.toNat < 0x10000)
    (h : unit c = unit d) : c = d := by
  have hnat := congrArg UInt16.toNat h
  rw [unit, unit, UInt16.toNat_ofNat', UInt16.toNat_ofNat', Nat.mod_eq_of_lt hc, Nat.mod_eq_of_lt hd]
    at hnat
  exact Char.ext (UInt32.toNat_inj.mp hnat)

theorem toNat_lt_of_isDigit {c : Char} (h : c.isDigit = true) : c.toNat < 0x10000 := by
  rw [Char.isDigit, Bool.and_eq_true, decide_eq_true_eq, decide_eq_true_eq] at h
  have hle : c.toNat ≤ 57 := UInt32.le_iff_toNat_le.mp h.2
  omega

theorem isDigit_of_mem_decimal {c : Char} {n : Nat} (h : c ∈ decimal n) : c.isDigit = true :=
  Nat.isDigit_of_mem_toDigits (by omega) (by omega) h

theorem map_digits (n : Nat) : (digits n).map (fun u => Char.ofNat u.toNat) = decimal n := by
  rw [digits, List.map_map]
  refine (List.map_congr_left fun c hc => ?_).trans (List.map_id _)
  have hlt := toNat_lt_of_isDigit (isDigit_of_mem_decimal hc)
  rw [Function.comp_apply, unit, UInt16.toNat_ofNat', Nat.mod_eq_of_lt hlt, Char.ofNat_toNat]
  rfl

theorem digits_injective : Function.Injective digits := by
  intro m n h
  have hmap := congrArg (List.map fun u => Char.ofNat u.toNat) h
  rw [map_digits, map_digits] at hmap
  exact decimal_injective hmap

theorem not_mem_digits {c : Char} (hdigit : c.isDigit = false) (hc : c.toNat < 0x10000) (n : Nat) :
    unit c ∉ digits n := by
  intro hmem
  obtain ⟨d, hd, hunit⟩ := List.mem_map.mp hmem
  have hd := isDigit_of_mem_decimal hd
  rw [unit_injective (toNat_lt_of_isDigit hd) hc hunit, hdigit] at hd
  cases hd

theorem append_cons_inj {u : UInt16} {a b x y : JsString} (ha : u ∉ a) (hb : u ∉ b)
    (h : a ++ u :: x = b ++ u :: y) : a = b ∧ x = y := by
  induction a generalizing b with
  | nil => cases b with
    | nil => exact ⟨rfl, (List.cons.inj h).2⟩
    | cons v b =>
      rw [List.nil_append, List.cons_append] at h
      exact absurd ((List.cons.inj h).1 ▸ List.mem_cons_self ..) hb
  | cons v a ih => cases b with
    | nil =>
      rw [List.nil_append, List.cons_append] at h
      exact absurd ((List.cons.inj h).1 ▸ List.mem_cons_self ..) ha
    | cons w b =>
      obtain ⟨rfl, hrest⟩ := List.cons.inj h
      obtain ⟨rfl, hxy⟩ := ih (fun hm => ha (List.mem_cons_of_mem _ hm))
        (fun hm => hb (List.mem_cons_of_mem _ hm)) hrest
      exact ⟨rfl, hxy⟩

theorem keyPart_append_inj {a b x y : JsString} (h : keyPart a ++ x = keyPart b ++ y) :
    a = b ∧ x = y := by
  rw [keyPart, keyPart, List.append_assoc, List.append_assoc, List.cons_append, List.cons_append] at h
  have hcolon := not_mem_digits (c := ':') (by decide) (by decide)
  obtain ⟨hsize, hrest⟩ := append_cons_inj (hcolon _) (hcolon _) h
  exact append_inj_of_utf8Length hrest (digits_injective hsize)

theorem keyOf_cons (part : JsString) (parts : List JsString) :
    keyOf (part :: parts) =
      keyPart part ++ if parts = [] then [] else unit '|' :: keyOf parts := by
  cases parts with
  | nil => exact (List.append_nil _).symm
  | cons next parts => rfl

theorem keyOf_ne_nil (part : JsString) (parts : List JsString) : keyOf (part :: parts) ≠ [] := by
  rw [keyOf_cons, keyPart]
  simp

theorem keyOf_injective : Function.Injective keyOf := by
  intro parts
  induction parts with
  | nil =>
    intro parts' h
    cases parts' with
    | nil => rfl
    | cons part' parts' => exact absurd h.symm (keyOf_ne_nil part' parts')
  | cons part parts ih =>
    intro parts' h
    cases parts' with
    | nil => exact absurd h (keyOf_ne_nil part parts)
    | cons part' parts' =>
      rw [keyOf_cons, keyOf_cons] at h
      obtain ⟨rfl, hrest⟩ := keyPart_append_inj h
      by_cases hnil : parts = []
      · by_cases hnil' : parts' = []
        · rw [hnil, hnil']
        · rw [if_pos hnil, if_neg hnil'] at hrest
          cases hrest
      · by_cases hnil' : parts' = []
        · rw [if_neg hnil, if_pos hnil'] at hrest
          cases hrest
        · rw [if_neg hnil, if_neg hnil'] at hrest
          rw [ih (List.cons.inj hrest).2]

example : keyOf [js "chain", js "a|b"] = js "5:chain|3:a|b" := by decide +kernel

end Js
end CmTrace
