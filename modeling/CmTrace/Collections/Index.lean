import Mathlib

/-!
# Values gathered by key

An ordered index from keys to sets of values, the order of pairs it is used with,
and the pairs of a list that stand in its order.
-/

namespace CmTrace
namespace Collections

open Std

/-! ## Orders -/

section Orders

variable {A B : Type}

theorem cmp_self (c : A → A → Ordering) [ReflCmp c] (x : A) : c x x = .eq := ReflCmp.compare_self

theorem cmp_swap (c : A → A → Ordering) [OrientedCmp c] (x y : A) : c x y = (c y x).swap :=
  OrientedCmp.eq_swap

theorem cmp_trans (c : A → A → Ordering) [TransCmp c] {x y z : A} (hxy : (c x y).isLE)
    (hyz : (c y z).isLE) : (c x z).isLE :=
  TransCmp.isLE_trans hxy hyz

theorem eq_of_cmp (c : A → A → Ordering) [LawfulEqCmp c] {x y : A} (h : c x y = .eq) : x = y :=
  LawfulEqCmp.eq_of_compare h

theorem cmp_antisymm (c : A → A → Ordering) [OrientedCmp c] {x y : A} (hxy : (c x y).isLE)
    (hyx : (c y x).isLE) : c x y = .eq := by
  rw [cmp_swap c] at hyx
  cases hc : c x y with
  | eq => rfl
  | lt =>
    rw [hc] at hyx
    cases hyx
  | gt =>
    rw [hc] at hxy
    cases hxy

/-- Things in the order of what `f` says of them. -/
def orderOn (c : B → B → Ordering) (f : A → B) (x y : A) : Ordering := c (f x) (f y)

instance (c : B → B → Ordering) [TransCmp c] (f : A → B) : TransCmp (orderOn c f) where
  eq_swap := cmp_swap c _ _
  isLE_trans := cmp_trans c

theorem orderOn_lawful (c : B → B → Ordering) [LawfulEqCmp c] {f : A → B}
    (hf : Function.Injective f) : LawfulEqCmp (orderOn c f) where
  compare_self := cmp_self c _
  eq_of_compare h := hf (eq_of_cmp c h)

/-- Pairs in the order of their first parts, then of their second. -/
def pairOrder (c : A → A → Ordering) (d : B → B → Ordering) : A × B → A × B → Ordering :=
  compareLex (orderOn c Prod.fst) (orderOn d Prod.snd)

variable (c : A → A → Ordering) (d : B → B → Ordering)

instance [TransCmp c] [TransCmp d] : TransCmp (pairOrder c d) :=
  inferInstanceAs (TransCmp (compareLex _ _))

instance [LawfulEqCmp c] [LawfulEqCmp d] : LawfulEqCmp (pairOrder c d) where
  compare_self := by
    intro p
    rw [pairOrder, compareLex, Ordering.then_eq_eq]
    exact ⟨cmp_self c _, cmp_self d _⟩
  eq_of_compare := by
    intro p q h
    rw [pairOrder, compareLex, Ordering.then_eq_eq] at h
    exact Prod.ext (eq_of_cmp c h.1)
      (eq_of_cmp d h.2)

end Orders

/-! ## The index -/

section Index

variable {K V : Type} {c : K → K → Ordering} {d : V → V → Ordering}

/-- Sets of values by key. -/
abbrev Index (K V : Type) (c : K → K → Ordering) (d : V → V → Ordering) : Type :=
  TreeMap K (TreeSet V d) c

namespace Index

def values (index : Index K V c d) (k : K) : TreeSet V d := index[k]?.getD ∅

def add (index : Index K V c d) (k : K) (v : V) : Index K V c d :=
  index.alter k fun values => some ((values.getD ∅).insert v)

def gather (entries : List (K × V)) : Index K V c d :=
  entries.foldl (fun index entry => index.add entry.1 entry.2) ∅

theorem not_mem_values_empty [TransCmp c] (k : K) (x : V) : x ∉ (∅ : Index K V c d).values k := by
  rw [values, TreeMap.getElem?_emptyc]
  exact TreeSet.not_mem_emptyc

variable [TransCmp c] [LawfulEqCmp c]

theorem values_of_mem_toList {index : Index K V c d} {k : K} {s : TreeSet V d}
    (h : (k, s) ∈ index.toList) : index.values k = s := by
  rw [values, TreeMap.mem_toList_iff_getElem?_eq_some.mp h]
  rfl

theorem mem_toList_of_mem_values {index : Index K V c d} {k : K} {x : V}
    (h : x ∈ index.values k) : (k, index.values k) ∈ index.toList := by
  rw [TreeMap.mem_toList_iff_getElem?_eq_some]
  cases hk : index[k]? with
  | none =>
    rw [values, hk] at h
    exact absurd h TreeSet.not_mem_emptyc
  | some s => rw [values, hk]; rfl

variable [TransCmp d] [LawfulEqCmp d]

theorem mem_values_add (index : Index K V c d) (k k' : K) (v x : V) :
    x ∈ (index.add k v).values k' ↔ (k = k' ∧ v = x) ∨ x ∈ index.values k' := by
  rw [values, add, TreeMap.getElem?_alter]
  by_cases hk : k = k'
  · subst hk
    rw [if_pos ReflCmp.compare_self, Option.getD_some, TreeSet.mem_insert,
      LawfulEqCmp.compare_eq_iff_eq]
    simp [values]
  · rw [if_neg (fun h => hk (LawfulEqCmp.eq_of_compare h))]
    simp [hk, values]

theorem mem_values_foldl (entries : List (K × V)) (index : Index K V c d) (k : K) (x : V) :
    x ∈ (entries.foldl (fun index entry => index.add entry.1 entry.2) index).values k ↔
      (k, x) ∈ entries ∨ x ∈ index.values k := by
  induction entries generalizing index with
  | nil => simp
  | cons entry entries ih =>
    rw [List.foldl_cons, ih, mem_values_add, List.mem_cons, Prod.ext_iff, or_left_comm, ← or_assoc,
      eq_comm (a := k), eq_comm (a := x)]

theorem mem_values_gather (entries : List (K × V)) (k : K) (x : V) :
    x ∈ (gather entries : Index K V c d).values k ↔ (k, x) ∈ entries := by
  rw [gather, mem_values_foldl, values, TreeMap.getElem?_emptyc]
  exact or_iff_left TreeSet.not_mem_emptyc

def Filled (index : Index K V c d) : Prop :=
  ∀ (k : K) (s : TreeSet V d), (k, s) ∈ index.toList → ∃ x, x ∈ s

omit [LawfulEqCmp d] in
theorem Filled.add {index : Index K V c d} (h : Filled index) (k : K) (v : V) :
    Filled (index.add k v) := by
  intro k' s hs
  rw [TreeMap.mem_toList_iff_getElem?_eq_some, Index.add, TreeMap.getElem?_alter] at hs
  by_cases hk : c k k' = .eq
  · rw [if_pos hk, Option.some_inj] at hs
    exact ⟨v, by rw [← hs]; exact TreeSet.mem_insert_self⟩
  · rw [if_neg hk] at hs
    exact h k' s (TreeMap.mem_toList_iff_getElem?_eq_some.mpr hs)

omit [TransCmp c] [LawfulEqCmp c] [TransCmp d] [LawfulEqCmp d] in
theorem filled_empty : Filled (∅ : Index K V c d) := fun _ _ hs => by cases hs

end Index

end Index

/-! ## Pairs -/

section Pairs

variable {A : Type}

def pairs : List A → List (A × A)
  | [] => []
  | x :: xs => xs.map (fun y => (x, y)) ++ pairs xs

theorem mem_pairs {R : A → A → Prop} (hR : ∀ x y, R x y → ¬ R y x) {xs : List A}
    (h : xs.Pairwise R) (x y : A) : (x, y) ∈ pairs xs ↔ x ∈ xs ∧ y ∈ xs ∧ R x y := by
  induction xs with
  | nil => simp [pairs]
  | cons a xs ih =>
    rw [List.pairwise_cons] at h
    have hirrefl : ¬ R a a := fun ha => hR a a ha ha
    rw [pairs, List.mem_append, ih h.2, List.mem_map, List.mem_cons, List.mem_cons]
    constructor
    · rintro (⟨z, hz, he⟩ | ⟨hx, hy, hxy⟩)
      · cases he
        exact ⟨.inl rfl, .inr hz, h.1 _ hz⟩
      · exact ⟨.inr hx, .inr hy, hxy⟩
    · rintro ⟨rfl | hx, rfl | hy, hxy⟩
      · exact absurd hxy hirrefl
      · exact .inl ⟨y, hy, rfl⟩
      · exact absurd (h.1 x hx) (hR x y hxy)
      · exact .inr ⟨hx, hy, hxy⟩

theorem length_pairs (xs : List A) : (pairs xs).length = xs.length * (xs.length - 1) / 2 := by
  rw [← Nat.choose_two_right]
  induction xs with
  | nil => rfl
  | cons x xs ih =>
    rw [pairs, List.length_append, List.length_map, ih, List.length_cons,
      Nat.choose_succ_succ' xs.length 1, Nat.choose_one_right]

end Pairs

end Collections
end CmTrace
