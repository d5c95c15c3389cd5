import CmTrace.Collections.Index

/-!
# Orders and stable sorting

Orders of optional values and of lists, and lists sorted by a comparator.
Elements that compare equal keep their order, so that a list sorted by a lesser
comparator and then by a greater one is sorted by both, and a lawful comparator
leaves one order for the elements of a list.
-/

namespace CmTrace
namespace Collections

open Std

variable {A : Type}

/-! ## Orders -/

theorem compareLex_eq_iff {c d : A → A → Ordering} {x y : A} :
    compareLex c d x y = .eq ↔ c x y = .eq ∧ d x y = .eq := by
  rw [compareLex, Ordering.then_eq_eq]

def someFirst (c : A → A → Ordering) : Option A → Option A → Ordering
  | some x, some y => c x y
  | some _, none   => .lt
  | none, some _   => .gt
  | none, none     => .eq

def noneFirst (c : A → A → Ordering) : Option A → Option A → Ordering
  | some x, some y => c x y
  | none, some _   => .lt
  | some _, none   => .gt
  | none, none     => .eq

section Options

variable (c : A → A → Ordering)

instance [TransCmp c] : TransCmp (someFirst c) where
  eq_swap {x y} := by
    cases x with
    | none => cases y <;> rfl
    | some x => cases y with
      | none => rfl
      | some y => exact cmp_swap c _ _
  isLE_trans {x y z} hxy hyz := by
    cases x with
    | none => cases y with
      | none => exact hyz
      | some y => cases hxy
    | some x => cases z with
      | none => rfl
      | some z => cases y with
        | none => cases hyz
        | some y => exact cmp_trans c hxy hyz

instance [LawfulEqCmp c] : LawfulEqCmp (someFirst c) where
  compare_self {x} := by
    cases x with
    | none => rfl
    | some x => exact cmp_self c _
  eq_of_compare {x y} h := by
    cases x with
    | none => cases y with
      | none => rfl
      | some y => cases h
    | some x => cases y with
      | none => cases h
      | some y => rw [eq_of_cmp c h]

instance [TransCmp c] : TransCmp (noneFirst c) where
  eq_swap {x y} := by
    cases x with
    | none => cases y <;> rfl
    | some x => cases y with
      | none => rfl
      | some y => exact cmp_swap c _ _
  isLE_trans {x y z} hxy hyz := by
    cases z with
    | none => cases y with
      | none => exact hxy
      | some y => cases hyz
    | some z => cases x with
      | none => rfl
      | some x => cases y with
        | none => cases hxy
        | some y => exact cmp_trans c hxy hyz

instance [LawfulEqCmp c] : LawfulEqCmp (noneFirst c) where
  compare_self {x} := by
    cases x with
    | none => rfl
    | some x => exact cmp_self c _
  eq_of_compare {x y} h := by
    cases x with
    | none => cases y with
      | none => rfl
      | some y => cases h
    | some x => cases y with
      | none => cases h
      | some y => rw [eq_of_cmp c h]

end Options

/-- Lists by their first difference, a list before those it continues. -/
def longerFirst (c : A → A → Ordering) (xs ys : List A) : Ordering :=
  (List.zipWith c xs ys).foldr Ordering.then (compare ys.length xs.length)

theorem longerFirst_eq (c : A → A → Ordering) (xs ys : List A) :
    longerFirst c xs ys =
      List.compareLex (someFirst c) (xs.map some ++ [none]) (ys.map some ++ [none]) := by
  induction xs generalizing ys with
  | nil =>
    cases ys with
    | nil => rfl
    | cons y ys =>
      rw [List.map_nil, List.nil_append, List.map_cons, List.cons_append, List.compareLex_cons_cons,
        longerFirst, List.zipWith_nil_left, List.foldr_nil]
      exact Nat.compare_eq_gt.mpr (Nat.succ_pos _)
  | cons x xs ih =>
    cases ys with
    | nil =>
      rw [List.map_nil, List.nil_append, List.map_cons, List.cons_append, List.compareLex_cons_cons,
        longerFirst, List.zipWith_nil_right, List.foldr_nil]
      exact Nat.compare_eq_lt.mpr (Nat.succ_pos _)
    | cons y ys =>
      have hlength : compare (ys.length + 1) (xs.length + 1) = compare ys.length xs.length := by
        rw [Nat.compare_eq_ite_lt, Nat.compare_eq_ite_lt]
        simp only [Nat.add_lt_add_iff_right]
      rw [List.map_cons, List.map_cons, List.cons_append, List.cons_append,
        List.compareLex_cons_cons, ← ih, longerFirst, longerFirst, List.zipWith_cons_cons,
        List.foldr_cons, List.length_cons, List.length_cons, hlength]
      rfl

theorem map_some_concat_injective :
    Function.Injective fun xs : List A => xs.map some ++ [none] := fun _ _ h =>
  List.map_injective_iff.mpr (Option.some_injective A) (List.append_cancel_right h)

theorem longerFirst_orderOn (c : A → A → Ordering) :
    longerFirst c = orderOn (List.compareLex (someFirst c)) fun xs => xs.map some ++ [none] :=
  funext fun xs => funext fun ys => longerFirst_eq c xs ys

instance (c : A → A → Ordering) [TransCmp c] : TransCmp (longerFirst c) := by
  rw [longerFirst_orderOn]
  infer_instance

instance (c : A → A → Ordering) [LawfulEqCmp c] : LawfulEqCmp (longerFirst c) := by
  rw [longerFirst_orderOn]
  exact orderOn_lawful _ map_some_concat_injective

/-! ## Sorting -/

def Sorted (c : A → A → Ordering) (l : List A) : Prop := l.Pairwise fun a b => (c a b).isLE

def sortBy (c : A → A → Ordering) (l : List A) : List A := l.mergeSort fun a b => (c a b).isLE

theorem sortBy_perm (c : A → A → Ordering) (l : List A) : (sortBy c l).Perm l :=
  List.mergeSort_perm l _

@[simp] theorem mem_sortBy {c : A → A → Ordering} {l : List A} {a : A} : a ∈ sortBy c l ↔ a ∈ l :=
  (sortBy_perm c l).mem_iff

theorem sortBy_of_sorted {c : A → A → Ordering} {l : List A} (h : Sorted c l) : sortBy c l = l :=
  List.mergeSort_of_pairwise h

/-- The lesser of two elements, the first of equals. -/
def lesser (c : A → A → Ordering) (a b : A) : A := if (c a b).isLE then a else b

theorem lesser_of_isLE (c : A → A → Ordering) {a b : A} (h : (c a b).isLE) : lesser c a b = a :=
  if_pos h

theorem lesser_of_not (c : A → A → Ordering) {a b : A} (h : ¬ (c a b).isLE) : lesser c a b = b :=
  if_neg h

section Comparators

variable (c : A → A → Ordering) [TransCmp c]

theorem isLE_total (a b : A) : ((c a b).isLE || (c b a).isLE) = true := by
  rw [cmp_swap c b]
  cases c a b <;> rfl

theorem isLE_trans (x y z : A) : (c x y).isLE → (c y z).isLE → (c x z).isLE :=
  TransCmp.isLE_trans

theorem isLE_of_not {a b : A} (h : ¬ (c a b).isLE) : (c b a).isLE :=
  ((Bool.or_eq_true _ _).mp (isLE_total c a b)).resolve_left h

theorem lesser_comm [LawfulEqCmp c] (a b : A) : lesser c a b = lesser c b a := by
  by_cases hab : (c a b).isLE <;> by_cases hba : (c b a).isLE
  · rw [eq_of_cmp c (cmp_antisymm c hab hba)]
  · rw [lesser_of_isLE c hab, lesser_of_not c hba]
  · rw [lesser_of_not c hab, lesser_of_isLE c hba]
  · exact absurd (isLE_of_not c hab) hba

theorem lesser_assoc (x y z : A) : lesser c (lesser c x y) z = lesser c x (lesser c y z) := by
  by_cases hxy : (c x y).isLE <;> by_cases hyz : (c y z).isLE
  · rw [lesser_of_isLE c hxy, lesser_of_isLE c hyz, lesser_of_isLE c hxy,
      lesser_of_isLE c (cmp_trans c hxy hyz)]
  · rw [lesser_of_isLE c hxy, lesser_of_not c hyz]
  · rw [lesser_of_not c hxy, lesser_of_isLE c hyz, lesser_of_not c hxy]
  · have hxz : ¬ (c x z).isLE := fun hxz => hxy (cmp_trans c hxz (isLE_of_not c hyz))
    rw [lesser_of_not c hxy, lesser_of_not c hyz, lesser_of_not c hxz]

theorem lesser_right_comm [LawfulEqCmp c] (x y z : A) :
    lesser c (lesser c x y) z = lesser c (lesser c x z) y := by
  rw [lesser_assoc, lesser_assoc, lesser_comm c y z]

theorem sortBy_sorted (l : List A) : Sorted c (sortBy c l) :=
  List.pairwise_mergeSort (isLE_trans c) (isLE_total c) l

variable {c}

theorem Sorted.eq_of_perm [LawfulEqCmp c] {l l' : List A} (h : Sorted c l) (h' : Sorted c l')
    (hperm : l.Perm l') : l = l' := by
  refine hperm.eq_of_pairwise (fun a b _ _ hab hba => ?_) h h'
  exact eq_of_cmp c (cmp_antisymm c hab hba)

theorem sortBy_congr [LawfulEqCmp c] {l l' : List A} (hperm : l.Perm l') : sortBy c l = sortBy c l' :=
  (sortBy_sorted c l).eq_of_perm (sortBy_sorted c l')
    ((sortBy_perm c l).trans (hperm.trans (sortBy_perm c l').symm))

theorem sortBy_congr_of_tells {l l' : List A} (hperm : l.Perm l')
    (htells : ∀ a ∈ l, ∀ b ∈ l, c a b = .eq → a = b) : sortBy c l = sortBy c l' := by
  have hsorted : (sortBy c l).Perm (sortBy c l') :=
    (sortBy_perm c l).trans (hperm.trans (sortBy_perm c l').symm)
  refine hsorted.eq_of_pairwise (fun a b ha hb hab hba => ?_) (sortBy_sorted c l)
    (sortBy_sorted c l')
  have hmem : b ∈ l := hperm.mem_iff.mpr (mem_sortBy.mp hb)
  exact htells a (mem_sortBy.mp ha) b hmem (cmp_antisymm c hab hba)

theorem filter_sortBy (x : A) (l : List A) :
    (sortBy c l).filter (fun y => c x y == .eq) = l.filter fun y => c x y == .eq := by
  have hkeys : Sorted c (l.filter fun y => c x y == .eq) := by
    refine List.pairwise_of_forall_mem_list fun a ha b hb => ?_
    have hxa : c x a = .eq := eq_of_beq (List.mem_filter.mp ha).2
    have hxb : c x b = .eq := eq_of_beq (List.mem_filter.mp hb).2
    have hax : c a x = .eq := by
      rw [cmp_swap c, hxa]
      rfl
    exact TransCmp.isLE_trans (by rw [hax]; rfl) (by rw [hxb]; rfl)
  have hsub := (List.sublist_mergeSort (isLE_trans c) (isLE_total c) hkeys
    List.filter_sublist).filter fun y => c x y == .eq
  rw [List.filter_filter] at hsub
  simp only [Bool.and_self] at hsub
  exact (hsub.eq_of_length ((sortBy_perm c l).filter _).length_eq.symm).symm

variable {d : A → A → Ordering} [TransCmp d]

/-- A list sorted by `d` and then by `c` is sorted by `c`, and by `d` where `c` does
not tell. -/
theorem sortBy_sortBy_sorted (l : List A) : Sorted (compareLex c d) (sortBy c (sortBy d l)) := by
  refine List.pairwise_iff_forall_sublist.mpr fun {a b} hab => ?_
  have hc : (c a b).isLE := List.pairwise_iff_forall_sublist.mp (sortBy_sorted c (sortBy d l)) hab
  cases hcmp : c a b with
  | gt =>
    rw [hcmp] at hc
    cases hc
  | lt =>
    rw [compareLex, hcmp]
    rfl
  | eq =>
    have hkeep := hab.filter fun y => c a y == .eq
    rw [filter_sortBy, List.filter_cons_of_pos (by rw [cmp_self c _]; rfl),
      List.filter_cons_of_pos (by rw [hcmp]; rfl), List.filter_nil] at hkeep
    have hd : (d a b).isLE := List.pairwise_iff_forall_sublist.mp (sortBy_sorted d l)
      (hkeep.trans List.filter_sublist)
    rw [compareLex, hcmp]
    exact hd

theorem sortBy_sortBy [LawfulEqCmp (compareLex c d)] (l : List A) :
    sortBy c (sortBy d l) = sortBy (compareLex c d) l :=
  (sortBy_sortBy_sorted l).eq_of_perm (sortBy_sorted _ l)
    (((sortBy_perm c _).trans (sortBy_perm d l)).trans (sortBy_perm _ l).symm)

end Comparators

/-! ## Without repetitions -/

section Sets

variable {c : A → A → Ordering} [TransCmp c] [LawfulEqCmp c] [BEq A] [LawfulBEqCmp c]

theorem mem_toList_ofList {xs : List A} {x : A} : x ∈ (TreeSet.ofList xs c).toList ↔ x ∈ xs := by
  have : LawfulBEq A := @LawfulBEqCmp.lawfulBEq A _ c _ _
  rw [TreeSet.mem_toList, TreeSet.mem_ofList, List.contains_iff_mem]

omit [BEq A] [LawfulBEqCmp c] in
theorem nodup_toList (s : TreeSet A c) : s.toList.Nodup :=
  s.ordered_toList.imp fun {a b} hlt heq => by
    have hself : c b b = .eq := ReflCmp.compare_self
    rw [heq, hself] at hlt
    cases hlt

theorem toList_ofList_congr {xs ys : List A} (h : ∀ x, x ∈ xs ↔ x ∈ ys) :
    (TreeSet.ofList xs c).toList = (TreeSet.ofList ys c).toList := by
  refine (TreeSet.Equiv.of_forall_mem_iff fun k => ?_).toList_eq
  rw [← TreeSet.mem_toList, ← TreeSet.mem_toList, mem_toList_ofList, mem_toList_ofList, h]

theorem toList_ofList_perm {xs ys : List A} (h : xs.Perm ys) :
    (TreeSet.ofList xs c).toList = (TreeSet.ofList ys c).toList :=
  toList_ofList_congr fun _ => h.mem_iff

end Sets

end Collections
end CmTrace
