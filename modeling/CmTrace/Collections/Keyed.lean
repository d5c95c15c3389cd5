import CmTrace.Collections.Sorted

/-!
# One value for a key

Of the values that have one key an index keeps the last that was inserted, and a
list that is sorted by key and rid of repetitions keeps the first.
-/

namespace CmTrace
namespace Collections

open Std

/-! ## The last value of a key -/

section Last

variable {A K : Type} {c : K → K → Ordering} {key : A → K}

/-- Values inserted by key, a later one in place of an earlier. -/
def insertAll (key : A → K) (index : TreeMap K A c) (xs : List A) : TreeMap K A c :=
  xs.foldl (fun index x => index.insert (key x) x) index

/-- The values of an index in the order of their keys. -/
def indexed (index : TreeMap K A c) : List A := index.toList.map Prod.snd

theorem insertAll_append (index : TreeMap K A c) (xs ys : List A) :
    insertAll key index (xs ++ ys) = insertAll key (insertAll key index xs) ys :=
  List.foldl_append

theorem foldl_insertAll {B : Type} (f : B → List A) (index : TreeMap K A c) (ys : List B) :
    ys.foldl (fun index y => insertAll key index (f y)) index = insertAll key index (ys.flatMap f) := by
  induction ys generalizing index with
  | nil => rfl
  | cons y ys ih => rw [List.foldl_cons, ih, List.flatMap_cons, insertAll_append]

variable [TransCmp c] [LawfulEqCmp c] [DecidableEq K]

theorem getElem?_insertAll (index : TreeMap K A c) (xs : List A) (k : K) :
    (insertAll key index xs)[k]? = (xs.reverse.find? fun x => key x = k).or index[k]? := by
  induction xs generalizing index with
  | nil => rfl
  | cons x xs ih =>
    have hcons : insertAll key index (x :: xs) = insertAll key (index.insert (key x) x) xs := rfl
    rw [hcons, ih, List.reverse_cons, List.find?_append, TreeMap.getElem?_insert, Option.or_assoc]
    simp only [LawfulEqCmp.compare_eq_iff_eq]
    by_cases hk : key x = k
    · simp [hk]
    · simp [hk]

theorem mem_indexed_insertAll {xs : List A} {x : A} :
    x ∈ indexed (insertAll key (∅ : TreeMap K A c) xs) ↔
      xs.reverse.find? (fun y => key y = key x) = some x := by
  have hget : ∀ k, (insertAll key (∅ : TreeMap K A c) xs)[k]? =
      xs.reverse.find? fun y => key y = k := by
    intro k
    rw [getElem?_insertAll, TreeMap.getElem?_emptyc, Option.or_none]
  rw [indexed, List.mem_map]
  constructor
  · rintro ⟨⟨k, y⟩, hmem, rfl⟩
    rw [TreeMap.mem_toList_iff_getElem?_eq_some, hget] at hmem
    have hk : key y = k := by simpa using List.find?_some hmem
    rw [hk]
    exact hmem
  · intro h
    exact ⟨(key x, x), by rw [TreeMap.mem_toList_iff_getElem?_eq_some, hget, h], rfl⟩

theorem mem_of_mem_indexed {xs : List A} {x : A}
    (h : x ∈ indexed (insertAll key (∅ : TreeMap K A c) xs)) : x ∈ xs :=
  List.mem_reverse.mp (List.mem_of_find?_eq_some (mem_indexed_insertAll.mp h))

theorem exists_indexed_of_mem {xs : List A} {x : A} (hx : x ∈ xs) :
    ∃ y ∈ indexed (insertAll key (∅ : TreeMap K A c) xs), key y = key x := by
  have hsome : (xs.reverse.find? fun y => key y = key x).isSome :=
    List.find?_isSome.mpr ⟨x, List.mem_reverse.mpr hx, by simp⟩
  obtain ⟨y, hy⟩ := Option.isSome_iff_exists.mp hsome
  have hkey : key y = key x := by simpa using List.find?_some hy
  exact ⟨y, mem_indexed_insertAll.mpr (by rw [hkey, hy]), hkey⟩

theorem indexed_keeps_iff {xs : List A} :
    (∀ x ∈ xs, x ∈ indexed (insertAll key (∅ : TreeMap K A c) xs)) ↔
      ∀ x ∈ xs, ∀ y ∈ xs, key x = key y → x = y := by
  constructor
  · intro h x hx y hy hxy
    have hlast := mem_indexed_insertAll.mp (h x hx)
    rw [hxy, mem_indexed_insertAll.mp (h y hy)] at hlast
    exact (Option.some.inj hlast).symm
  · intro h x hx
    obtain ⟨y, hy, hkey⟩ := exists_indexed_of_mem (c := c) hx
    rwa [h x hx y (mem_of_mem_indexed hy) hkey.symm]

theorem nodup_map_indexed {xs : List A} :
    ((indexed (insertAll key (∅ : TreeMap K A c) xs)).map key).Nodup := by
  have hkeys : (indexed (insertAll key (∅ : TreeMap K A c) xs)).map key =
      (insertAll key (∅ : TreeMap K A c) xs).toList.map Prod.fst := by
    rw [indexed, List.map_map]
    refine List.map_congr_left ?_
    rintro ⟨k, x⟩ hmem
    rw [TreeMap.mem_toList_iff_getElem?_eq_some, getElem?_insertAll, TreeMap.getElem?_emptyc,
      Option.or_none] at hmem
    simpa using List.find?_some hmem
  rw [hkeys, List.Nodup, List.pairwise_map]
  refine TreeMap.ordered_keys_toList.imp ?_
  rintro ⟨k, x⟩ ⟨k', x'⟩ hlt heq
  have hself : c k' k' = .eq := cmp_self c k'
  simp only at hlt heq
  rw [heq, hself] at hlt
  cases hlt

theorem nodup_indexed {xs : List A} :
    (indexed (insertAll key (∅ : TreeMap K A c) xs)).Nodup :=
  nodup_map_indexed.of_map key

theorem length_indexed {xs : List A} :
    (indexed (insertAll key (∅ : TreeMap K A c) xs)).length = (xs.map key).dedup.length := by
  have hperm : ((indexed (insertAll key (∅ : TreeMap K A c) xs)).map key).Perm
      (xs.map key).dedup := by
    rw [List.perm_ext_iff_of_nodup nodup_map_indexed (List.nodup_dedup _)]
    intro k
    rw [List.mem_dedup, List.mem_map, List.mem_map]
    constructor
    · rintro ⟨x, hx, rfl⟩
      exact ⟨x, mem_of_mem_indexed hx, rfl⟩
    · rintro ⟨x, hx, rfl⟩
      exact exists_indexed_of_mem hx
  rw [← List.length_map key, hperm.length_eq]

end Last

/-! ## The first value of a key -/

section First

variable {A K : Type}

/-- What is left of a list when an element that is the same as the one kept
before it goes. -/
def dedupFrom (same : A → A → Bool) (kept : A) : List A → List A
  | [] => []
  | x :: xs => if same x kept then dedupFrom same kept xs else x :: dedupFrom same x xs

def dedupBy (same : A → A → Bool) : List A → List A
  | [] => []
  | x :: xs => x :: dedupFrom same x xs

theorem dedupFrom_sublist (same : A → A → Bool) :
    ∀ (kept : A) (xs : List A), (dedupFrom same kept xs).Sublist xs
  | _, [] => .slnil
  | kept, x :: xs => by
    rw [dedupFrom]
    split_ifs
    · exact (dedupFrom_sublist same kept xs).cons x
    · exact (dedupFrom_sublist same x xs).cons_cons x

theorem dedupBy_sublist (same : A → A → Bool) : ∀ xs : List A, (dedupBy same xs).Sublist xs
  | [] => .slnil
  | x :: xs => (dedupFrom_sublist same x xs).cons_cons x

variable {c : K → K → Ordering} [TransCmp c] [LawfulEqCmp c] [DecidableEq K] {key : A → K}

theorem mem_dedupFrom {x : A} : ∀ {kept : A} {xs : List A}, Sorted (orderOn c key) (kept :: xs) →
    (x ∈ dedupFrom (fun a b => key a = key b) kept xs ↔
      key x ≠ key kept ∧ xs.find? (fun y => key y = key x) = some x)
  | kept, [], _ => by simp [dedupFrom]
  | kept, y :: xs, hsorted => by
    obtain ⟨hkept, hrest⟩ := List.pairwise_cons.mp hsorted
    rw [dedupFrom]
    by_cases hy : key y = key kept
    · have hskip : Sorted (orderOn c key) (kept :: xs) :=
        List.pairwise_cons.mpr ⟨fun z hz => hkept z (List.mem_cons_of_mem _ hz),
          (List.pairwise_cons.mp hrest).2⟩
      rw [if_pos (by simp [hy]), mem_dedupFrom hskip]
      refine and_congr_right fun hne => ?_
      rw [List.find?_cons_of_neg (by simpa [hy] using Ne.symm hne)]
    · rw [if_neg (by simp [hy]), List.mem_cons, mem_dedupFrom hrest]
      constructor
      · rintro (rfl | ⟨hne, hfirst⟩)
        · exact ⟨hy, by simp⟩
        · refine ⟨fun hx => ?_, by rw [List.find?_cons_of_neg (by simpa using Ne.symm hne), hfirst]⟩
          -- the kept key does not come back behind a greater one
          have hmem := List.mem_of_find?_eq_some hfirst
          have hle : (c (key y) (key x)).isLE := (List.pairwise_cons.mp hrest).1 x hmem
          rw [hx] at hle
          exact hy (eq_of_cmp c (cmp_antisymm c hle (hkept y (List.mem_cons_self ..))))
      · rintro ⟨hne, hfirst⟩
        by_cases hxy : key y = key x
        · rw [List.find?_cons_of_pos (by simpa using hxy)] at hfirst
          exact .inl (Option.some.inj hfirst).symm
        · rw [List.find?_cons_of_neg (by simpa using hxy)] at hfirst
          exact .inr ⟨Ne.symm hxy, hfirst⟩

theorem mem_dedupBy {x : A} : ∀ {xs : List A}, Sorted (orderOn c key) xs →
    (x ∈ dedupBy (fun a b => key a = key b) xs ↔ xs.find? (fun y => key y = key x) = some x)
  | [], _ => by simp [dedupBy]
  | y :: xs, hsorted => by
    rw [dedupBy, List.mem_cons, mem_dedupFrom hsorted]
    by_cases hxy : key y = key x
    · rw [List.find?_cons_of_pos (by simpa using hxy)]
      simp [hxy, eq_comm]
    · rw [List.find?_cons_of_neg (by simpa using hxy)]
      constructor
      · rintro (rfl | ⟨-, hfirst⟩)
        · exact absurd rfl hxy
        · exact hfirst
      · exact fun hfirst => .inr ⟨Ne.symm hxy, hfirst⟩

theorem nodup_dedupFrom : ∀ {kept : A} {xs : List A}, Sorted (orderOn c key) (kept :: xs) →
    ((kept :: dedupFrom (fun a b => key a = key b) kept xs).map key).Nodup
  | kept, [], _ => by simp [dedupFrom]
  | kept, y :: xs, hsorted => by
    obtain ⟨hkept, hrest⟩ := List.pairwise_cons.mp hsorted
    by_cases hy : key y = key kept
    · have hskip : Sorted (orderOn c key) (kept :: xs) :=
        List.pairwise_cons.mpr ⟨fun z hz => hkept z (List.mem_cons_of_mem _ hz),
          (List.pairwise_cons.mp hrest).2⟩
      rw [dedupFrom, if_pos (by simp [hy])]
      exact nodup_dedupFrom hskip
    · have hnew : dedupFrom (fun a b => key a = key b) kept (y :: xs) =
          y :: dedupFrom (fun a b => key a = key b) y xs := by
        rw [dedupFrom, if_neg (by simp [hy])]
      rw [List.map_cons, List.nodup_cons, hnew]
      refine ⟨fun hmem => ?_, nodup_dedupFrom hrest⟩
      obtain ⟨x, hx, hkey⟩ := List.mem_map.mp hmem
      rw [← hnew] at hx
      exact ((mem_dedupFrom hsorted).mp hx).1 hkey

theorem nodup_dedupBy {xs : List A} (hsorted : Sorted (orderOn c key) xs) :
    ((dedupBy (fun a b => key a = key b) xs).map key).Nodup := by
  cases xs with
  | nil => exact List.nodup_nil
  | cons x xs => exact nodup_dedupFrom hsorted

theorem find?_sortBy (xs : List A) (k : K) :
    (sortBy (orderOn c key) xs).find? (fun y => key y = k) = xs.find? fun y => key y = k := by
  by_cases hk : ∃ x ∈ xs, key x = k
  · obtain ⟨x, -, rfl⟩ := hk
    have hpred : (fun y => decide (key y = key x)) = fun y => orderOn c key x y == .eq := by
      funext y
      rw [Bool.eq_iff_iff, decide_eq_true_iff, beq_iff_eq, orderOn, LawfulEqCmp.compare_eq_iff_eq]
      exact eq_comm
    rw [← List.head?_filter, ← List.head?_filter, hpred, filter_sortBy]
  · rw [List.find?_eq_none.mpr fun y hy => by simpa using fun h => hk ⟨y, mem_sortBy.mp hy, h⟩,
      List.find?_eq_none.mpr fun y hy => by simpa using fun h => hk ⟨y, hy, h⟩]

theorem mem_dedupBy_sortBy {xs : List A} {x : A} :
    x ∈ dedupBy (fun a b => key a = key b) (sortBy (orderOn c key) xs) ↔
      xs.find? (fun y => key y = key x) = some x := by
  rw [mem_dedupBy (sortBy_sorted _ xs), find?_sortBy]

end First

/-! ## Sorted and without repetitions -/

section Distinct

variable {A : Type} [DecidableEq A]

def sortedDistinct (c : A → A → Ordering) (xs : List A) : List A :=
  dedupBy (fun a b => a = b) (sortBy c xs)

variable {c : A → A → Ordering} [TransCmp c] [LawfulEqCmp c]

theorem mem_sortedDistinct {xs : List A} {x : A} : x ∈ sortedDistinct c xs ↔ x ∈ xs := by
  have hmem := @mem_dedupBy_sortBy A A c _ _ _ id xs x
  refine hmem.trans ⟨fun h => List.mem_of_find?_eq_some h, fun h => ?_⟩
  have hsome : (xs.find? fun y => id y = id x).isSome := List.find?_isSome.mpr ⟨x, h, by simp⟩
  obtain ⟨y, hy⟩ := Option.isSome_iff_exists.mp hsome
  have hyx : y = x := by simpa using List.find?_some hy
  rw [hy, hyx]

theorem nodup_sortedDistinct (xs : List A) : (sortedDistinct c xs).Nodup := by
  have h := @nodup_dedupBy A A c _ _ _ id _ (sortBy_sorted (orderOn c id) xs)
  rwa [List.map_id] at h

omit [LawfulEqCmp c] in
theorem sorted_sortedDistinct (xs : List A) : Sorted c (sortedDistinct c xs) :=
  (sortBy_sorted c xs).sublist (dedupBy_sublist _ _)

theorem sortedDistinct_congr {xs ys : List A} (h : ∀ x, x ∈ xs ↔ x ∈ ys) :
    sortedDistinct c xs = sortedDistinct c ys := by
  refine (sorted_sortedDistinct xs).eq_of_perm (sorted_sortedDistinct ys) ?_
  refine (List.perm_ext_iff_of_nodup (nodup_sortedDistinct xs) (nodup_sortedDistinct ys)).mpr ?_
  intro x
  rw [mem_sortedDistinct, mem_sortedDistinct, h]

end Distinct

end Collections
end CmTrace
