import Mathlib

/-!
# Maps in insertion order

A map as a list of keys and values in the order the keys came in.  A key that is
set again stays where it is, and one that is deleted and set again goes last.
-/

namespace CmTrace
namespace Collections

structure InsertionMap (K V : Type) where
  entries : List (K × V)
  nodup : (entries.map Prod.fst).Nodup
  deriving DecidableEq

namespace InsertionMap

variable {K V : Type}

def empty : InsertionMap K V := ⟨[], List.nodup_nil⟩

instance : EmptyCollection (InsertionMap K V) := ⟨empty⟩

instance : Inhabited (InsertionMap K V) := ⟨∅⟩

def size (map : InsertionMap K V) : Nat := map.entries.length

def keys (map : InsertionMap K V) : List K := map.entries.map Prod.fst

def values (map : InsertionMap K V) : List V := map.entries.map Prod.snd

variable [DecidableEq K]

def get? (map : InsertionMap K V) (k : K) : Option V := map.entries.lookup k

def has (map : InsertionMap K V) (k : K) : Bool := (map.get? k).isSome

def put (k : K) (v : V) : List (K × V) → List (K × V)
  | [] => [(k, v)]
  | (k', v') :: rest => if k' = k then (k, v) :: rest else (k', v') :: put k v rest

theorem map_fst_put (k : K) (v : V) (entries : List (K × V)) :
    (put k v entries).map Prod.fst =
      if k ∈ entries.map Prod.fst then entries.map Prod.fst else entries.map Prod.fst ++ [k] := by
  induction entries with
  | nil => rfl
  | cons entry entries ih =>
    obtain ⟨k', v'⟩ := entry
    rw [put]
    by_cases hk : k' = k
    · subst hk
      rw [if_pos rfl, List.map_cons, List.map_cons, if_pos (List.mem_cons_self ..)]
    · rw [if_neg hk, List.map_cons, ih, List.map_cons]
      by_cases hmem : k ∈ entries.map Prod.fst
      · rw [if_pos hmem, if_pos (List.mem_cons_of_mem _ hmem)]
      · have hcons : k ∉ k' :: entries.map Prod.fst := fun h =>
          (List.mem_cons.mp h).elim (fun heq => hk heq.symm) hmem
        rw [if_neg hmem, if_neg hcons, List.cons_append]

def set (map : InsertionMap K V) (k : K) (v : V) : InsertionMap K V where
  entries := put k v map.entries
  nodup := by
    rw [map_fst_put]
    split
    · exact map.nodup
    · rename_i hk
      exact List.nodup_append.mpr ⟨map.nodup, List.nodup_singleton k, fun a ha b hb => by
        rw [List.mem_singleton.mp hb]
        exact fun h => hk (h ▸ ha)⟩

def delete (map : InsertionMap K V) (k : K) : InsertionMap K V where
  entries := map.entries.filter fun entry => entry.1 ≠ k
  nodup := map.nodup.sublist (List.filter_sublist.map Prod.fst)

/-! ## What a map says of a key -/

theorem lookup_put (k k' : K) (v : V) (entries : List (K × V)) :
    (put k v entries).lookup k' = if k' = k then some v else entries.lookup k' := by
  have hcons : ∀ (a : K) (b : V) (rest : List (K × V)),
      ((a, b) :: rest).lookup k' = if k' = a then some b else rest.lookup k' := by
    intro a b rest
    rw [List.lookup_cons]
    by_cases hk : k' = a
    · rw [if_pos hk, beq_iff_eq.mpr hk]
    · rw [if_neg hk, beq_eq_false_iff_ne.mpr hk]
  induction entries with
  | nil => exact hcons k v []
  | cons entry entries ih =>
    obtain ⟨k₁, v₁⟩ := entry
    rw [put]
    by_cases hk₁ : k₁ = k
    · rw [if_pos hk₁, hcons, hcons, hk₁]
      split_ifs <;> rfl
    · rw [if_neg hk₁, hcons, hcons, ih]
      by_cases hk : k' = k₁
      · rw [if_pos hk, if_neg (hk ▸ hk₁), if_pos hk]
      · rw [if_neg hk, if_neg hk]

theorem get?_set (map : InsertionMap K V) (k k' : K) (v : V) :
    (map.set k v).get? k' = if k' = k then some v else map.get? k' :=
  lookup_put k k' v map.entries

@[simp]
theorem get?_set_self (map : InsertionMap K V) (k : K) (v : V) : (map.set k v).get? k = some v := by
  rw [get?_set, if_pos rfl]

theorem get?_set_of_ne (map : InsertionMap K V) {k k' : K} (h : k' ≠ k) (v : V) :
    (map.set k v).get? k' = map.get? k' := by
  rw [get?_set, if_neg h]

@[simp]
theorem get?_empty (k : K) : (∅ : InsertionMap K V).get? k = none := rfl

theorem mem_of_lookup {k : K} {v : V} {entries : List (K × V)} (h : entries.lookup k = some v) :
    (k, v) ∈ entries := by
  induction entries with
  | nil => cases h
  | cons entry entries ih =>
    obtain ⟨k', v'⟩ := entry
    rw [List.lookup_cons] at h
    cases hk : k == k' with
    | true =>
      rw [hk] at h
      rw [beq_iff_eq.mp hk, Option.some_inj.mp h]
      exact List.mem_cons_self ..
    | false =>
      rw [hk] at h
      exact List.mem_cons_of_mem _ (ih h)

theorem lookup_of_mem {k : K} {v : V} {entries : List (K × V)}
    (hnodup : (entries.map Prod.fst).Nodup) (h : (k, v) ∈ entries) : entries.lookup k = some v := by
  induction entries with
  | nil => cases h
  | cons entry entries ih =>
    obtain ⟨k', v'⟩ := entry
    rw [List.map_cons, List.nodup_cons] at hnodup
    rw [List.lookup_cons]
    rcases List.mem_cons.mp h with heq | hmem
    · cases heq
      rw [beq_self_eq_true]
    · have hfst : k ∈ entries.map Prod.fst := List.mem_map.mpr ⟨(k, v), hmem, rfl⟩
      have hk : k ≠ k' := fun hk => hnodup.1 (hk ▸ hfst)
      rw [beq_eq_false_iff_ne.mpr hk]
      exact ih hnodup.2 hmem

theorem mem_entries (map : InsertionMap K V) (k : K) (v : V) :
    (k, v) ∈ map.entries ↔ map.get? k = some v :=
  ⟨lookup_of_mem map.nodup, mem_of_lookup⟩

theorem get?_delete (map : InsertionMap K V) (k k' : K) :
    (map.delete k).get? k' = if k' = k then none else map.get? k' := by
  rw [Option.ext_iff]
  intro v
  rw [← mem_entries, delete, List.mem_filter, mem_entries, decide_eq_true_eq]
  by_cases hk : k' = k
  · rw [if_pos hk]
    exact iff_of_false (fun h => h.2 hk) (fun h => nomatch h)
  · rw [if_neg hk]
    exact and_iff_left hk

/-! ## Sizes -/

omit [DecidableEq K] in
theorem size_eq (map : InsertionMap K V) : map.size = (map.entries.map Prod.fst).length := by
  rw [size, List.length_map]

theorem size_set_le (map : InsertionMap K V) (k : K) (v : V) :
    (map.set k v).size ≤ map.size + 1 := by
  rw [size_eq, size_eq, set, map_fst_put]
  split
  · exact Nat.le_succ _
  · rw [List.length_append, List.length_singleton]

theorem size_delete_le (map : InsertionMap K V) (k : K) : (map.delete k).size ≤ map.size :=
  List.length_filter_le _ _

theorem length_le_size (map : InsertionMap K V) {keys : List K} (hnodup : keys.Nodup)
    (h : ∀ k ∈ keys, (map.get? k).isSome) : keys.length ≤ map.size := by
  rw [size_eq]
  refine (List.subperm_of_subset hnodup fun k hk => ?_).length_le
  obtain ⟨v, hv⟩ := Option.isSome_iff_exists.mp (h k hk)
  exact List.mem_map_of_mem (f := Prod.fst) ((map.mem_entries k v).mpr hv)

/-! ## Values set one after another -/

def setAll (map : InsertionMap K V) (entries : List (K × V)) : InsertionMap K V :=
  entries.foldl (fun map entry => map.set entry.1 entry.2) map

def lastOf (entries : List (K × V)) (k : K) : Option V := entries.reverse.lookup k

theorem mem_of_lastOf {entries : List (K × V)} {k : K} {v : V} (h : lastOf entries k = some v) :
    (k, v) ∈ entries := List.mem_reverse.mp (mem_of_lookup h)

theorem isSome_lastOf {entries : List (K × V)} {k : K} {v : V} (h : (k, v) ∈ entries) :
    (lastOf entries k).isSome := by
  rw [lastOf, List.lookup_isSome_iff]
  exact ⟨(k, v), List.mem_reverse.mpr h, beq_self_eq_true k⟩

theorem get?_setAll (map : InsertionMap K V) (entries : List (K × V)) (k : K) :
    (map.setAll entries).get? k = (lastOf entries k).or (map.get? k) := by
  induction entries generalizing map with
  | nil => rfl
  | cons entry entries ih =>
    show ((map.set entry.1 entry.2).setAll entries).get? k = _
    rw [ih, get?_set, lastOf, lastOf, List.reverse_cons, List.lookup_append, Option.or_assoc]
    congr 1
    rw [List.lookup_cons, List.lookup_nil]
    by_cases hk : k = entry.1
    · rw [if_pos hk, beq_iff_eq.mpr hk]
      rfl
    · rw [if_neg hk, beq_eq_false_iff_ne.mpr hk]
      rfl

theorem get?_setAll_entries (map above : InsertionMap K V) (k : K) :
    (map.setAll above.entries).get? k = (above.get? k).or (map.get? k) := by
  rw [get?_setAll]
  congr 1
  cases hlast : lastOf above.entries k with
  | some v => exact ((mem_entries above k v).mp (mem_of_lastOf hlast)).symm
  | none =>
    cases habove : above.get? k with
    | none => rfl
    | some v =>
      have hsome := isSome_lastOf ((mem_entries above k v).mpr habove)
      rw [hlast] at hsome
      cases hsome

theorem has_eq_false {map : InsertionMap K V} {k : K} : map.has k = false ↔ map.get? k = none := by
  rw [has, Option.isSome_eq_false_iff, Option.isNone_iff_eq_none]

end InsertionMap

end Collections
end CmTrace
