import CmTrace.Collections.Sorted

/-!
# Groups in the order of their keys' arrival

A map from keys to lists that is filled an element at a time and remembers the
order in which its keys came.  Each group has the elements of its key, in their
order, and the groups have all elements.
-/

namespace CmTrace
namespace Collections

open Std

section Groups

variable {K V : Type} [DecidableEq K]

/-- Add an element to its group, which is made when it is the first. -/
def push (k : K) (v : V) : List (K × List V) → List (K × List V)
  | [] => [(k, [v])]
  | g :: groups => if g.1 = k then (g.1, g.2 ++ [v]) :: groups else g :: push k v groups

def groupBy (key : V → K) (xs : List V) : List (K × List V) :=
  xs.foldl (fun groups x => push (key x) x groups) []

/-- The groups of `xs`: one for each key, with the elements of the key. -/
structure GroupsOf (key : V → K) (xs : List V) (groups : List (K × List V)) : Prop where
  nodup : (groups.map Prod.fst).Nodup
  mem : ∀ k vs, (k, vs) ∈ groups ↔ vs = xs.filter (fun x => key x = k) ∧ vs ≠ []

theorem keys_push (k : K) (v : V) (groups : List (K × List V)) :
    (push k v groups).map Prod.fst =
      groups.map Prod.fst ++ if k ∈ groups.map Prod.fst then [] else [k] := by
  induction groups with
  | nil => rfl
  | cons g groups ih =>
    rw [push]
    by_cases hk : g.1 = k
    · rw [if_pos hk, List.map_cons, List.map_cons, if_pos (List.mem_cons.mpr (.inl hk.symm)),
        List.append_nil]
    · have hmem : k ∈ g.1 :: groups.map Prod.fst ↔ k ∈ groups.map Prod.fst := by
        rw [List.mem_cons, or_iff_right (Ne.symm hk)]
      rw [if_neg hk, List.map_cons, List.map_cons, ih, List.cons_append]
      simp only [hmem]

theorem mem_push {k : K} {v : V} {groups : List (K × List V)} (hnodup : (groups.map Prod.fst).Nodup)
    (k' : K) (vs : List V) : (k', vs) ∈ push k v groups ↔
      (k' ≠ k ∧ (k', vs) ∈ groups) ∨ (k' = k ∧ ((∃ old, (k, old) ∈ groups ∧ vs = old ++ [v]) ∨
        (k ∉ groups.map Prod.fst ∧ vs = [v]))) := by
  induction groups with
  | nil => simp [push]
  | cons g groups ih =>
    obtain ⟨kg, old⟩ := g
    rw [List.map_cons, List.nodup_cons] at hnodup
    have hfresh : ∀ ws, (kg, ws) ∉ groups := fun ws h =>
      hnodup.1 (List.mem_map.mpr ⟨(kg, ws), h, rfl⟩)
    rw [push]
    by_cases hk : kg = k
    · subst hk
      rw [if_pos rfl]
      simp only [List.mem_cons, Prod.mk.injEq, List.map_cons, true_and, true_or, not_true_eq_false,
        false_and, or_false]
      constructor
      · rintro (⟨rfl, rfl⟩ | h)
        · exact .inr ⟨rfl, old, .inl rfl, rfl⟩
        · exact .inl ⟨fun he => hfresh vs (he ▸ h), .inr h⟩
      · rintro (⟨hne, h | h⟩ | ⟨rfl, old', h | h, rfl⟩)
        · exact absurd h.1 hne
        · exact .inr h
        · exact .inl ⟨rfl, by rw [h]⟩
        · exact absurd h (hfresh old')
    · rw [if_neg hk, List.mem_cons, ih hnodup.2]
      simp only [List.mem_cons, Prod.mk.injEq, List.map_cons, not_or]
      constructor
      · rintro (⟨rfl, rfl⟩ | ⟨hne, h⟩ | ⟨rfl, ⟨old', h, rfl⟩ | ⟨h, rfl⟩⟩)
        · exact .inl ⟨hk, .inl ⟨rfl, rfl⟩⟩
        · exact .inl ⟨hne, .inr h⟩
        · exact .inr ⟨rfl, .inl ⟨old', .inr h, rfl⟩⟩
        · exact .inr ⟨rfl, .inr ⟨⟨Ne.symm hk, h⟩, rfl⟩⟩
      · rintro (⟨hne, ⟨rfl, rfl⟩ | h⟩ | ⟨rfl, ⟨old', ⟨h, -⟩ | h, rfl⟩ | ⟨h, rfl⟩⟩)
        · exact .inl ⟨rfl, rfl⟩
        · exact .inr (.inl ⟨hne, h⟩)
        · exact absurd h.symm hk
        · exact .inr (.inr ⟨rfl, .inl ⟨old', h, rfl⟩⟩)
        · exact .inr (.inr ⟨rfl, .inr ⟨h.2, rfl⟩⟩)

theorem GroupsOf.nil (key : V → K) : GroupsOf key [] [] :=
  ⟨List.nodup_nil, fun k vs => ⟨fun h => (by cases h), fun h => absurd h.1 h.2⟩⟩

theorem GroupsOf.mem_keys {key : V → K} {xs : List V} {groups : List (K × List V)}
    (h : GroupsOf key xs groups) (k : K) : k ∈ groups.map Prod.fst ↔ ∃ x ∈ xs, key x = k := by
  constructor
  · intro hk
    obtain ⟨⟨_, vs⟩, hg, rfl⟩ := List.mem_map.mp hk
    obtain ⟨rfl, hne⟩ := (h.mem _ _).mp hg
    obtain ⟨x, hx⟩ := List.exists_mem_of_ne_nil _ hne
    exact ⟨x, (List.mem_filter.mp hx).1, of_decide_eq_true (List.mem_filter.mp hx).2⟩
  · rintro ⟨x, hx, rfl⟩
    have hmem : x ∈ xs.filter fun y => key y = key x :=
      List.mem_filter.mpr ⟨hx, decide_eq_true rfl⟩
    exact List.mem_map.mpr ⟨_, (h.mem _ _).mpr ⟨rfl, List.ne_nil_of_mem hmem⟩, rfl⟩

theorem GroupsOf.push {key : V → K} {xs : List V} {groups : List (K × List V)}
    (h : GroupsOf key xs groups) (x : V) :
    GroupsOf key (xs ++ [x]) (Collections.push (key x) x groups) := by
  constructor
  · rw [keys_push]
    split
    · rw [List.append_nil]
      exact h.nodup
    · rename_i hk
      exact List.nodup_append.mpr ⟨h.nodup, List.nodup_singleton _, fun a ha b hb => by
        rw [List.mem_singleton.mp hb]
        rintro rfl
        exact hk ha⟩
  · intro k vs
    rw [mem_push h.nodup, List.filter_append]
    by_cases hk : k = key x
    · subst hk
      have hone : [x].filter (fun y => key y = key x) = [x] :=
        List.filter_cons_of_pos (decide_eq_true rfl)
      rw [hone]
      have hkeys := h.mem_keys (key x)
      constructor
      · rintro (⟨hne, -⟩ | ⟨-, ⟨old, hold, rfl⟩ | ⟨hnone, rfl⟩⟩)
        · exact absurd rfl hne
        · rw [((h.mem _ _).mp hold).1]
          exact ⟨rfl, by simp⟩
        · refine ⟨?_, List.cons_ne_nil _ _⟩
          rw [List.filter_eq_nil_iff.mpr fun y hy hkey =>
            hnone (hkeys.mpr ⟨y, hy, of_decide_eq_true hkey⟩), List.nil_append]
      · rintro ⟨rfl, -⟩
        refine .inr ⟨rfl, ?_⟩
        by_cases hnil : xs.filter (fun y => key y = key x) = []
        · refine .inr ⟨fun hk => ?_, by rw [hnil, List.nil_append]⟩
          obtain ⟨y, hy, hkey⟩ := hkeys.mp hk
          exact List.ne_nil_of_mem (List.mem_filter.mpr ⟨hy, decide_eq_true hkey⟩) hnil
        · exact .inl ⟨_, (h.mem _ _).mpr ⟨rfl, hnil⟩, rfl⟩
    · rw [List.filter_cons_of_neg (by simpa using Ne.symm hk), List.filter_nil, List.append_nil,
        ← h.mem]
      exact ⟨fun hg => hg.elim And.right fun hg => absurd hg.1 hk, fun hg => .inl ⟨hk, hg⟩⟩

theorem groupBy_spec (key : V → K) (xs : List V) : GroupsOf key xs (groupBy key xs) := by
  have hfold : ∀ (new done : List V) groups, GroupsOf key done groups →
      GroupsOf key (done ++ new) (new.foldl (fun groups x => push (key x) x groups) groups) := by
    intro new
    induction new with
    | nil =>
      intro done groups h
      rwa [List.append_nil]
    | cons x new ih =>
      intro done groups h
      have hrest := ih (done ++ [x]) _ (h.push x)
      rwa [List.append_assoc, List.singleton_append] at hrest
  exact hfold xs [] [] (.nil key)

theorem flatMap_push_perm (k : K) (v : V) (groups : List (K × List V)) :
    ((push k v groups).flatMap Prod.snd).Perm (groups.flatMap Prod.snd ++ [v]) := by
  induction groups with
  | nil => exact .refl _
  | cons g groups ih =>
    rw [push]
    split
    · rw [List.flatMap_cons, List.flatMap_cons, List.append_assoc, List.append_assoc]
      exact List.perm_append_comm.append_left g.2
    · rw [List.flatMap_cons, List.flatMap_cons, List.append_assoc]
      exact ih.append_left g.2

theorem groupBy_perm (key : V → K) (xs : List V) :
    ((groupBy key xs).flatMap Prod.snd).Perm xs := by
  have hfold : ∀ (new : List V) groups,
      ((new.foldl (fun groups x => push (key x) x groups) groups).flatMap Prod.snd).Perm
        (groups.flatMap Prod.snd ++ new) := by
    intro new
    induction new with
    | nil =>
      intro groups
      rw [List.append_nil]
      exact .refl _
    | cons x new ih =>
      intro groups
      refine (ih _).trans ?_
      have hpush := (flatMap_push_perm (key x) x groups).append_right new
      rwa [List.append_assoc, List.singleton_append] at hpush
  exact hfold xs []

theorem sortBy_groupBy (c : K → K → Ordering) [TransCmp c] [LawfulEqCmp c] [LawfulBEqCmp c]
    (key : V → K) (xs : List V) :
    sortBy (orderOn c Prod.fst) (groupBy key xs) =
      (TreeSet.ofList (xs.map key) c).toList.map fun k => (k, xs.filter fun x => key x = k) := by
  have hgroups := groupBy_spec key xs
  have hmem : ∀ k vs, (k, vs) ∈ groupBy key xs ↔ (k, vs) ∈
      (TreeSet.ofList (xs.map key) c).toList.map fun k => (k, xs.filter fun x => key x = k) := by
    intro k vs
    have hkey := hgroups.mem_keys k
    rw [hgroups.mem, List.mem_map]
    constructor
    · rintro ⟨rfl, hne⟩
      obtain ⟨x, hx⟩ := List.exists_mem_of_ne_nil _ hne
      exact ⟨k, mem_toList_ofList.mpr (List.mem_map.mpr ⟨x, (List.mem_filter.mp hx).1,
        of_decide_eq_true (List.mem_filter.mp hx).2⟩), rfl⟩
    · rintro ⟨k', hk', heq⟩
      obtain ⟨rfl, rfl⟩ := Prod.mk.inj heq
      obtain ⟨x, hx, hxk⟩ := List.mem_map.mp (mem_toList_ofList.mp hk')
      exact ⟨rfl, List.ne_nil_of_mem (List.mem_filter.mpr ⟨hx, decide_eq_true hxk⟩)⟩
  have hnodup : (groupBy key xs).Nodup := List.Nodup.of_map _ hgroups.nodup
  have hnodup' : ((TreeSet.ofList (xs.map key) c).toList.map
      fun k => (k, xs.filter fun x => key x = k)).Nodup :=
    (nodup_toList _).map fun k k' h => (Prod.mk.inj h).1
  have hperm := (List.perm_ext_iff_of_nodup hnodup hnodup').mpr fun g => hmem g.1 g.2
  refine ((sortBy_perm _ _).trans hperm).eq_of_pairwise (fun a b ha hb hab hba => ?_)
    (sortBy_sorted (orderOn c Prod.fst) _) ?_
  · obtain ⟨k, vs⟩ := a
    obtain ⟨k', vs'⟩ := b
    obtain rfl : k = k' := eq_of_cmp c (cmp_antisymm c hab hba)
    have hvs := ((hgroups.mem k vs).mp (mem_sortBy.mp ha)).1
    have hvs' := ((hgroups.mem k vs').mp ((hmem k vs').mpr hb)).1
    rw [hvs, hvs']
  · rw [List.pairwise_map]
    exact (TreeSet.ordered_toList (t := TreeSet.ofList (xs.map key) c)).imp fun {a b} hlt => by
      rw [orderOn, hlt]
      rfl

end Groups

end Collections
end CmTrace
