import CmTrace.Collections.Sorted

/-!
# The place of an element in a stable sort

An element of a list without repetitions has before it, once the list is sorted, the
lesser ones and those of its equals that were before it.
-/

namespace CmTrace
namespace Collections

open Std

variable {A : Type}

variable {c : A → A → Ordering} [TransCmp c]

section

variable {pre post before after : List A} {s x : A}

/-- What was before an element and not greater, or behind it and lesser. -/
def Precedes (c : A → A → Ordering) (pre post : List A) (s x : A) : Prop :=
  (x ∈ pre ∧ (c x s).isLE) ∨ (x ∈ post ∧ c x s = .lt)

theorem mem_before_iff (hnodup : (pre ++ s :: post).Nodup)
    (hsort : sortBy c (pre ++ s :: post) = before ++ s :: after) :
    x ∈ before ↔ Precedes c pre post s x := by
  have hperm : (before ++ s :: after).Perm (pre ++ s :: post) := hsort ▸ sortBy_perm c _
  have hnodup' : (before ++ s :: after).Nodup := hperm.nodup_iff.mpr hnodup
  have hsorted : Sorted c (before ++ s :: after) := hsort ▸ sortBy_sorted c _
  obtain ⟨-, hrest, hcross⟩ := List.pairwise_append.mp hsorted
  have hlesser : x ∈ before → (c x s).isLE := fun hx => hcross x hx s (List.mem_cons_self ..)
  have hgreater : x ∈ after → (c s x).isLE := fun hx => (List.pairwise_cons.mp hrest).1 x hx
  have hs : s ∉ pre ∧ s ∉ post ∧ s ∉ before ∧ s ∉ after := by
    rw [List.nodup_middle, List.nodup_cons, List.mem_append, not_or] at hnodup hnodup'
    exact ⟨hnodup.1.1, hnodup.1.2, hnodup'.1.1, hnodup'.1.2⟩
  have hmem : x ∈ before ∨ x = s ∨ x ∈ after ↔ x ∈ pre ∨ x = s ∨ x ∈ post := by
    have hiff := hperm.mem_iff (a := x)
    simpa using hiff
  -- equals keep their order, so the same ones are before the element
  have hequals : x ∈ before ∧ c s x = .eq ↔ x ∈ pre ∧ c s x = .eq := by
    have hfilter : (before ++ s :: after).filter (fun y => c s y == .eq) =
        (pre ++ s :: post).filter fun y => c s y == .eq := hsort ▸ filter_sortBy s _
    rw [List.filter_append, List.filter_append, List.filter_cons_of_pos (by simp [cmp_self c]),
      List.filter_cons_of_pos (by simp [cmp_self c])] at hfilter
    have hcut := ((List.append_cons_inj_of_notMem
      (fun h => hs.2.2.1 (List.mem_filter.mp h).1)
      (fun h => hs.2.2.2 (List.mem_filter.mp h).1)).mp hfilter).1
    have hiff : x ∈ before.filter (fun y => c s y == .eq) ↔
        x ∈ pre.filter fun y => c s y == .eq := by
      rw [hcut]
    simpa using hiff
  have hdisjoint : x ∈ pre → x ∈ post → False := fun h h' =>
    (List.nodup_append.mp hnodup).2.2 x h x (List.mem_cons_of_mem _ h') rfl
  rw [Precedes]
  have hswap : c s x = (c x s).swap := cmp_swap c s x
  cases hc : c x s with
  | lt =>
    rw [hc] at hswap hlesser
    have hnot : x ∉ after := fun h => by
      have hle := hgreater h
      rw [hswap] at hle
      cases hle
    have hne : x ≠ s := fun h => by
      rw [h, cmp_self c] at hc
      cases hc
    simp only [Ordering.isLE_lt, and_true]
    constructor
    · intro h
      exact (hmem.mp (.inl h)).imp_right (·.resolve_left hne)
    · intro h
      rcases hmem.mpr (h.imp_right .inr) with h | h | h
      · exact h
      · exact absurd h hne
      · exact absurd h hnot
  | eq =>
    rw [hc] at hswap
    simpa [hswap] using hequals
  | gt =>
    rw [hc] at hlesser
    simpa using fun h => hlesser h

theorem length_filter_before (hnodup : (pre ++ s :: post).Nodup)
    (hsort : sortBy c (pre ++ s :: post) = before ++ s :: after) (p : A → Bool) :
    (before.filter p).length =
      (pre.filter fun x => p x && (c x s).isLE).length +
        (post.filter fun x => p x && (c x s == .lt)).length := by
  have hperm : (before ++ s :: after).Perm (pre ++ s :: post) := hsort ▸ sortBy_perm c _
  have hbefore : before.Nodup := (List.nodup_append.mp (hperm.nodup_iff.mpr hnodup)).1
  obtain ⟨hpre, hpost, hcross⟩ := List.nodup_append.mp hnodup
  have hboth : ((pre.filter fun x => p x && (c x s).isLE) ++
      post.filter fun x => p x && (c x s == .lt)).Nodup := by
    rw [List.nodup_append]
    refine ⟨hpre.filter _, (List.nodup_cons.mp hpost).2.filter _, fun x hx y hy => ?_⟩
    exact hcross x (List.mem_filter.mp hx).1 y
      (List.mem_cons_of_mem _ (List.mem_filter.mp hy).1)
  rw [← List.length_append]
  refine List.Perm.length_eq ?_
  rw [List.perm_ext_iff_of_nodup (hbefore.filter _) hboth]
  intro x
  rw [List.mem_filter, mem_before_iff hnodup hsort, Precedes, List.mem_append, List.mem_filter,
    List.mem_filter, Bool.and_eq_true, Bool.and_eq_true, beq_iff_eq]
  tauto

end

end Collections
end CmTrace
