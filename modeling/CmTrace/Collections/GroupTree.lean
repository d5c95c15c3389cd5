import CmTrace.Collections.Groups

/-!
# Lists in nested groups

A list is laid out in groups, the groups in groups of their own and so on, each
with a header.  What is below the header of a group that is folded is left out.
A group is known by its path, the keys from the outermost group down to it.
-/

namespace CmTrace
namespace Collections

variable {K R : Type} [DecidableEq K]

inductive TreeRow (K R : Type) where
  | header (path : List K) (count : Nat) (folded : Bool)
  | item (path : List K) (r : R)
  deriving DecidableEq

namespace TreeRow

def path : TreeRow K R → List K
  | header path _ _ => path
  | item path _ => path

def item? : TreeRow K R → Option R
  | header .. => none
  | item _ r => some r

def header? : TreeRow K R → Option (List K)
  | header path .. => some path
  | item .. => none

def below (k : List K) : TreeRow K R → Bool
  | header path .. => k.isPrefixOf path && decide (k ≠ path)
  | item path _ => k.isPrefixOf path

theorem below_header {k p : List K} {count : Nat} {folded : Bool} :
    (header p count folded : TreeRow K R).below k = true ↔ k <+: p ∧ k ≠ p := by
  rw [below, Bool.and_eq_true, List.isPrefixOf_iff_prefix, decide_eq_true_iff]

theorem below_item {k p : List K} {r : R} : (item p r).below k = true ↔ k <+: p := by
  rw [below, List.isPrefixOf_iff_prefix]

def fold (k : List K) : TreeRow K R → TreeRow K R
  | header path count folded => header path count (folded || decide (path = k))
  | item path r => item path r

end TreeRow

/-- The rows of a list in the groups of some levels, under a path. -/
def treeRows (folded : List K → Bool) : List (R → K) → List K → List R → List (TreeRow K R)
  | [], path, xs => xs.map (.item path)
  | level :: levels, path, xs =>
    (groupBy level xs).flatMap fun g =>
      .header (path ++ [g.1]) g.2.length (folded (path ++ [g.1])) ::
        if folded (path ++ [g.1]) then [] else treeRows folded levels (path ++ [g.1]) g.2

/-- The keys of an element, from the outermost level. -/
def pathOf (levels : List (R → K)) (r : R) : List K := levels.map fun level => level r

omit [DecidableEq K] in
theorem pathOf_cons_eq {level : R → K} {levels : List (R → K)} {r : R} {v : K} {q : List K} :
    pathOf (level :: levels) r = v :: q ↔ level r = v ∧ pathOf levels r = q := by
  rw [pathOf, List.map_cons, List.cons.injEq]
  rfl

def unfolded (folded : List K → Bool) : List (R → K) → List K → R → Bool
  | [], _, _ => true
  | level :: levels, path, r =>
    !folded (path ++ [level r]) && unfolded folded levels (path ++ [level r]) r

variable {folded : List K → Bool} {levels : List (R → K)} {path : List K} {xs : List R}

/-! ## One group out of all -/

theorem flatMap_key {B : Type} {groups : List (K × List R)} (hnodup : (groups.map Prod.fst).Nodup)
    (v : K) (f : List R → List B) :
    (groups.flatMap fun g => if g.1 = v then f g.2 else []) =
      ((groups.find? fun g => g.1 = v).map fun g => f g.2).getD [] := by
  induction groups with
  | nil => rfl
  | cons g groups ih =>
    rw [List.map_cons, List.nodup_cons] at hnodup
    rw [List.flatMap_cons, ih hnodup.2]
    by_cases hg : g.1 = v
    · rw [if_pos hg, List.find?_cons_of_pos (by simpa using hg)]
      have hnone : (groups.find? fun g => g.1 = v) = none := by
        rw [List.find?_eq_none]
        intro g' hg' hv
        exact hnodup.1 (List.mem_map.mpr ⟨g', hg', (of_decide_eq_true hv).trans hg.symm⟩)
      rw [hnone]
      exact List.append_nil _
    · rw [if_neg hg, List.find?_cons_of_neg (by simpa using hg), List.nil_append]

theorem flatMap_groupBy_key {B : Type} (level : R → K) (xs : List R) (v : K)
    (f : List R → List B) (hf : f [] = []) :
    ((groupBy level xs).flatMap fun g => if g.1 = v then f g.2 else []) =
      f (xs.filter fun r => level r = v) := by
  have hgroups := groupBy_spec level xs
  rw [flatMap_key hgroups.nodup]
  cases hfind : (groupBy level xs).find? fun g => g.1 = v with
  | none =>
    have hnone : (xs.filter fun r => level r = v) = [] := by
      by_contra hne
      have hmem := (hgroups.mem v _).mpr ⟨rfl, hne⟩
      exact (List.find?_eq_none.mp hfind) _ hmem (decide_eq_true rfl)
    rw [hnone, hf]
    rfl
  | some g =>
    have hkey : g.1 = v := by simpa using List.find?_some hfind
    have hmem : (v, g.2) ∈ groupBy level xs := hkey ▸ List.mem_of_find?_eq_some hfind
    rw [Option.map_some, Option.getD_some, ((hgroups.mem v g.2).mp hmem).1]

theorem mem_groupBy {level : R → K} {xs : List R} {g : K × List R} (h : g ∈ groupBy level xs) :
    g.2 = xs.filter fun r => level r = g.1 :=
  (((groupBy_spec level xs).mem g.1 g.2).mp h).1

theorem key_of_mem_groupBy {level : R → K} {xs : List R} {g : K × List R} (h : g ∈ groupBy level xs)
    {r : R} (hr : r ∈ g.2) : level r = g.1 := by
  rw [mem_groupBy h] at hr
  simpa using (List.mem_filter.mp hr).2

theorem perm_of_groups [DecidableEq R] (key : R → K) {xs ys : List R}
    (h : ∀ v, (xs.filter fun r => key r = v) = ys.filter fun r => key r = v) : xs.Perm ys := by
  refine List.perm_iff_count.mpr fun r => ?_
  have hgroup := congrArg (List.count r) (h (key r))
  have hr : decide (key r = key r) = true := decide_eq_true rfl
  rwa [List.count_filter (p := fun r' => decide (key r' = key r)) hr,
    List.count_filter (p := fun r' => decide (key r' = key r)) hr] at hgroup

/-! ## Other keys, other folds -/

theorem groupBy_map_key {L : Type} [DecidableEq L] {g : K → L} (hg : Function.Injective g)
    (key : R → K) (xs : List R) :
    groupBy (fun r => g (key r)) xs = (groupBy key xs).map fun group => (g group.1, group.2) := by
  have hpush : ∀ (k : K) (r : R) (groups : List (K × List R)),
      push (g k) r (groups.map fun group => (g group.1, group.2)) =
        (push k r groups).map fun group => (g group.1, group.2) := by
    intro k r groups
    induction groups with
    | nil => rfl
    | cons group groups ih =>
      rw [List.map_cons, push, push]
      by_cases hk : group.1 = k
      · rw [if_pos hk, if_pos (congrArg g hk)]
        rfl
      · rw [if_neg hk, if_neg (fun h => hk (hg h)), ih]
        rfl
  have hfold : ∀ (xs : List R) (groups : List (K × List R)),
      xs.foldl (fun groups r => push (g (key r)) r groups)
          (groups.map fun group => (g group.1, group.2)) =
        (xs.foldl (fun groups r => push (key r) r groups) groups).map
          fun group => (g group.1, group.2) := by
    intro xs
    induction xs with
    | nil => exact fun _ => rfl
    | cons r xs ih =>
      intro groups
      rw [List.foldl_cons, List.foldl_cons, hpush, ih]
  exact hfold xs []

theorem treeRows_congr {folded' : List K → Bool}
    (h : ∀ r ∈ xs, ∀ q, q <+: pathOf levels r → folded (path ++ q) = folded' (path ++ q)) :
    treeRows folded levels path xs = treeRows folded' levels path xs := by
  induction levels generalizing path xs with
  | nil => rfl
  | cons level levels ih =>
    rw [treeRows, treeRows]
    refine List.flatMap_congr fun g hg => ?_
    have hsub : ∀ r ∈ g.2, r ∈ xs ∧ level r = g.1 := fun r hr =>
      ⟨(List.mem_filter.mp (mem_groupBy hg ▸ hr)).1, key_of_mem_groupBy hg hr⟩
    have hne : g.2 ≠ [] := (((groupBy_spec level xs).mem g.1 g.2).mp hg).2
    obtain ⟨r, hr⟩ := List.exists_mem_of_ne_nil g.2 hne
    have hkey : folded (path ++ [g.1]) = folded' (path ++ [g.1]) := by
      refine h r (hsub r hr).1 [g.1] ?_
      rw [← (hsub r hr).2]
      exact ⟨pathOf levels r, rfl⟩
    have hrest : treeRows folded levels (path ++ [g.1]) g.2 =
        treeRows folded' levels (path ++ [g.1]) g.2 := by
      refine ih fun r hr q hq => ?_
      rw [List.append_assoc]
      refine h r (hsub r hr).1 (g.1 :: q) ?_
      rw [← (hsub r hr).2]
      exact (List.prefix_cons_inj _).mpr hq
    rw [hkey, hrest]

/-! ## The elements -/

theorem items_cons (level : R → K) :
    (treeRows folded (level :: levels) path xs).filterMap TreeRow.item? =
      (groupBy level xs).flatMap fun g => if folded (path ++ [g.1]) then []
        else (treeRows folded levels (path ++ [g.1]) g.2).filterMap TreeRow.item? := by
  rw [treeRows, List.filterMap_flatMap]
  refine List.flatMap_congr fun g _ => ?_
  rw [List.filterMap_cons_none rfl]
  split_ifs
  · rfl
  · rfl

theorem items_subset : (treeRows folded levels path xs).filterMap TreeRow.item? ⊆ xs := by
  induction levels generalizing path xs with
  | nil =>
    intro r hr
    rw [treeRows, List.filterMap_map, List.mem_filterMap] at hr
    obtain ⟨r', hr', heq⟩ := hr
    exact Option.some.inj heq ▸ hr'
  | cons level levels ih =>
    intro r hr
    rw [items_cons, List.mem_flatMap] at hr
    obtain ⟨g, hg, hr⟩ := hr
    split_ifs at hr
    · exact absurd hr List.not_mem_nil
    · exact (List.mem_filter.mp (mem_groupBy hg ▸ ih hr)).1

theorem items_of_path (q : List K) :
    ((treeRows folded levels path xs).filterMap TreeRow.item?).filter
        (fun r => pathOf levels r = q) =
      xs.filter fun r => unfolded folded levels path r && decide (pathOf levels r = q) := by
  induction levels generalizing path xs q with
  | nil =>
    rw [treeRows, List.filterMap_map]
    have hitems : xs.filterMap (TreeRow.item? ∘ TreeRow.item path) = xs := List.filterMap_some
    rw [hitems]
    rfl
  | cons level levels ih =>
    cases q with
    | nil => simp [pathOf]
    | cons v q =>
      rw [items_cons, List.filter_flatMap]
      have hgroup : ∀ g ∈ groupBy level xs, ((if folded (path ++ [g.1]) then []
          else (treeRows folded levels (path ++ [g.1]) g.2).filterMap TreeRow.item?).filter
            fun r => pathOf (level :: levels) r = v :: q) =
          if g.1 = v then (if folded (path ++ [v]) then []
            else g.2.filter fun r => unfolded folded levels (path ++ [v]) r &&
              decide (pathOf levels r = q)) else [] := by
        intro g hg
        have hkey : ∀ r ∈ g.2, level r = g.1 := fun r hr => key_of_mem_groupBy hg hr
        by_cases hv : g.1 = v
        · rw [if_pos hv, hv]
          split_ifs
          · rfl
          · rw [← ih q]
            refine List.filter_congr fun r hr => ?_
            rw [decide_eq_decide, pathOf_cons_eq, hkey r (items_subset hr), hv]
            exact and_iff_right rfl
        · rw [if_neg hv]
          split_ifs
          · rfl
          · refine List.filter_eq_nil_iff.mpr fun r hr heq => hv ?_
            rw [decide_eq_true_iff, pathOf_cons_eq, hkey r (items_subset hr)] at heq
            exact heq.1
      rw [List.flatMap_congr hgroup, flatMap_groupBy_key level xs v (fun ys =>
        if folded (path ++ [v]) then [] else ys.filter fun r =>
          unfolded folded levels (path ++ [v]) r && decide (pathOf levels r = q)) (by simp)]
      have hpath : ∀ r, (unfolded folded (level :: levels) path r &&
          decide (pathOf (level :: levels) r = v :: q)) =
          (decide (level r = v) && (!folded (path ++ [v]) &&
            (unfolded folded levels (path ++ [v]) r && decide (pathOf levels r = q)))) := by
        intro r
        simp only [unfolded, pathOf_cons_eq]
        by_cases hv : level r = v
        · simp [hv, Bool.and_assoc]
        · simp [hv]
      simp only [hpath]
      split_ifs with hfolded
      · simp [hfolded]
      · rw [List.filter_filter]
        refine List.filter_congr fun r _ => ?_
        rw [Bool.and_comm]
        simp [hfolded]

/-! ## The headers -/

theorem mem_treeRows_cons {level : R → K} {row : TreeRow K R} :
    row ∈ treeRows folded (level :: levels) path xs ↔ ∃ g ∈ groupBy level xs,
      row = .header (path ++ [g.1]) g.2.length (folded (path ++ [g.1])) ∨
        folded (path ++ [g.1]) = false ∧ row ∈ treeRows folded levels (path ++ [g.1]) g.2 := by
  rw [treeRows, List.mem_flatMap]
  refine exists_congr fun g => and_congr_right fun _ => ?_
  rw [List.mem_cons]
  refine or_congr_right ?_
  cases folded (path ++ [g.1])
  · simp
  · simp

theorem path_of_mem {row : TreeRow K R} (h : row ∈ treeRows folded levels path xs) :
    path <+: row.path ∧ (row.header?.isSome → path ≠ row.path) := by
  induction levels generalizing path xs with
  | nil =>
    rw [treeRows, List.mem_map] at h
    obtain ⟨r, -, rfl⟩ := h
    exact ⟨List.prefix_refl _, fun hsome => by cases hsome⟩
  | cons level levels ih =>
    obtain ⟨g, -, rfl | ⟨-, hrow⟩⟩ := mem_treeRows_cons.mp h
    · refine ⟨List.prefix_append _ _, fun _ heq => ?_⟩
      exact absurd (congrArg List.length heq) (by simp [TreeRow.path])
    · obtain ⟨⟨rest, hrest⟩, -⟩ := ih hrow
      refine ⟨⟨g.1 :: rest, by rw [← hrest, List.append_assoc]; rfl⟩, fun _ heq => ?_⟩
      have hlen := congrArg List.length (heq.trans hrest.symm)
      rw [List.length_append, List.length_append] at hlen
      simp at hlen
      omega

theorem path_of_item {p : List K} {r : R} (h : .item p r ∈ treeRows folded levels path xs) :
    p = path ++ pathOf levels r ∧ r ∈ xs := by
  induction levels generalizing path xs with
  | nil =>
    rw [treeRows, List.mem_map] at h
    obtain ⟨r', hr', heq⟩ := h
    obtain ⟨rfl, rfl⟩ := TreeRow.item.inj heq
    exact ⟨(List.append_nil _).symm, hr'⟩
  | cons level levels ih =>
    obtain ⟨g, hg, heq | ⟨-, hrow⟩⟩ := mem_treeRows_cons.mp h
    · cases heq
    · obtain ⟨rfl, hr⟩ := ih hrow
      refine ⟨?_, (List.mem_filter.mp (mem_groupBy hg ▸ hr)).1⟩
      rw [← key_of_mem_groupBy hg hr, List.append_assoc]
      rfl

theorem cons_prefix_pathOf (level : R → K) (levels : List (R → K)) (r : R) (v : K) (q : List K) :
    decide (v :: q <+: pathOf (level :: levels) r) =
      (decide (level r = v) && decide (q <+: pathOf levels r)) := by
  show decide (v :: q <+: level r :: pathOf levels r) = _
  rw [← Bool.decide_and, decide_eq_decide, List.cons_prefix_cons, eq_comm]

theorem header_mem {p : List K} {count : Nat} {f : Bool}
    (h : .header p count f ∈ treeRows folded levels path xs) :
    ∃ q, p = path ++ q ∧ q ≠ [] ∧ f = folded p ∧
      count = (xs.filter fun r => decide (q <+: pathOf levels r)).length := by
  induction levels generalizing path xs with
  | nil =>
    rw [treeRows, List.mem_map] at h
    obtain ⟨r, -, hr⟩ := h
    cases hr
  | cons level levels ih =>
    obtain ⟨g, hg, heq | ⟨-, hrow⟩⟩ := mem_treeRows_cons.mp h
    · obtain ⟨rfl, rfl, rfl⟩ := TreeRow.header.inj heq
      refine ⟨[g.1], rfl, List.cons_ne_nil _ _, rfl, ?_⟩
      rw [mem_groupBy hg]
      refine congrArg List.length (List.filter_congr fun r _ => ?_)
      rw [cons_prefix_pathOf, decide_eq_true List.nil_prefix, Bool.and_true]
    · obtain ⟨q, rfl, hq, hf, rfl⟩ := ih hrow
      refine ⟨g.1 :: q, by rw [List.append_assoc]; rfl, List.cons_ne_nil _ _, hf, ?_⟩
      rw [mem_groupBy hg, List.filter_filter]
      refine congrArg List.length (List.filter_congr fun r _ => ?_)
      rw [cons_prefix_pathOf, Bool.and_comm]

theorem exists_of_header {p : List K} {count : Nat} {f : Bool}
    (h : .header p count f ∈ treeRows folded levels path xs) :
    ∃ r ∈ xs, ∃ q, p = path ++ q ∧ q <+: pathOf levels r := by
  induction levels generalizing path xs with
  | nil =>
    rw [treeRows, List.mem_map] at h
    obtain ⟨r, -, hr⟩ := h
    cases hr
  | cons level levels ih =>
    obtain ⟨g, hg, heq | ⟨-, hrow⟩⟩ := mem_treeRows_cons.mp h
    · obtain ⟨rfl, -, -⟩ := TreeRow.header.inj heq
      have hne : g.2 ≠ [] := (((groupBy_spec level xs).mem g.1 g.2).mp hg).2
      obtain ⟨r, hr⟩ := List.exists_mem_of_ne_nil g.2 hne
      refine ⟨r, (List.mem_filter.mp (mem_groupBy hg ▸ hr)).1, [g.1], rfl, ?_⟩
      exact ⟨pathOf levels r, by rw [← key_of_mem_groupBy hg hr]; rfl⟩
    · obtain ⟨r, hr, q, rfl, hq⟩ := ih hrow
      refine ⟨r, (List.mem_filter.mp (mem_groupBy hg ▸ hr)).1, g.1 :: q, ?_, ?_⟩
      · rw [List.append_assoc]
        rfl
      · rw [← key_of_mem_groupBy hg hr]
        exact (List.prefix_cons_inj _).mpr hq

theorem headers_cons (level : R → K) :
    (treeRows folded (level :: levels) path xs).filterMap TreeRow.header? =
      (groupBy level xs).flatMap fun g => (path ++ [g.1]) :: if folded (path ++ [g.1]) then []
        else (treeRows folded levels (path ++ [g.1]) g.2).filterMap TreeRow.header? := by
  rw [treeRows, List.filterMap_flatMap]
  refine List.flatMap_congr fun g _ => ?_
  rw [List.filterMap_cons_some (show TreeRow.header? (.header (path ++ [g.1]) _ _) =
    some (path ++ [g.1]) from rfl)]
  split_ifs
  · rfl
  · rfl

theorem path_of_header {p : List K}
    (h : p ∈ (treeRows folded levels path xs).filterMap TreeRow.header?) :
    path <+: p ∧ path ≠ p := by
  obtain ⟨row, hrow, hp⟩ := List.mem_filterMap.mp h
  have hpath := path_of_mem hrow
  cases row with
  | header p' count f =>
    obtain rfl := Option.some.inj hp
    exact ⟨hpath.1, hpath.2 rfl⟩
  | item p' r => cases hp

theorem nodup_headers : ((treeRows folded levels path xs).filterMap TreeRow.header?).Nodup := by
  induction levels generalizing path xs with
  | nil =>
    have hnil : (treeRows folded [] path xs).filterMap TreeRow.header? = [] := by
      rw [treeRows, List.filterMap_map]
      exact List.filterMap_eq_nil_iff.mpr fun r _ => rfl
    rw [hnil]
    exact List.nodup_nil
  | cons level levels ih =>
    have hbelow : ∀ (g : K × List R) (p : List K), p ∈ ((path ++ [g.1]) ::
        if folded (path ++ [g.1]) then []
        else (treeRows folded levels (path ++ [g.1]) g.2).filterMap TreeRow.header?) →
        path ++ [g.1] <+: p := by
      intro g p hp
      rcases List.mem_cons.mp hp with rfl | hp
      · exact List.prefix_refl _
      · split_ifs at hp
        · exact absurd hp List.not_mem_nil
        · exact (path_of_header hp).1
    rw [headers_cons, List.nodup_flatMap]
    refine ⟨fun g _ => List.nodup_cons.mpr ⟨fun hp => ?_, ?_⟩, ?_⟩
    · split_ifs at hp
      · exact absurd hp List.not_mem_nil
      · exact (path_of_header hp).2 rfl
    · split_ifs
      · exact List.nodup_nil
      · exact ih
    · refine (List.pairwise_map.mp (groupBy_spec level xs).nodup).imp ?_
      refine fun {g g'} hne p hp hp' => hne ?_
      have hpre := hbelow g p hp
      have hpre' := hbelow g' p hp'
      have heq := (List.prefix_of_prefix_length_le hpre hpre' (by simp)).eq_of_length (by simp)
      exact List.singleton_inj.mp (List.append_cancel_left heq)

/-! ## Folding one group more -/

theorem fold_of_ne {k : List K} {row : TreeRow K R} (h : row.path ≠ k) : row.fold k = row := by
  cases row with
  | header p count f => rw [TreeRow.fold, decide_eq_false (show ¬ p = k from h), Bool.or_false]
  | item p r => rfl

theorem treeRows_fold (k : List K) (hk : ¬ k <+: path) :
    treeRows (fun p => folded p || decide (p = k)) levels path xs =
      ((treeRows folded levels path xs).filter fun row => !row.below k).map (TreeRow.fold k) := by
  induction levels generalizing path xs with
  | nil =>
    have hkeep : ∀ row ∈ xs.map (TreeRow.item path), (!row.below k) = true := by
      intro row hrow
      obtain ⟨r, -, rfl⟩ := List.mem_map.mp hrow
      rw [TreeRow.below, Bool.not_eq_true', ← Bool.not_eq_true, List.isPrefixOf_iff_prefix]
      exact hk
    rw [treeRows, treeRows, List.filter_eq_self.mpr hkeep, List.map_map]
    rfl
  | cons level levels ih =>
    rw [treeRows, treeRows, List.filter_flatMap, List.map_flatMap]
    refine List.flatMap_congr fun g _ => ?_
    have hheader : (TreeRow.header (path ++ [g.1]) g.2.length (folded (path ++ [g.1])) :
        TreeRow K R).below k = false := by
      rw [TreeRow.below, Bool.and_eq_false_iff, ← Bool.not_eq_true, List.isPrefixOf_iff_prefix]
      by_cases heq : k = path ++ [g.1]
      · exact .inr (decide_eq_false (not_not.mpr heq))
      · exact .inl fun hpre => (List.prefix_concat_iff.mp hpre).elim heq hk
    rw [List.filter_cons_of_pos (by rw [hheader]; rfl), List.map_cons]
    by_cases heq : path ++ [g.1] = k
    · -- all rows of the group are below its header
      have hall : ∀ row ∈ treeRows folded levels (path ++ [g.1]) g.2, ¬ (!row.below k) = true := by
        intro row hrow
        have hpath := path_of_mem hrow
        rw [Bool.not_eq_true', Bool.not_eq_false]
        cases row with
        | header p count f =>
          exact TreeRow.below_header.mpr ⟨heq ▸ hpath.1, heq ▸ hpath.2 rfl⟩
        | item p r =>
          exact TreeRow.below_item.mpr (heq ▸ hpath.1)
      have hempty : (if folded (path ++ [g.1]) then []
          else treeRows folded levels (path ++ [g.1]) g.2).filter (fun row => !row.below k) =
            [] := by
        split_ifs
        · rfl
        · exact List.filter_eq_nil_iff.mpr hall
      rw [hempty, List.map_nil, TreeRow.fold, heq, decide_eq_true rfl, Bool.or_true, if_pos rfl]
    · have hpath : (TreeRow.header (path ++ [g.1]) g.2.length (folded (path ++ [g.1])) :
          TreeRow K R).path ≠ k := heq
      rw [decide_eq_false heq, Bool.or_false, fold_of_ne hpath]
      congr 1
      split_ifs
      · rfl
      · refine ih fun hpre => ?_
        exact (List.prefix_concat_iff.mp hpre).elim (fun h => heq h.symm) hk

end Collections
end CmTrace
