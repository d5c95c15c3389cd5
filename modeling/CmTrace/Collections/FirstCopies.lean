import CmTrace.Collections.Sorted

/-!
# Sorting the first copies

Of the elements with one key the first is kept, and what is kept is sorted.  The keys
come out in one order for every arrangement of the list exactly when no two of them
tie and all copies of one key stand on one side of all copies of another.
-/

namespace CmTrace
namespace Collections

open Std

variable {A K : Type} [DecidableEq K] (key : A → K)

/-- The first element of each key that is not in `seen`. -/
def firstCopiesFrom (seen : List K) : List A → List A
  | [] => []
  | a :: rest =>
    if key a ∈ seen then firstCopiesFrom seen rest
    else a :: firstCopiesFrom (key a :: seen) rest

def firstCopies (xs : List A) : List A := firstCopiesFrom key [] xs

variable {key} {seen : List K} {xs ys : List A}

theorem mem_of_mem_firstCopiesFrom {a : A} (h : a ∈ firstCopiesFrom key seen xs) :
    a ∈ xs ∧ key a ∉ seen := by
  induction xs generalizing seen with
  | nil => cases h
  | cons x xs ih =>
    rw [firstCopiesFrom] at h
    split_ifs at h with hx
    · exact ⟨List.mem_cons_of_mem x (ih h).1, (ih h).2⟩
    · rcases List.mem_cons.mp h with rfl | h
      · exact ⟨List.mem_cons_self, hx⟩
      · obtain ⟨hmem, hnot⟩ := ih h
        exact ⟨List.mem_cons_of_mem x hmem, fun hseen => hnot (List.mem_cons_of_mem _ hseen)⟩

theorem exists_firstCopy {a : A} (ha : a ∈ xs) (hseen : key a ∉ seen) :
    ∃ b ∈ firstCopiesFrom key seen xs, key b = key a := by
  induction xs generalizing seen with
  | nil => cases ha
  | cons x xs ih =>
    rw [firstCopiesFrom]
    by_cases hx : key x ∈ seen
    · rw [if_pos hx]
      rcases List.mem_cons.mp ha with rfl | ha
      · exact absurd hx hseen
      · exact ih ha hseen
    · rw [if_neg hx]
      by_cases heq : key x = key a
      · exact ⟨x, List.mem_cons_self, heq⟩
      · rcases List.mem_cons.mp ha with rfl | ha
        · exact absurd rfl heq
        · have hnext : key a ∉ key x :: seen := by
            rw [List.mem_cons, not_or]
            exact ⟨Ne.symm heq, hseen⟩
          obtain ⟨b, hb, hkey⟩ := ih ha hnext
          exact ⟨b, List.mem_cons_of_mem x hb, hkey⟩

theorem mem_firstCopiesFrom {pre post : List A} {a : A} (hpre : ∀ b ∈ pre, key b ≠ key a)
    (hseen : key a ∉ seen) : a ∈ firstCopiesFrom key seen (pre ++ a :: post) := by
  induction pre generalizing seen with
  | nil =>
    rw [List.nil_append, firstCopiesFrom, if_neg hseen]
    exact List.mem_cons_self
  | cons x pre ih =>
    have hrest := fun b hb => hpre b (List.mem_cons_of_mem x hb)
    rw [List.cons_append, firstCopiesFrom]
    split_ifs
    · exact ih hrest hseen
    · refine List.mem_cons_of_mem x (ih hrest ?_)
      rw [List.mem_cons, not_or]
      exact ⟨Ne.symm (hpre x List.mem_cons_self), hseen⟩

theorem nodup_firstCopiesFrom (seen : List K) (xs : List A) :
    ((firstCopiesFrom key seen xs).map key).Nodup := by
  induction xs generalizing seen with
  | nil => exact List.nodup_nil
  | cons x xs ih =>
    rw [firstCopiesFrom]
    split_ifs
    · exact ih seen
    · rw [List.map_cons, List.nodup_cons]
      refine ⟨fun hmem => ?_, ih _⟩
      obtain ⟨b, hb, hkey⟩ := List.mem_map.mp hmem
      exact (mem_of_mem_firstCopiesFrom hb).2 (hkey ▸ List.mem_cons_self)

theorem firstCopies_keys_perm (h : ∀ a, a ∈ xs ↔ a ∈ ys) :
    ((firstCopies key xs).map key).Perm ((firstCopies key ys).map key) := by
  have hsub : ∀ {xs ys : List A}, (∀ a, a ∈ xs ↔ a ∈ ys) → ∀ k,
      k ∈ (firstCopies key xs).map key → k ∈ (firstCopies key ys).map key := by
    intro xs ys h k hk
    obtain ⟨a, ha, rfl⟩ := List.mem_map.mp hk
    have hmem := (h a).mp (mem_of_mem_firstCopiesFrom ha).1
    have hfirst : ∃ b ∈ firstCopies key ys, key b = key a := exists_firstCopy hmem List.not_mem_nil
    exact List.mem_map.mpr hfirst
  refine (List.perm_ext_iff_of_nodup (nodup_firstCopiesFrom [] xs)
    (nodup_firstCopiesFrom [] ys)).mpr fun k => ?_
  exact ⟨hsub h k, hsub (fun a => (h a).symm) k⟩

theorem filter_firstCopiesFrom {p : A → Bool} (hp : ∀ a b, key a = key b → p a = p b)
    (xs : List A) : ∀ {seen seen' : List K}, (∀ a, p a = true → (key a ∈ seen ↔ key a ∈ seen')) →
      (firstCopiesFrom key seen xs).filter p = firstCopiesFrom key seen' (xs.filter p) := by
  induction xs with
  | nil => exact fun _ => rfl
  | cons x xs ih =>
    intro seen seen' hseen
    rw [firstCopiesFrom]
    cases hx : p x with
    | true =>
      rw [List.filter_cons_of_pos hx, firstCopiesFrom]
      by_cases hmem : key x ∈ seen
      · rw [if_pos hmem, if_pos ((hseen x hx).mp hmem)]
        exact ih hseen
      · rw [if_neg hmem, if_neg fun hmem' => hmem ((hseen x hx).mpr hmem'),
          List.filter_cons_of_pos hx]
        refine congrArg (x :: ·) (ih fun a ha => ?_)
        rw [List.mem_cons, List.mem_cons, hseen a ha]
    | false =>
      have hneg : ¬ p x = true := Bool.eq_false_iff.mp hx
      rw [List.filter_cons_of_neg hneg]
      split_ifs
      · exact ih hseen
      · rw [List.filter_cons_of_neg hneg]
        refine ih fun a ha => ?_
        have hne : key a ≠ key x := fun heq => by
          rw [hp a x heq, hx] at ha
          cases ha
        rw [List.mem_cons, or_iff_right hne, hseen a ha]

theorem firstCopies_cons_cons {a b : A} (hab : key a ≠ key b) (rest : List A) :
    [a, b].Sublist (firstCopies key (a :: b :: rest)) := by
  rw [firstCopies, firstCopiesFrom, if_neg List.not_mem_nil, firstCopiesFrom, if_neg]
  · exact ((List.nil_sublist _).cons_cons b).cons_cons a
  · rw [List.mem_singleton]
    exact Ne.symm hab

omit [DecidableEq K] in
theorem not_nodup_of_swapped {k k' : K} (hne : k ≠ k') {l : List K} (h : [k, k'].Sublist l)
    (h' : [k', k].Sublist l) : ¬ l.Nodup := by
  induction l with
  | nil => cases h
  | cons x l ih =>
    intro hnodup
    obtain ⟨hx, hl⟩ := List.nodup_cons.mp hnodup
    rcases List.sublist_cons_iff.mp h with htail | ⟨r, hr, _⟩
    · rcases List.sublist_cons_iff.mp h' with htail' | ⟨r, hr, _⟩
      · exact ih htail htail' hl
      · obtain ⟨rfl, rfl⟩ := List.cons.inj hr
        exact hx (htail.subset (List.mem_cons_of_mem _ List.mem_cons_self))
    · obtain ⟨rfl, rfl⟩ := List.cons.inj hr
      rcases List.sublist_cons_iff.mp h' with htail' | ⟨r', hr', _⟩
      · exact hx (htail'.subset (List.mem_cons_of_mem _ List.mem_cons_self))
      · exact hne (List.cons.inj hr').1.symm

variable {c : A → A → Ordering}

/-- No two keys tie, and their copies compare alike. -/
def Separated (c : A → A → Ordering) (key : A → K) (xs : List A) : Prop :=
  ∀ a ∈ xs, ∀ b ∈ xs, ∀ a' ∈ xs, ∀ b' ∈ xs, key a ≠ key b → key a' = key a → key b' = key b →
    c a b ≠ .eq ∧ c a' b' = c a b

/-- The keys of the first copies in the order of the sort. -/
def sortedKeys (c : A → A → Ordering) (key : A → K) (xs : List A) : List K :=
  (sortBy c (firstCopies key xs)).map key

theorem nodup_sortedKeys (xs : List A) : (sortedKeys c key xs).Nodup :=
  ((sortBy_perm c _).map key).nodup_iff.mpr (nodup_firstCopiesFrom [] xs)

variable [TransCmp c]

theorem front_sublist {a b : A} (hab : key a ≠ key b) (hle : (c a b).isLE) (rest : List A) :
    [key a, key b].Sublist (sortedKeys c key (a :: b :: rest)) :=
  (List.pair_sublist_mergeSort (isLE_trans c) (isLE_total c) hle
    (firstCopies_cons_cons hab rest)).map key

theorem front_swapped {a b : A} (hab : key a ≠ key b) (hgt : c a b = .gt) (rest : List A) :
    [key b, key a].Sublist (sortedKeys c key (a :: b :: rest)) := by
  have hfront := firstCopies_cons_cons hab rest
  have hmem : ∀ x ∈ [a, b], x ∈ sortBy c (firstCopies key (a :: b :: rest)) :=
    fun x hx => mem_sortBy.mpr (hfront.subset hx)
  obtain ⟨s, t, hs⟩ := List.append_of_mem (hmem b (List.mem_cons_of_mem a List.mem_cons_self))
  have hsorted := sortBy_sorted c (firstCopies key (a :: b :: rest))
  have ha := hmem a List.mem_cons_self
  rw [sortedKeys]
  rw [hs] at hsorted ha ⊢
  have hafter : a ∈ t := by
    rcases List.mem_append.mp ha with ha | ha
    · have hle := (List.pairwise_append.mp hsorted).2.2 a ha b List.mem_cons_self
      rw [hgt] at hle
      cases hle
    · rcases List.mem_cons.mp ha with rfl | ha
      · exact absurd rfl hab
      · exact ha
  have hpair : [b, a].Sublist (s ++ b :: t) :=
    ((List.singleton_sublist.mpr hafter).cons_cons b).trans (List.sublist_append_right s _)
  exact hpair.map key

omit [DecidableEq K] [TransCmp c] in
theorem exists_perm_front {a b : A} (ha : a ∈ xs) (hb : b ∈ xs) (hab : key a ≠ key b) :
    ∃ rest, (a :: b :: rest).Perm xs := by
  obtain ⟨s, t, rfl⟩ := List.append_of_mem ha
  have hb' : b ∈ s ++ t := by
    rw [List.mem_append, List.mem_cons] at hb
    rcases hb with hb | rfl | hb
    · exact List.mem_append_left t hb
    · exact absurd rfl hab
    · exact List.mem_append_right s hb
  obtain ⟨u, v, huv⟩ := List.append_of_mem hb'
  refine ⟨u ++ v, ?_⟩
  have hfront : (b :: (u ++ v)).Perm (s ++ t) := by
    rw [huv]
    exact List.perm_middle.symm
  exact (hfront.cons a).trans List.perm_middle.symm

omit [DecidableEq K] [TransCmp c] in
theorem exists_perm_filter {p : A → Bool} (h : ys.Perm (xs.filter p)) :
    ∃ zs : List A, zs.Perm xs ∧ zs.filter p = ys := by
  refine ⟨ys ++ xs.filter fun a => !p a, ?_, ?_⟩
  · exact (h.append_right _).trans (List.filter_append_perm p xs)
  · have hpass : ∀ a ∈ ys, p a = true := fun a ha => (List.mem_filter.mp (h.subset ha)).2
    have hstop : ∀ a ∈ xs.filter fun a => !p a, ¬ p a = true := by
      intro a ha
      have hnot := (List.mem_filter.mp ha).2
      rwa [Bool.not_eq_true', ← Bool.not_eq_true] at hnot
    rw [List.filter_append, List.filter_eq_self.mpr hpass, List.filter_eq_nil_iff.mpr hstop,
      List.append_nil]

/-- The keys come out in one order for every arrangement exactly when they are
separated. -/
theorem sortedKeys_perm_iff (xs : List A) :
    (∀ ys, ys.Perm xs → sortedKeys c key ys = sortedKeys c key xs) ↔ Separated c key xs := by
  constructor
  · intro h
    have hcontra : ∀ {ys ys' : List A} {k k' : K}, ys.Perm xs → ys'.Perm xs → k ≠ k' →
        [k, k'].Sublist (sortedKeys c key ys) → [k', k].Sublist (sortedKeys c key ys') → False := by
      intro ys ys' k k' hys hys' hne hsub hsub'
      rw [h ys hys] at hsub
      rw [h ys' hys'] at hsub'
      exact not_nodup_of_swapped hne hsub hsub' (nodup_sortedKeys xs)
    -- two elements that tie come in either order
    have hne : ∀ a ∈ xs, ∀ b ∈ xs, key a ≠ key b → c a b ≠ .eq := by
      intro a ha b hb hab htie
      obtain ⟨rest, hrest⟩ := exists_perm_front ha hb hab
      have hswap : (b :: a :: rest).Perm xs := (List.Perm.swap a b rest).trans hrest
      refine hcontra hrest hswap hab (front_sublist hab (by rw [htie]; rfl) rest)
        (front_sublist (Ne.symm hab) ?_ rest)
      rw [cmp_swap c, htie]
      rfl
    intro a ha b hb a' ha' b' hb' hab hkey hkey'
    have hab' : key a' ≠ key b' := by rwa [hkey, hkey']
    refine ⟨hne a ha b hb hab, ?_⟩
    obtain ⟨rest, hrest⟩ := exists_perm_front ha hb hab
    obtain ⟨rest', hrest'⟩ := exists_perm_front ha' hb' hab'
    have htie := hne a ha b hb hab
    have htie' := hne a' ha' b' hb' hab'
    cases hc : c a b with
    | eq => exact absurd hc htie
    | lt =>
      cases hc' : c a' b' with
      | eq => exact absurd hc' htie'
      | lt => rfl
      | gt =>
        refine (hcontra hrest hrest' hab (front_sublist hab (by rw [hc]; rfl) rest) ?_).elim
        rw [← hkey, ← hkey']
        exact front_swapped hab' hc' rest'
    | gt =>
      cases hc' : c a' b' with
      | eq => exact absurd hc' htie'
      | gt => rfl
      | lt =>
        refine (hcontra hrest' hrest hab ?_ (front_swapped hab hc rest)).elim
        rw [← hkey, ← hkey']
        exact front_sublist hab' (by rw [hc']; rfl) rest'
  · intro hsep ys hys
    have hmem : ∀ {zs : List A} {a : A}, zs.Perm xs → a ∈ sortBy c (firstCopies key zs) → a ∈ xs :=
      fun hzs ha => hzs.subset (mem_of_mem_firstCopiesFrom (mem_sortBy.mp ha)).1
    -- the keys are sorted by how their copies compare
    have hsorted : ∀ {zs : List A}, zs.Perm xs → (sortedKeys c key zs).Pairwise
        fun k k' => ∃ a ∈ xs, ∃ b ∈ xs, key a = k ∧ key b = k' ∧ c a b = .lt := by
      intro zs hzs
      have hnodup := List.pairwise_map.mp (@nodup_sortedKeys A K _ key c zs)
      refine List.pairwise_map.mpr ?_
      refine ((sortBy_sorted c (firstCopies key zs)).and hnodup).imp_of_mem ?_
      rintro a b ha hb ⟨hle, hne⟩
      have ha := hmem hzs ha
      have hb := hmem hzs hb
      refine ⟨a, ha, b, hb, rfl, rfl, ?_⟩
      obtain ⟨htie, _⟩ := hsep a ha b hb a ha b hb hne rfl rfl
      cases hc : c a b with
      | lt => rfl
      | eq => exact absurd hc htie
      | gt =>
        rw [hc] at hle
        cases hle
    have hperm : (sortedKeys c key ys).Perm (sortedKeys c key xs) :=
      ((sortBy_perm c _).map key).trans
        ((firstCopies_keys_perm fun a => hys.mem_iff).trans ((sortBy_perm c _).map key).symm)
    refine hperm.eq_of_pairwise (fun k k' _ _ hlt hgt => ?_) (hsorted hys)
      (hsorted (List.Perm.refl xs))
    obtain ⟨a, ha, b, hb, rfl, rfl, hab⟩ := hlt
    obtain ⟨b', hb', a', ha', hkey', hkey, hba⟩ := hgt
    by_contra hne
    have hsame := (hsep a ha b hb a' ha' b' hb' hne hkey hkey').2
    rw [hab, cmp_swap c, hba] at hsame
    cases hsame

end Collections
end CmTrace
