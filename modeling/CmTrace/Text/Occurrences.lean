import CmTrace.Text.Locate

/-!
# All matches of a text

The matches of an expression from left to right, each where the one before it
ended.  Wherever the expression matches at all, a found match begins there or goes
on there.
-/

namespace CmTrace

open Text

namespace Regex

/-- A match with the text before and after it. -/
structure Place where
  before : Text
  taken : Text
  after : Text
  deriving DecidableEq, Repr

namespace Place

def start (p : Place) : Nat := byteLen p.before

def stop (p : Place) : Nat := byteLen p.before + byteLen p.taken

end Place

/-- Matches of a text of which `before` has been searched. -/
def findIterFrom (r : Regex) : Nat → Text → Text → List Place
  | 0, _, _ => []
  | fuel + 1, before, s => match r.locate s with
    | some (gap, m) =>
      { before := before ++ gap, taken := m.taken, after := m.rest } ::
        r.findIterFrom fuel (before ++ gap ++ m.taken) m.rest
    | none => []

def findIter (r : Regex) (s : Text) : List Place := r.findIterFrom s.length [] s

theorem prefixes_before_locate {r : Regex} {s : Text} {found : Text × Match}
    (h : r.locate s = some found) (u v : Text) (huv : s = u ++ v)
    (hu : u.length < found.1.length) : r.prefixes false v = [] := by
  induction s generalizing u found with
  | nil =>
    obtain ⟨m, -, rfl⟩ := Option.map_eq_some_iff.mp h
    exact absurd hu (Nat.not_lt_zero _)
  | cons c s ih =>
    rw [locate] at h
    cases hhead : (r.prefixes false (c :: s)).head? with
    | some m =>
      rw [hhead] at h
      obtain rfl := Option.some.inj h
      exact absurd hu (Nat.not_lt_zero _)
    | none =>
      rw [hhead] at h
      obtain ⟨rest, hrest, rfl⟩ := Option.map_eq_some_iff.mp h
      cases u with
      | nil =>
        rw [List.nil_append] at huv
        rw [← huv]
        exact List.head?_eq_none_iff.mp hhead
      | cons d u =>
        rw [List.cons_append] at huv
        exact ih hrest u (List.cons.inj huv).2 (Nat.lt_of_succ_lt_succ hu)

theorem findIterFrom_text {r : Regex} {fuel : Nat} {before s : Text} :
    ∀ p ∈ r.findIterFrom fuel before s, p.before ++ p.taken ++ p.after = before ++ s ∧
      ∃ m, (r.prefixes false (p.taken ++ p.after)).head? = some m ∧ m.taken = p.taken := by
  induction fuel generalizing before s with
  | zero =>
    intro p hp
    cases hp
  | succ fuel ih =>
    intro p hp
    rw [findIterFrom] at hp
    cases hfound : r.locate s with
    | none =>
      rw [hfound] at hp
      cases hp
    | some found =>
      rw [hfound] at hp
      have hsplit := locate_append hfound
      rcases List.mem_cons.mp hp with rfl | hp
      · refine ⟨?_, found.2, locate_head hfound, rfl⟩
        rw [← hsplit]
        simp only [List.append_assoc]
      · obtain ⟨htext, hmatch⟩ := ih p hp
        refine ⟨?_, hmatch⟩
        rw [htext, ← hsplit]
        simp only [List.append_assoc]

theorem findIter_text {r : Regex} {s : Text} {p : Place} (hp : p ∈ r.findIter s) :
    p.before ++ p.taken ++ p.after = s ∧
      ∃ m, (r.prefixes false (p.taken ++ p.after)).head? = some m ∧ m.taken = p.taken :=
  findIterFrom_text p hp

theorem prefix_of_mem_findIterFrom {r : Regex} {fuel : Nat} {before s : Text} :
    ∀ p ∈ r.findIterFrom fuel before s, before <+: p.before := by
  induction fuel generalizing before s with
  | zero =>
    intro p hp
    cases hp
  | succ fuel ih =>
    intro p hp
    rw [findIterFrom] at hp
    cases hfound : r.locate s with
    | none =>
      rw [hfound] at hp
      cases hp
    | some found =>
      rw [hfound] at hp
      rcases List.mem_cons.mp hp with rfl | hp
      · exact List.prefix_append before found.1
      · refine List.IsPrefix.trans ?_ (ih p hp)
        rw [List.append_assoc]
        exact List.prefix_append _ _

theorem findIterFrom_pairwise {r : Regex} {fuel : Nat} {before s : Text} :
    (r.findIterFrom fuel before s).Pairwise fun p q => p.before ++ p.taken <+: q.before := by
  induction fuel generalizing before s with
  | zero => exact List.Pairwise.nil
  | succ fuel ih =>
    rw [findIterFrom]
    cases r.locate s with
    | none => exact List.Pairwise.nil
    | some found =>
      refine List.pairwise_cons.mpr ⟨?_, ih⟩
      intro q hq
      exact prefix_of_mem_findIterFrom q hq

theorem findIter_pairwise (r : Regex) (s : Text) :
    (r.findIter s).Pairwise fun p q => p.before ++ p.taken <+: q.before :=
  findIterFrom_pairwise

theorem findIterFrom_complete {r : Regex} (hr : r.unanchored = true) (htaking : r.Taking)
    {fuel : Nat} {before s : Text} (hfuel : s.length ≤ fuel) (u v : Text) (huv : s = u ++ v)
    (hv : r.prefixes false v ≠ []) :
    ∃ p ∈ r.findIterFrom fuel before s, p.before <+: before ++ u ∧
      (before ++ u).length < (p.before ++ p.taken).length := by
  induction fuel generalizing before s u with
  | zero =>
    have hempty : u ++ v = [] := by
      rw [← huv]
      exact List.length_eq_zero_iff.mp (Nat.le_zero.mp hfuel)
    rw [(List.append_eq_nil_iff.mp hempty).2] at hv
    exact absurd htaking hv
  | succ fuel ih =>
    rw [findIterFrom]
    cases hfound : r.locate s with
    | none => exact absurd (prefixes_of_locate_none hfound u v huv) hv
    | some found =>
      obtain ⟨gap, m⟩ := found
      have hsplit := locate_append hfound
      have hgap : gap.length ≤ u.length := by
        by_contra hlt
        exact hv (prefixes_before_locate hfound u v huv (Nat.not_le.mp hlt))
      obtain ⟨u', rfl⟩ : gap <+: u := by
        refine List.prefix_of_prefix_length_le ?_ ⟨v, huv.symm⟩ hgap
        rw [← hsplit, List.append_assoc]
        exact List.prefix_append _ _
      rw [huv, List.append_assoc, List.append_assoc, List.append_cancel_left_eq] at hsplit
      by_cases hinside : u'.length < m.taken.length
      · refine ⟨_, List.mem_cons_self, ?_, ?_⟩
        · rw [← List.append_assoc]
          exact List.prefix_append _ _
        · simp only [List.length_append]
          omega
      · -- the place lies after the match
        obtain ⟨u'', rfl⟩ : m.taken <+: u' :=
          List.prefix_of_prefix_length_le ⟨_, hsplit⟩ (List.prefix_append u' v)
            (Nat.not_lt.mp hinside)
        rw [List.append_assoc, List.append_cancel_left_eq] at hsplit
        have hrest : m.rest.length < s.length := locate_rest_length hr htaking hfound
        have hle : m.rest.length ≤ fuel := by omega
        obtain ⟨p, hp, hbefore, hlt⟩ := @ih (before ++ gap ++ m.taken) m.rest hle u'' hsplit
        refine ⟨p, List.mem_cons_of_mem _ hp, ?_, ?_⟩
        · simpa only [List.append_assoc] using hbefore
        · simpa only [List.append_assoc] using hlt

theorem findIter_complete {r : Regex} (hr : r.unanchored = true) (htaking : r.Taking) {u v : Text}
    (hv : r.prefixes false v ≠ []) :
    ∃ p ∈ r.findIter (u ++ v), p.before <+: u ∧ u.length < (p.before ++ p.taken).length :=
  findIterFrom_complete hr htaking (Nat.le_refl _) u v rfl hv

/-! ## One character after the other -/

/-- Characters that satisfy the predicates of a list one by one. -/
def Fits (ps : List (Char → Bool)) (s : Text) : Prop := List.Forall₂ (fun p c => p c = true) ps s

instance (ps : List (Char → Bool)) (s : Text) : Decidable (Fits ps s) :=
  inferInstanceAs (Decidable (List.Forall₂ _ ps s))

theorem fits_replicate {n : Nat} {p : Char → Bool} {s : Text} :
    Fits (List.replicate n p) s ↔ s.length = n ∧ s.all p = true := by
  induction n generalizing s with
  | zero =>
    rw [List.replicate_zero, Fits, List.forall₂_nil_left_iff, List.length_eq_zero_iff]
    constructor
    · rintro rfl
      exact ⟨rfl, rfl⟩
    · exact fun h => h.1
  | succ n ih =>
    rw [List.replicate_succ]
    cases s with
    | nil =>
      constructor
      · intro h
        cases h
      · intro h
        cases h.1
    | cons c s =>
      rw [Fits, List.forall₂_cons, List.length_cons, List.all_cons, Bool.and_eq_true,
        Nat.add_right_cancel_iff]
      have hrest := @ih s
      rw [Fits] at hrest
      rw [hrest]
      constructor
      · exact fun h => ⟨h.2.1, h.1, h.2.2⟩
      · exact fun h => ⟨h.2.1, h.1, h.2.2⟩

theorem prefixes_chain_char (ps : List (Char → Bool)) (x : Bool) (s : Text) :
    (chain (ps.map .char)).prefixes x s =
      if Fits ps (s.take ps.length) then
        [{ taken := s.take ps.length, rest := s.drop ps.length }]
      else [] := by
  induction ps generalizing x s with
  | nil =>
    have hnil : Fits [] [] := List.Forall₂.nil
    rw [List.length_nil, List.take_zero, List.drop_zero, if_pos hnil]
    rfl
  | cons p ps ih =>
    rw [List.map_cons, chain, List.foldr_cons, prefixes]
    cases s with
    | nil =>
      rw [if_neg]
      · rfl
      · intro h
        cases h
    | cons c s =>
      have hfits : Fits (p :: ps) ((c :: s).take (p :: ps).length) ↔
          p c = true ∧ Fits ps (s.take ps.length) := by
        rw [List.length_cons, List.take_succ_cons, Fits, List.forall₂_cons]
        rfl
      rw [prefixes]
      by_cases hc : p c = true
      · have hrest := ih (x && false) s
        rw [chain] at hrest
        rw [if_pos hc, List.flatMap_singleton]
        show ((List.foldr seq empty (ps.map .char)).prefixes (x && false) s).map _ = _
        rw [hrest]
        by_cases hs : Fits ps (s.take ps.length)
        · rw [if_pos hs, if_pos (hfits.mpr ⟨hc, hs⟩)]
          rfl
        · rw [if_neg hs, if_neg fun h => hs (hfits.mp h).2]
          rfl
      · rw [if_neg hc, if_neg fun h => hc (hfits.mp h).1]
        rfl

theorem unanchored_chain_char (ps : List (Char → Bool)) :
    (chain (ps.map .char)).unanchored = true := by
  induction ps with
  | nil => rfl
  | cons p ps ih => exact ih

theorem taking_chain_char {ps : List (Char → Bool)} (h : ps ≠ []) :
    (chain (ps.map .char)).Taking := by
  cases ps with
  | nil => exact absurd rfl h
  | cons p ps => rfl

end Regex
end CmTrace
