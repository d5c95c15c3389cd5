import CmTrace.Timeline.Correlate

/-!
# Which origins are related

Groups are kept in key order while their pairs fit the budget.  Two origins are
exact candidates of one another when a kept group has them both; a secondary
relation is between origins without candidates.
-/

namespace CmTrace
namespace Timeline

open Std Text Collections

/-! ## Origins -/

/-- An accumulator is filed under its own origin. -/
def FiledByOrigin (grouped : TreeMap Text Accumulator textOrder) : Prop :=
  ∀ (id : Text) (entry : Accumulator), grouped[id]? = some entry → entry.observation.originId = id

theorem FiledByOrigin.file {grouped : TreeMap Text Accumulator textOrder}
    (h : FiledByOrigin grouped) (o : TimelineCorrelationObservation) :
    FiledByOrigin (Timeline.file grouped o) := by
  intro id entry hentry
  rw [Timeline.file, TreeMap.getElem?_alter] at hentry
  simp only [LawfulEqCmp.compare_eq_iff_eq] at hentry
  by_cases hid : o.originId = id
  · rw [if_pos hid, Option.some_inj] at hentry
    rw [← hentry, ← hid]
    cases hheld : grouped[o.originId]? with
    | none => rfl
    | some held => exact h o.originId held hheld
  · rw [if_neg hid] at hentry
    exact h id entry hentry

theorem filedByOrigin_foldl (observations : List TimelineCorrelationObservation)
    {grouped : TreeMap Text Accumulator textOrder} (h : FiledByOrigin grouped) :
    FiledByOrigin (observations.foldl file grouped) := by
  induction observations generalizing grouped with
  | nil => exact h
  | cons o observations ih => exact ih (h.file o)

theorem disambiguateObservationIds_ordered (observations : List TimelineCorrelationObservation) :
    (disambiguateObservationIds observations).Pairwise
      fun a b => textOrder a.originId b.originId = .lt := by
  have hfiled : FiledByOrigin (observations.foldl file ∅) :=
    filedByOrigin_foldl observations fun id entry h => by
      rw [TreeMap.getElem?_emptyc] at h
      cases h
  rw [disambiguateObservationIds, List.pairwise_map]
  refine TreeMap.ordered_keys_toList.imp_of_mem fun {a b} ha hb hab => ?_
  show textOrder a.2.observation.originId b.2.observation.originId = .lt
  rw [hfiled a.1 a.2 (TreeMap.mem_toList_iff_getElem?_eq_some.mp ha),
    hfiled b.1 b.2 (TreeMap.mem_toList_iff_getElem?_eq_some.mp hb)]
  exact hab

theorem originId_injective {observations : List TimelineCorrelationObservation}
    {a b : TimelineCorrelationObservation} (ha : a ∈ disambiguateObservationIds observations)
    (hb : b ∈ disambiguateObservationIds observations) (h : a.originId = b.originId) : a = b := by
  by_contra hne
  have : Std.Symm fun a b : TimelineCorrelationObservation => a.originId ≠ b.originId :=
    ⟨fun _ _ h => h.symm⟩
  have hdistinct := (disambiguateObservationIds_ordered observations).imp
    (S := fun a b => a.originId ≠ b.originId) fun {a b} hlt heq => by
      have heq' : textOrder b.originId b.originId = .eq := ReflCmp.compare_self
      rw [heq, heq'] at hlt
      cases hlt
  exact hdistinct.forall ha hb hne h

/-! ## Members of groups -/

theorem mem_exactGroups (ordered : List TimelineCorrelationObservation) (key : GroupKey)
    (id : Text) : id ∈ (exactGroups ordered).values key ↔
      ∃ o ∈ ordered, key ∈ o.exactGroupKeys ∧ o.originId = id := by
  rw [exactGroups, Index.mem_values_gather]
  constructor
  · intro h
    obtain ⟨o, ho, hmem⟩ := List.mem_flatMap.mp h
    obtain ⟨k, hk, he⟩ := List.mem_map.mp hmem
    cases he
    exact ⟨o, ho, hk, rfl⟩
  · rintro ⟨o, ho, hk, rfl⟩
    exact List.mem_flatMap.mpr ⟨o, ho, List.mem_map.mpr ⟨key, hk, rfl⟩⟩

theorem mem_secondaryGroups (ordered : List TimelineCorrelationObservation) (key : Text × Text)
    (id : Text) : id ∈ (secondaryGroups ordered).values key ↔
      ∃ o ∈ ordered, key ∈ o.secondaryGroupKeys ∧ o.originId = id := by
  rw [secondaryGroups, Index.mem_values_gather]
  constructor
  · intro h
    obtain ⟨o, ho, hmem⟩ := List.mem_flatMap.mp h
    obtain ⟨k, hk, he⟩ := List.mem_map.mp hmem
    cases he
    exact ⟨o, ho, hk, rfl⟩
  · rintro ⟨o, ho, hk, rfl⟩
    exact List.mem_flatMap.mpr ⟨o, ho, List.mem_map.mpr ⟨key, hk, rfl⟩⟩

abbrev ExactGroup := GroupKey × TreeSet Text textOrder

def Together (groups : List ExactGroup) (x y : Text) : Prop := ∃ g ∈ groups, x ∈ g.2 ∧ y ∈ g.2

theorem together_iff (ordered : List TimelineCorrelationObservation) (x y : Text) :
    Together (exactGroups ordered).toList x y ↔
      ∃ a ∈ ordered, ∃ b ∈ ordered, a.originId = x ∧ b.originId = y ∧
        ∃ key ∈ a.exactGroupKeys, key ∈ b.exactGroupKeys := by
  constructor
  · rintro ⟨⟨key, ids⟩, hg, hx, hy⟩
    rw [← Index.values_of_mem_toList hg, mem_exactGroups] at hx hy
    obtain ⟨a, ha, hka, rfl⟩ := hx
    obtain ⟨b, hb, hkb, rfl⟩ := hy
    exact ⟨a, ha, b, hb, rfl, rfl, key, hka, hkb⟩
  · rintro ⟨a, ha, b, hb, rfl, rfl, key, hka, hkb⟩
    have hx := (mem_exactGroups ordered key a.originId).mpr ⟨a, ha, hka, rfl⟩
    have hy := (mem_exactGroups ordered key b.originId).mpr ⟨b, hb, hkb, rfl⟩
    exact ⟨_, Index.mem_toList_of_mem_values hx, hx, hy⟩

theorem ne_of_textOrder_lt {x y : Text} (h : textOrder x y = .lt) : x ≠ y := by
  rintro rfl
  have heq : textOrder x x = .eq := ReflCmp.compare_self
  rw [heq] at h
  cases h

theorem mem_pairs_toList (s : TreeSet Text textOrder) (r : Relation) :
    r ∈ pairs s.toList ↔ r.1 ∈ s ∧ r.2 ∈ s ∧ textOrder r.1 r.2 = .lt := by
  have hasymm : ∀ x y : Text, textOrder x y = .lt → ¬ textOrder y x = .lt :=
    fun x y h => OrientedCmp.not_lt_of_lt h
  rw [mem_pairs hasymm TreeSet.ordered_toList, TreeSet.mem_toList, TreeSet.mem_toList]

theorem pair_of_mem {s : TreeSet Text textOrder} {x y : Text} :
    ((x, y) ∈ pairs s.toList ∨ (y, x) ∈ pairs s.toList) ↔ x ∈ s ∧ y ∈ s ∧ x ≠ y := by
  rw [mem_pairs_toList, mem_pairs_toList]
  constructor
  · rintro (⟨hx, hy, hlt⟩ | ⟨hy, hx, hlt⟩)
    · exact ⟨hx, hy, ne_of_textOrder_lt hlt⟩
    · exact ⟨hx, hy, (ne_of_textOrder_lt hlt).symm⟩
  · rintro ⟨hx, hy, hne⟩
    cases horder : textOrder x y with
    | lt => exact .inl ⟨hx, hy, rfl⟩
    | eq => exact absurd (LawfulEqCmp.eq_of_compare horder) hne
    | gt => exact .inr ⟨hy, hx, OrientedCmp.lt_of_gt horder⟩

/-! ## Kept groups -/

/-- The groups whose pairs are related, and those that are left out: groups with
too many members, and every group from the first whose pairs exceed what is left
of the budget. -/
def sift : Nat → List ExactGroup → List ExactGroup × List ExactGroup
  | _, [] => ([], [])
  | budget, g :: gs =>
    let n := g.2.toList.length
    if n < 2 then sift budget gs
    else if maxCorrelationGroupMembers < n then
      ((sift budget gs).1, g :: (sift budget gs).2)
    else if n * (n - 1) / 2 ≤ budget then
      (g :: (sift (budget - n * (n - 1) / 2) gs).1, (sift (budget - n * (n - 1) / 2) gs).2)
    else ((sift 0 gs).1, g :: (sift 0 gs).2)

theorem two_le_length_of_mem {s : TreeSet Text textOrder} {x y : Text} (hx : x ∈ s) (hy : y ∈ s)
    (hne : x ≠ y) : 2 ≤ s.toList.length := by
  rw [← TreeSet.mem_toList] at hx hy
  match s.toList, hx, hy with
  | [z], hx, hy =>
    rw [List.mem_singleton] at hx hy
    exact absurd (hx.trans hy.symm) hne
  | _ :: _ :: _, _, _ => simp

theorem mem_sift (budget : Nat) (groups : List ExactGroup) (g : ExactGroup) :
    (g ∈ (sift budget groups).1 ∨ g ∈ (sift budget groups).2) ↔
      g ∈ groups ∧ 2 ≤ g.2.toList.length := by
  induction groups generalizing budget with
  | nil => simp [sift]
  | cons h groups ih =>
    have hcons : ∀ kept left : List ExactGroup, 2 ≤ h.2.toList.length →
        ((g ∈ kept ∨ g ∈ left) ↔ g ∈ groups ∧ 2 ≤ g.2.toList.length) →
        ((g = h ∨ g ∈ kept ∨ g ∈ left) ↔ g ∈ h :: groups ∧ 2 ≤ g.2.toList.length) := by
      intro kept left hlen hrest
      rw [hrest, List.mem_cons]
      constructor
      · rintro (rfl | hg)
        · exact ⟨.inl rfl, hlen⟩
        · exact ⟨.inr hg.1, hg.2⟩
      · exact fun hg => hg.1.imp_right fun h => ⟨h, hg.2⟩
    rw [sift]
    split_ifs with hsmall hlarge hfits
    · rw [ih, List.mem_cons]
      constructor
      · exact fun hg => ⟨.inr hg.1, hg.2⟩
      · rintro ⟨rfl | hg, hlen⟩
        · omega
        · exact ⟨hg, hlen⟩
    · rw [List.mem_cons, or_left_comm]
      exact hcons _ _ (by omega) (ih budget)
    · rw [List.mem_cons, or_assoc]
      exact hcons _ _ (by omega) (ih _)
    · rw [List.mem_cons, or_left_comm]
      exact hcons _ _ (by omega) (ih 0)

/-! ## Exact relations -/

namespace Expansion

/-- The relations an expansion gains. -/
structure Expands (e e' : Expansion) (new : List Relation) : Prop where
  candidates : ∀ x y, y ∈ e'.exactCandidates.values x ↔
    y ∈ e.exactCandidates.values x ∨ (x, y) ∈ new ∨ (y, x) ∈ new
  relations : ∀ r k, k ∈ e'.relationKeys.values r → k ∈ e.relationKeys.values r ∨ r ∈ new
  filled : e.relationKeys.Filled → e'.relationKeys.Filled
  secondary : e'.candidateRelations = e.candidateRelations

theorem Expands.of_eq {e e' : Expansion} (hcandidates : e'.exactCandidates = e.exactCandidates)
    (hrelations : e'.relationKeys = e.relationKeys)
    (hsecondary : e'.candidateRelations = e.candidateRelations) : Expands e e' [] :=
  { candidates := by simp [hcandidates]
    relations  := fun _ _ h => .inl (by rwa [← hrelations])
    filled     := fun h => by rwa [hrelations]
    secondary  := hsecondary }

theorem Expands.refl (e : Expansion) : Expands e e [] := .of_eq rfl rfl rfl

theorem Expands.trans {a b c : Expansion} {new new' : List Relation} (h : Expands a b new)
    (h' : Expands b c new') : Expands a c (new ++ new') :=
  { candidates := by
      intro x y
      rw [h'.candidates, h.candidates, List.mem_append, List.mem_append]
      tauto
    relations  := by
      intro r k hk
      rw [List.mem_append]
      rcases h'.relations r k hk with hk | hr
      · exact (h.relations r k hk).imp_right .inl
      · exact .inr (.inr hr)
    filled     := fun hf => h'.filled (h.filled hf)
    secondary  := h'.secondary.trans h.secondary }

theorem relateExact_expands (ordered : List TimelineCorrelationObservation) (key : GroupKey)
    (e : Expansion) (pair : Relation) : Expands e (relateExact ordered key e pair) [pair] := by
  have hkeys : ∀ (new : List TimelineCorrelationKey)
      (keys : Index Relation TimelineCorrelationKey relationOrder keyOrder),
      (∀ r k, k ∈ (new.foldl (fun keys k => keys.add pair k) keys).values r →
        k ∈ keys.values r ∨ r = pair) ∧
      (keys.Filled → (new.foldl (fun keys k => keys.add pair k) keys).Filled) := by
    intro new
    induction new with
    | nil => exact fun keys => ⟨fun _ _ h => .inl h, id⟩
    | cons k new ih =>
      intro keys
      refine ⟨fun r k' h => ?_, fun hf => (ih _).2 (hf.add pair k)⟩
      rcases (ih _).1 r k' h with h | h
      · rw [Index.mem_values_add] at h
        exact h.symm.imp_right fun h => h.1.symm
      · exact .inr h
  exact
    { candidates := by
        intro x y
        obtain ⟨left, right⟩ := pair
        show y ∈ ((e.exactCandidates.add left right).add right left).values x ↔ _
        rw [Index.mem_values_add, Index.mem_values_add, List.mem_singleton, List.mem_singleton,
          Prod.mk.injEq, Prod.mk.injEq, eq_comm (a := right), eq_comm (a := left),
          eq_comm (a := left), eq_comm (a := right)]
        tauto
      relations  := fun r k h => by
        rw [List.mem_singleton]
        exact (hkeys _ _).1 r k h
      filled     := (hkeys _ _).2
      secondary  := rfl }

theorem relateWhile_expands (ordered : List TimelineCorrelationObservation) (key : GroupKey)
    (new : List Relation) (e : Expansion) (h : new.length ≤ e.relationBudget) :
    (relateWhile (relateExact ordered key) e new).2 = false ∧
      (relateWhile (relateExact ordered key) e new).1.relationBudget =
        e.relationBudget - new.length ∧
      Expands e (relateWhile (relateExact ordered key) e new).1 new := by
  induction new generalizing e with
  | nil => exact ⟨rfl, rfl, .refl e⟩
  | cons pair new ih =>
    rw [List.length_cons] at h
    have hbudget : (relateExact ordered key e pair).relationBudget = e.relationBudget - 1 := rfl
    obtain ⟨hall, hleft, hrest⟩ := ih (relateExact ordered key e pair) (by omega)
    rw [relateWhile, if_neg (by omega)]
    refine ⟨hall, ?_, (relateExact_expands ordered key e pair).trans hrest⟩
    rw [hleft, hbudget, List.length_cons]
    omega

def pairsOf (groups : List ExactGroup) : List Relation :=
  groups.flatMap fun g => pairs g.2.toList

theorem foldl_exactGroup (ordered : List TimelineCorrelationObservation)
    (groups : List ExactGroup) (e : Expansion) :
    Expands e (groups.foldl (exactGroup ordered) e)
      (pairsOf (sift e.relationBudget groups).1) := by
  induction groups generalizing e with
  | nil => exact .refl e
  | cons g groups ih =>
    rw [List.foldl_cons, sift]
    have hleft : ∀ e' : Expansion, Expands e e' [] → ∀ budget, e'.relationBudget = budget →
        Expands e (groups.foldl (exactGroup ordered) e') (pairsOf (sift budget groups).1) := by
      intro e' he budget hbudget
      rw [← hbudget]
      exact he.trans (ih e')
    have hpairs := length_pairs g.2.toList
    split_ifs with hsmall hlarge hfits
    · rw [exactGroup, if_pos hsmall]
      exact ih e
    · rw [exactGroup, if_neg hsmall, if_pos hlarge]
      exact hleft (e.leaveOut _ g.2.toList) (.of_eq rfl rfl rfl) _ rfl
    · have hsome : 0 < g.2.toList.length * (g.2.toList.length - 1) / 2 := by
        rw [← Nat.choose_two_right]
        exact Nat.choose_pos (by omega)
      rw [exactGroup, if_neg hsmall, if_neg hlarge, if_neg (by omega), if_neg (by omega)]
      obtain ⟨hall, hbudget, hrelated⟩ := relateWhile_expands ordered g.1 (pairs g.2.toList) e
        (by omega)
      dsimp only
      rw [hall, if_neg Bool.false_ne_true, ← hpairs, ← hbudget]
      exact hrelated.trans (ih _)
    · rw [exactGroup, if_neg hsmall, if_neg hlarge]
      by_cases hzero : e.relationBudget = 0
      · rw [if_pos hzero]
        exact hleft (e.leaveOut _ g.2.toList) (.of_eq rfl rfl rfl) 0 hzero
      · rw [if_neg hzero, if_pos (by omega)]
        exact hleft { e.leaveOut _ g.2.toList with relationBudget := 0 } (.of_eq rfl rfl rfl) 0 rfl

end Expansion

/-! ## Secondary relations -/

namespace Expansion

/-- Origins of secondary relations have no exact candidates. -/
structure PassesOver (members : List Text) (e e' : Expansion) : Prop where
  exactCandidates : e'.exactCandidates = e.exactCandidates
  relationKeys : e'.relationKeys = e.relationKeys
  relations : ∀ r k, k ∈ e'.candidateRelations.values r → k ∈ e.candidateRelations.values r ∨
    (r.1 ∈ members ∧ r.2 ∈ members ∧ r.1 ≠ r.2 ∧ e.related r.1 = false ∧ e.related r.2 = false)
  filled : e.candidateRelations.Filled → e'.candidateRelations.Filled

theorem PassesOver.of_eq {members : List Text} {e e' : Expansion}
    (hcandidates : e'.exactCandidates = e.exactCandidates)
    (hrelations : e'.relationKeys = e.relationKeys)
    (hsecondary : e'.candidateRelations = e.candidateRelations) : PassesOver members e e' :=
  { exactCandidates := hcandidates
    relationKeys    := hrelations
    relations       := fun _ _ h => .inl (by rwa [← hsecondary])
    filled          := fun h => by rwa [hsecondary] }

theorem PassesOver.trans {members : List Text} {a b c : Expansion} (h : PassesOver members a b)
    (h' : PassesOver members b c) : PassesOver members a c :=
  { exactCandidates := h'.exactCandidates.trans h.exactCandidates
    relationKeys    := h'.relationKeys.trans h.relationKeys
    relations       := by
      intro r k hk
      rcases h'.relations r k hk with hk | hr
      · exact h.relations r k hk
      · rw [related, related, h.exactCandidates] at hr
        exact .inr hr
    filled          := fun hf => h'.filled (h.filled hf) }

theorem relateSecondary_passesOver {members : List Text} (key : Text × Text) (new : List Relation)
    (e : Expansion) (h : ∀ r ∈ new, r.1 ∈ members ∧ r.2 ∈ members ∧ r.1 ≠ r.2) :
    PassesOver members e (relateSecondary key e new).1 := by
  induction new generalizing e with
  | nil => exact .of_eq rfl rfl rfl
  | cons pair new ih =>
    have hrest := fun e => ih e fun r hr => h r (List.mem_cons_of_mem _ hr)
    rw [relateSecondary]
    split_ifs with hleft hbudget hright
    · exact hrest e
    · exact .of_eq rfl rfl rfl
    · exact hrest e
    · refine PassesOver.trans ?_ (hrest _)
      exact
        { exactCandidates := rfl
          relationKeys    := rfl
          relations       := by
            intro r k hk
            rw [Index.mem_values_add] at hk
            rcases hk with ⟨rfl, -⟩ | hk
            · have hpair := h pair (List.mem_cons_self ..)
              exact .inr ⟨hpair.1, hpair.2.1, hpair.2.2, by simpa using hleft, by simpa using hright⟩
            · exact .inl hk
          filled          := fun hf => hf.add pair _ }

theorem foldl_secondaryGroup {members : List Text}
    (groups : List ((Text × Text) × TreeSet Text textOrder)) (e : Expansion)
    (h : ∀ g ∈ groups, ∀ x ∈ g.2, x ∈ members) :
    PassesOver members e (groups.foldl secondaryGroup e) := by
  induction groups generalizing e with
  | nil => exact .of_eq rfl rfl rfl
  | cons g groups ih =>
    refine PassesOver.trans ?_ (ih _ fun g hg => h g (List.mem_cons_of_mem _ hg))
    have hpairs : ∀ r ∈ pairs g.2.toList, r.1 ∈ members ∧ r.2 ∈ members ∧ r.1 ≠ r.2 := by
      intro r hr
      rw [mem_pairs_toList] at hr
      have hmembers := h g (List.mem_cons_self ..)
      exact ⟨hmembers r.1 hr.1, hmembers r.2 hr.2.1, ne_of_textOrder_lt hr.2.2⟩
    rw [secondaryGroup]
    split_ifs
    · exact .of_eq rfl rfl rfl
    · exact .of_eq rfl rfl rfl
    · exact .of_eq rfl rfl rfl
    · have hrelated := relateSecondary_passesOver g.1 (pairs g.2.toList) e hpairs
      dsimp only
      split_ifs
      · exact hrelated.trans (.of_eq rfl rfl rfl)
      · exact hrelated

end Expansion

/-! ## All relations -/

def keptGroups (ordered : List TimelineCorrelationObservation) : List ExactGroup :=
  (sift maxCorrelationRelations (exactGroups ordered).toList).1

def leftOutGroups (ordered : List TimelineCorrelationObservation) : List ExactGroup :=
  (sift maxCorrelationRelations (exactGroups ordered).toList).2

section

variable (ordered : List TimelineCorrelationObservation)

theorem together_kept_or_leftOut {x y : Text} (hne : x ≠ y) :
    Together (exactGroups ordered).toList x y ↔
      Together (keptGroups ordered) x y ∨ Together (leftOutGroups ordered) x y := by
  constructor
  · rintro ⟨g, hg, hx, hy⟩
    have hsift := (mem_sift maxCorrelationRelations (exactGroups ordered).toList g).mpr
      ⟨hg, two_le_length_of_mem hx hy hne⟩
    exact hsift.imp (fun h => ⟨g, h, hx, hy⟩) fun h => ⟨g, h, hx, hy⟩
  · have hmem := mem_sift maxCorrelationRelations (exactGroups ordered).toList
    rintro (⟨g, hg, hx, hy⟩ | ⟨g, hg, hx, hy⟩)
    · exact ⟨g, ((hmem g).mp (.inl hg)).1, hx, hy⟩
    · exact ⟨g, ((hmem g).mp (.inr hg)).1, hx, hy⟩

theorem Expansion.mem_pairsOf {groups : List ExactGroup} {r : Relation} :
    r ∈ Expansion.pairsOf groups ↔ ∃ g ∈ groups, r ∈ pairs g.2.toList :=
  List.mem_flatMap

theorem mem_originIds {g : (Text × Text) × TreeSet Text textOrder}
    (hg : g ∈ (secondaryGroups ordered).toList) : ∀ x ∈ g.2, x ∈ ordered.map (·.originId) := by
  intro x hx
  rw [← Index.values_of_mem_toList hg, mem_secondaryGroups] at hx
  obtain ⟨o, ho, -, rfl⟩ := hx
  exact List.mem_map_of_mem ho

theorem expand_passesOver : Expansion.PassesOver (ordered.map (·.originId))
    ((exactGroups ordered).toList.foldl (Expansion.exactGroup ordered) {}) (expand ordered) :=
  Expansion.foldl_secondaryGroup _ _ fun _ hg => mem_originIds ordered hg

theorem mem_exactCandidates (x y : Text) :
    y ∈ (expand ordered).exactCandidates.values x ↔ Together (keptGroups ordered) x y ∧ x ≠ y := by
  have hexact := Expansion.foldl_exactGroup ordered (exactGroups ordered).toList {}
  have hnone : y ∉ ({} : Expansion).exactCandidates.values x := Index.not_mem_values_empty x y
  rw [(expand_passesOver ordered).exactCandidates, hexact.candidates, or_iff_right hnone,
    Expansion.mem_pairsOf, Expansion.mem_pairsOf]
  constructor
  · rintro (⟨g, hg, hr⟩ | ⟨g, hg, hr⟩)
    · have h := pair_of_mem.mp (.inl hr)
      exact ⟨⟨g, hg, h.1, h.2.1⟩, h.2.2⟩
    · have h := pair_of_mem.mp (.inr hr)
      exact ⟨⟨g, hg, h.1, h.2.1⟩, h.2.2⟩
  · rintro ⟨⟨g, hg, hx, hy⟩, hne⟩
    exact (pair_of_mem.mpr ⟨hx, hy, hne⟩).imp (fun h => ⟨g, hg, h⟩) fun h => ⟨g, hg, h⟩

/-- What a relation is between. -/
structure Related.Sound (r : Related) : Prop where
  distinct : r.left ≠ r.right
  key : r.key ≠ none
  exact : r.exact = true → Together (keptGroups ordered) r.left r.right
  secondary : r.exact = false → r.left ∈ ordered.map (·.originId) ∧
    r.right ∈ ordered.map (·.originId) ∧
    ∀ z, ¬ ((Together (keptGroups ordered) r.left z ∧ r.left ≠ z) ∨
      (Together (keptGroups ordered) r.right z ∧ r.right ≠ z))

theorem key_ne_none_of_mem {r : Related} {k : TimelineCorrelationKey} (hk : k ∈ r.keys) :
    r.key ≠ none := by
  rw [← TreeSet.mem_toList] at hk
  rw [Related.key, Ne, List.head?_eq_none_iff]
  exact List.ne_nil_of_mem hk

theorem related_sound {r : Related} (hr : r ∈ (expand ordered).relations) : r.Sound ordered := by
  have hexact := Expansion.foldl_exactGroup ordered (exactGroups ordered).toList {}
  have hpasses := expand_passesOver ordered
  rw [Expansion.relations, List.mem_append, List.mem_map, List.mem_map] at hr
  rcases hr with ⟨⟨pair, keys⟩, hp, rfl⟩ | ⟨⟨pair, keys⟩, hp, rfl⟩
  · rw [hpasses.relationKeys] at hp
    obtain ⟨k, hk⟩ := hexact.filled Index.filled_empty pair keys hp
    have hpair := hexact.relations pair k (by rwa [Index.values_of_mem_toList hp])
    rw [or_iff_right (Index.not_mem_values_empty pair k), Expansion.mem_pairsOf] at hpair
    obtain ⟨g, hg, hpair⟩ := hpair
    rw [mem_pairs_toList] at hpair
    exact
      { distinct  := ne_of_textOrder_lt hpair.2.2
        key       := key_ne_none_of_mem hk
        exact     := fun _ => ⟨g, hg, hpair.1, hpair.2.1⟩
        secondary := fun h => by cases h }
  · have hbase := hexact.secondary
    obtain ⟨k, hk⟩ := hpasses.filled (by rw [hbase]; exact Index.filled_empty) pair keys hp
    have hpair := hpasses.relations pair k (by rwa [Index.values_of_mem_toList hp])
    rw [hbase, or_iff_right (Index.not_mem_values_empty pair k)] at hpair
    obtain ⟨hleft, hright, hne, hnone, hnone'⟩ := hpair
    have halone : ∀ x z, Expansion.related
        ((exactGroups ordered).toList.foldl (Expansion.exactGroup ordered) {}) x = false →
        ¬ (Together (keptGroups ordered) x z ∧ x ≠ z) := by
      intro x z hx hz
      rw [← mem_exactCandidates, hpasses.exactCandidates] at hz
      rw [Expansion.related, Bool.not_eq_false', TreeSet.isEmpty_iff_forall_not_mem] at hx
      exact hx z hz
    exact
      { distinct  := hne
        key       := key_ne_none_of_mem hk
        exact     := fun h => by cases h
        secondary := fun _ => ⟨hleft, hright, fun z h => h.elim (halone _ z hnone)
          (halone _ z hnone')⟩ }

end

end Timeline
end CmTrace
