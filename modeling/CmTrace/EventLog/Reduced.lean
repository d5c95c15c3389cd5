import CmTrace.EventLog.Chains

/-!
# Reduced relations

What the observations of a pair come to does not depend on their order: the lists
of a relation are sorted by keys that tell their elements, and its label is the
weakest there is.  Each pair has one relation.
-/

namespace CmTrace
namespace EventLog

open Std Collections Js
open Timeline (TimelineCorrelationKeyKind)

/-! ## Sorted lists -/

section Unique

variable {T : Type} {id : T → JsString}

theorem getElem?_foldl_insert (hid : Function.Injective id) (values : List T)
    (byId : TreeMap JsString T compareStrings) (k : JsString) (value : T) :
    (values.foldl (fun byId value => byId.insert (id value) value) byId)[k]? = some value ↔
      (value ∈ values ∧ id value = k) ∨ (byId[k]? = some value ∧ ∀ v ∈ values, id v ≠ k) := by
  induction values generalizing byId with
  | nil => simp
  | cons first values ih =>
    rw [List.foldl_cons, ih, TreeMap.getElem?_insert]
    simp only [LawfulEqCmp.compare_eq_iff_eq, List.forall_mem_cons]
    rw [List.mem_cons]
    by_cases hfirst : id first = k
    · rw [if_pos hfirst, Option.some_inj]
      constructor
      · rintro (⟨hmem, hk⟩ | ⟨rfl, -⟩)
        · exact .inl ⟨.inr hmem, hk⟩
        · exact .inl ⟨.inl rfl, hfirst⟩
      · rintro (⟨rfl | hmem, hk⟩ | ⟨-, hne, -⟩)
        · by_cases hmem : ∃ v ∈ values, id v = k
          · obtain ⟨v, hv, hvk⟩ := hmem
            rw [← hid (hvk.trans hk.symm)]
            exact .inl ⟨hv, hvk⟩
          · exact .inr ⟨rfl, fun v hv hvk => hmem ⟨v, hv, hvk⟩⟩
        · exact .inl ⟨hmem, hk⟩
        · exact absurd hfirst hne
    · rw [if_neg hfirst]
      constructor
      · rintro (⟨hmem, hk⟩ | ⟨hold, hnone⟩)
        · exact .inl ⟨.inr hmem, hk⟩
        · exact .inr ⟨hold, hfirst, hnone⟩
      · rintro (⟨rfl | hmem, hk⟩ | ⟨hold, -, hnone⟩)
        · exact absurd hk hfirst
        · exact .inl ⟨hmem, hk⟩
        · exact .inr ⟨hold, hnone⟩

theorem uniqueSorted_perm (hid : Function.Injective id) {xs ys : List T} (h : xs.Perm ys) :
    uniqueSorted xs id = uniqueSorted ys id := by
  rw [uniqueSorted, uniqueSorted]
  refine congrArg (List.map Prod.snd) (TreeMap.Equiv.of_forall_constGet?_eq fun k => ?_).toList_eq
  refine Option.ext fun value => ?_
  rw [getElem?_foldl_insert hid, getElem?_foldl_insert hid, TreeMap.getElem?_emptyc, h.mem_iff]
  simp

end Unique

theorem kindText_injective :
    Function.Injective fun kind : TimelineCorrelationKeyKind => kind.label.map unit := by
  intro a b h
  cases a <;> cases b <;> first | rfl | exact absurd h (by decide)

theorem relationKeyId_injective : Function.Injective relationKeyId := by
  intro a b h
  obtain ⟨hkind, hvalue⟩ := List.cons.inj (keyOf_injective h)
  cases a
  cases b
  obtain rfl := kindText_injective hkind
  obtain rfl := (List.cons.inj hvalue).1
  rfl

theorem evidenceId_injective : Function.Injective evidenceId := by
  intro a b h
  have hparts := keyOf_injective h
  cases a
  cases b
  simp_all

theorem gapId_injective : Function.Injective gapId := by
  intro a b h
  have hparts := keyOf_injective h
  cases a
  cases b
  simp_all

/-! ## Labels -/

namespace CorrelationChainStrength

theorem strengthIndex_injective : Function.Injective strengthIndex := by
  intro a b h
  cases a <;> cases b <;> first | rfl | cases h

theorem le_weaker_left (a b : CorrelationChainStrength) :
    a.strengthIndex ≤ (a.weaker b).strengthIndex := by
  rw [weaker]
  split <;> omega

theorem le_weaker_right (a b : CorrelationChainStrength) :
    b.strengthIndex ≤ (a.weaker b).strengthIndex := by
  rw [weaker]
  split <;> omega

theorem weaker_eq (a b : CorrelationChainStrength) : a.weaker b = a ∨ a.weaker b = b := by
  rw [weaker]
  split
  · exact .inr rfl
  · exact .inl rfl

theorem isLinking_iff (a : CorrelationChainStrength) : a.isLinking = true ↔ a.strengthIndex ≤ 1 := by
  cases a <;> decide

end CorrelationChainStrength

/-- The label is of the relations, and none of them has a weaker one. -/
def WeakestOf (relations : List Relation) (strength : CorrelationChainStrength) : Prop :=
  (∃ r ∈ relations, r.strength = strength) ∧
    ∀ r ∈ relations, r.strength.strengthIndex ≤ strength.strengthIndex

theorem WeakestOf.unique {relations : List Relation} {a b : CorrelationChainStrength}
    (ha : WeakestOf relations a) (hb : WeakestOf relations b) : a = b := by
  obtain ⟨⟨r, hr, rfl⟩, hle⟩ := ha
  obtain ⟨⟨s, hs, rfl⟩, hle'⟩ := hb
  exact CorrelationChainStrength.strengthIndex_injective (Nat.le_antisymm (hle' r hr) (hle s hs))

theorem foldl_weaker (relations : List Relation) (start : CorrelationChainStrength) :
    let result := relations.foldl (fun strength r => strength.weaker r.strength) start
    (result = start ∨ ∃ r ∈ relations, r.strength = result) ∧
      start.strengthIndex ≤ result.strengthIndex ∧
      ∀ r ∈ relations, r.strength.strengthIndex ≤ result.strengthIndex := by
  induction relations generalizing start with
  | nil => exact ⟨.inl rfl, Nat.le_refl _, fun r hr => (by cases hr)⟩
  | cons first relations ih =>
    obtain ⟨hmem, hstart, hall⟩ := ih (start.weaker first.strength)
    rw [List.foldl_cons]
    refine ⟨?_, (start.le_weaker_left _).trans hstart, ?_⟩
    · rcases hmem with hmem | ⟨r, hr, hmem⟩
      · rw [hmem]
        exact (start.weaker_eq first.strength).imp_right fun h =>
          ⟨first, List.mem_cons_self .., h.symm⟩
      · exact .inr ⟨r, List.mem_cons_of_mem _ hr, hmem⟩
    · rw [List.forall_mem_cons]
      exact ⟨(start.le_weaker_right _).trans hstart, hall⟩

theorem combine_strength (first : Relation) (others : List Relation) :
    WeakestOf (first :: others) (combine first others).strength := by
  obtain ⟨hmem, -, hall⟩ := foldl_weaker (first :: others) first.strength
  refine ⟨?_, hall⟩
  rcases hmem with hmem | hmem
  · exact ⟨first, List.mem_cons_self .., hmem.symm⟩
  · exact hmem

/-! ## Pairs -/

def Relation.pair (r : Relation) : JsString × Option JsString := (r.left, r.right)

theorem pairKey_eq_iff (a b : Relation) : pairKey a = pairKey b ↔ a.pair = b.pair := by
  rw [pairKey, pairKey, Relation.pair, Relation.pair, Prod.mk.injEq]
  cases a.right with
  | none => cases b.right with
    | none =>
      dsimp only
      rw [keyOf_injective.eq_iff, List.cons.injEq]
      simp
    | some right =>
      dsimp only
      rw [keyOf_injective.eq_iff]
      simp
  | some left => cases b.right with
    | none =>
      dsimp only
      rw [keyOf_injective.eq_iff]
      simp
    | some right =>
      dsimp only
      rw [keyOf_injective.eq_iff]
      simp

def combineGroup : List Relation → Option Relation
  | [] => none
  | first :: others => some (combine first others)

theorem combineGroup_perm {xs ys : List Relation} (h : xs.Perm ys)
    (hpair : ∀ a ∈ xs, ∀ b ∈ xs, a.pair = b.pair) : combineGroup xs = combineGroup ys := by
  cases xs with
  | nil => rw [h.symm.eq_nil]
  | cons first others => cases ys with
    | nil => exact absurd h.eq_nil (List.cons_ne_nil _ _)
    | cons first' others' =>
      have hends := hpair first (List.mem_cons_self ..) first' (h.mem_iff.mpr (List.mem_cons_self ..))
      have hstrength : (combine first others).strength = (combine first' others').strength := by
        have hweakest := combine_strength first' others'
        refine (combine_strength first others).unique ⟨?_, fun r hr => ?_⟩
        · obtain ⟨r, hr, hlabel⟩ := hweakest.1
          exact ⟨r, h.mem_iff.mpr hr, hlabel⟩
        · exact hweakest.2 r (h.mem_iff.mp hr)
      refine congrArg some ?_
      rw [combine, combine, Relation.mk.injEq]
      exact ⟨congrArg Prod.fst hends, congrArg Prod.snd hends, hstrength,
        toList_ofList_perm (h.flatMap_right _),
        uniqueSorted_perm relationKeyId_injective (h.flatMap_right _),
        uniqueSorted_perm evidenceId_injective (h.flatMap_right _),
        uniqueSorted_perm gapId_injective (h.flatMap_right _)⟩

/-! ## One relation for each pair -/

def ofPair (observations : List Relation) (key : JsString) : List Relation :=
  observations.filter fun o => pairKey o = key

theorem reduceByPair_eq (observations : List Relation) :
    reduceByPair observations = (TreeSet.ofList (observations.map pairKey) compareStrings).toList.filterMap
      fun key => combineGroup (ofPair observations key) := by
  rw [reduceByPair, sortBy_groupBy, List.filterMap_map]
  refine List.filterMap_congr fun key _ => ?_
  rw [Function.comp_apply, combineGroup.eq_def]
  rfl

theorem ofPair_pair (observations : List Relation) (key : JsString) :
    ∀ a ∈ ofPair observations key, ∀ b ∈ ofPair observations key, a.pair = b.pair := by
  intro a ha b hb
  have hka : pairKey a = key := of_decide_eq_true (List.mem_filter.mp ha).2
  have hkb : pairKey b = key := of_decide_eq_true (List.mem_filter.mp hb).2
  exact (pairKey_eq_iff a b).mp (hka.trans hkb.symm)

theorem reduceByPair_perm {xs ys : List Relation} (h : xs.Perm ys) :
    reduceByPair xs = reduceByPair ys := by
  rw [reduceByPair_eq, reduceByPair_eq, toList_ofList_perm (h.map pairKey)]
  exact List.filterMap_congr fun key _ => combineGroup_perm (h.filter _) (ofPair_pair xs key)

theorem combineGroup_ofPair {observations : List Relation} {o : Relation} (ho : o ∈ observations) :
    ∃ r, combineGroup (ofPair observations (pairKey o)) = some r ∧ r.pair = o.pair ∧
      WeakestOf (ofPair observations (pairKey o)) r.strength := by
  have hmem : o ∈ ofPair observations (pairKey o) := List.mem_filter.mpr ⟨ho, decide_eq_true rfl⟩
  have hpair := ofPair_pair observations (pairKey o)
  cases hgroup : ofPair observations (pairKey o) with
  | nil => exact absurd hgroup (List.ne_nil_of_mem hmem)
  | cons first others =>
    rw [hgroup] at hmem hpair
    exact ⟨combine first others, rfl, hpair first (List.mem_cons_self ..) o hmem,
      combine_strength first others⟩

theorem mem_reduceByPair {observations : List Relation} {r : Relation} :
    r ∈ reduceByPair observations ↔
      ∃ o ∈ observations, combineGroup (ofPair observations (pairKey o)) = some r := by
  rw [reduceByPair_eq, List.mem_filterMap]
  constructor
  · rintro ⟨key, hkey, hr⟩
    obtain ⟨o, ho, rfl⟩ := List.mem_map.mp (mem_toList_ofList.mp hkey)
    exact ⟨o, ho, hr⟩
  · rintro ⟨o, ho, hr⟩
    exact ⟨pairKey o, mem_toList_ofList.mpr (List.mem_map_of_mem ho), hr⟩

theorem reduceByPair_weakest {observations : List Relation} {r : Relation}
    (hr : r ∈ reduceByPair observations) :
    WeakestOf (observations.filter fun o => o.pair = r.pair) r.strength := by
  obtain ⟨o, ho, hcombined⟩ := mem_reduceByPair.mp hr
  obtain ⟨r', hcombined', hpair, hweakest⟩ := combineGroup_ofPair ho
  obtain rfl := Option.some_inj.mp (hcombined.symm.trans hcombined')
  have hfilter : ofPair observations (pairKey o) = observations.filter fun o => o.pair = r.pair :=
    List.filter_congr fun o' _ => by
      rw [decide_eq_decide, pairKey_eq_iff, hpair]
  rwa [hfilter] at hweakest

theorem exists_reduced {observations : List Relation} {o : Relation} (ho : o ∈ observations) :
    ∃ r ∈ reduceByPair observations, r.pair = o.pair := by
  obtain ⟨r, hcombined, hpair, -⟩ := combineGroup_ofPair ho
  exact ⟨r, mem_reduceByPair.mpr ⟨o, ho, hcombined⟩, hpair⟩

theorem reduceByPair_nodup (observations : List Relation) :
    ((reduceByPair observations).map Relation.pair).Nodup := by
  rw [List.Nodup, List.pairwise_map, reduceByPair_eq, List.pairwise_filterMap]
  refine (nodup_toList _).imp_of_mem fun {key key'} hkey hkey' hne r hr r' hr' hpair => hne ?_
  obtain ⟨o, ho, rfl⟩ := List.mem_map.mp (mem_toList_ofList.mp hkey)
  obtain ⟨o', ho', rfl⟩ := List.mem_map.mp (mem_toList_ofList.mp hkey')
  obtain ⟨s, hs, hspair, -⟩ := combineGroup_ofPair ho
  obtain ⟨s', hs', hspair', -⟩ := combineGroup_ofPair ho'
  obtain rfl := Option.some_inj.mp (hs.symm.trans hr)
  obtain rfl := Option.some_inj.mp (hs'.symm.trans hr')
  exact (pairKey_eq_iff o o').mpr (hspair.symm.trans (hpair.trans hspair'))

end EventLog
end CmTrace
