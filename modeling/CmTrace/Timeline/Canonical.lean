import CmTrace.Collections.Sorted
import CmTrace.Timeline.Correlate

/-!
# Observations in any order

What is held of an origin is made up of lists that are sorted in the end, of a
set and of a count, so that coalescing forgets in which order observations came
in; and nothing but the coalesced observations is correlated.
-/

namespace CmTrace
namespace Timeline

open Std Text Collections

namespace Accumulator

/-- Two accumulators that differ in the order of what they hold. -/
structure Same (a b : Accumulator) : Prop where
  originId : a.observation.originId = b.observation.originId
  exactKeys : a.observation.exactKeys.Perm b.observation.exactKeys
  secondaryKeys : a.observation.secondaryKeys.Perm b.observation.secondaryKeys
  coverageGaps : a.observation.coverageGaps.Perm b.observation.coverageGaps
  machines : ∀ machine, machine ∈ a.machines ↔ machine ∈ b.machines
  count : a.count = b.count

theorem Same.refl (a : Accumulator) : Same a a :=
  ⟨rfl, .refl _, .refl _, .refl _, fun _ => Iff.rfl, rfl⟩

theorem Same.trans {a b c : Accumulator} (h : Same a b) (h' : Same b c) : Same a c :=
  { originId      := h.originId.trans h'.originId
    exactKeys     := h.exactKeys.trans h'.exactKeys
    secondaryKeys := h.secondaryKeys.trans h'.secondaryKeys
    coverageGaps  := h.coverageGaps.trans h'.coverageGaps
    machines      := fun machine => (h.machines machine).trans (h'.machines machine)
    count         := h.count.trans h'.count }

theorem mem_machines_add (entry : Accumulator) (o : TimelineCorrelationObservation)
    (machine : Text) :
    machine ∈ (entry.add o).machines ↔ o.normalizedMachine = some machine ∨ machine ∈ entry.machines := by
  rw [add]
  cases o.normalizedMachine with
  | none => simp
  | some held =>
    rw [TreeSet.mem_insert, LawfulEqCmp.compare_eq_iff_eq, Option.some_inj]

theorem Same.add {a b : Accumulator} (h : Same a b) (o : TimelineCorrelationObservation) :
    Same (a.add o) (b.add o) :=
  { originId      := h.originId
    exactKeys     := h.exactKeys.append_right _
    secondaryKeys := h.secondaryKeys.append_right _
    coverageGaps  := h.coverageGaps.append_right _
    machines      := fun machine => by rw [mem_machines_add, mem_machines_add, h.machines machine]
    count         := congrArg (· + 1) h.count }

theorem add_add (entry : Accumulator) (o o' : TimelineCorrelationObservation) :
    Same ((entry.add o).add o') ((entry.add o').add o) := by
  have hswap : ∀ {A : Type} (xs ys zs : List A), (xs ++ ys ++ zs).Perm (xs ++ zs ++ ys) := by
    intro A xs ys zs
    rw [List.append_assoc, List.append_assoc]
    exact List.perm_append_comm.append_left xs
  exact
    { originId      := rfl
      exactKeys     := hswap ..
      secondaryKeys := hswap ..
      coverageGaps  := hswap ..
      machines      := fun machine => by
        rw [mem_machines_add, mem_machines_add, mem_machines_add, mem_machines_add, or_left_comm]
      count         := rfl }

theorem foldl_add_same {a b : Accumulator} (h : Same a b)
    (observations : List TimelineCorrelationObservation) :
    Same (observations.foldl Accumulator.add a) (observations.foldl Accumulator.add b) := by
  induction observations generalizing a b with
  | nil => exact h
  | cons o observations ih => exact ih (h.add o)

theorem foldl_add_perm {observations observations' : List TimelineCorrelationObservation}
    (h : observations.Perm observations') (entry : Accumulator) :
    Same (observations.foldl add entry) (observations'.foldl add entry) := by
  induction h generalizing entry with
  | nil => exact .refl entry
  | cons o _ ih => exact ih (entry.add o)
  | swap o o' observations => exact foldl_add_same (add_add entry o' o) observations
  | trans _ _ ih ih' => exact (ih entry).trans (ih' entry)

theorem Same.coalesced {a b : Accumulator} (h : Same a b) : a.coalesced = b.coalesced := by
  have hmachines : a.machines.Equiv b.machines := .of_forall_mem_iff h.machines
  rw [Accumulator.coalesced, Accumulator.coalesced, h.originId, h.count, hmachines.size_eq,
    hmachines.toList_eq, toList_ofList_perm h.exactKeys, toList_ofList_perm h.secondaryKeys,
    toList_ofList_perm (h.coverageGaps.append_right _)]

end Accumulator

theorem getElem?_foldl_file (observations : List TimelineCorrelationObservation)
    (grouped : TreeMap Text Accumulator textOrder) (id : Text) :
    (observations.foldl file grouped)[id]? =
      match observations.filter fun o => o.originId == id with
      | []      => grouped[id]?
      | o :: os => some ((o :: os).foldl Accumulator.add (grouped[id]?.getD (.fresh id))) := by
  induction observations generalizing grouped with
  | nil => rfl
  | cons o observations ih =>
    rw [List.foldl_cons, ih, file, TreeMap.getElem?_alter]
    simp only [LawfulEqCmp.compare_eq_iff_eq]
    by_cases hid : o.originId = id
    · rw [if_pos hid, List.filter_cons_of_pos (by rw [hid]; exact beq_self_eq_true id), hid]
      cases observations.filter fun o => o.originId == id with
      | nil => rfl
      | cons _ _ => rfl
    · rw [if_neg hid, List.filter_cons_of_neg (by rw [beq_eq_false_iff_ne.mpr hid]; decide)]

theorem disambiguateObservationIds_perm
    {observations observations' : List TimelineCorrelationObservation}
    (h : observations.Perm observations') :
    disambiguateObservationIds observations = disambiguateObservationIds observations' := by
  have hentry : ∀ id : Text, (observations.foldl file ∅)[id]?.map Accumulator.coalesced =
      (observations'.foldl file ∅)[id]?.map Accumulator.coalesced := by
    intro id
    have hfilter := h.filter fun o => o.originId == id
    rw [getElem?_foldl_file, getElem?_foldl_file]
    cases hleft : observations.filter fun o => o.originId == id with
    | nil =>
      rw [hleft] at hfilter
      rw [hfilter.nil_eq.symm]
    | cons o os =>
      rw [hleft] at hfilter
      cases hright : observations'.filter fun o => o.originId == id with
      | nil =>
        rw [hright] at hfilter
        exact absurd hfilter.eq_nil (List.cons_ne_nil o os)
      | cons o' os' =>
        rw [hright] at hfilter
        exact congrArg some (Accumulator.foldl_add_perm hfilter _).coalesced
  have hmap : ((observations.foldl file ∅).map fun _ entry => entry.coalesced).Equiv
      ((observations'.foldl file ∅).map fun _ entry => entry.coalesced) := by
    refine .of_forall_constGet?_eq fun id => ?_
    rw [TreeMap.getElem?_map, TreeMap.getElem?_map]
    exact hentry id
  have hvalues := congrArg (List.map Prod.snd) hmap.toList_eq
  rw [TreeMap.toList_map, TreeMap.toList_map, List.map_map, List.map_map] at hvalues
  exact hvalues

/-- Edges and gaps do not tell in which order the observations came in. -/
theorem correlateObservations_perm
    {observations observations' : List TimelineCorrelationObservation}
    (h : observations'.Perm observations) :
    correlateObservations observations' = correlateObservations observations := by
  rw [correlateObservations, disambiguateObservationIds_perm h, ← correlateObservations]

/-- One origin that was observed on two machines, either one first. -/
theorem correlateObservations_two_machines :
    let seen := fun machine : String => ({
      originId      := "o".toList
      machine       := some machine.toList
      exactKeys     := [⟨.sessionId, machine.toList⟩]
      secondaryKeys := []
      coverageGaps  := [] } : TimelineCorrelationObservation)
    correlateObservations [seen "b", seen "a"] = correlateObservations [seen "a", seen "b"] :=
  correlateObservations_perm (List.Perm.swap _ _ [])

end Timeline
end CmTrace
