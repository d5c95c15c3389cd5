import CmTrace.Timeline.Relations

/-!
# Exact edges

An edge is called exact when the kept groups show no third candidate.  That is
no third origin with a key in common exactly when the groups left out show none
either.
-/

namespace CmTrace
namespace Timeline

open Std Text Collections

/-! ## Edges that are emitted -/

section Emit

variable (ordered : List TimelineCorrelationObservation) (e : Expansion)

/-- The relations whose edges fit the output, up to the first that does not. -/
def fitting : Nat → Nat → List Related → List Related
  | _, _, [] => []
  | candidateBudget, edgeBudget, r :: rs =>
    match r.key with
    | none => fitting candidateBudget edgeBudget rs
    | some key =>
      let omitted := r.ambiguous e && decide (candidateBudget < r.candidateBytes e)
      let estimatedBytes := (r.edge ordered e key omitted).estimatedBytes r.right
      if edgeBudget < estimatedBytes then []
      else
        let spent := if omitted then 0 else r.candidateBytes e
        r :: fitting (candidateBudget - spent) (edgeBudget - estimatedBytes) rs

/-- The edge joins the ends of the relation and says how strong it is. -/
def EdgeOf (edge : TimelineCorrelationEdge) (r : Related) : Prop :=
  edge.fromId = r.left ∧ edge.toId = some r.right ∧ edge.strength = r.strength e

theorem foldl_emit_truncated (rs : List Related) (out : Output)
    (h : out.edgeOutputTruncated = true) : rs.foldl (Output.emit ordered e) out = out := by
  induction rs with
  | nil => rfl
  | cons r rs ih =>
    have hout : out.emit ordered e r = out := by rw [Output.emit, if_pos h]
    rw [List.foldl_cons, hout, ih]

theorem emit_cons (r : Related) (rs : List Related) (out : Output)
    (h : out.edgeOutputTruncated = false) {key : TimelineCorrelationKey} (hkey : r.key = some key) :
    ((out.emit ordered e r).edgeOutputTruncated = true ∧ (out.emit ordered e r).edges = out.edges ∧
      fitting ordered e out.candidateOutputBudget out.edgeOutputBudget (r :: rs) = []) ∨
    ((out.emit ordered e r).edgeOutputTruncated = false ∧
      (∃ edge, (out.emit ordered e r).edges = out.edges ++ [edge] ∧ EdgeOf e edge r) ∧
      fitting ordered e out.candidateOutputBudget out.edgeOutputBudget (r :: rs) =
        r :: fitting ordered e (out.emit ordered e r).candidateOutputBudget
          (out.emit ordered e r).edgeOutputBudget rs) := by
  rw [fitting, Output.emit, h, if_neg Bool.false_ne_true, hkey]
  dsimp only
  generalize (decide (out.candidateOutputBudget < r.candidateBytes e)) = short
  have hedge : ∀ omitted, EdgeOf e (r.edge ordered e key omitted) r := fun _ => ⟨rfl, rfl, rfl⟩
  cases hambiguous : r.ambiguous e with
  | false =>
    have hbytes : r.candidateBytes e = 0 := by rw [Related.candidateBytes, hambiguous]; rfl
    simp only [Bool.false_and, Bool.false_eq_true, if_false, hbytes, Nat.sub_zero]
    split_ifs
    · exact .inl ⟨rfl, rfl, rfl⟩
    · exact .inr ⟨h, ⟨_, rfl, hedge _⟩, rfl⟩
  | true =>
    cases short with
    | true =>
      simp only [Bool.true_and, if_true, Nat.sub_zero]
      split_ifs
      · exact .inl ⟨rfl, rfl, rfl⟩
      · exact .inr ⟨rfl, ⟨_, rfl, hedge _⟩, rfl⟩
    | false =>
      simp only [Bool.true_and, Bool.false_eq_true, if_false, if_true]
      split_ifs
      · exact .inl ⟨rfl, rfl, rfl⟩
      · exact .inr ⟨rfl, ⟨_, rfl, hedge _⟩, rfl⟩

theorem foldl_emit (rs : List Related) (out : Output) (h : out.edgeOutputTruncated = false)
    (hkeys : ∀ r ∈ rs, r.key ≠ none) :
    (∀ edge ∈ (rs.foldl (Output.emit ordered e) out).edges, edge ∈ out.edges ∨
      ∃ r ∈ fitting ordered e out.candidateOutputBudget out.edgeOutputBudget rs, EdgeOf e edge r) ∧
    (∀ edge ∈ out.edges, edge ∈ (rs.foldl (Output.emit ordered e) out).edges) ∧
    ∀ r ∈ fitting ordered e out.candidateOutputBudget out.edgeOutputBudget rs, r ∈ rs ∧
      ∃ edge ∈ (rs.foldl (Output.emit ordered e) out).edges, EdgeOf e edge r := by
  induction rs generalizing out with
  | nil => exact ⟨fun _ h => .inl h, fun _ h => h, fun _ h => by cases h⟩
  | cons r rs ih =>
    obtain ⟨key, hkey⟩ := Option.ne_none_iff_exists'.mp (hkeys r (List.mem_cons_self ..))
    rw [List.foldl_cons]
    rcases emit_cons ordered e r rs out h hkey with
      ⟨htruncated, hedges, hfit⟩ | ⟨hopen, ⟨edge, hedges, hedge⟩, hfit⟩
    · rw [foldl_emit_truncated ordered e rs _ htruncated, hedges, hfit]
      exact ⟨fun _ h => .inl h, fun _ h => h, fun _ h => by cases h⟩
    · obtain ⟨hall, hold, hfits⟩ := ih _ hopen fun r hr => hkeys r (List.mem_cons_of_mem _ hr)
      rw [hfit]
      refine ⟨fun edge' hedge' => ?_, fun edge' hedge' => ?_, fun r' hr' => ?_⟩
      · rcases hall edge' hedge' with h' | ⟨r', hr', h'⟩
        · rw [hedges, List.mem_append, List.mem_singleton] at h'
          rcases h' with h' | rfl
          · exact .inl h'
          · exact .inr ⟨r, List.mem_cons_self .., hedge⟩
        · exact .inr ⟨r', List.mem_cons_of_mem _ hr', h'⟩
      · exact hold edge' (by rw [hedges]; exact List.mem_append_left _ hedge')
      · rcases List.mem_cons.mp hr' with rfl | hr'
        · refine ⟨List.mem_cons_self .., edge, hold edge ?_, hedge⟩
          rw [hedges]
          exact List.mem_append_right _ (List.mem_singleton_self edge)
        · exact ⟨List.mem_cons_of_mem _ (hfits r' hr').1, (hfits r' hr').2⟩

end Emit

/-! ## Third candidates -/

/-- The relations the output of a run has room for. -/
def fittingRelations (observations : List TimelineCorrelationObservation) : List Related :=
  let ordered := disambiguateObservationIds observations
  fitting ordered (expand ordered) maxCorrelationCandidateBytes maxCorrelationEdgeBytes
    (expand ordered).relations

/-- Both origins carry one exact key on one machine. -/
def SharesExact (a b : TimelineCorrelationObservation) : Prop :=
  ∃ key ∈ a.exactGroupKeys, key ∈ b.exactGroupKeys

instance (a b : TimelineCorrelationObservation) : Decidable (SharesExact a b) :=
  inferInstanceAs (Decidable (∃ key ∈ a.exactGroupKeys, key ∈ b.exactGroupKeys))

/-- The edge joins two origins of one machine with an exact key in common, and
no third origin has one in common with either. -/
def JoinsSoleCounterparts (origins : List TimelineCorrelationObservation)
    (edge : TimelineCorrelationEdge) : Prop :=
  ∃ a ∈ origins, ∃ b ∈ origins, a.originId = edge.fromId ∧ edge.toId = some b.originId ∧
    a.originId ≠ b.originId ∧ a.normalizedMachine = b.normalizedMachine ∧
    a.normalizedMachine ≠ none ∧ SharesExact a b ∧
    ∀ c ∈ origins, c.originId ≠ a.originId → c.originId ≠ b.originId →
      ¬ SharesExact a c ∧ ¬ SharesExact b c

/-- The edge joins two origins that have no exact key in common with any other. -/
def JoinsUnrelated (origins : List TimelineCorrelationObservation)
    (edge : TimelineCorrelationEdge) : Prop :=
  ∃ a ∈ origins, ∃ b ∈ origins, a.originId = edge.fromId ∧ edge.toId = some b.originId ∧
    ∀ c ∈ origins, (c.originId ≠ a.originId → ¬ SharesExact a c) ∧
      (c.originId ≠ b.originId → ¬ SharesExact b c)

/-- Exact and candidate edges are what they are called. -/
def Unambiguous (observations : List TimelineCorrelationObservation) : Prop :=
  ∀ edge ∈ (correlateObservations observations).1,
    (edge.strength = .exact →
      JoinsSoleCounterparts (disambiguateObservationIds observations) edge) ∧
    (edge.strength = .candidate → JoinsUnrelated (disambiguateObservationIds observations) edge)

/-- The groups left out say nothing new of the relations the output has room
for: no third candidate of one that the kept groups leave without, and no
candidate at all of a secondary one. -/
structure KeptDecide (observations : List TimelineCorrelationObservation) : Prop where
  exact : ∀ r ∈ fittingRelations observations, r.exact = true →
    (∀ z, Together (keptGroups (disambiguateObservationIds observations)) r.left z ∨
        Together (keptGroups (disambiguateObservationIds observations)) r.right z →
      z = r.left ∨ z = r.right) →
    ∀ z, Together (leftOutGroups (disambiguateObservationIds observations)) r.left z ∨
        Together (leftOutGroups (disambiguateObservationIds observations)) r.right z →
      z = r.left ∨ z = r.right
  candidate : ∀ r ∈ fittingRelations observations, r.exact = false → ∀ z,
    (Together (leftOutGroups (disambiguateObservationIds observations)) r.left z → z = r.left) ∧
      (Together (leftOutGroups (disambiguateObservationIds observations)) r.right z → z = r.right)

section

variable (ordered : List TimelineCorrelationObservation)

theorem mem_foldl_insert (ids : List Text) (s : TreeSet Text textOrder) (x : Text) :
    x ∈ ids.foldl (fun s id => s.insert id) s ↔ x ∈ ids ∨ x ∈ s := by
  induction ids generalizing s with
  | nil => simp
  | cons id ids ih =>
    rw [List.foldl_cons, ih, TreeSet.mem_insert, LawfulEqCmp.compare_eq_iff_eq, List.mem_cons,
      or_left_comm, ← or_assoc, eq_comm (a := id)]

theorem mem_candidates {r : Related} (h : r.exact = true) (e : Expansion) (x : Text) :
    x ∈ r.candidates e ↔ x ∈ e.exactCandidates.values r.left ∨
      x ∈ e.exactCandidates.values r.right := by
  rw [Related.candidates, if_pos h, mem_foldl_insert, mem_foldl_insert, TreeSet.mem_toList,
    TreeSet.mem_toList, or_iff_left TreeSet.not_mem_emptyc, or_comm]

theorem strength_exact {r : Related} : r.strength (expand ordered) = .exact ↔
    r.exact = true ∧ ∀ z, Together (keptGroups ordered) r.left z ∨
      Together (keptGroups ordered) r.right z → z = r.left ∨ z = r.right := by
  have hambiguous : r.exact = true → (r.ambiguous (expand ordered) = false ↔
      ∀ z ∈ r.candidates (expand ordered), z = r.left ∨ z = r.right) := by
    intro hexact
    rw [Related.ambiguous, hexact, Bool.true_and, Bool.not_eq_false', List.isEmpty_iff,
      List.filter_eq_nil_iff]
    refine forall_congr' fun z => ?_
    rw [TreeSet.mem_toList, Bool.and_eq_true, bne_iff_ne, bne_iff_ne, not_and_or, not_not, not_not]
  have hcandidates : r.exact = true → ((∀ z ∈ r.candidates (expand ordered),
      z = r.left ∨ z = r.right) ↔ ∀ z, Together (keptGroups ordered) r.left z ∨
        Together (keptGroups ordered) r.right z → z = r.left ∨ z = r.right) := by
    intro hexact
    refine forall_congr' fun z => ?_
    rw [mem_candidates hexact, mem_exactCandidates, mem_exactCandidates]
    constructor
    · intro h htogether
      by_cases hleft : r.left = z
      · exact .inl hleft.symm
      · by_cases hright : r.right = z
        · exact .inr hright.symm
        · exact h (htogether.imp (fun h => ⟨h, hleft⟩) fun h => ⟨h, hright⟩)
    · exact fun h htogether => h (htogether.imp And.left And.left)
  rw [Related.strength]
  cases hexact : r.exact with
  | false => split_ifs <;> simp_all
  | true =>
    rw [← hcandidates hexact, ← hambiguous hexact]
    cases r.ambiguous (expand ordered) with
    | false => simp
    | true => simp

theorem strength_candidate {r : Related} :
    r.strength (expand ordered) = .candidate ↔ r.exact = false := by
  rw [Related.strength, Related.ambiguous]
  cases r.exact with
  | true => split_ifs <;> simp_all
  | false => simp

theorem together_exactGroups {observations : List TimelineCorrelationObservation}
    {a c : TimelineCorrelationObservation} (ha : a ∈ disambiguateObservationIds observations)
    (hc : c ∈ disambiguateObservationIds observations) :
    Together (exactGroups (disambiguateObservationIds observations)).toList a.originId c.originId ↔
      SharesExact a c := by
  rw [together_iff]
  constructor
  · rintro ⟨a', ha', c', hc', hxa, hxc, key, hka, hkc⟩
    rw [originId_injective ha' ha hxa] at hka
    rw [originId_injective hc' hc hxc] at hkc
    exact ⟨key, hka, hkc⟩
  · rintro ⟨key, hka, hkc⟩
    exact ⟨a, ha, c, hc, rfl, rfl, key, hka, hkc⟩

theorem origin_of_together {x y : Text} (h : Together (exactGroups ordered).toList x y) :
    (∃ a ∈ ordered, a.originId = x) ∧ ∃ b ∈ ordered, b.originId = y := by
  obtain ⟨a, ha, b, hb, hx, hy, -⟩ := (together_iff ordered x y).mp h
  exact ⟨⟨a, ha, hx⟩, ⟨b, hb, hy⟩⟩

end

theorem SharesExact.machine {a b : TimelineCorrelationObservation} (h : SharesExact a b) :
    a.normalizedMachine = b.normalizedMachine ∧ a.normalizedMachine ≠ none := by
  obtain ⟨key, hka, hkb⟩ := h
  rw [TimelineCorrelationObservation.exactGroupKeys] at hka hkb
  cases ha : a.normalizedMachine with
  | none => rw [ha] at hka; cases hka
  | some m =>
    cases hb : b.normalizedMachine with
    | none => rw [hb] at hkb; cases hkb
    | some m' =>
      rw [ha] at hka
      rw [hb] at hkb
      obtain ⟨_, -, rfl⟩ := List.mem_map.mp hka
      obtain ⟨_, -, hm⟩ := List.mem_map.mp hkb
      exact ⟨congrArg some (Prod.mk.inj hm).1.symm, Option.some_ne_none m⟩

/-- What the edges of a run are made from, and that each relation that fits has
its edge. -/
theorem correlateObservations_edges (observations : List TimelineCorrelationObservation) :
    (∀ edge ∈ (correlateObservations observations).1, ∃ r ∈ fittingRelations observations,
      EdgeOf (expand (disambiguateObservationIds observations)) edge r) ∧
    ∀ r ∈ fittingRelations observations, r.Sound (disambiguateObservationIds observations) ∧
      ∃ edge ∈ (correlateObservations observations).1,
        EdgeOf (expand (disambiguateObservationIds observations)) edge r := by
  have hsound := fun r hr => related_sound (disambiguateObservationIds observations) (r := r) hr
  obtain ⟨hall, -, hfit⟩ := foldl_emit (disambiguateObservationIds observations)
    (expand (disambiguateObservationIds observations)) _
    { fanoutGaps := (expand (disambiguateObservationIds observations)).fanoutGaps } rfl
    fun r hr => (hsound r hr).key
  exact ⟨fun edge hedge => (hall edge hedge).resolve_left (by simp),
    fun r hr => ⟨hsound r (hfit r hr).1, (hfit r hr).2⟩⟩

def onHost (id : Text) (keys : List TimelineCorrelationKey) : TimelineCorrelationObservation :=
  { originId      := id
    machine       := some "host".toList
    exactKeys     := keys
    secondaryKeys := []
    coverageGaps  := [] }

/-- Two origins of one session, the first of an activity with 256 others. -/
def crowded : List TimelineCorrelationObservation :=
  onHost "a".toList [⟨.activityId, "1".toList⟩, ⟨.sessionId, "2".toList⟩] ::
    onHost "b".toList [⟨.sessionId, "2".toList⟩] ::
    (List.range 256).map fun n => onHost [Char.ofNat (1000 + n)] [⟨.activityId, "1".toList⟩]

end Timeline
end CmTrace
