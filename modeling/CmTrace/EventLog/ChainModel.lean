import CmTrace.EventLog.ChainRows

/-!
# Chains of correlated entries

Entries share a row of linked relations when pairs that link join them, relations
that do not link share a row when label and members agree, and each pair is in one
row or is counted as ignored.  None of it depends on the order of edges or items.
-/

namespace CmTrace
namespace EventLog

open Std Collections Js

/-! ## The rows -/

def rowMembers (row : CorrelationChain) : List JsString := row.memberIds ++ row.unresolvedMemberIds

section Rows

variable (itemsById : Items) (findings : List ChainFindingCoverage) (source : RowSource)

theorem toRow_id : (toRow itemsById findings source).id = source.id := rfl

theorem toRow_strength : (toRow itemsById findings source).strength = source.strength := rfl

theorem toRow_edges :
    (toRow itemsById findings source).edges = source.relations.map (·.edge) := rfl

theorem mem_rowMembers (x : JsString) :
    x ∈ rowMembers (toRow itemsById findings source) ↔ x ∈ source.memberIds := by
  have hall : x ∈ uniqueSortedStrings source.memberIds ↔ x ∈ source.memberIds := mem_toList_ofList
  rw [rowMembers, toRow]
  dsimp only
  rw [List.mem_append, mem_sortBy, List.mem_filter, List.mem_filter, ← and_or_left, hall]
  cases itemsById x <;> simp

end Rows

theorem mem_correlationRows {input : CorrelationChainInput} {row : CorrelationChain} :
    row ∈ correlationRows input ↔ ∃ source ∈ rowSources (relationsOf input.timelineEdges),
      toRow (input.items.foldl keepItem fun _ => none) input.findings source = row := by
  rw [correlationRows, mem_sortBy, List.mem_map]
  rfl

/-- What the rows of a list of edges are. -/
structure RowsExact (edges : List TimelineCorrelationEdge) (rows : List CorrelationChain) : Prop where
  linked : ∀ x y, (∃ row ∈ rows, row.strength.isLinking ∧ x ∈ rowMembers row ∧ y ∈ rowMembers row) ↔
    Relation.TransGen (LinkingPair edges) x y
  label : ∀ row ∈ rows, ∀ edge ∈ row.edges,
    WeakestOf ((edges.map classifyTimelineEdge).filter fun o => o.pair = (edge.left, edge.right))
      edge.strength
  exact : ∀ row ∈ rows, row.strength.isLinking →
    (row.strength = .exact ↔ ∀ edge ∈ row.edges, edge.strength = .exact)
  collapsed : ∀ r ∈ nonLinking (relationsOf edges), ∀ s ∈ nonLinking (relationsOf edges),
    (∃ row ∈ rows, r.edge ∈ row.edges ∧ s.edge ∈ row.edges) ↔
      r.strength = s.strength ∧ memberSet r = memberSet s
  members : ∀ r ∈ nonLinking (relationsOf edges), ∀ row ∈ rows, r.edge ∈ row.edges →
    row.strength = r.strength ∧ ∀ x, x ∈ rowMembers row ↔ x ∈ memberSet r
  once : (rows.flatMap (·.edges) ++ ((relationsOf edges).filter isIgnored).map (·.edge)).Perm
    ((relationsOf edges).map (·.edge))
  ids : (rows.map (·.id)).Nodup

theorem source_cases {reduced : List Relation} {source : RowSource} (h : source ∈ rowSources reduced) :
    (∃ group ∈ components (chainLinks reduced), chainSource group.2 = source) ∨
      Collapsed reduced source := by
  rcases List.mem_append.mp h with h | h
  · exact .inl (List.mem_map.mp h)
  · exact .inr (collapsed_of_mem h)

theorem relations_subset {reduced : List Relation} {source : RowSource} (h : source ∈ rowSources reduced)
    {r : Relation} (hr : r ∈ source.relations) : r ∈ reduced :=
  (relations_partition reduced).mem_iff.mp
    (List.mem_append_left _ (List.mem_flatMap.mpr ⟨source, h, hr⟩))

theorem Collapsed.not_isLinking {reduced : List Relation} {source : RowSource}
    (h : Collapsed reduced source) : source.strength.isLinking = false := by
  obtain ⟨r, hr, -, hstrength, -⟩ := h.relations
  rw [hstrength]
  exact (mem_nonLinking.mp hr).2.2

theorem eq_of_edge {edges : List TimelineCorrelationEdge} {r s : Relation} (hr : r ∈ relationsOf edges)
    (hs : s ∈ relationsOf edges) (h : r.edge = s.edge) : r = s := by
  have hpair : r.pair = s.pair := by
    rw [Relation.edge, Relation.edge, CorrelationChainEdge.mk.injEq] at h
    rw [Relation.pair, Relation.pair, h.1, h.2.1]
  exact List.inj_on_of_nodup_map (reduceByPair_nodup _) hr hs hpair

theorem mem_relations_of_edge {edges : List TimelineCorrelationEdge} {source : RowSource}
    (hsource : source ∈ rowSources (relationsOf edges)) {r : Relation} (hr : r ∈ relationsOf edges)
    (h : r.edge ∈ source.relations.map (·.edge)) : r ∈ source.relations := by
  obtain ⟨s, hs, hedge⟩ := List.mem_map.mp h
  rwa [← eq_of_edge (relations_subset hsource hs) hr hedge]

theorem collapsed_of_relation {edges : List TimelineCorrelationEdge} {source : RowSource}
    (hsource : source ∈ rowSources (relationsOf edges)) {r : Relation}
    (hr : r ∈ nonLinking (relationsOf edges)) (hmem : r ∈ source.relations) :
    Collapsed (relationsOf edges) source := by
  rcases source_cases hsource with ⟨group, hgroup, rfl⟩ | hcollapsed
  · have hlinking := (mem_chainLinks.mp ((components_linking hgroup).2 r hmem)).2.1
    rw [(mem_nonLinking.mp hr).2.2] at hlinking
    cases hlinking
  · exact hcollapsed

theorem linked_iff (input : CorrelationChainInput) (x y : JsString) :
    (∃ row ∈ correlationRows input, row.strength.isLinking ∧ x ∈ rowMembers row ∧ y ∈ rowMembers row) ↔
      Relation.TransGen (LinkingPair input.timelineEdges) x y := by
  have hlinked : LinkingPair input.timelineEdges = Linked (chainLinks (relationsOf input.timelineEdges)) :=
    funext fun a => funext fun b => propext (linkingPair_iff input.timelineEdges a b)
  rw [hlinked, ← mem_component_iff]
  constructor
  · rintro ⟨row, hrow, hlinking, hx, hy⟩
    obtain ⟨source, hsource, rfl⟩ := mem_correlationRows.mp hrow
    rw [mem_rowMembers] at hx hy
    rcases source_cases hsource with ⟨group, hgroup, rfl⟩ | hcollapsed
    · exact ⟨group, hgroup, hx, hy⟩
    · rw [toRow_strength, hcollapsed.not_isLinking] at hlinking
      cases hlinking
  · rintro ⟨group, hgroup, hx, hy⟩
    have hsource : chainSource group.2 ∈ rowSources (relationsOf input.timelineEdges) :=
      List.mem_append_left _ (List.mem_map_of_mem hgroup)
    refine ⟨_, mem_correlationRows.mpr ⟨_, hsource, rfl⟩, chainSource_isLinking _, ?_, ?_⟩
    · exact (mem_rowMembers _ _ _ x).mpr hx
    · exact (mem_rowMembers _ _ _ y).mpr hy

theorem rows_perm (input : CorrelationChainInput) : (correlationRows input).Perm
    ((rowSources (relationsOf input.timelineEdges)).map
      (toRow (input.items.foldl keepItem fun _ => none) input.findings)) :=
  sortBy_perm _ _

theorem correlationRows_exact (input : CorrelationChainInput) :
    RowsExact input.timelineEdges (correlationRows input) where
  linked := linked_iff input
  label := by
    intro row hrow edge hedge
    obtain ⟨source, hsource, rfl⟩ := mem_correlationRows.mp hrow
    obtain ⟨r, hr, rfl⟩ := List.mem_map.mp hedge
    exact reduceByPair_weakest (relations_subset hsource hr)
  exact := by
    intro row hrow hlinking
    obtain ⟨source, hsource, rfl⟩ := mem_correlationRows.mp hrow
    rcases source_cases hsource with ⟨group, hgroup, rfl⟩ | hcollapsed
    · rw [toRow_edges, List.forall_mem_map]
      exact chainSource_exact_iff fun r hr =>
        (mem_chainLinks.mp ((components_linking hgroup).2 r hr)).2.1
    · rw [toRow_strength, hcollapsed.not_isLinking] at hlinking
      cases hlinking
  collapsed := by
    intro r hr s hs
    have hreduced := fun {r} (hr : r ∈ nonLinking (relationsOf input.timelineEdges)) =>
      (mem_nonLinking.mp hr).1
    rw [← collapseKey_eq_iff]
    constructor
    · rintro ⟨row, hrow, hre, hse⟩
      obtain ⟨source, hsource, rfl⟩ := mem_correlationRows.mp hrow
      have hrmem := mem_relations_of_edge hsource (hreduced hr) hre
      have hsmem := mem_relations_of_edge hsource (hreduced hs) hse
      obtain ⟨first, -, -, -, hrelations⟩ := (collapsed_of_relation hsource hr hrmem).relations
      rw [hrelations] at hrmem hsmem
      rw [of_decide_eq_true (List.mem_filter.mp hrmem).2, of_decide_eq_true (List.mem_filter.mp hsmem).2]
    · intro hkey
      obtain ⟨source, hsource, hrelations⟩ := exists_collapsed hr
      refine ⟨_, mem_correlationRows.mpr ⟨source, List.mem_append_right _ hsource, rfl⟩, ?_, ?_⟩
      · rw [toRow_edges, hrelations]
        exact List.mem_map_of_mem (List.mem_filter.mpr ⟨hr, decide_eq_true rfl⟩)
      · rw [toRow_edges, hrelations]
        exact List.mem_map_of_mem (List.mem_filter.mpr ⟨hs, decide_eq_true hkey.symm⟩)
  members := by
    intro r hr row hrow hre
    obtain ⟨source, hsource, rfl⟩ := mem_correlationRows.mp hrow
    have hrmem := mem_relations_of_edge hsource (mem_nonLinking.mp hr).1 hre
    have hcollapsed := collapsed_of_relation hsource hr hrmem
    obtain ⟨first, -, -, hstrength, hrelations⟩ := hcollapsed.relations
    have hkey := hrelations ▸ hrmem
    refine ⟨?_, fun x => ?_⟩
    · rw [toRow_strength, hstrength]
      exact ((collapseKey_eq_iff r first).mp (of_decide_eq_true (List.mem_filter.mp hkey).2)).1.symm
    · rw [mem_rowMembers]
      exact hcollapsed.members r hrmem x
  once := by
    have hedges := ((rows_perm input).flatMap_right (·.edges)).append_right
      (((relationsOf input.timelineEdges).filter isIgnored).map (·.edge))
    have hpartition := (relations_partition (relationsOf input.timelineEdges)).map (·.edge)
    rw [List.map_append, List.map_flatMap] at hpartition
    rw [List.flatMap_map] at hedges
    exact hedges.trans hpartition
  ids := by
    rw [((rows_perm input).map (·.id)).nodup_iff, List.map_map]
    exact rowSources_ids_nodup _

/-! ## The model of the view -/

/-- The rows of the model are those of the edges, and its counts are theirs. -/
structure ChainsExact (input : CorrelationChainInput) (model : CorrelationChainModel) : Prop where
  rows : RowsExact input.timelineEdges (correlationRows input)
  chains : model.chains = (correlationRows input).take correlationChainRenderLimit
  total : model.totalCount = (correlationRows input).length
  omitted : model.chains.length + model.omittedCount = model.totalCount
  counts : model.counts.exact + model.counts.candidate + model.counts.ambiguous +
    model.counts.coverageBlocked = model.totalCount
  ignored : model.ignoredRelationCount = ((relationsOf input.timelineEdges).filter isIgnored).length
  pairs : ((relationsOf input.timelineEdges).map (·.pair)).Nodup
  observed : ∀ pair, pair ∈ (relationsOf input.timelineEdges).map (·.pair) ↔
    ∃ edge ∈ input.timelineEdges, (classifyTimelineEdge edge).pair = pair

theorem strengthCount_sum (rows : List CorrelationChain) :
    strengthCount rows .exact + strengthCount rows .candidate + strengthCount rows .ambiguous +
      strengthCount rows .coverageBlocked = rows.length := by
  induction rows with
  | nil => rfl
  | cons row rows ih =>
    simp only [strengthCount, List.countP_cons, List.length_cons] at ih ⊢
    cases row.strength <;> simp <;> omega

theorem reduced_pairs (edges : List TimelineCorrelationEdge) (pair : JsString × Option JsString) :
    pair ∈ (relationsOf edges).map (·.pair) ↔
      ∃ edge ∈ edges, (classifyTimelineEdge edge).pair = pair := by
  constructor
  · intro h
    obtain ⟨r, hr, rfl⟩ := List.mem_map.mp h
    obtain ⟨⟨o, ho, -⟩, -⟩ := reduceByPair_weakest hr
    obtain ⟨ho, hpair⟩ := List.mem_filter.mp ho
    obtain ⟨edge, hedge, rfl⟩ := List.mem_map.mp ho
    exact ⟨edge, hedge, of_decide_eq_true hpair⟩
  · rintro ⟨edge, hedge, rfl⟩
    obtain ⟨r, hr, hpair⟩ := exists_reduced (List.mem_map_of_mem hedge)
    exact List.mem_map.mpr ⟨r, hr, hpair⟩

theorem chainsExact (input : CorrelationChainInput) :
    ChainsExact input (buildCorrelationChains input) where
  rows := correlationRows_exact input
  chains := rfl
  total := rfl
  omitted := by
    rw [buildCorrelationChains]
    dsimp only
    rw [List.length_take]
    omega
  counts := strengthCount_sum _
  ignored := List.countP_eq_length_filter
  pairs := reduceByPair_nodup _
  observed := reduced_pairs _

theorem buildCorrelationChains_perm {input input' : CorrelationChainInput}
    (hedges : input'.timelineEdges.Perm input.timelineEdges) (hitems : input'.items.Perm input.items)
    (htotal : input'.totalTimelineEdges = input.totalTimelineEdges)
    (hfindings : input'.findings = input.findings) :
    buildCorrelationChains input' = buildCorrelationChains input := by
  have hreduced := reduceByPair_perm (hedges.map classifyTimelineEdge)
  have hrows : correlationRows input' = correlationRows input := by
    rw [correlationRows, correlationRows, hreduced, foldl_keepItem_perm hitems, hfindings]
  rw [buildCorrelationChains, buildCorrelationChains, hrows, hreduced, htotal, hedges.length_eq]

/-- Whatever order the edges and items come in, the model is the same; and its rows
are the components of the pairs that link, and the rest collapsed or counted. -/
theorem correlation_chains_exact {input input' : CorrelationChainInput}
    (hedges : input'.timelineEdges.Perm input.timelineEdges) (hitems : input'.items.Perm input.items)
    (htotal : input'.totalTimelineEdges = input.totalTimelineEdges)
    (hfindings : input'.findings = input.findings) :
    buildCorrelationChains input' = buildCorrelationChains input ∧
      ChainsExact input (buildCorrelationChains input) :=
  ⟨buildCorrelationChains_perm hedges hitems htotal hfindings, chainsExact input⟩

def plainEdge (from_ to_ : String) (strength : Timeline.TimelineCorrelationStrength) :
    TimelineCorrelationEdge :=
  { fromId       := js from_
    toId         := some (js to_)
    key          := { kind := .activityId, value := js "{1}" }
    strength     := strength
    candidateIds := []
    evidence     := []
    coverage     := { state := .covered, gap := none } }

def plainInput (edges : List TimelineCorrelationEdge) : CorrelationChainInput :=
  { items              := []
    timelineEdges      := edges
    totalTimelineEdges := .int edges.length
    findings           := [] }

theorem correlation_chains_exact_two :
    buildCorrelationChains (plainInput [plainEdge "b" "a" .exact, plainEdge "b" "c" .candidate]) =
        buildCorrelationChains (plainInput [plainEdge "b" "c" .candidate, plainEdge "b" "a" .exact]) ∧
      ChainsExact (plainInput [plainEdge "b" "c" .candidate, plainEdge "b" "a" .exact])
        (buildCorrelationChains
          (plainInput [plainEdge "b" "c" .candidate, plainEdge "b" "a" .exact])) :=
  correlation_chains_exact (List.Perm.swap _ _ []) (List.Perm.refl []) rfl rfl

end EventLog
end CmTrace
