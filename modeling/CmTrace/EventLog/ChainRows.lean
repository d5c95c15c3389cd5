import CmTrace.EventLog.ChainItems
import CmTrace.EventLog.Reduced

/-!
# What rows are made of

Relations that link are grouped by the components of their ends, and those that do
not by label and members.  A relation is of one group or is ignored, and no two
groups have one identity.
-/

namespace CmTrace
namespace EventLog

open Std Collections Js

/-! ## Pairs that link -/

/-- An observation of two entries, whichever endpoint is which. -/
def Observes (edge : TimelineCorrelationEdge) (a b : JsString) : Prop :=
  (edge.fromId = a ∧ edge.toId = some b) ∨ (edge.fromId = b ∧ edge.toId = some a)

/-- A pair that is observed, and of which every observation links. -/
structure LinkingPair (edges : List TimelineCorrelationEdge) (a b : JsString) : Prop where
  distinct : a ≠ b
  observed : ∃ edge ∈ edges, Observes edge a b
  linking : ∀ edge ∈ edges, Observes edge a b → (classifyStrength edge).isLinking

theorem orderEndpoints_some (a b : JsString) :
    orderEndpoints a (some b) = (a, some b) ∨ orderEndpoints a (some b) = (b, some a) := by
  rw [orderEndpoints]
  split
  · exact .inr rfl
  · exact .inl rfl

theorem orderEndpoints_comm (a b : JsString) :
    orderEndpoints a (some b) = orderEndpoints b (some a) := by
  rw [orderEndpoints, orderEndpoints, cmp_swap compareStrings a b]
  cases hcmp : compareStrings b a with
  | lt => rfl
  | eq => rw [eq_of_cmp compareStrings hcmp]; rfl
  | gt => rfl

theorem orderEndpoints_idem {x l c : JsString} {y : Option JsString}
    (h : orderEndpoints x y = (l, some c)) : orderEndpoints l (some c) = (l, some c) := by
  cases y with
  | none => cases h
  | some y =>
    rw [orderEndpoints] at h
    split at h
    · rename_i hlt
      obtain ⟨rfl, hc⟩ := Prod.mk.inj h
      obtain rfl := Option.some_inj.mp hc
      rw [orderEndpoints, cmp_swap compareStrings, hlt]
      rfl
    · rename_i hlt
      obtain ⟨rfl, hc⟩ := Prod.mk.inj h
      obtain rfl := Option.some_inj.mp hc
      rw [orderEndpoints, if_neg hlt]

theorem observes_iff (edge : TimelineCorrelationEdge) (a b : JsString) :
    Observes edge a b ↔ (classifyTimelineEdge edge).pair = orderEndpoints a (some b) := by
  have hpair : (classifyTimelineEdge edge).pair = orderEndpoints edge.fromId edge.toId := rfl
  rw [hpair]
  constructor
  · rintro (⟨rfl, hto⟩ | ⟨rfl, hto⟩)
    · rw [hto]
    · rw [hto, orderEndpoints_comm]
  · intro h
    cases hto : edge.toId with
    | none =>
      rw [hto] at h
      rcases orderEndpoints_some a b with hab | hab <;> rw [hab] at h <;> cases h
    | some other =>
      rw [hto] at h
      rw [Observes, hto]
      rcases orderEndpoints_some edge.fromId other with hft | hft <;>
        rcases orderEndpoints_some a b with hab | hab <;>
        rw [hft, hab, Prod.mk.injEq, Option.some_inj] at h <;>
        simp [h.1, h.2]

theorem mem_memberSet {r : Relation} {x : JsString} :
    x ∈ memberSet r ↔ x = r.left ∨ r.right = some x ∨ x ∈ r.candidateIds := by
  rw [memberSet, uniqueSortedStrings, mem_toList_ofList, List.mem_cons, List.mem_append,
    Option.mem_toList]

theorem mem_chainLinks {reduced : List Relation} {r : Relation} : r ∈ chainLinks reduced ↔
    r ∈ reduced ∧ r.strength.isLinking ∧ ∃ b, r.right = some b ∧ r.left ≠ b := by
  rw [chainLinks, List.mem_filter, Bool.and_eq_true, Bool.not_eq_true', isIgnored]
  refine and_congr_right fun _ => ?_
  cases hlinking : r.strength.isLinking with
  | false => simp
  | true => cases hright : r.right with
    | none => simp
    | some b =>
      simp only [Bool.true_and, and_true, true_and, Bool.or_eq_false_iff, decide_eq_false_iff_not,
        beq_eq_false_iff_ne, ne_eq, Option.some_inj, exists_eq_left', reduceCtorEq, not_false_eq_true]
      refine ⟨fun h => Ne.symm h.2, fun h => ⟨fun hlt => ?_, Ne.symm h⟩⟩
      have hends : [r.left, b] ⊆ memberSet r := by
        intro x hx
        rw [mem_memberSet, hright]
        simp only [List.mem_cons, List.not_mem_nil, or_false] at hx
        rcases hx with rfl | rfl
        · exact .inl rfl
        · exact .inr (.inl rfl)
      have hle := ((List.nodup_cons.mpr ⟨by simpa using h, List.nodup_singleton b⟩).subperm
        hends).length_le
      rw [List.length_cons, List.length_singleton] at hle
      omega

def relationsOf (edges : List TimelineCorrelationEdge) : List Relation :=
  reduceByPair (edges.map classifyTimelineEdge)

theorem linkingPair_iff (edges : List TimelineCorrelationEdge) (a b : JsString) :
    LinkingPair edges a b ↔ ∃ r ∈ chainLinks (relationsOf edges),
      linkEnds r = (a, b) ∨ linkEnds r = (b, a) := by
  constructor
  · rintro ⟨hne, ⟨edge, hedge, hobserves⟩, hlinking⟩
    have hpair := (observes_iff edge a b).mp hobserves
    obtain ⟨r, hr, hrpair⟩ := exists_reduced (List.mem_map_of_mem hedge)
    rw [hpair] at hrpair
    obtain ⟨⟨o, ho, hstrength⟩, -⟩ := reduceByPair_weakest hr
    obtain ⟨ho, hopair⟩ := List.mem_filter.mp ho
    obtain ⟨edge', hedge', rfl⟩ := List.mem_map.mp ho
    have hlabel : r.strength.isLinking := by
      rw [← hstrength]
      refine hlinking edge' hedge' ((observes_iff edge' a b).mpr ?_)
      rw [of_decide_eq_true hopair, hrpair]
    refine ⟨r, mem_chainLinks.mpr ⟨hr, hlabel, ?_⟩, ?_⟩
    · rcases orderEndpoints_some a b with hab | hab <;> rw [hab, Relation.pair, Prod.mk.injEq] at hrpair
      · exact ⟨b, hrpair.2, hrpair.1 ▸ hne⟩
      · exact ⟨a, hrpair.2, hrpair.1 ▸ hne.symm⟩
    · rcases orderEndpoints_some a b with hab | hab <;> rw [hab, Relation.pair, Prod.mk.injEq] at hrpair
      · exact .inl (by rw [linkEnds, hrpair.1, hrpair.2]; rfl)
      · exact .inr (by rw [linkEnds, hrpair.1, hrpair.2]; rfl)
  · rintro ⟨r, hr, hends⟩
    obtain ⟨hr, hlinking, c, hright, hne⟩ := mem_chainLinks.mp hr
    obtain ⟨⟨o, ho, hstrength⟩, hweakest⟩ := reduceByPair_weakest hr
    obtain ⟨ho, hopair⟩ := List.mem_filter.mp ho
    obtain ⟨edge, hedge, rfl⟩ := List.mem_map.mp ho
    have hopair : (classifyTimelineEdge edge).pair = r.pair := of_decide_eq_true hopair
    have hrpair : r.pair = (r.left, some c) := by rw [Relation.pair, hright]
    have hordered : orderEndpoints r.left (some c) = r.pair := by
      rw [hrpair]
      exact orderEndpoints_idem (hopair.trans hrpair)
    have hab : orderEndpoints a (some b) = r.pair := by
      rw [linkEnds, hright] at hends
      rcases hends with hends | hends <;> cases hends
      · exact hordered
      · exact (orderEndpoints_comm _ _).trans hordered
    refine ⟨?_, ⟨edge, hedge, (observes_iff edge a b).mpr (hopair.trans hab.symm)⟩,
      fun edge' hedge' hobserves => ?_⟩
    · rw [linkEnds, hright] at hends
      rcases hends with hends | hends <;> cases hends
      · exact hne
      · exact hne.symm
    · have hpair := ((observes_iff edge' a b).mp hobserves).trans hab
      have hle := hweakest _ (List.mem_filter.mpr
        ⟨List.mem_map_of_mem hedge', decide_eq_true hpair⟩)
      rw [CorrelationChainStrength.isLinking_iff] at hlinking ⊢
      exact hle.trans hlinking

/-! ## Components -/

section Components

variable {sets : DisjointSet JsString} {root : JsString → JsString} {depth : JsString → Nat} {n fuel : Nat}

theorem componentsFrom_groups (hfuel : n ≤ fuel) (links : List Relation) (sets : DisjointSet JsString)
    (h : sets.Represents root depth n) (groups : List (JsString × List Relation)) :
    (links.foldl (fun state relation =>
      let found := DisjointSet.find fuel state.1 relation.left
      (found.2, push found.1 relation state.2)) (sets, groups)).2 =
    links.foldl (fun groups r => push (root r.left) r groups) groups := by
  induction links generalizing sets groups with
  | nil => rfl
  | cons link links ih =>
    obtain ⟨hroot, hfound⟩ := h.find hfuel link.left
    rw [List.foldl_cons, List.foldl_cons, ih _ hfound, hroot]

end Components

/-- The relations that link are grouped by a root, which two entries share when a
chain of links joins them. -/
theorem components_eq (links : List Relation) : ∃ root : JsString → JsString,
    (∀ x y, root x = root y ↔ DisjointSet.Joined (links.map linkEnds) x y) ∧
      components links = groupBy (fun r => root r.left) links := by
  obtain ⟨root, depth, h, hroot⟩ :=
    DisjointSet.represents_unions (List.length_map linkEnds).le
  refine ⟨root, hroot, ?_⟩
  rw [List.length_map] at h
  exact componentsFrom_groups (Nat.le_refl _) links _ h []

theorem rel_linkEnds {links : List Relation} {r : Relation} (hr : r ∈ links) :
    DisjointSet.Joined (links.map linkEnds) (linkEnds r).1 (linkEnds r).2 :=
  .rel _ _ (List.mem_map_of_mem hr)

def IsEnd (r : Relation) (x : JsString) : Prop := x = (linkEnds r).1 ∨ x = (linkEnds r).2

theorem mem_chainSource {relations : List Relation} {x : JsString} :
    x ∈ (chainSource relations).memberIds ↔ ∃ r ∈ relations, IsEnd r x := by
  rw [chainSource, List.mem_flatMap]
  simp [IsEnd]

theorem root_isEnd {links : List Relation} {root : JsString → JsString}
    (hroot : ∀ x y, root x = root y ↔ DisjointSet.Joined (links.map linkEnds) x y)
    {r : Relation} (hr : r ∈ links) {x : JsString} (hx : IsEnd r x) : root x = root r.left := by
  rcases hx with rfl | rfl
  · rfl
  · exact (hroot _ _).mpr ((rel_linkEnds hr).symm _ _)

theorem joined_isEnd {links : List Relation} {x y : JsString}
    (h : DisjointSet.Joined (links.map linkEnds) x y) :
    (∃ r ∈ links, IsEnd r x) ↔ ∃ r ∈ links, IsEnd r y := by
  induction h with
  | rel x y hmem =>
    obtain ⟨r, hr, hends⟩ := List.mem_map.mp hmem
    have hx : IsEnd r x := .inl (congrArg Prod.fst hends).symm
    have hy : IsEnd r y := .inr (congrArg Prod.snd hends).symm
    exact iff_of_true ⟨r, hr, hx⟩ ⟨r, hr, hy⟩
  | refl x => exact Iff.rfl
  | symm x y _ ih => exact ih.symm
  | trans x y z _ _ ih ih' => exact ih.trans ih'

def Linked (links : List Relation) (x y : JsString) : Prop :=
  ∃ r ∈ links, linkEnds r = (x, y) ∨ linkEnds r = (y, x)

theorem Linked.symm {links : List Relation} {x y : JsString} (h : Linked links x y) :
    Linked links y x := h.imp fun _ hr => ⟨hr.1, hr.2.symm⟩

theorem transGen_linked_iff (links : List Relation) (x y : JsString) :
    Relation.TransGen (Linked links) x y ↔
      (∃ r ∈ links, IsEnd r x) ∧ DisjointSet.Joined (links.map linkEnds) x y := by
  have hone : ∀ {x y}, Linked links x y →
      (∃ r ∈ links, IsEnd r x) ∧ DisjointSet.Joined (links.map linkEnds) x y := by
    rintro x y ⟨r, hr, hends | hends⟩
    · exact ⟨⟨r, hr, .inl (congrArg Prod.fst hends).symm⟩,
        .rel _ _ (List.mem_map.mpr ⟨r, hr, hends⟩)⟩
    · exact ⟨⟨r, hr, .inr (congrArg Prod.snd hends).symm⟩,
        .symm _ _ (.rel _ _ (List.mem_map.mpr ⟨r, hr, hends⟩))⟩
  have hself : ∀ {x}, (∃ r ∈ links, IsEnd r x) → Relation.TransGen (Linked links) x x := by
    rintro x ⟨r, hr, rfl | rfl⟩
    · exact .tail (.single ⟨r, hr, .inl rfl⟩) ⟨r, hr, .inr rfl⟩
    · exact .tail (.single ⟨r, hr, .inr rfl⟩) ⟨r, hr, .inl rfl⟩
  constructor
  · intro h
    induction h with
    | single h => exact hone h
    | tail _ h ih => exact ⟨ih.1, ih.2.trans _ _ _ (hone h).2⟩
  · rintro ⟨hx, hxy⟩
    induction hxy with
    | rel x y hmem =>
      obtain ⟨r, hr, hends⟩ := List.mem_map.mp hmem
      exact .single ⟨r, hr, .inl hends⟩
    | refl x => exact hself hx
    | symm x y h ih =>
      have hback := Relation.transGen_swap.mpr (ih ((joined_isEnd h).mpr hx))
      exact Relation.TransGen.mono (fun _ _ => Linked.symm) _ _ hback
    | trans x y z h _ ih ih' => exact (ih hx).trans (ih' ((joined_isEnd h).mp hx))

theorem mem_component_iff (links : List Relation) (x y : JsString) :
    (∃ group ∈ components links, x ∈ (chainSource group.2).memberIds ∧
      y ∈ (chainSource group.2).memberIds) ↔
    Relation.TransGen (Linked links) x y := by
  obtain ⟨root, hroot, hcomponents⟩ := components_eq links
  have hgroups := groupBy_spec (fun r : Relation => root r.left) links
  rw [hcomponents, transGen_linked_iff]
  constructor
  · rintro ⟨⟨k, relations⟩, hgroup, hx, hy⟩
    obtain ⟨rfl, -⟩ := (hgroups.mem _ _).mp hgroup
    obtain ⟨r, hr, hx⟩ := mem_chainSource.mp hx
    obtain ⟨s, hs, hy⟩ := mem_chainSource.mp hy
    obtain ⟨hr, hrk⟩ := List.mem_filter.mp hr
    obtain ⟨hs, hsk⟩ := List.mem_filter.mp hs
    refine ⟨⟨r, hr, hx⟩, (hroot x y).mp ?_⟩
    rw [root_isEnd hroot hr hx, root_isEnd hroot hs hy, of_decide_eq_true hrk, of_decide_eq_true hsk]
  · rintro ⟨⟨r, hr, hx⟩, hxy⟩
    obtain ⟨s, hs, hy⟩ := (joined_isEnd hxy).mp ⟨r, hr, hx⟩
    have hr' : r ∈ links.filter fun r' => root r'.left = root r.left :=
      List.mem_filter.mpr ⟨hr, decide_eq_true rfl⟩
    have hs' : s ∈ links.filter fun r' => root r'.left = root r.left := by
      refine List.mem_filter.mpr ⟨hs, decide_eq_true ?_⟩
      rw [← root_isEnd hroot hr hx, ← root_isEnd hroot hs hy]
      exact ((hroot x y).mpr hxy).symm
    exact ⟨⟨root r.left, _⟩, (hgroups.mem _ _).mpr ⟨rfl, List.ne_nil_of_mem hr'⟩,
      mem_chainSource.mpr ⟨r, hr', hx⟩, mem_chainSource.mpr ⟨s, hs', hy⟩⟩

/-! ## Sources of rows -/

theorem chainSource_strength (relations : List Relation) :
    (chainSource relations).strength =
      if ∃ r ∈ relations, r.strength = .candidate then .candidate else .exact := by
  have hfold : ∀ (relations : List Relation) (start : CorrelationChainStrength),
      relations.foldl (fun weakest r => if r.strength = .candidate then .candidate else weakest) start =
        if ∃ r ∈ relations, r.strength = .candidate then .candidate else start := by
    intro relations
    induction relations with
    | nil => intro start; simp
    | cons r relations ih =>
      intro start
      rw [List.foldl_cons, ih]
      by_cases hr : r.strength = .candidate <;> simp [hr]
  exact hfold relations .exact

theorem chainSource_isLinking (relations : List Relation) :
    (chainSource relations).strength.isLinking := by
  rw [chainSource_strength]
  split <;> rfl

theorem chainSource_exact_iff {relations : List Relation}
    (hlinking : ∀ r ∈ relations, r.strength.isLinking) :
    (chainSource relations).strength = .exact ↔ ∀ r ∈ relations, r.strength = .exact := by
  rw [chainSource_strength]
  constructor
  · intro h r hr
    cases hstrength : r.strength with
    | exact => rfl
    | candidate => rw [if_pos ⟨r, hr, hstrength⟩] at h; cases h
    | ambiguous => have := hlinking r hr; rw [hstrength] at this; cases this
    | coverageBlocked => have := hlinking r hr; rw [hstrength] at this; cases this
  · intro h
    refine if_neg fun ⟨r, hr, hcandidate⟩ => ?_
    rw [h r hr] at hcandidate
    cases hcandidate

theorem collapseKey_eq_iff (r s : Relation) :
    collapseKey r = collapseKey s ↔ r.strength = s.strength ∧ memberSet r = memberSet s := by
  have htext : Function.Injective CorrelationChainStrength.text := by
    intro a b h
    cases a <;> cases b <;> first | rfl | exact absurd h (by decide +kernel)
  rw [collapseKey, collapseKey, keyOf_injective.eq_iff, List.cons.injEq, htext.eq_iff]

/-- The source of a row of relations that do not link. -/
structure Collapsed (reduced : List Relation) (source : RowSource) : Prop where
  relations : ∃ r ∈ nonLinking reduced, source.id = collapseKey r ∧ source.strength = r.strength ∧
    source.relations = (nonLinking reduced).filter fun s => collapseKey s = collapseKey r
  members : ∀ r ∈ source.relations, ∀ x, x ∈ source.memberIds ↔ x ∈ memberSet r

theorem collapsed_of_mem {reduced : List Relation} {source : RowSource}
    (h : source ∈ (groupBy collapseKey (nonLinking reduced)).filterMap collapsedSource) :
    Collapsed reduced source := by
  have hgroups := groupBy_spec collapseKey (nonLinking reduced)
  obtain ⟨⟨k, relations⟩, hgroup, hsource⟩ := List.mem_filterMap.mp h
  obtain ⟨hrelations, hne⟩ := (hgroups.mem _ _).mp hgroup
  cases relations with
  | nil => exact absurd rfl hne
  | cons first others =>
    cases hsource
    have hfirst := hrelations ▸ List.mem_cons_self (a := first) (l := others)
    obtain ⟨hmem, hkey⟩ := List.mem_filter.mp hfirst
    have hkey : collapseKey first = k := of_decide_eq_true hkey
    subst hkey
    have hset : ∀ r ∈ first :: others, memberSet r = memberSet first := by
      intro r hr
      rw [hrelations] at hr
      exact ((collapseKey_eq_iff r first).mp (of_decide_eq_true (List.mem_filter.mp hr).2)).2
    refine ⟨⟨first, hmem, rfl, rfl, hrelations⟩, fun r hr x => ?_⟩
    rw [hset r hr, List.mem_flatMap]
    constructor
    · rintro ⟨s, hs, hx⟩
      rwa [hset s hs] at hx
    · intro hx
      exact ⟨first, List.mem_cons_self .., hx⟩

theorem mem_nonLinking {reduced : List Relation} {r : Relation} :
    r ∈ nonLinking reduced ↔ r ∈ reduced ∧ isIgnored r = false ∧ r.strength.isLinking = false := by
  rw [nonLinking, List.mem_filter, Bool.and_eq_true, Bool.not_eq_true', Bool.not_eq_true']

theorem exists_collapsed {reduced : List Relation} {r : Relation} (hr : r ∈ nonLinking reduced) :
    ∃ source ∈ (groupBy collapseKey (nonLinking reduced)).filterMap collapsedSource,
      source.relations = (nonLinking reduced).filter fun s => collapseKey s = collapseKey r := by
  have hgroups := groupBy_spec collapseKey (nonLinking reduced)
  have hmem : r ∈ (nonLinking reduced).filter fun s => collapseKey s = collapseKey r :=
    List.mem_filter.mpr ⟨hr, decide_eq_true rfl⟩
  have hgroup := (hgroups.mem (collapseKey r) _).mpr ⟨rfl, List.ne_nil_of_mem hmem⟩
  cases hrelations : (nonLinking reduced).filter fun s => collapseKey s = collapseKey r with
  | nil => rw [hrelations] at hmem; cases hmem
  | cons first others =>
    rw [hrelations] at hgroup
    exact ⟨_, List.mem_filterMap.mpr ⟨_, hgroup, rfl⟩, rfl⟩

theorem components_linking {reduced : List Relation} {group : JsString × List Relation}
    (h : group ∈ components (chainLinks reduced)) :
    group.2 ≠ [] ∧ ∀ r ∈ group.2, r ∈ chainLinks reduced := by
  obtain ⟨root, -, hcomponents⟩ := components_eq (chainLinks reduced)
  rw [hcomponents] at h
  obtain ⟨hrelations, hne⟩ := ((groupBy_spec _ _).mem group.1 group.2).mp h
  exact ⟨hne, fun r hr => (List.mem_filter.mp (hrelations ▸ hr)).1⟩

/-! ## One row for each relation -/

theorem flatMap_collapsedSource (groups : List (JsString × List Relation))
    (hne : ∀ group ∈ groups, group.2 ≠ []) :
    (groups.filterMap collapsedSource).flatMap (·.relations) = groups.flatMap Prod.snd := by
  induction groups with
  | nil => rfl
  | cons group groups ih =>
    obtain ⟨k, relations⟩ := group
    have hrest := ih fun group hgroup => hne group (List.mem_cons_of_mem _ hgroup)
    cases relations with
    | nil => exact absurd rfl (hne _ (List.mem_cons_self ..))
    | cons first others =>
      rw [List.filterMap_cons_some (f := collapsedSource) rfl, List.flatMap_cons, hrest]
      rfl

theorem rowSources_relations (reduced : List Relation) :
    ((rowSources reduced).flatMap (·.relations)).Perm (chainLinks reduced ++ nonLinking reduced) := by
  have hgroups := groupBy_spec collapseKey (nonLinking reduced)
  rw [rowSources, List.flatMap_append, flatMap_collapsedSource _ fun group hgroup =>
    ((hgroups.mem group.1 group.2).mp hgroup).2]
  refine .append ?_ (groupBy_perm _ _)
  rw [List.flatMap_map]
  obtain ⟨root, -, hcomponents⟩ := components_eq (chainLinks reduced)
  rw [hcomponents]
  exact groupBy_perm _ _

theorem relations_partition (reduced : List Relation) :
    ((rowSources reduced).flatMap (·.relations) ++ reduced.filter isIgnored).Perm reduced := by
  have hkept : (chainLinks reduced ++ nonLinking reduced).Perm (reduced.filter fun r => !isIgnored r) := by
    have hsplit := List.filter_append_perm (fun r : Relation => r.strength.isLinking)
      (reduced.filter fun r => !isIgnored r)
    rw [List.filter_filter, List.filter_filter] at hsplit
    have hcomm : ∀ p : Relation → Bool, (reduced.filter fun r => p r && !isIgnored r) =
        reduced.filter fun r => !isIgnored r && p r := fun p =>
      List.filter_congr fun r _ => Bool.and_comm _ _
    rwa [hcomm, hcomm fun r => !r.strength.isLinking] at hsplit
  refine (((rowSources_relations reduced).trans hkept).append_right _).trans ?_
  have hsplit := List.filter_append_perm (fun r => !isIgnored r) reduced
  simpa only [Bool.not_not] using hsplit

/-! ## Identities of rows -/

theorem head?_uniqueSortedStrings {xs : List JsString} (hne : xs ≠ []) :
    ∃ x ∈ xs, (uniqueSortedStrings xs).head? = some x := by
  cases hhead : (uniqueSortedStrings xs).head? with
  | none =>
    obtain ⟨x, hx⟩ := List.exists_mem_of_ne_nil xs hne
    have hmem : x ∈ uniqueSortedStrings xs := mem_toList_ofList.mpr hx
    rw [List.head?_eq_none_iff.mp hhead] at hmem
    cases hmem
  | some x => exact ⟨x, mem_toList_ofList.mp (List.mem_of_head? hhead), rfl⟩

theorem chainSource_id {relations : List Relation} (hne : relations ≠ []) :
    ∃ x ∈ (chainSource relations).memberIds, (chainSource relations).id = keyOf [js "chain", x] := by
  have hmembers : (chainSource relations).memberIds ≠ [] := by
    obtain ⟨r, hr⟩ := List.exists_mem_of_ne_nil relations hne
    exact List.ne_nil_of_mem (mem_chainSource.mpr ⟨r, hr, .inl rfl⟩)
  obtain ⟨x, hx, hhead⟩ := head?_uniqueSortedStrings hmembers
  refine ⟨x, hx, ?_⟩
  rw [chainSource] at hhead ⊢
  dsimp only at hhead ⊢
  rw [hhead, Option.getD_some]

theorem chain_ids_nodup (links : List Relation) :
    ((components links).map fun group => (chainSource group.2).id).Nodup := by
  obtain ⟨root, hroot, hcomponents⟩ := components_eq links
  have hgroups := groupBy_spec (fun r : Relation => root r.left) links
  rw [hcomponents, List.Nodup, List.pairwise_map]
  have hkeys : (groupBy (fun r : Relation => root r.left) links).Pairwise fun g g' => g.1 ≠ g'.1 :=
    List.pairwise_map.mp hgroups.nodup
  refine hkeys.imp_of_mem fun {g g'} hg hg' hne hid => hne ?_
  have hmember : ∀ {g : JsString × List Relation} {x},
      g ∈ groupBy (fun r : Relation => root r.left) links →
      x ∈ (chainSource g.2).memberIds → root x = g.1 := by
    intro g x hg hx
    obtain ⟨r, hr, hx⟩ := mem_chainSource.mp hx
    rw [((hgroups.mem _ _).mp hg).1] at hr
    obtain ⟨hr, hkey⟩ := List.mem_filter.mp hr
    rw [root_isEnd hroot hr hx, of_decide_eq_true hkey]
  obtain ⟨x, hx, hidx⟩ := chainSource_id ((hgroups.mem g.1 g.2).mp hg).2
  obtain ⟨y, hy, hidy⟩ := chainSource_id ((hgroups.mem g'.1 g'.2).mp hg').2
  rw [hidx, hidy] at hid
  obtain rfl : x = y := by simpa using keyOf_injective hid
  rw [← hmember hg hx, ← hmember hg' hy]

theorem collapsed_ids_nodup (reduced : List Relation) :
    (((groupBy collapseKey (nonLinking reduced)).filterMap collapsedSource).map (·.id)).Nodup := by
  have hgroups := groupBy_spec collapseKey (nonLinking reduced)
  have hkeys : (groupBy collapseKey (nonLinking reduced)).Pairwise fun g g' => g.1 ≠ g'.1 :=
    List.pairwise_map.mp hgroups.nodup
  rw [List.Nodup, List.pairwise_map, List.pairwise_filterMap]
  refine hkeys.imp fun {g g'} hne source hsource source' hsource' hid => hne ?_
  obtain ⟨first, -, rfl⟩ := Option.map_eq_some_iff.mp hsource
  obtain ⟨first', -, rfl⟩ := Option.map_eq_some_iff.mp hsource'
  exact hid

theorem rowSources_ids_nodup (reduced : List Relation) :
    ((rowSources reduced).map (·.id)).Nodup := by
  rw [rowSources, List.map_append, List.map_map]
  refine List.nodup_append.mpr ⟨chain_ids_nodup _, collapsed_ids_nodup reduced, ?_⟩
  rintro id hid id' hid' rfl
  obtain ⟨group, hgroup, hchain⟩ := List.mem_map.mp hid
  obtain ⟨source, hsource, hcollapsed⟩ := List.mem_map.mp hid'
  obtain ⟨x, -, hx⟩ := chainSource_id (components_linking hgroup).1
  obtain ⟨⟨r, hr, hid, -⟩, -⟩ := collapsed_of_mem hsource
  have hkeys : keyOf [js "chain", x] = collapseKey r := by
    rw [← hx, ← hid, hcollapsed]
    exact hchain
  have htext : js "chain" = r.strength.text := (List.cons.inj (keyOf_injective hkeys)).1
  cases hstrength : r.strength <;> rw [hstrength] at htext <;> exact absurd htext (by decide +kernel)

end EventLog
end CmTrace
