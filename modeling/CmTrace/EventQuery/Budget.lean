import CmTrace.EventQuery.Meaning

/-!
# What a built query costs

The service counts comparisons in the expression it is given.  Here they are
counted in the expression that was read back, not by the cost function, and the
event ids of the nodes are read back in order.
-/

namespace CmTrace
namespace EventQuery

open Text XPath

/-- The range two comparisons of the event id stand for. -/
def rangeOf : Expr → Option EventIdSelector
  | .conj (.test (.compare (.element a) .ge (.number low)))
      (.test (.compare (.element b) .le (.number high))) =>
    if a = eventIdName ∧ b = eventIdName then some (.range low high) else none
  | .disj (.test (.compare (.element a) .lt (.number low)))
      (.test (.compare (.element b) .gt (.number high))) =>
    if a = eventIdName ∧ b = eventIdName then some (.range low high) else none
  | _ => none

/-- The event ids an expression names, from left to right. -/
def idSelectors : Expr → List EventIdSelector
  | .test (.compare (.element name) r (.number n)) =>
    if name = eventIdName ∧ (r = .eq ∨ r = .ne) then [.single n] else []
  | .test _ => []
  | .group e =>
    match rangeOf e with
    | some selector => [selector]
    | none => idSelectors e
  | .child _ e => idSelectors e
  | .conj a b => idSelectors a ++ idSelectors b
  | .disj a b => idSelectors a ++ idSelectors b

def selectionIds : Selection → List EventIdSelector
  | .all => []
  | .where e => idSelectors e

/-- The event ids of the nodes of a query, node by node. -/
def queryIds (q : Query) : List EventIdSelector := q.expressions.flatMap selectionIds

theorem idSelectors_conjList : ∀ (e : Expr) (es : List Expr),
    idSelectors (conjList e es) = (e :: es).flatMap idSelectors
  | e, [] => by simp [conjList]
  | e, e' :: es => by rw [conjList, idSelectors, idSelectors_conjList e' es]; rfl

theorem idSelectors_disjList : ∀ (e : Expr) (es : List Expr),
    idSelectors (disjList e es) = (e :: es).flatMap idSelectors
  | e, [] => by simp [disjList]
  | e, e' :: es => by rw [disjList, idSelectors, idSelectors_disjList e' es]; rfl

theorem idSelectors_expr (mode : SelectorMode) (selector : EventIdSelector) :
    idSelectors (selector.expr mode) = [selector.written] := by
  rw [EventIdSelector.expr]
  cases selector with
  | single id => cases mode <;> rfl
  | range low high =>
    rw [EventIdSelector.written]
    split_ifs <;> cases mode <;> rfl

theorem rangeOf_joined (mode : SelectorMode) (selector : EventIdSelector) (es : List Expr) :
    rangeOf (conjList (selector.expr mode) es) = none ∧
      rangeOf (disjList (selector.expr mode) es) = none := by
  rw [EventIdSelector.expr]
  cases selector with
  | single id => cases mode <;> cases es <;> exact ⟨rfl, rfl⟩
  | range low high =>
    rw [EventIdSelector.written]
    split_ifs <;> cases mode <;> cases es <;> exact ⟨rfl, rfl⟩

theorem comparisons_expr (mode : SelectorMode) (selector : EventIdSelector) :
    (selector.expr mode).comparisons = selector.expressionCost := by
  rw [EventIdSelector.expr]
  cases selector with
  | single id => cases mode <;> rfl
  | range low high =>
    rw [EventIdSelector.written, EventIdSelector.expressionCost]
    split_ifs <;> cases mode <;> rfl

theorem sum_comparisons_expr (mode : SelectorMode) (chunk : List EventIdSelector) :
    ((chunk.map (EventIdSelector.expr mode)).map Expr.comparisons).sum = totalCost chunk := by
  rw [List.map_map, totalCost]
  refine congrArg List.sum (List.map_congr_left fun s _ => ?_)
  exact comparisons_expr mode s

theorem sum_around (wrap : Expr → Expr) (joined : Expr → List Expr → Expr)
    (hwrap : ∀ e, (wrap e).comparisons = e.comparisons)
    (hjoined : ∀ e es, (joined e es).comparisons = ((e :: es).map Expr.comparisons).sum)
    (es : List Expr) :
    ((around wrap joined es).map Expr.comparisons).sum = (es.map Expr.comparisons).sum := by
  cases es with
  | nil => rfl
  | cons e es =>
    rw [around, List.map_singleton, List.sum_singleton, hwrap, hjoined]

theorem flatMap_expr (mode : SelectorMode) (chunk : List EventIdSelector) :
    (chunk.map (EventIdSelector.expr mode)).flatMap idSelectors =
      chunk.map EventIdSelector.written := by
  induction chunk with
  | nil => rfl
  | cons selector rest ih =>
    rw [List.map_cons, List.flatMap_cons, idSelectors_expr, ih]
    rfl

theorem flatMap_around {wrap : Expr → Expr} {joined : Expr → List Expr → Expr} {es : List Expr}
    (h : ∀ e es', es = e :: es' → idSelectors (wrap (joined e es')) = es.flatMap idSelectors) :
    (around wrap joined es).flatMap idSelectors = es.flatMap idSelectors := by
  cases es with
  | nil => rfl
  | cons e es => rw [around, List.flatMap_singleton, h e es rfl]

namespace EventQueryFilter

theorem windowExprs_ids (window : TimeWindow) : (windowExprs window).flatMap idSelectors = [] := by
  cases window with
  | last milliseconds => rfl
  | between lower upper => cases lower <;> cases upper <;> rfl

theorem levelExprs_ids (filter : EventQueryFilter) :
    filter.levelExprs.flatMap idSelectors = [] := by
  have hnone : (filter.distinctLevels.map levelTest).flatMap idSelectors = [] := by
    rw [List.flatMap_map, List.flatMap_eq_nil_iff]
    exact fun _ _ => rfl
  rw [levelExprs, flatMap_around, hnone]
  intro e es he
  cases hl : filter.distinctLevels with
  | nil => rw [hl] at he; cases he
  | cons level levels =>
    rw [hl] at he
    cases he
    have hrange : rangeOf (disjList (levelTest level) (levels.map levelTest)) = none := by
      cases levels <;> rfl
    rw [idSelectors, hrange]
    exact idSelectors_disjList _ _

theorem providerExprs_ids (filter : EventQueryFilter) :
    filter.providerExprs.flatMap idSelectors = [] := by
  have hnone : (filter.distinctProviders.map (providerTest filter.providerMode)).flatMap
      idSelectors = [] := by
    rw [List.flatMap_map, List.flatMap_eq_nil_iff]
    exact fun _ _ => rfl
  rw [providerExprs, flatMap_around, hnone]
  intro e es he
  rw [he, idSelectors]
  cases filter.providerMode with
  | inclusion => exact idSelectors_disjList _ _
  | exclusion => exact idSelectors_conjList _ _

theorem keywordExprs_ids (filter : EventQueryFilter) :
    filter.keywordExprs.flatMap idSelectors = [] := by
  rw [keywordExprs]
  cases filter.keywords <;> rfl

theorem eventIdExprs_ids (filter : EventQueryFilter) (eventIds : List EventIdSelector) :
    (filter.eventIdExprs eventIds).flatMap idSelectors =
      eventIds.map EventIdSelector.written := by
  rw [eventIdExprs, flatMap_around, flatMap_expr]
  intro e es he
  cases eventIds with
  | nil => cases he
  | cons selector rest =>
    cases he
    obtain ⟨hconj, hdisj⟩ := rangeOf_joined filter.eventIdMode selector
      (rest.map (EventIdSelector.expr filter.eventIdMode))
    rw [idSelectors]
    cases hm : filter.eventIdMode with
    | inclusion =>
      rw [hm] at hdisj
      rw [hdisj]
      exact idSelectors_disjList _ _
    | exclusion =>
      rw [hm] at hconj
      rw [hconj]
      exact idSelectors_conjList _ _

/-- The ids of a node's body are the ids it was given, whatever stands around
them. -/
theorem bodySelection_ids (filter : EventQueryFilter) (eventIds : List EventIdSelector) :
    selectionIds (filter.bodySelection eventIds) = eventIds.map EventIdSelector.written := by
  have htime : filter.timeExprs.flatMap idSelectors = [] := by
    rw [timeExprs]
    cases filter.time with
    | none => rfl
    | some window => exact windowExprs_ids window
  have hall : (filter.systemExprs eventIds).flatMap idSelectors =
      eventIds.map EventIdSelector.written := by
    rw [systemExprs]
    simp only [List.flatMap_append, htime, levelExprs_ids, eventIdExprs_ids, providerExprs_ids,
      keywordExprs_ids, List.nil_append, List.append_nil]
  rw [← hall, bodySelection]
  cases filter.systemExprs eventIds with
  | nil => rfl
  | cons e es => exact idSelectors_conjList e es

theorem suppressed_ids (chunk : List EventIdSelector) :
    (suppressed chunk).flatMap selectionIds = chunk.map EventIdSelector.written := by
  cases chunk with
  | nil => rfl
  | cons selector rest =>
    obtain ⟨-, hdisj⟩ := rangeOf_joined .inclusion selector
      (rest.map (EventIdSelector.expr .inclusion))
    have hbody := flatMap_expr .inclusion (selector :: rest)
    rw [suppressed, List.map_cons, around, List.map_singleton, List.flatMap_singleton,
      selectionIds, idSelectors, idSelectors, idSelectors, rangeOf, idSelectors, hdisj, ← hbody]
    · exact idSelectors_disjList _ _
    all_goals exact fun _ _ _ _ h => by cases h

theorem reading_ids (filter : EventQueryFilter) :
    queryIds filter.reading = filter.eventIds.map EventIdSelector.written := by
  have hgroups : ∀ (chunks : List (List EventIdSelector)) (f : List EventIdSelector → List Selection),
      (∀ chunk, (f chunk).flatMap selectionIds = chunk.map EventIdSelector.written) →
        (chunks.flatMap f).flatMap selectionIds = chunks.flatten.map EventIdSelector.written := by
    intro chunks f hf
    induction chunks with
    | nil => rfl
    | cons chunk rest ih =>
      rw [List.flatMap_cons, List.flatMap_append, hf, ih, List.flatten_cons, List.map_append]
  rw [queryIds, reading]
  cases filter.overBudget with
  | false =>
    simp only [Bool.false_eq_true, if_false, Query.expressions, List.flatMap_singleton]
    exact bodySelection_ids filter filter.eventIds
  | true =>
    simp only [if_true]
    cases filter.eventIdMode with
    | inclusion =>
      simp only [Query.expressions, List.flatMap_map, selectNode, List.append_nil]
      rw [hgroups _ (fun chunk => [filter.bodySelection chunk]), chunkByExpressionBudget,
        chunkFrom_flatten, List.nil_append]
      intro chunk
      rw [List.flatMap_singleton, bodySelection_ids]
    | exclusion =>
      simp only [Query.expressions, List.flatMap_singleton, List.flatMap_append]
      rw [bodySelection_ids, hgroups _ suppressed suppressed_ids, chunkByExpressionBudget,
        chunkFrom_flatten]
      rfl

/-! ## Comparisons -/

theorem bodySelection_comparisons (filter : EventQueryFilter) (eventIds : List EventIdSelector) :
    (filter.bodySelection eventIds).comparisons =
      ((filter.systemExprs eventIds).map Expr.comparisons).sum := by
  rw [bodySelection]
  cases filter.systemExprs eventIds with
  | nil => rfl
  | cons e es => exact comparisons_conjList e es

/-- The cost function counts what the emitted body holds, once its window can
be written. -/
theorem body_comparisons {filter : EventQueryFilter} {ss : List Text}
    (h : filter.timeClauses = .ok ss) (eventIds : List EventIdSelector) :
    (filter.bodySelection eventIds).comparisons =
      filter.fixedExpressionCost + totalCost eventIds := by
  have hones : ∀ {α : Type} (f : α → Expr) (xs : List α), (∀ x, (f x).comparisons = 1) →
      ((xs.map f).map Expr.comparisons).sum = xs.length := by
    intro α f xs hf
    have hmap : (xs.map f).map Expr.comparisons = xs.map fun _ => 1 := by
      rw [List.map_map]
      exact List.map_congr_left fun x _ => hf x
    rw [hmap, List.map_const', List.sum_replicate_nat, Nat.mul_one]
  have hlevel : (filter.levelExprs.map Expr.comparisons).sum = filter.distinctLevels.length := by
    rw [levelExprs, sum_around .group disjList (fun _ => rfl) comparisons_disjList,
      hones _ _ fun _ => rfl]
  have hid : ((filter.eventIdExprs eventIds).map Expr.comparisons).sum = totalCost eventIds := by
    rw [eventIdExprs, sum_around .group _ (fun _ => rfl), sum_comparisons_expr]
    cases filter.eventIdMode with
    | inclusion => exact comparisons_disjList
    | exclusion => exact comparisons_conjList
  have hprovider : (filter.providerExprs.map Expr.comparisons).sum =
      filter.distinctProviders.length := by
    rw [providerExprs, sum_around (.child providerName) _ (fun _ => rfl), hones _ _ fun _ => rfl]
    cases filter.providerMode with
    | inclusion => exact comparisons_disjList
    | exclusion => exact comparisons_conjList
  have hkeyword : (filter.keywordExprs.map Expr.comparisons).sum =
      if filter.keywords.isSome then 1 else 0 := by
    rw [keywordExprs]
    cases filter.keywords <;> rfl
  rw [bodySelection_comparisons, systemExprs, fixedExpressionCost, (timeClauses_spells h).2]
  simp only [List.map_append, List.sum_append, hlevel, hid, hprovider, hkeyword]
  omega

theorem selectBody_time {filter : EventQueryFilter} {eventIds : List EventIdSelector} {s : Text}
    (h : filter.selectBody eventIds = .ok s) : ∃ ss, filter.timeClauses = .ok ss := by
  obtain ⟨_, hp, _⟩ := bind_ok.mp h
  obtain ⟨ss, ht, _⟩ := bind_ok.mp hp
  exact ⟨ss, ht⟩

/-- A query is built only when its window can be written and its indivisible
terms fit a node. -/
theorem buildQuery_fits {filter : EventQueryFilter} {q : Text} (h : filter.buildQuery = .ok q) :
    (∃ ss, filter.timeClauses = .ok ss) ∧
      filter.fixedExpressionCost + filter.largestSelectorCost ≤ maxExpressionsPerSelect := by
  rw [buildQuery] at h
  by_cases hun : filter.isUnfiltered = true
  · simp only [isUnfiltered, Bool.and_eq_true, Option.isNone_iff_eq_none, List.isEmpty_iff] at hun
    obtain ⟨⟨⟨⟨ht, hl⟩, hi⟩, hp⟩, hk⟩ := hun
    refine ⟨⟨[], by rw [timeClauses, ht]⟩, ?_⟩
    simp [fixedExpressionCost, timeCost, ht, distinctLevels, hl, distinctProviders, hp, hk,
      largestSelectorCost, hi, distinct]
  · rw [if_neg hun] at h
    simp only at h
    split_ifs at h with hbig hsup hsplit
    · obtain ⟨_, hsel, _⟩ := bind_ok.mp h
      exact ⟨selectBody_time hsel, Nat.not_lt.mp hbig⟩
    · obtain ⟨nodes, hnodes, _⟩ := bind_ok.mp h
      refine ⟨?_, Nat.not_lt.mp hbig⟩
      have hflat := chunkFrom_flatten (maxExpressionsPerSelect - filter.fixedExpressionCost)
        filter.eventIds [] 0
      rw [chunkByExpressionBudget] at hnodes
      cases hc : chunkFrom (maxExpressionsPerSelect - filter.fixedExpressionCost) [] 0
          filter.eventIds with
      | nil =>
        rw [hc] at hflat
        have hids : filter.eventIds = [] := hflat.symm
        simp [hids] at hsplit
      | cons chunk rest =>
        rw [hc] at hnodes
        obtain ⟨_, hbody, _⟩ := bind_ok.mp hnodes
        exact selectBody_time hbody
    · exact ⟨selectBody_time h, Nat.not_lt.mp hbig⟩

theorem expressionCost_le_largest {filter : EventQueryFilter} {selector : EventIdSelector}
    (h : selector ∈ filter.eventIds) : selector.expressionCost ≤ filter.largestSelectorCost :=
  List.le_max?_getD_of_mem (List.mem_map_of_mem h)

theorem suppressed_comparisons {chunk : List EventIdSelector} {s : Selection}
    (h : s ∈ suppressed chunk) : s.comparisons = totalCost chunk := by
  cases chunk with
  | nil => cases h
  | cons selector rest =>
    rw [suppressed, List.map_cons, around, List.map_singleton, List.mem_singleton] at h
    rw [h, ← sum_comparisons_expr .inclusion, List.map_cons]
    exact comparisons_disjList _ _

theorem reading_comparisons {filter : EventQueryFilter} {q : Text}
    (h : filter.buildQuery = .ok q) :
    ∀ s ∈ filter.reading.expressions, s.comparisons ≤ maxExpressionsPerSelect := by
  obtain ⟨⟨ss, ht⟩, hfits⟩ := buildQuery_fits h
  have hsel : ∀ {fixed : Nat}, fixed ≤ filter.fixedExpressionCost → ∀ selector ∈ filter.eventIds,
      selector.expressionCost ≤ maxExpressionsPerSelect - fixed := by
    intro fixed hf selector hs
    have := expressionCost_le_largest hs
    omega
  intro s hs
  rw [reading] at hs
  cases hover : filter.overBudget with
  | false =>
    rw [if_neg (by simp [hover])] at hs
    rw [List.mem_singleton.mp hs, body_comparisons ht]
    cases hids : filter.eventIds with
    | nil =>
      simp only [totalCost, List.map_nil, List.sum_nil]
      omega
    | cons selector rest =>
      rw [overBudget, hids, List.isEmpty_cons, Bool.not_false, Bool.true_and,
        decide_eq_false_iff_not] at hover
      exact Nat.not_lt.mp hover
  | true =>
    rw [if_pos hover] at hs
    cases hm : filter.eventIdMode with
    | inclusion =>
      rw [hm] at hs
      simp only [Query.expressions, List.flatMap_map, selectNode, List.append_nil,
        List.mem_flatMap, List.mem_singleton] at hs
      obtain ⟨chunk, hc, rfl⟩ := hs
      have hcost := chunkFrom_cost (maxExpressionsPerSelect - filter.fixedExpressionCost)
        filter.eventIds [] (Nat.zero_le _) (hsel (Nat.le_refl _)) chunk hc
      rw [body_comparisons ht]
      omega
    | exclusion =>
      rw [hm] at hs
      simp only [Query.expressions, List.flatMap_singleton, List.mem_append, List.mem_singleton,
        List.mem_flatMap] at hs
      rcases hs with rfl | ⟨chunk, hc, hs⟩
      · rw [body_comparisons ht]
        simp only [totalCost, List.map_nil, List.sum_nil]
        omega
      · rw [suppressed_comparisons hs]
        exact chunkFrom_cost (maxExpressionsPerSelect - 0) filter.eventIds [] (Nat.zero_le _)
          (hsel (Nat.zero_le _)) chunk hc

/-! ## When a filter is too complex -/

/-- The expressions a filter's window gives, one for a relative window. -/
def timeBounds (filter : EventQueryFilter) : Nat :=
  match filter.time with
  | none => 0
  | some (.last _) => 1
  | some (.between lower upper) => lower.toList.length + upper.toList.length

/-- Not both quotes occur, so that one of them can delimit the value. -/
def quotable (value : Text) : Bool := !(value.contains '\'' && value.contains '"')

def windowQuotable (filter : EventQueryFilter) : Bool :=
  match filter.time with
  | some (.between lower upper) =>
    lower.toList.all quotable && upper.toList.all quotable
  | _ => true

/-- What one node must carry: the terms that repeat in every node, with
`bounds` for the window, and the largest selector as it is emitted. -/
def indivisibleTerms (filter : EventQueryFilter) (bounds : Nat) : Nat :=
  bounds + filter.levels.dedup.length +
    (filter.providers.map toAsciiLowercase).dedup.length +
    (if filter.keywords.isSome then 1 else 0) +
    (filter.eventIds.map fun s => (s.expr filter.eventIdMode).comparisons).max?.getD 0

section Distinct

variable {α β : Type} {same : α → α → Bool} {key : α → β}

theorem distinct_foldl_nodup (hsame : ∀ a b, same a b = true ↔ key a = key b) (values : List α) :
    ∀ seen : List α, (seen.map key).Nodup →
      ((values.foldl (fun seen value =>
        if seen.any fun s => same s value then seen else seen ++ [value]) seen).map key).Nodup := by
  induction values with
  | nil => intro seen h; exact h
  | cons value rest ih =>
    intro seen h
    rw [List.foldl_cons]
    split_ifs with hin
    · exact ih seen h
    · refine ih _ ?_
      rw [List.map_append, List.map_singleton, List.nodup_append]
      refine ⟨h, by simp, fun a ha b hb hab => hin ?_⟩
      obtain ⟨s, hs, rfl⟩ := List.mem_map.mp ha
      rw [List.mem_singleton.mp hb] at hab
      exact List.any_eq_true.mpr ⟨s, hs, (hsame s value).mpr hab⟩

theorem length_distinct [DecidableEq β] (hsame : ∀ a b, same a b = true ↔ key a = key b) (values : List α) :
    (distinct same values).length = (values.map key).dedup.length := by
  have hmem : ∀ k, k ∈ (distinct same values).map key ↔ k ∈ values.map key := by
    intro k
    have hany := @any_distinct α same (fun a => decide (key a = k))
      (fun a b h => by rw [(hsame a b).mp h]) values
    have hiff : ∀ xs : List α,
        (xs.any fun a => decide (key a = k)) = true ↔ k ∈ xs.map key := by
      intro xs
      simp only [List.any_eq_true, decide_eq_true_eq, List.mem_map]
    rw [← hiff, ← hiff, hany]
  have hnodup := distinct_foldl_nodup hsame values [] List.nodup_nil
  have hperm := (List.perm_ext_iff_of_nodup hnodup (List.nodup_dedup (values.map key))).mpr
    fun k => (hmem k).trans List.mem_dedup.symm
  rw [← hperm.length_eq, List.length_map]
  rfl

end Distinct

theorem quoteLiteral_quotable (value : Text) :
    match quoteLiteral value with
    | .ok _ => quotable value = true
    | .error e => quotable value = false ∧ e = .unquotableValue value := by
  rw [quoteLiteral, quotable]
  cases value.contains '\'' <;> cases value.contains '"' <;> simp

theorem bound_quotable (opening : Text) (value : Option Text) :
    match bound opening value with
    | .ok ss => value.toList.all quotable = true ∧ ss.length = value.toList.length
    | .error e => value.toList.all quotable = false ∧ ∃ v, e = .unquotableValue v := by
  cases value with
  | none => exact ⟨rfl, rfl⟩
  | some value =>
    have hq := quoteLiteral_quotable value
    rw [bound]
    cases h : quoteLiteral value with
    | error e =>
      rw [h] at hq
      exact ⟨by simp [hq.1], value, hq.2⟩
    | ok q =>
      rw [h] at hq
      exact ⟨by simp [hq], rfl⟩

/-- A window is written when its bounds are quotable, one clause for all of
them, and otherwise a bound is refused. -/
theorem timePredicate_quotable (window : TimeWindow) (filter : EventQueryFilter)
    (h : filter.time = some window) :
    match timePredicate window with
    | .ok p => filter.windowQuotable = true ∧
        (p.toList.map Predicate.expressions).sum = filter.timeBounds
    | .error e => filter.windowQuotable = false ∧ ∃ v, e = .unquotableValue v := by
  rw [windowQuotable, timeBounds, h]
  cases window with
  | last milliseconds => exact ⟨rfl, rfl⟩
  | between lower upper =>
    have hlower := bound_quotable "@SystemTime >= ".toList lower
    have hupper := bound_quotable "@SystemTime <= ".toList upper
    rw [timePredicate]
    cases hl : bound "@SystemTime >= ".toList lower with
    | error e =>
      rw [hl] at hlower
      exact ⟨by simp [hlower.1], hlower.2⟩
    | ok least =>
      rw [hl] at hlower
      cases hu : bound "@SystemTime <= ".toList upper with
      | error e =>
        rw [hu] at hupper
        exact ⟨by simp [hupper.1], hupper.2⟩
      | ok greatest =>
        rw [hu] at hupper
        simp only [bind, Except.bind, pure, Except.pure]
        by_cases hnil : least ++ greatest = []
        · obtain ⟨hleast, hgreatest⟩ := List.append_eq_nil_iff.mp hnil
          rw [if_pos hnil]
          rw [hleast] at hlower
          rw [hgreatest] at hupper
          exact ⟨by simp [hlower.1, hupper.1], by simp [← hlower.2, ← hupper.2]⟩
        · rw [if_neg hnil]
          exact ⟨by simp [hlower.1, hupper.1], by simp [← hlower.2, ← hupper.2]⟩

/-- The window counts as its bounds when it can be written and as nothing
otherwise. -/
theorem timeCost_eq (filter : EventQueryFilter) :
    filter.timeCost = if filter.windowQuotable then filter.timeBounds else 0 := by
  rw [timeCost]
  cases ht : filter.time with
  | none => simp [windowQuotable, timeBounds, ht]
  | some window =>
    have hw := timePredicate_quotable window filter ht
    simp only
    cases hp : timePredicate window with
    | error e =>
      rw [hp] at hw
      simp [hw.1]
    | ok p =>
      rw [hp] at hw
      cases p with
      | none => simp [hw.1, ← hw.2]
      | some p => simp [hw.1, ← hw.2]

theorem selectBody_error {filter : EventQueryFilter} {eventIds : List EventIdSelector}
    {e : QueryBuildError} (h : filter.selectBody eventIds = .error e) :
    ∃ v, e = .unquotableValue v := by
  have hnames : ∀ {mode : SelectorMode} {names : List Text} {e : QueryBuildError},
      names.mapM (providerText mode) = .error e → ∃ v, e = .unquotableValue v := by
    intro mode names
    induction names with
    | nil => intro e h; cases h
    | cons name names ih =>
      intro e h
      rw [List.mapM_cons] at h
      rcases bind_error.mp h with h | ⟨_, _, h⟩
      · rcases bind_error.mp h with h | ⟨_, _, h⟩
        · have hq := quoteLiteral_quotable name
          rw [h] at hq
          exact ⟨name, hq.2⟩
        · cases h
      · rcases bind_error.mp h with h | ⟨_, _, h⟩
        · exact ih h
        · cases h
  rcases bind_error.mp h with h | ⟨ps, _, h⟩
  · rcases bind_error.mp h with h | ⟨_, _, h⟩
    · rw [timeClauses] at h
      cases ht : filter.time with
      | none => rw [ht] at h; cases h
      | some window =>
        rw [ht] at h
        rcases bind_error.mp h with h | ⟨_, _, h⟩
        · have hw := timePredicate_quotable window filter ht
          rw [h] at hw
          exact hw.2
        · cases h
    · rcases bind_error.mp h with h | ⟨_, _, h⟩
      · rw [providerClauses] at h
        split_ifs at h
        rcases bind_error.mp h with h | ⟨_, _, h⟩
        · exact hnames h
        · cases h
      · cases h
  · split_ifs at h <;> cases h

theorem splitNodes_error {filter : EventQueryFilter} {e : QueryBuildError} :
    ∀ {chunks : List (List EventIdSelector)} {id : Nat},
      filter.splitNodes id chunks = .error e → ∃ v, e = .unquotableValue v
  | [], id, h => by cases h
  | chunk :: chunks, id, h => by
    rcases bind_error.mp h with h | ⟨_, _, h⟩
    · exact selectBody_error h
    · rcases bind_error.mp h with h | ⟨_, _, h⟩
      · exact splitNodes_error h
      · cases h

theorem indivisible_eq (filter : EventQueryFilter) :
    filter.fixedExpressionCost + filter.largestSelectorCost =
      filter.indivisibleTerms (if filter.windowQuotable then filter.timeBounds else 0) := by
  have hlevels : filter.distinctLevels.length = filter.levels.dedup.length := by
    have hlength : _ = (filter.levels.map fun level => level).dedup.length :=
      length_distinct (fun _ _ => beq_iff_eq) filter.levels
    rwa [List.map_id'] at hlength
  have hproviders : filter.distinctProviders.length =
      (filter.providers.map toAsciiLowercase).dedup.length :=
    length_distinct (fun a b => @beq_iff_eq Text _ _ a.toAsciiLowercase b.toAsciiLowercase)
      filter.providers
  have hlargest : filter.eventIds.map (fun s => (s.expr filter.eventIdMode).comparisons) =
      filter.eventIds.map EventIdSelector.expressionCost :=
    List.map_congr_left fun s _ => comparisons_expr filter.eventIdMode s
  rw [indivisibleTerms, fixedExpressionCost, largestSelectorCost, timeCost_eq, hlevels, hproviders,
    hlargest]

theorem buildQuery_tooComplex (filter : EventQueryFilter) :
    (∃ needed, filter.buildQuery = .error (.filterTooComplex needed maxExpressionsPerSelect)) ↔
      maxExpressionsPerSelect < filter.fixedExpressionCost + filter.largestSelectorCost := by
  rw [buildQuery]
  constructor
  · rintro ⟨needed, h⟩
    simp only at h
    split_ifs at h with hun hbig hsup hsplit
    · exact hbig
    · rcases bind_error.mp h with h | ⟨_, _, h⟩
      · obtain ⟨v, hv⟩ := selectBody_error h
        cases hv
      · cases h
    · rcases bind_error.mp h with h | ⟨_, _, h⟩
      · obtain ⟨v, hv⟩ := splitNodes_error h
        cases hv
      · cases h
    · obtain ⟨v, hv⟩ := selectBody_error h
      cases hv
  · intro hbig
    have hun : ¬ filter.isUnfiltered = true := by
      intro hun
      have hok : filter.buildQuery = .ok ['*'] := by rw [buildQuery, if_pos hun]
      exact absurd (buildQuery_fits hok).2 (Nat.not_le.mpr hbig)
    rw [if_neg hun]
    exact ⟨_, if_pos hbig⟩

end EventQueryFilter
end EventQuery
end CmTrace
