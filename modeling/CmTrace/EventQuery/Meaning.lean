import CmTrace.EventQuery.Reading

/-!
# What a built query selects

`Admits` says which events a filter lets through, in its own terms.  The three
shapes of query mean the same filter: selections are united over a partition of
the included ids, and suppressions remove the union of the excluded ones.
-/

namespace CmTrace
namespace EventQuery

open Text XPath

/-! ## Greedy groups -/

theorem chunkFrom_flatten (budget : Nat) (rest : List EventIdSelector) :
    ∀ (current : List EventIdSelector) (spent : Nat),
      (chunkFrom budget current spent rest).flatten = current ++ rest := by
  induction rest with
  | nil =>
    intro current spent
    rw [chunkFrom]
    split_ifs with h <;> simp [h]
  | cons selector rest ih =>
    intro current spent
    simp only [chunkFrom]
    split_ifs
    · rw [List.flatten_cons, ih]
      rfl
    · rw [ih, List.append_assoc]
      rfl

theorem chunkFrom_ne_nil (budget : Nat) (rest : List EventIdSelector) :
    ∀ (current : List EventIdSelector) (spent : Nat),
      ∀ chunk ∈ chunkFrom budget current spent rest, chunk ≠ [] := by
  induction rest with
  | nil =>
    intro current spent chunk hc
    rw [chunkFrom] at hc
    split_ifs at hc with h
    · cases hc
    · rw [List.mem_singleton.mp hc]
      exact h
  | cons selector rest ih =>
    intro current spent chunk hc
    simp only [chunkFrom] at hc
    split_ifs at hc with h
    · rcases List.mem_cons.mp hc with rfl | hc
      · exact h.1
      · exact ih _ _ chunk hc
    · exact ih _ _ chunk hc

def totalCost (chunk : List EventIdSelector) : Nat :=
  (chunk.map EventIdSelector.expressionCost).sum

theorem chunkFrom_cost (budget : Nat) (rest : List EventIdSelector) :
    ∀ (current : List EventIdSelector), totalCost current ≤ budget →
      (∀ selector ∈ rest, selector.expressionCost ≤ budget) →
        ∀ chunk ∈ chunkFrom budget current (totalCost current) rest, totalCost chunk ≤ budget := by
  induction rest with
  | nil =>
    intro current hcur _ chunk hc
    rw [chunkFrom] at hc
    split_ifs at hc
    · cases hc
    · rw [List.mem_singleton.mp hc]
      exact hcur
  | cons selector rest ih =>
    intro current hcur hrest chunk hc
    have hsel := hrest selector (by simp)
    have hlater : ∀ s ∈ rest, s.expressionCost ≤ budget :=
      fun s hs => hrest s (List.mem_cons_of_mem _ hs)
    have hone : totalCost [selector] = selector.expressionCost := by simp [totalCost]
    have hmore : totalCost (current ++ [selector]) = totalCost current + selector.expressionCost := by
      simp [totalCost]
    simp only [chunkFrom] at hc
    split_ifs at hc with h
    · rcases List.mem_cons.mp hc with rfl | hc
      · exact hcur
      · rw [← hone] at hc
        exact ih [selector] (by omega) hlater chunk hc
    · rw [← hmore] at hc
      refine ih (current ++ [selector]) ?_ hlater chunk hc
      -- either the group was empty or the selector fits
      by_cases hnil : current = []
      · subst hnil
        simpa [totalCost] using hsel
      · have : ¬ budget < totalCost current + selector.expressionCost := fun hb => h ⟨hnil, hb⟩
        omega

/-! ## Repetitions -/

section
variable {α : Type} {same : α → α → Bool}

/-- What does not tell equal values apart holds of some distinct value exactly
when it holds of some value. -/
theorem any_distinct_foldl {p : α → Bool} (hp : ∀ a b, same a b = true → p a = p b)
    (values : List α) : ∀ seen : List α,
      (values.foldl (fun seen value =>
        if seen.any fun s => same s value then seen else seen ++ [value]) seen).any p =
      (seen.any p || values.any p) := by
  induction values with
  | nil => intro seen; simp
  | cons value rest ih =>
    intro seen
    rw [List.foldl_cons, ih, List.any_cons]
    split_ifs with hin
    · obtain ⟨s, hs, hsame⟩ := List.any_eq_true.mp hin
      cases hv : p value with
      | false => simp
      | true =>
        have : seen.any p = true := List.any_eq_true.mpr ⟨s, hs, (hp s value hsame).trans hv⟩
        simp [this]
    · simp [Bool.or_assoc]

theorem any_distinct {p : α → Bool} (hp : ∀ a b, same a b = true → p a = p b)
    (values : List α) : (distinct same values).any p = values.any p := by
  rw [distinct, any_distinct_foldl hp]
  rfl

theorem all_distinct {p : α → Bool} (hp : ∀ a b, same a b = true → p a = p b)
    (values : List α) : (distinct same values).all p = values.all p := by
  have hnot := any_distinct (p := fun a => !p a) (fun a b h => by rw [hp a b h]) values
  rw [List.all_eq_not_any_not, List.all_eq_not_any_not, hnot]

theorem distinct_eq_nil {values : List α} : distinct same values = [] ↔ values = [] := by
  have hany : (distinct same values).any (fun _ => true) = values.any fun _ => true :=
    any_distinct (fun _ _ _ => rfl) values
  cases hd : distinct same values <;> cases values <;> simp_all

end

/-! ## Filters in their own terms -/

/-- The selector covers the id; the bounds of a range may come in any order. -/
def EventIdSelector.Matches (id : Nat) : EventIdSelector → Prop
  | .single n => id = n
  | .range low high => min low high ≤ id ∧ id ≤ max low high

structure EventQueryFilter.Admits (filter : EventQueryFilter) (svc : Service) (ev : Event) :
    Prop where
  time : match filter.time with
    | none => True
    | some (.last milliseconds) => svc.now - ev.created ≤ milliseconds
    | some (.between lower upper) =>
      (∀ v, lower = some v → svc.instant v ≤ ev.created) ∧
        ∀ v, upper = some v → ev.created ≤ svc.instant v
  level : filter.levels = [] ∨ ev.level ∈ filter.levels
  eventId : match filter.eventIdMode with
    | .inclusion => filter.eventIds = [] ∨ ∃ s ∈ filter.eventIds, s.Matches ev.eventId
    | .exclusion => ∀ s ∈ filter.eventIds, ¬ s.Matches ev.eventId
  provider : match filter.providerMode with
    | .inclusion =>
      filter.providers = [] ∨ ∃ name ∈ filter.providers, eqIgnoreAsciiCase ev.provider name = true
    | .exclusion => ∀ name ∈ filter.providers, eqIgnoreAsciiCase ev.provider name = false
  keywords : ∀ mask, filter.keywords = some mask → ev.keywords &&& mask ≠ 0

section
variable (svc : Service) (ev : Event)

theorem all_around_disj {wrap : Expr → Expr} {p q : Place}
    (hwrap : ∀ e : Expr, (wrap e).holds svc ev p = e.holds svc ev q) (es : List Expr) :
    (around wrap disjList es).all (Expr.holds svc ev p) = (es.isEmpty || es.any (Expr.holds svc ev q)) := by
  cases es with
  | nil => rfl
  | cons e es => simp [around, hwrap, holds_disjList]

theorem all_around_conj {wrap : Expr → Expr} {p q : Place}
    (hwrap : ∀ e : Expr, (wrap e).holds svc ev p = e.holds svc ev q) (es : List Expr) :
    (around wrap conjList es).all (Expr.holds svc ev p) = es.all (Expr.holds svc ev q) := by
  cases es with
  | nil => rfl
  | cons e es => simp [around, hwrap, holds_conjList]

theorem holds_group (p : Place) (e : Expr) :
    (Expr.group e).holds svc ev p = e.holds svc ev p := rfl

theorem holds_timeCreated (e : Expr) :
    (Expr.child timeCreatedName e).holds svc ev .system = e.holds svc ev .timeCreated := rfl

theorem holds_provider (e : Expr) :
    (Expr.child providerName e).holds svc ev .system = e.holds svc ev .provider := rfl

theorem holds_eventIdTest (r : Relation) (n : Nat) :
    (eventIdTest r n).holds svc ev .system = r.holds ev.eventId n := rfl

theorem holds_expr_inclusion (selector : EventIdSelector) :
    (selector.expr .inclusion).holds svc ev .system = true ↔ selector.Matches ev.eventId := by
  cases selector with
  | single id =>
    simp only [EventIdSelector.expr, EventIdSelector.written, EventIdSelector.writtenExpr,
      holds_eventIdTest, Relation.holds, EventIdSelector.Matches, beq_iff_eq]
    omega
  | range low high =>
    rw [EventIdSelector.expr, EventIdSelector.written]
    split_ifs with h
    · simp only [EventIdSelector.writtenExpr, holds_eventIdTest, Relation.holds,
        EventIdSelector.Matches, beq_iff_eq]
      omega
    · simp only [EventIdSelector.writtenExpr, Expr.holds, holds_group, holds_eventIdTest,
        Relation.holds, EventIdSelector.Matches, Bool.and_eq_true, decide_eq_true_eq]
      omega

theorem holds_expr_exclusion (selector : EventIdSelector) :
    (selector.expr .exclusion).holds svc ev .system = true ↔ ¬ selector.Matches ev.eventId := by
  cases selector with
  | single id =>
    simp only [EventIdSelector.expr, EventIdSelector.written, EventIdSelector.writtenExpr,
      holds_eventIdTest, Relation.holds, EventIdSelector.Matches, bne_iff_ne]
    omega
  | range low high =>
    rw [EventIdSelector.expr, EventIdSelector.written]
    split_ifs with h
    · simp only [EventIdSelector.writtenExpr, holds_eventIdTest, Relation.holds,
        EventIdSelector.Matches, bne_iff_ne]
      omega
    · simp only [EventIdSelector.writtenExpr, Expr.holds, holds_group, holds_eventIdTest,
        Relation.holds, EventIdSelector.Matches, Bool.or_eq_true, decide_eq_true_eq]
      omega

theorem windowExprs_hold (window : TimeWindow) :
    (windowExprs window).all (Expr.holds svc ev .system) = true ↔
      match window with
      | .last milliseconds => svc.now - ev.created ≤ milliseconds
      | .between lower upper =>
        (∀ v, lower = some v → svc.instant v ≤ ev.created) ∧
          ∀ v, upper = some v → ev.created ≤ svc.instant v := by
  cases window with
  | last milliseconds =>
    have hone : (windowExprs (.last milliseconds)).all (Expr.holds svc ev .system) =
        decide (svc.now - ev.created ≤ milliseconds) := by
      simp only [windowExprs, List.all_cons, List.all_nil, Bool.and_true, holds_timeCreated]
      rfl
    rw [hone, decide_eq_true_eq]
  | between lower upper =>
    have hge : ∀ v : Text, Expr.holds svc ev .timeCreated
        (.test (.compare (.attribute systemTimeName) .ge (.literal v))) =
          decide (svc.instant v ≤ ev.created) := fun _ => rfl
    have hle : ∀ v : Text, Expr.holds svc ev .timeCreated
        (.test (.compare (.attribute systemTimeName) .le (.literal v))) =
          decide (ev.created ≤ svc.instant v) := fun _ => rfl
    rw [windowExprs, all_around_conj svc ev (holds_timeCreated svc ev)]
    cases lower <;> cases upper <;> simp [boundExprs, hge, hle]

namespace EventQueryFilter

theorem levelExprs_hold (filter : EventQueryFilter) :
    filter.levelExprs.all (Expr.holds svc ev .system) = true ↔
      (filter.levels = [] ∨ ev.level ∈ filter.levels) := by
  have htest : ∀ level : Nat,
      (levelTest level).holds svc ev .system = ((ev.level : Int) == (level : Int)) := fun _ => rfl
  rw [levelExprs, all_around_disj svc ev (holds_group svc ev .system), Bool.or_eq_true,
    List.isEmpty_iff, List.map_eq_nil_iff, List.any_map]
  refine or_congr distinct_eq_nil ?_
  have hsame : ∀ a b : Nat, (a == b) = true →
      (Expr.holds svc ev .system ∘ levelTest) a = (Expr.holds svc ev .system ∘ levelTest) b := by
    intro a b h
    rw [beq_iff_eq.mp h]
  rw [distinctLevels, any_distinct hsame, List.any_eq_true]
  constructor
  · rintro ⟨level, hl, hh⟩
    simp only [Function.comp_apply, htest, beq_iff_eq] at hh
    have heq : ev.level = level := by omega
    exact heq ▸ hl
  · intro h
    exact ⟨ev.level, h, by simp [htest]⟩

theorem providerExprs_hold (filter : EventQueryFilter) :
    filter.providerExprs.all (Expr.holds svc ev .system) = true ↔
      match filter.providerMode with
      | .inclusion =>
        filter.providers = [] ∨ ∃ name ∈ filter.providers, eqIgnoreAsciiCase ev.provider name = true
      | .exclusion => ∀ name ∈ filter.providers, eqIgnoreAsciiCase ev.provider name = false := by
  have hsame : ∀ (mode : SelectorMode) (a b : Text), eqIgnoreAsciiCase a b = true →
      (Expr.holds svc ev .provider ∘ providerTest mode) a =
        (Expr.holds svc ev .provider ∘ providerTest mode) b := by
    intro mode a b h
    have hab : toAsciiLowercase a = toAsciiLowercase b := by
      simpa [eqIgnoreAsciiCase] using h
    have heq : eqIgnoreAsciiCase ev.provider a = eqIgnoreAsciiCase ev.provider b := by
      simp only [eqIgnoreAsciiCase, hab]
    cases mode with
    | inclusion => exact heq
    | exclusion => exact congrArg Bool.not heq
  have heq : ∀ name : Text, (providerTest .inclusion name).holds svc ev .provider =
      eqIgnoreAsciiCase ev.provider name := fun _ => rfl
  have hne : ∀ name : Text, (providerTest .exclusion name).holds svc ev .provider =
      !eqIgnoreAsciiCase ev.provider name := fun _ => rfl
  rw [providerExprs]
  cases filter.providerMode with
  | inclusion =>
    rw [all_around_disj svc ev (holds_provider svc ev), Bool.or_eq_true, List.isEmpty_iff,
      List.map_eq_nil_iff, List.any_map]
    refine or_congr distinct_eq_nil ?_
    rw [distinctProviders, any_distinct (hsame .inclusion), List.any_eq_true]
    simp only [Function.comp_apply, heq]
  | exclusion =>
    rw [all_around_conj svc ev (holds_provider svc ev), List.all_map, distinctProviders,
      all_distinct (hsame .exclusion), List.all_eq_true]
    simp only [Function.comp_apply, hne, Bool.not_eq_true']

theorem keywordExprs_hold (filter : EventQueryFilter) :
    filter.keywordExprs.all (Expr.holds svc ev .system) = true ↔
      ∀ mask, filter.keywords = some mask → ev.keywords &&& mask ≠ 0 := by
  have htest : ∀ mask : Nat, Expr.holds svc ev .system (.test (.band "Keywords".toList mask)) =
      (ev.keywords &&& mask != 0) := fun _ => rfl
  rw [keywordExprs]
  cases filter.keywords with
  | none => simp
  | some mask =>
    simp only [List.all_cons, List.all_nil, Bool.and_true, htest, bne_iff_ne, Option.some.injEq,
      forall_eq']

theorem eventIdExprs_hold (filter : EventQueryFilter) (eventIds : List EventIdSelector) :
    (filter.eventIdExprs eventIds).all (Expr.holds svc ev .system) = true ↔
      match filter.eventIdMode with
      | .inclusion => eventIds = [] ∨ ∃ s ∈ eventIds, s.Matches ev.eventId
      | .exclusion => ∀ s ∈ eventIds, ¬ s.Matches ev.eventId := by
  rw [eventIdExprs]
  cases filter.eventIdMode with
  | inclusion =>
    rw [all_around_disj svc ev (holds_group svc ev .system), Bool.or_eq_true, List.isEmpty_iff,
      List.map_eq_nil_iff, List.any_map, List.any_eq_true]
    simp only [Function.comp_apply, holds_expr_inclusion]
  | exclusion =>
    rw [all_around_conj svc ev (holds_group svc ev .system), List.all_map, List.all_eq_true]
    simp only [Function.comp_apply, holds_expr_exclusion]

/-- A filter with other ids, all else the same. -/
def withIds (filter : EventQueryFilter) (eventIds : List EventIdSelector) : EventQueryFilter :=
  { filter with eventIds := eventIds }

theorem bodySelection_selects (filter : EventQueryFilter) (eventIds : List EventIdSelector) :
    (filter.bodySelection eventIds).selects svc ev = true ↔
      (filter.withIds eventIds).Admits svc ev := by
  have hall : (filter.bodySelection eventIds).selects svc ev =
      (filter.systemExprs eventIds).all (Expr.holds svc ev .system) := by
    rw [bodySelection]
    cases filter.systemExprs eventIds with
    | nil => rfl
    | cons e es => exact holds_conjList svc ev .system e es
  have htime : filter.timeExprs.all (Expr.holds svc ev .system) = true ↔
      match filter.time with
      | none => True
      | some (.last milliseconds) => svc.now - ev.created ≤ milliseconds
      | some (.between lower upper) =>
        (∀ v, lower = some v → svc.instant v ≤ ev.created) ∧
          ∀ v, upper = some v → ev.created ≤ svc.instant v := by
    rw [timeExprs]
    cases filter.time with
    | none => simp
    | some window =>
      rw [windowExprs_hold]
      cases window <;> rfl
  rw [hall, systemExprs]
  simp only [List.all_append, Bool.and_eq_true, htime, levelExprs_hold, eventIdExprs_hold,
    providerExprs_hold, keywordExprs_hold]
  constructor
  · rintro ⟨⟨⟨⟨ht, hl⟩, hi⟩, hp⟩, hk⟩
    exact ⟨ht, hl, hi, hp, hk⟩
  · rintro ⟨ht, hl, hi, hp, hk⟩
    exact ⟨⟨⟨⟨ht, hl⟩, hi⟩, hp⟩, hk⟩

theorem suppressed_selects {chunk : List EventIdSelector} :
    (suppressed chunk).any (Selection.selects svc ev) = true ↔
      ∃ s ∈ chunk, s.Matches ev.eventId := by
  cases chunk with
  | nil => simp [suppressed, around]
  | cons selector rest =>
    have hall : (suppressed (selector :: rest)).any (Selection.selects svc ev) =
        ((selector :: rest).map (EventIdSelector.expr .inclusion)).any
          (Expr.holds svc ev .system) := by
      rw [suppressed, List.map_cons, around, List.map_singleton, List.any_cons, List.any_nil,
        Bool.or_false]
      exact holds_disjList svc ev .system _ _
    rw [hall, List.any_map, List.any_eq_true]
    simp only [Function.comp_apply, holds_expr_inclusion]

/-- The event ids of a filter do not fit one node with the terms that repeat. -/
def overBudget (filter : EventQueryFilter) : Bool :=
  !filter.eventIds.isEmpty &&
    decide (maxExpressionsPerSelect < filter.fixedExpressionCost + totalCost filter.eventIds)

/-- The query a filter is built into, in one of three shapes. -/
def reading (filter : EventQueryFilter) : Query :=
  if filter.overBudget then
    match filter.eventIdMode with
    | .inclusion =>
      .list ((chunkByExpressionBudget filter.eventIds filter.fixedExpressionCost).map
        filter.selectNode)
    | .exclusion =>
      .list [{ selects := [filter.bodySelection []],
               suppresses := (chunkByExpressionBudget filter.eventIds 0).flatMap suppressed }]
  else .bare (filter.bodySelection filter.eventIds)

theorem reading_selects (filter : EventQueryFilter) :
    filter.reading.selects svc ev = true ↔ filter.Admits svc ev := by
  have hself : filter.withIds filter.eventIds = filter := rfl
  rw [reading]
  cases hover : filter.overBudget with
  | false => exact (bodySelection_selects svc ev filter filter.eventIds).trans (by rw [hself])
  | true =>
    have hne : filter.eventIds ≠ [] := by
      intro h
      simp [overBudget, h] at hover
    simp only [if_true]
    cases hmode : filter.eventIdMode with
    | inclusion =>
      generalize hchunks : chunkByExpressionBudget filter.eventIds filter.fixedExpressionCost = chunks
      have hflat : chunks.flatten = filter.eventIds := by
        rw [← hchunks]
        exact chunkFrom_flatten _ _ _ _
      have hnil : ∀ chunk ∈ chunks, chunk ≠ [] := by
        rw [← hchunks]
        exact chunkFrom_ne_nil _ _ _ _
      have hnode : ∀ chunk, (filter.selectNode chunk).selected svc ev = true ↔
          (filter.withIds chunk).Admits svc ev := by
        intro chunk
        rw [← bodySelection_selects]
        simp [selectNode, Node.selected]
      simp only [Query.selects, List.any_map, List.any_eq_true, Function.comp_apply, hnode]
      constructor
      · rintro ⟨chunk, hc, ha⟩
        refine ⟨ha.time, ha.level, ?_, ha.provider, ha.keywords⟩
        have hid := ha.eventId
        simp only [withIds, hmode] at hid ⊢
        rcases hid with h | ⟨s, hs, hm⟩
        · exact absurd h (hnil chunk hc)
        · exact .inr ⟨s, hflat ▸ List.mem_flatten_of_mem hc hs, hm⟩
      · intro ha
        have hid := ha.eventId
        simp only [hmode] at hid
        rcases hid with h | ⟨s, hs, hm⟩
        · exact absurd h hne
        · rw [← hflat] at hs
          obtain ⟨chunk, hc, hs⟩ := List.mem_flatten.mp hs
          refine ⟨chunk, hc, ha.time, ha.level, ?_, ha.provider, ha.keywords⟩
          simp only [withIds, hmode]
          exact .inr ⟨s, hs, hm⟩
    | exclusion =>
      generalize hchunks : chunkByExpressionBudget filter.eventIds 0 = chunks
      have hflat : chunks.flatten = filter.eventIds := by
        rw [← hchunks]
        exact chunkFrom_flatten _ _ _ _
      have hsup : (chunks.flatMap suppressed).any (Selection.selects svc ev) = true ↔
          ∃ s ∈ filter.eventIds, s.Matches ev.eventId := by
        rw [← hflat, List.any_flatMap, List.any_eq_true]
        simp only [suppressed_selects, List.mem_flatten]
        constructor
        · rintro ⟨chunk, hc, s, hs, hm⟩
          exact ⟨s, ⟨chunk, hc, hs⟩, hm⟩
        · rintro ⟨s, ⟨chunk, hc, hs⟩, hm⟩
          exact ⟨chunk, hc, s, hs, hm⟩
      simp only [Query.selects, List.any_cons, List.any_nil, Bool.or_false, Node.selected,
        Bool.and_eq_true, Bool.not_eq_true', ← Bool.not_eq_true, hsup, bodySelection_selects]
      constructor
      · rintro ⟨ha, hns⟩
        refine ⟨ha.time, ha.level, ?_, ha.provider, ha.keywords⟩
        simp only [hmode]
        exact fun s hs hm => hns ⟨s, hs, hm⟩
      · intro ha
        have hid := ha.eventId
        simp only [hmode] at hid
        refine ⟨⟨ha.time, ha.level, ?_, ha.provider, ha.keywords⟩, ?_⟩
        · simp [withIds, hmode]
        · rintro ⟨s, hs, hm⟩
          exact hid s hs hm

end EventQueryFilter
end

/-! ## The text that is built -/

namespace EventQueryFilter

theorem readQuery_list {body : Text} {ms : List Markup} {nodes : List Node} (hms : Marks body ms)
    (hread : readNodes none (ms ++ [.stop .queryList]) = some nodes) :
    readQuery ("<QueryList>".toList ++ body ++ "</QueryList>".toList) = some (.list nodes) := by
  have hopen : Marks "<QueryList>".toList [.start .queryList] :=
    @marks_named "QueryList".toList _ (by decide) rfl
  have hclose : Marks "</QueryList>".toList [.stop .queryList] :=
    @marks_named "/QueryList".toList _ (by decide) rfl
  have hall := ((hopen.append hms).append hclose).lex
  have hfirst : ("<QueryList>".toList ++ body ++ "</QueryList>".toList).head? = some '<' := rfl
  rw [readQuery, if_pos hfirst, hall]
  simp only [List.cons_append, List.nil_append, hread, Option.map_some]

theorem readQuery_body {filter : EventQueryFilter} {eventIds : List EventIdSelector} {q : Text}
    (h : filter.selectBody eventIds = .ok q) :
    readQuery q = some (.bare (filter.bodySelection eventIds)) := by
  obtain ⟨hread, hstar⟩ := selectBody_reads h
  rw [readQuery, hstar, if_neg (by decide), hread]
  rfl

theorem buildSuppressedQuery_reads {filter : EventQueryFilter} {q : Text}
    (h : filter.buildSuppressedQuery = .ok q) :
    readQuery q = some (.list [
      { selects := [filter.bodySelection []],
        suppresses := (chunkByExpressionBudget filter.eventIds 0).flatMap suppressed }]) := by
  obtain ⟨selection, hsel, h⟩ := bind_ok.mp h
  cases pure_ok.mp h
  have hquery : Marks "<Query Id=\"0\">".toList [.start .query] :=
    @marks_named "Query Id=\"0\"".toList _ (by decide) rfl
  have hstop : Marks "</Query>".toList [.stop .query] :=
    @marks_named "/Query".toList _ (by decide) rfl
  obtain ⟨ms, hms, hnodes⟩ := suppressions_read (filter.selectNode [])
    (chunkFrom_ne_nil _ filter.eventIds [] 0)
  have hbody := ((hquery.append (marks_select (selectBody_ne_nil hsel))).append hms).append hstop
  refine Eq.trans (congrArg readQuery ?_) (readQuery_list hbody ?_)
  · have hopen : "<QueryList><Query Id=\"0\"><Select>".toList =
        "<QueryList>".toList ++ ("<Query Id=\"0\">".toList ++ "<Select>".toList) := rfl
    have hclose : "</Query></QueryList>".toList = "</Query>".toList ++ "</QueryList>".toList := rfl
    rw [hopen, hclose]
    simp only [List.append_assoc]
    rfl
  · have hlist := hnodes [.stop .query, .stop .queryList]
    simp only [List.cons_append, List.nil_append, List.append_assoc, readNodes,
      (selectBody_reads hsel).1, Option.bind_some]
    exact hlist

theorem buildQuery_reads {filter : EventQueryFilter} {q : Text} (h : filter.buildQuery = .ok q) :
    readQuery q = some filter.reading := by
  rw [buildQuery] at h
  rw [reading]
  by_cases hun : filter.isUnfiltered = true
  · rw [if_pos hun] at h
    cases h
    simp only [isUnfiltered, Bool.and_eq_true, Option.isNone_iff_eq_none, List.isEmpty_iff] at hun
    obtain ⟨⟨⟨⟨ht, hl⟩, hi⟩, hp⟩, hk⟩ := hun
    have hover : filter.overBudget = false := by simp [overBudget, hi]
    have hexprs : filter.systemExprs filter.eventIds = [] := by
      simp [systemExprs, timeExprs, ht, levelExprs, distinctLevels, hl, eventIdExprs, hi,
        providerExprs, distinctProviders, hp, keywordExprs, hk, distinct, around]
    have hall : filter.bodySelection filter.eventIds = .all := by rw [bodySelection, hexprs]
    rw [hover, hall]
    rfl
  · rw [if_neg hun] at h
    simp only at h
    split_ifs at h with hbig hsup hsplit
    · obtain ⟨hover, hmode⟩ := Bool.and_eq_true_iff.mp hsup
      rw [if_pos (show filter.overBudget = true from hover), beq_iff_eq.mp hmode]
      exact buildSuppressedQuery_reads h
    · obtain ⟨hover, hmode⟩ := Bool.and_eq_true_iff.mp hsplit
      rw [if_pos (show filter.overBudget = true from hover), beq_iff_eq.mp hmode]
      obtain ⟨nodes, hnodes, h⟩ := bind_ok.mp h
      cases pure_ok.mp h
      obtain ⟨ms, hms, hread⟩ := splitNodes_reads hnodes
      exact readQuery_list hms hread
    · have hover : filter.overBudget = false := by
        cases ho : filter.overBudget with
        | false => rfl
        | true =>
          have hboth : (!filter.eventIds.isEmpty && decide (maxExpressionsPerSelect <
              filter.fixedExpressionCost + (filter.eventIds.map
                EventIdSelector.expressionCost).sum)) = true := ho
          cases hm : filter.eventIdMode with
          | inclusion => exact absurd (by rw [hboth, hm]; rfl) hsplit
          | exclusion => exact absurd (by rw [hboth, hm]; rfl) hsup
      rw [if_neg (by simp [hover])]
      exact readQuery_body h

/-- A query that is built selects exactly the events its filter admits. -/
theorem buildQuery_selects {filter : EventQueryFilter} {q : Text}
    (h : filter.buildQuery = .ok q) :
    ∃ query, readQuery q = some query ∧
      ∀ (svc : Service) (ev : Event), query.selects svc ev = true ↔ filter.Admits svc ev :=
  ⟨filter.reading, buildQuery_reads h, fun svc ev => reading_selects svc ev filter⟩

/-- An exclusion of one range by a provider whose name holds an apostrophe. -/
theorem buildQuery_selects_range :
    ∃ query, readQuery
        ("*[System[((EventID < 5 or EventID > 9)) and Provider[@Name=\"Bob's\"]]]").toList =
          some query ∧
      ∀ (svc : Service) (ev : Event), query.selects svc ev = true ↔
        EventQueryFilter.Admits
          { eventIds := [.range 9 5], eventIdMode := .exclusion, providers := ["Bob's".toList] }
          svc ev :=
  buildQuery_selects (by decide +kernel)

end EventQueryFilter
end EventQuery
end CmTrace
