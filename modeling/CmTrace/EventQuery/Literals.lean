import CmTrace.EventQuery.Budget
import CmTrace.XPath.Literals

/-!
# Values of a filter in the query it is built into

The values a filter writes are the literals of every selection of its query, and nothing
else of the query depends on what they are.  A value that no literal can hold is refused.
-/

namespace CmTrace
namespace EventQuery

open Text XPath

/-! ## What the selections hold -/

theorem literals_around {wrap : Expr → Expr} {joined : Expr → List Expr → Expr}
    (hwrap : ∀ e, (wrap e).literals = e.literals)
    (hjoined : ∀ e es, (joined e es).literals = (e :: es).flatMap Expr.literals)
    (es : List Expr) :
    (around wrap joined es).flatMap Expr.literals = es.flatMap Expr.literals := by
  cases es with
  | nil => rfl
  | cons e es => rw [around, List.flatMap_singleton, hwrap, hjoined]

theorem literals_expr (mode : SelectorMode) (selector : EventIdSelector) :
    (selector.expr mode).literals = [] := by
  rw [EventIdSelector.expr]
  cases selector.written with
  | single id => rfl
  | range low high => cases mode <;> rfl

def TimeWindow.values : TimeWindow → List Text
  | .last _              => []
  | .between lower upper => lower.toList ++ upper.toList

theorem literals_windowExprs (window : TimeWindow) :
    (windowExprs window).flatMap Expr.literals = window.values := by
  cases window with
  | last milliseconds => rfl
  | between lower upper => cases lower <;> cases upper <;> rfl

def TimeWindow.shape : TimeWindow → TimeWindow
  | .last milliseconds   => .last milliseconds
  | .between lower upper => .between (lower.map fun _ => []) (upper.map fun _ => [])

namespace EventQueryFilter

def values (filter : EventQueryFilter) : List Text :=
  (filter.time.map TimeWindow.values).getD [] ++ filter.distinctProviders

theorem literals_providerExprs (filter : EventQueryFilter) :
    filter.providerExprs.flatMap Expr.literals = filter.distinctProviders := by
  have hnames : (filter.distinctProviders.map (providerTest filter.providerMode)).flatMap
      Expr.literals = filter.distinctProviders := by
    rw [List.flatMap_map]
    exact List.flatMap_singleton' _
  rw [providerExprs, literals_around, hnames]
  · exact fun _ => rfl
  · cases filter.providerMode with
    | inclusion => exact literals_disjList
    | exclusion => exact literals_conjList

theorem literals_eventIdExprs (filter : EventQueryFilter) (eventIds : List EventIdSelector) :
    (filter.eventIdExprs eventIds).flatMap Expr.literals = [] := by
  rw [eventIdExprs, literals_around, List.flatMap_map, List.flatMap_eq_nil_iff]
  · exact fun selector _ => literals_expr filter.eventIdMode selector
  · exact fun _ => rfl
  · cases filter.eventIdMode with
    | inclusion => exact literals_disjList
    | exclusion => exact literals_conjList

theorem literals_bodySelection (filter : EventQueryFilter) (eventIds : List EventIdSelector) :
    (filter.bodySelection eventIds).literals = filter.values := by
  have htime : filter.timeExprs.flatMap Expr.literals =
      (filter.time.map TimeWindow.values).getD [] := by
    rw [timeExprs]
    cases filter.time with
    | none => rfl
    | some window => exact literals_windowExprs window
  have hlevels : filter.levelExprs.flatMap Expr.literals = [] := by
    rw [levelExprs, literals_around, List.flatMap_map, List.flatMap_eq_nil_iff]
    · exact fun _ _ => rfl
    · exact fun _ => rfl
    · exact literals_disjList
  have hkeywords : filter.keywordExprs.flatMap Expr.literals = [] := by
    rw [keywordExprs]
    cases filter.keywords <;> rfl
  have hall : (filter.systemExprs eventIds).flatMap Expr.literals = filter.values := by
    rw [systemExprs, List.flatMap_append, List.flatMap_append, List.flatMap_append,
      List.flatMap_append, htime, hlevels, literals_eventIdExprs, literals_providerExprs,
      hkeywords, values, List.append_nil, List.append_nil, List.append_nil]
  rw [← hall, bodySelection]
  cases filter.systemExprs eventIds with
  | nil => rfl
  | cons e es => exact literals_conjList e es

theorem selectBody_literals {filter : EventQueryFilter} {eventIds : List EventIdSelector} {s : Text}
    (h : filter.selectBody eventIds = .ok s) : literals (lex s) = filter.values := by
  rw [readSelection_literals (selectBody_reads h).1, literals_bodySelection]

theorem literals_suppressed (chunk : List EventIdSelector) :
    ∀ e ∈ suppressed chunk, e.literals = [] := by
  intro e he
  obtain ⟨inner, hinner, rfl⟩ := List.mem_map.mp he
  have hall : (around (fun e => .child ['*'] (.child "System".toList (.group (.group e)))) disjList
      (chunk.map (EventIdSelector.expr .inclusion))).flatMap Expr.literals = [] := by
    rw [literals_around, List.flatMap_map, List.flatMap_eq_nil_iff]
    · exact fun selector _ => literals_expr .inclusion selector
    · exact fun _ => rfl
    · exact literals_disjList
  exact List.flatMap_eq_nil_iff.mp hall inner hinner

/-! ## Other values -/

/-- Filters that differ in the values they write only. -/
structure SameButValues (filter other : EventQueryFilter) : Prop where
  time : filter.time.map TimeWindow.shape = other.time.map TimeWindow.shape
  levels : filter.levels = other.levels
  eventIds : filter.eventIds = other.eventIds
  eventIdMode : filter.eventIdMode = other.eventIdMode
  providers : filter.distinctProviders.length = other.distinctProviders.length
  providerMode : filter.providerMode = other.providerMode
  keywords : filter.keywords = other.keywords

theorem bound_alike {opening : Text} {ts : List Token} (ho : LexesOpen opening ts)
    {value other : Option Text} (hshape : (value.map fun _ => ([] : Text)) = other.map fun _ => [])
    {ss ss' : List Text} (h : bound opening value = .ok ss) (h' : bound opening other = .ok ss') :
    List.Forall₂ Alike ss ss' := by
  cases value with
  | none =>
    cases other with
    | none =>
      cases h
      cases h'
      exact .nil
    | some v => cases hshape
  | some value =>
    cases other with
    | none => cases hshape
    | some v =>
      obtain ⟨q, hq, h⟩ := bind_ok.mp h
      cases pure_ok.mp h
      obtain ⟨q', hq', h'⟩ := bind_ok.mp h'
      cases pure_ok.mp h'
      exact .cons (.of_literals ho (lexesOpen_quoteLiteral hq) (lexesOpen_quoteLiteral hq')) .nil

theorem alike_self {level : Level} {ss : List Text} {es : List Expr}
    (h : List.Forall₂ (Spells level) ss es) : List.Forall₂ Alike ss ss := by
  induction h with
  | nil => exact .nil
  | cons hs _ ih => exact .cons (.of_spells hs) ih

theorem timePredicate_alike {window other : TimeWindow} (hshape : window.shape = other.shape)
    {p p' : Option Predicate} (h : timePredicate window = .ok p)
    (h' : timePredicate other = .ok p') :
    List.Forall₂ Alike (p.toList.map Predicate.clause) (p'.toList.map Predicate.clause) ∧
      p.map Predicate.expressions = p'.map Predicate.expressions := by
  cases window with
  | last milliseconds =>
    cases other with
    | last milliseconds' =>
      cases hshape
      cases h
      cases h'
      have hspells := @timePredicate_spells (.last milliseconds) _ rfl
      exact ⟨alike_self hspells.1, rfl⟩
    | between lower upper => cases hshape
  | between lower upper =>
    cases other with
    | last milliseconds => cases hshape
    | between lower' upper' =>
      obtain ⟨hlower, hupper⟩ := TimeWindow.between.inj hshape
      have hge : LexesOpen "@SystemTime >= ".toList
          [.sym '@', .word systemTimeName, .rel .ge] := fun _ => rfl
      have hle : LexesOpen "@SystemTime <= ".toList
          [.sym '@', .word systemTimeName, .rel .le] := fun _ => rfl
      rw [timePredicate] at h h'
      obtain ⟨least, hl, h⟩ := bind_ok.mp h
      obtain ⟨greatest, hu, h⟩ := bind_ok.mp h
      obtain ⟨least', hl', h'⟩ := bind_ok.mp h'
      obtain ⟨greatest', hu', h'⟩ := bind_ok.mp h'
      have hboth : List.Forall₂ Alike (least ++ greatest) (least' ++ greatest') :=
        List.rel_append (bound_alike hge hlower hl hl') (bound_alike hle hupper hu hu')
      generalize least ++ greatest = ss at h hboth
      generalize least' ++ greatest' = ss' at h' hboth
      cases hboth with
      | nil =>
        cases h
        cases h'
        exact ⟨.nil, rfl⟩
      | @cons s s' ss ss' hs hrest =>
        rw [if_neg (List.cons_ne_nil _ _)] at h h'
        cases h
        cases h'
        have hname : timeCreatedName.all isWordChar = true := by decide
        have hand : LexesOpen (' ' :: "and".toList ++ [' ']) [.word "and".toList] := fun _ => rfl
        refine ⟨.cons (.child (by decide) hname (.joins hand hs hrest)) .nil, ?_⟩
        have hlength : (s :: ss).length = (s' :: ss').length := congrArg (· + 1) hrest.length_eq
        exact congrArg some hlength

namespace SameButValues

variable {filter other : EventQueryFilter}

theorem timeClauses_alike (hsame : SameButValues filter other) {ss ss' : List Text}
    (h : filter.timeClauses = .ok ss) (h' : other.timeClauses = .ok ss') :
    List.Forall₂ Alike ss ss' ∧ filter.timeCost = other.timeCost := by
  have hshape := hsame.time
  rw [EventQueryFilter.timeClauses] at h h'
  rw [EventQueryFilter.timeCost, EventQueryFilter.timeCost]
  cases ht : filter.time with
  | none =>
    rw [ht] at h hshape
    cases ho : other.time with
    | none =>
      rw [ho] at h'
      cases h
      cases h'
      exact ⟨.nil, rfl⟩
    | some window' =>
      rw [ho] at hshape
      cases hshape
  | some window =>
    rw [ht] at h hshape
    cases ho : other.time with
    | none =>
      rw [ho] at hshape
      cases hshape
    | some window' =>
      rw [ho] at h' hshape
      obtain ⟨p, hp, h⟩ := bind_ok.mp h
      cases pure_ok.mp h
      obtain ⟨p', hp', h'⟩ := bind_ok.mp h'
      cases pure_ok.mp h'
      obtain ⟨halike, hcost⟩ := timePredicate_alike (Option.some.inj hshape) hp hp'
      refine ⟨halike, ?_⟩
      simp only [hp, hp']
      cases p with
      | none => cases p' with
        | none => rfl
        | some p' => cases hcost
      | some p => cases p' with
        | none => cases hcost
        | some p' => exact Option.some.inj hcost

theorem providerTexts_alike {mode : SelectorMode} : ∀ {names others ss ss' : List Text},
    names.length = others.length → names.mapM (providerText mode) = .ok ss →
      others.mapM (providerText mode) = .ok ss' → List.Forall₂ Alike ss ss'
  | [], [], ss, ss', _, h, h' => by
    cases pure_ok.mp h
    cases pure_ok.mp h'
    exact .nil
  | [], _ :: _, _, _, hlength, _, _ => by cases hlength
  | _ :: _, [], _, _, hlength, _, _ => by cases hlength
  | name :: names, other :: others, ss, ss', hlength, h, h' => by
    have hopen : ∀ {s s' : Text}, providerText mode name = .ok s →
        providerText mode other = .ok s' → Alike s s' := by
      intro s s' hs hs'
      obtain ⟨q, hq, hs⟩ := bind_ok.mp hs
      cases pure_ok.mp hs
      obtain ⟨q', hq', hs'⟩ := bind_ok.mp hs'
      cases pure_ok.mp hs'
      cases mode with
      | inclusion =>
        have ho : LexesOpen ("@Name".toList ++ "=".toList) [.sym '@', .word nameName, .rel .eq] :=
          fun _ => rfl
        exact .of_literals ho (lexesOpen_quoteLiteral hq) (lexesOpen_quoteLiteral hq')
      | exclusion =>
        have ho : LexesOpen ("@Name".toList ++ "!=".toList) [.sym '@', .word nameName, .rel .ne] :=
          fun _ => rfl
        exact .of_literals ho (lexesOpen_quoteLiteral hq) (lexesOpen_quoteLiteral hq')
    rw [List.mapM_cons] at h h'
    obtain ⟨s, hs, h⟩ := bind_ok.mp h
    obtain ⟨rest, hrest, h⟩ := bind_ok.mp h
    cases pure_ok.mp h
    obtain ⟨s', hs', h'⟩ := bind_ok.mp h'
    obtain ⟨rest', hrest', h'⟩ := bind_ok.mp h'
    cases pure_ok.mp h'
    exact .cons (hopen hs hs') (providerTexts_alike (Nat.succ.inj hlength) hrest hrest')

theorem providerClauses_alike (hsame : SameButValues filter other) {ss ss' : List Text}
    (h : filter.providerClauses = .ok ss) (h' : other.providerClauses = .ok ss') :
    List.Forall₂ Alike ss ss' := by
  have hlength := hsame.providers
  rw [EventQueryFilter.providerClauses] at h h'
  rw [← hsame.providerMode] at h'
  have hnil : filter.distinctProviders = [] ↔ other.distinctProviders = [] := by
    rw [← List.length_eq_zero_iff, ← List.length_eq_zero_iff, hlength]
  by_cases hnames : filter.distinctProviders = []
  · rw [if_pos hnames] at h
    rw [if_pos (hnil.mp hnames)] at h'
    cases h
    cases h'
    exact .nil
  · rw [if_neg hnames] at h
    rw [if_neg fun hn => hnames (hnil.mpr hn)] at h'
    obtain ⟨texts, htexts, h⟩ := bind_ok.mp h
    cases pure_ok.mp h
    obtain ⟨texts', htexts', h'⟩ := bind_ok.mp h'
    cases pure_ok.mp h'
    have hall := providerTexts_alike hlength htexts htexts'
    have hname : providerName.all isWordChar = true := by decide
    have hor : LexesOpen (' ' :: "or".toList ++ [' ']) [.word "or".toList] := fun _ => rfl
    have hand : LexesOpen (' ' :: "and".toList ++ [' ']) [.word "and".toList] := fun _ => rfl
    cases hall with
    | nil =>
      have htests := (providerTexts_spells htexts).length_eq
      rw [List.length_map] at htests
      exact absurd (List.length_eq_zero_iff.mp htests.symm) hnames
    | cons hs hrest =>
      cases filter.providerMode with
      | inclusion => exact .cons (.child (by decide) hname (.joins hor hs hrest)) .nil
      | exclusion => exact .cons (.child (by decide) hname (.joins hand hs hrest)) .nil

theorem systemPredicates_alike (hsame : SameButValues filter other)
    {eventIds : List EventIdSelector} {ss ss' : List Text}
    (h : filter.systemPredicates eventIds = .ok ss)
    (h' : other.systemPredicates eventIds = .ok ss') : List.Forall₂ Alike ss ss' := by
  obtain ⟨time, ht, h⟩ := bind_ok.mp h
  obtain ⟨providers, hp, h⟩ := bind_ok.mp h
  cases pure_ok.mp h
  obtain ⟨time', ht', h'⟩ := bind_ok.mp h'
  obtain ⟨providers', hp', h'⟩ := bind_ok.mp h'
  cases pure_ok.mp h'
  have hlevels : other.levelClauses = filter.levelClauses := by
    rw [EventQueryFilter.levelClauses, EventQueryFilter.levelClauses,
      EventQueryFilter.distinctLevels, EventQueryFilter.distinctLevels, hsame.levels]
  have hids : other.eventIdClauses eventIds = filter.eventIdClauses eventIds := by
    rw [EventQueryFilter.eventIdClauses, EventQueryFilter.eventIdClauses, hsame.eventIdMode]
  have hkeywords : other.keywordClauses = filter.keywordClauses := by
    rw [EventQueryFilter.keywordClauses, EventQueryFilter.keywordClauses, hsame.keywords]
  rw [hlevels, hids, hkeywords]
  exact List.rel_append (List.rel_append (List.rel_append (List.rel_append
    (hsame.timeClauses_alike ht ht').1 (alike_self (levelClauses_spells filter)))
    (alike_self (eventIdClauses_spells filter eventIds))) (hsame.providerClauses_alike hp hp'))
    (alike_self (keywordClauses_spells filter))

theorem selectBody_alike (hsame : SameButValues filter other) {eventIds : List EventIdSelector}
    {s s' : Text} (h : filter.selectBody eventIds = .ok s)
    (h' : other.selectBody eventIds = .ok s') : Alike s s' := by
  obtain ⟨ss, hss, h⟩ := bind_ok.mp h
  obtain ⟨ss', hss', h'⟩ := bind_ok.mp h'
  have hstar : (['*'] : Text).all isWordChar = true := by decide
  have hand : LexesOpen (' ' :: "and".toList ++ [' ']) [.word "and".toList] := fun _ => rfl
  cases hsame.systemPredicates_alike hss hss' with
  | nil =>
    cases pure_ok.mp h
    cases pure_ok.mp h'
    have hall := lexes_word (List.cons_ne_nil '*' []) hstar
    exact ⟨_, _, hall, hall, rfl⟩
  | cons hs hrest =>
    rw [if_neg (List.cons_ne_nil _ _)] at h h'
    cases pure_ok.mp h
    cases pure_ok.mp h'
    rw [body_text, body_text]
    exact .child (by decide) hstar (.child (by decide) (by decide) (.joins hand hs hrest))

end SameButValues

/-! ## Values that cannot be written -/

/-- What is refused, if it is, for one of the values that no literal can hold. -/
def RefusedFor {α : Type} (values : List Text) : Except QueryBuildError α → Prop
  | .ok _    => ∀ v ∈ values, quotable v = true
  | .error e => ∃ v ∈ values, quotable v = false ∧ e = .unquotableValue v

namespace RefusedFor

variable {α β : Type} {values more : List Text}

theorem bind {x : Except QueryBuildError α} {f : α → Except QueryBuildError β}
    (hx : RefusedFor values x) (hf : ∀ a, x = .ok a → RefusedFor more (f a)) :
    RefusedFor (values ++ more) (x >>= f) := by
  cases x with
  | error e =>
    obtain ⟨v, hv, hnot, he⟩ := hx
    exact ⟨v, List.mem_append_left _ hv, hnot, he⟩
  | ok a =>
    have hfa := hf a rfl
    show RefusedFor (values ++ more) (f a)
    cases h : f a with
    | error e =>
      rw [h] at hfa
      obtain ⟨v, hv, hnot, he⟩ := hfa
      exact ⟨v, List.mem_append_right _ hv, hnot, he⟩
    | ok b =>
      rw [h] at hfa
      intro v hv
      exact (List.mem_append.mp hv).elim (hx v) (hfa v)

theorem map {x : Except QueryBuildError α} {f : α → Except QueryBuildError β}
    (hx : RefusedFor values x) (hf : ∀ a, ∃ b, f a = .ok b) : RefusedFor values (x >>= f) := by
  have hnone : ∀ a, x = .ok a → RefusedFor [] (f a) := by
    intro a _
    obtain ⟨b, hb⟩ := hf a
    rw [hb]
    exact List.forall_mem_nil _
  have hall := hx.bind hnone
  rwa [List.append_nil] at hall

theorem of_mem {x : Except QueryBuildError α} (hx : RefusedFor values x)
    (hmem : ∀ v, v ∈ values ↔ v ∈ more) : RefusedFor more x := by
  cases x with
  | error e =>
    obtain ⟨v, hv, hnot, he⟩ := hx
    exact ⟨v, (hmem v).mp hv, hnot, he⟩
  | ok a => exact fun v hv => hx v ((hmem v).mpr hv)

end RefusedFor

theorem quoteLiteral_refused (value : Text) : RefusedFor [value] (quoteLiteral value) := by
  have hquotable := quoteLiteral_quotable value
  cases h : quoteLiteral value with
  | ok q =>
    rw [h] at hquotable
    exact fun v hv => List.mem_singleton.mp hv ▸ hquotable
  | error e =>
    rw [h] at hquotable
    exact ⟨value, List.mem_singleton_self value, hquotable⟩

theorem bound_refused (opening : Text) (value : Option Text) :
    RefusedFor value.toList (bound opening value) := by
  cases value with
  | none => exact List.forall_mem_nil _
  | some value => exact (quoteLiteral_refused value).map fun _ => ⟨_, rfl⟩

theorem timePredicate_refused (window : TimeWindow) :
    RefusedFor window.values (timePredicate window) := by
  cases window with
  | last milliseconds => exact List.forall_mem_nil _
  | between lower upper =>
    refine (bound_refused "@SystemTime >= ".toList lower).bind fun least _ => ?_
    refine (bound_refused "@SystemTime <= ".toList upper).map fun greatest => ?_
    dsimp only
    split_ifs
    · exact ⟨_, rfl⟩
    · exact ⟨_, rfl⟩

theorem timeClauses_refused (filter : EventQueryFilter) :
    RefusedFor ((filter.time.map TimeWindow.values).getD []) filter.timeClauses := by
  rw [timeClauses]
  cases filter.time with
  | none => exact List.forall_mem_nil _
  | some window => exact (timePredicate_refused window).map fun _ => ⟨_, rfl⟩

theorem providerTexts_refused (mode : SelectorMode) (names : List Text) :
    RefusedFor names (names.mapM (providerText mode)) := by
  induction names with
  | nil => exact List.forall_mem_nil _
  | cons name names ih =>
    have hname : RefusedFor [name] (providerText mode name) :=
      (quoteLiteral_refused name).map fun _ => ⟨_, rfl⟩
    rw [List.mapM_cons]
    exact hname.bind fun _ _ => ih.map fun _ => ⟨_, rfl⟩

theorem providerClauses_refused (filter : EventQueryFilter) :
    RefusedFor filter.distinctProviders filter.providerClauses := by
  rw [providerClauses]
  by_cases hnames : filter.distinctProviders = []
  · rw [if_pos hnames, hnames]
    exact List.forall_mem_nil _
  · rw [if_neg hnames]
    exact (providerTexts_refused _ _).map fun _ => ⟨_, rfl⟩

theorem selectBody_refused (filter : EventQueryFilter) (eventIds : List EventIdSelector) :
    RefusedFor filter.values (filter.selectBody eventIds) := by
  have hpredicates : RefusedFor filter.values (filter.systemPredicates eventIds) :=
    filter.timeClauses_refused.bind fun _ _ => filter.providerClauses_refused.map fun _ => ⟨_, rfl⟩
  refine hpredicates.map fun predicates => ?_
  split_ifs
  · exact ⟨_, rfl⟩
  · exact ⟨_, rfl⟩

theorem splitNodes_refused (filter : EventQueryFilter) :
    ∀ {chunks : List (List EventIdSelector)} {id : Nat}, chunks ≠ [] →
      RefusedFor filter.values (filter.splitNodes id chunks)
  | [], _, h => absurd rfl h
  | [chunk], id, _ => (filter.selectBody_refused chunk).map fun _ => ⟨_, rfl⟩
  | chunk :: next :: chunks, id, _ => by
    have hrest : RefusedFor filter.values (filter.splitNodes (id + 1) (next :: chunks)) :=
      splitNodes_refused filter (List.cons_ne_nil next chunks)
    have hall : RefusedFor (filter.values ++ filter.values)
        (filter.splitNodes id (chunk :: next :: chunks)) :=
      (filter.selectBody_refused chunk).bind fun _ _ => hrest.map fun _ => ⟨_, rfl⟩
    exact hall.of_mem fun v => by rw [List.mem_append, or_self]

/-! ## The expressions of a built query -/

def nodeIds (filter : EventQueryFilter) : List (List EventIdSelector) :=
  if filter.overBudget then
    match filter.eventIdMode with
    | .inclusion => chunkByExpressionBudget filter.eventIds filter.fixedExpressionCost
    | .exclusion => [[]]
  else [filter.eventIds]

def suppressedIds (filter : EventQueryFilter) : List (List EventIdSelector) :=
  if filter.overBudget then
    match filter.eventIdMode with
    | .inclusion => []
    | .exclusion => chunkByExpressionBudget filter.eventIds 0
  else []

def suppressionBody (chunk : List EventIdSelector) : Text :=
  "*[System[(".toList ++ joinOr (chunk.map fun selector => selector.predicate .inclusion) ++
    ")]]".toList

theorem nodeIds_ne_nil (filter : EventQueryFilter) : filter.nodeIds ≠ [] := by
  rw [nodeIds]
  cases hover : filter.overBudget with
  | false => exact List.cons_ne_nil _ _
  | true =>
    rw [if_pos rfl]
    cases filter.eventIdMode with
    | exclusion => exact List.cons_ne_nil _ _
    | inclusion =>
      intro hnone
      have hids : filter.eventIds = [] := by
        rw [← List.nil_append filter.eventIds, ← chunkFrom_flatten
          (maxExpressionsPerSelect - filter.fixedExpressionCost) filter.eventIds [] 0]
        exact congrArg List.flatten hnone
      rw [overBudget, hids] at hover
      cases hover

theorem suppressedIds_ne_nil {filter : EventQueryFilter} {chunk : List EventIdSelector}
    (h : chunk ∈ filter.suppressedIds) : chunk ≠ [] := by
  rw [suppressedIds] at h
  split_ifs at h
  · cases hmode : filter.eventIdMode with
    | inclusion =>
      rw [hmode] at h
      cases h
    | exclusion =>
      rw [hmode] at h
      exact chunkFrom_ne_nil _ _ _ _ chunk h
  · cases h

theorem marks_suppression (chunk : List EventIdSelector) :
    Marks (suppression chunk)
      [.start .suppress, .data (suppressionBody chunk), .stop .suppress] := by
  have hne : suppressionBody chunk ≠ [] := by
    unfold suppressionBody
    simp only [ne_eq, List.append_eq_nil_iff, not_and]
    exact fun h => by cases h.1
  have hall := marks_suppress hne
  unfold suppressionBody at hall ⊢
  unfold suppression
  exact hall

theorem suppressionBody_literals {chunk : List EventIdSelector} (hne : chunk ≠ []) :
    literals (lex (suppressionBody chunk)) = [] := by
  obtain ⟨body, e, hmarks, hread, hs⟩ := suppression_reads hne
  have hsame := hmarks.lex.symm.trans (marks_suppression chunk).lex
  cases hsame
  rw [readSelection_literals hread]
  exact literals_suppressed chunk e (hs ▸ List.mem_singleton_self e)

theorem marks_suppressions (chunks : List (List EventIdSelector)) :
    ∃ ms, Marks (chunks.map suppression).flatten ms ∧ ∀ rest,
      bodies (ms ++ rest) =
        chunks.map (fun chunk => (.suppress, suppressionBody chunk)) ++ bodies rest := by
  induction chunks with
  | nil => exact ⟨[], fun _ => rfl, fun _ => rfl⟩
  | cons chunk chunks ih =>
    obtain ⟨ms, hms, hbodies⟩ := ih
    refine ⟨_, (marks_suppression chunk).append hms, fun rest => ?_⟩
    rw [List.append_assoc, bodies_suppress, hbodies, List.map_cons, List.cons_append]

theorem marks_splitNodes {filter : EventQueryFilter} : ∀ {chunks : List (List EventIdSelector)}
    {id : Nat} {t : Text}, filter.splitNodes id chunks = .ok t →
      ∃ ms ss, Marks t ms ∧ List.Forall₂ (fun ids s => filter.selectBody ids = .ok s) chunks ss ∧
        ∀ rest, bodies (ms ++ rest) = ss.map (Prod.mk .select) ++ bodies rest
  | [], id, t, h => by
    cases h
    exact ⟨[], [], fun _ => rfl, .nil, fun _ => rfl⟩
  | chunk :: chunks, id, t, h => by
    obtain ⟨body, hbody, h⟩ := bind_ok.mp h
    obtain ⟨nodes, hnodes, h⟩ := bind_ok.mp h
    cases pure_ok.mp h
    obtain ⟨ms, ss, hms, hss, hbodies⟩ := marks_splitNodes hnodes
    have hstop : Marks "</Query>".toList [.stop .query] :=
      @marks_named "/Query".toList _ (by decide) rfl
    have hall := (((marks_query id).append (marks_select (selectBody_ne_nil hbody))).append
      hstop).append hms
    refine ⟨[.start .query] ++ ([.start .select, .data body, .stop .select] ++
      ([.stop .query] ++ ms)), body :: ss, ?_, .cons hbody hss, fun rest => ?_⟩
    · have hopen : "\"><Select>".toList = "\">".toList ++ "<Select>".toList := rfl
      have hclose : "</Select></Query>".toList = "</Select>".toList ++ "</Query>".toList := rfl
      rw [hopen, hclose]
      simpa only [List.append_assoc, List.cons_append, List.nil_append] using hall
    · have hclose : bodies ([.stop .query] ++ ms ++ rest) = bodies (ms ++ rest) := rfl
      rw [List.append_assoc]
      show bodies ([.start .select, .data body, .stop .select] ++ ([.stop .query] ++ ms) ++
        rest) = _
      rw [List.append_assoc, bodies_select, hclose, hbodies, List.map_cons, List.cons_append]

theorem expressions_list {body : Text} {ms : List Markup} (hms : Marks body ms) :
    expressions ("<QueryList>".toList ++ body ++ "</QueryList>".toList) =
      bodies (ms ++ [.stop .queryList]) := by
  have hopen : Marks "<QueryList>".toList [.start .queryList] :=
    @marks_named "QueryList".toList _ (by decide) rfl
  have hclose : Marks "</QueryList>".toList [.stop .queryList] :=
    @marks_named "/QueryList".toList _ (by decide) rfl
  have hall := ((hopen.append hms).append hclose).lex
  have hfirst : ("<QueryList>".toList ++ body ++ "</QueryList>".toList).head? = some '<' := rfl
  rw [expressions, if_pos hfirst, hall]
  rfl

theorem expressions_body {filter : EventQueryFilter} {eventIds : List EventIdSelector} {q : Text}
    (h : filter.selectBody eventIds = .ok q) : expressions q = [(.select, q)] := by
  rw [expressions, (selectBody_reads h).2, if_neg (by decide)]

theorem buildSuppressedQuery_expressions {filter : EventQueryFilter} {q : Text}
    (h : filter.buildSuppressedQuery = .ok q) :
    ∃ s, filter.selectBody [] = .ok s ∧ expressions q =
      (.select, s) :: (chunkByExpressionBudget filter.eventIds 0).map
        fun chunk => (.suppress, suppressionBody chunk) := by
  obtain ⟨selection, hsel, h⟩ := bind_ok.mp h
  cases pure_ok.mp h
  have hquery : Marks "<Query Id=\"0\">".toList [.start .query] :=
    @marks_named "Query Id=\"0\"".toList _ (by decide) rfl
  have hstop : Marks "</Query>".toList [.stop .query] :=
    @marks_named "/Query".toList _ (by decide) rfl
  obtain ⟨ms, hms, hbodies⟩ := marks_suppressions (chunkByExpressionBudget filter.eventIds 0)
  have hbody := ((hquery.append (marks_select (selectBody_ne_nil hsel))).append hms).append hstop
  refine ⟨selection, hsel, Eq.trans (congrArg expressions ?_) ((expressions_list hbody).trans ?_)⟩
  · have hopen : "<QueryList><Query Id=\"0\"><Select>".toList =
        "<QueryList>".toList ++ ("<Query Id=\"0\">".toList ++ "<Select>".toList) := rfl
    have hclose : "</Query></QueryList>".toList = "</Query>".toList ++ "</QueryList>".toList := rfl
    rw [hopen, hclose]
    simp only [List.append_assoc]
  · have hrest := hbodies [.stop .query, .stop .queryList]
    show bodies ([.start .select, .data selection, .stop .select] ++ ms ++ [.stop .query] ++
      [.stop .queryList]) = _
    rw [List.append_assoc, List.append_assoc, bodies_select]
    refine congrArg ((.select, selection) :: ·) (hrest.trans ?_)
    exact List.append_nil _

theorem selectBody_unfiltered {filter : EventQueryFilter} (h : filter.isUnfiltered = true) :
    filter.selectBody filter.eventIds = .ok ['*'] ∧ filter.eventIds = [] := by
  simp only [isUnfiltered, Bool.and_eq_true, Option.isNone_iff_eq_none, List.isEmpty_iff] at h
  obtain ⟨⟨⟨⟨ht, hl⟩, hi⟩, hp⟩, hk⟩ := h
  have hnames : filter.distinctProviders = [] := distinct_eq_nil.mpr hp
  have hlevels : filter.distinctLevels = [] := distinct_eq_nil.mpr hl
  refine ⟨?_, hi⟩
  rw [selectBody, systemPredicates, timeClauses, ht, providerClauses, if_pos hnames, levelClauses,
    if_pos hlevels, eventIdClauses, if_pos hi, keywordClauses, hk]
  rfl

/-- The selections of a built query are the bodies of its nodes, and what it suppresses stands
after them. -/
theorem buildQuery_expressions {filter : EventQueryFilter} {q : Text}
    (h : filter.buildQuery = .ok q) :
    ∃ ss, List.Forall₂ (fun ids s => filter.selectBody ids = .ok s) filter.nodeIds ss ∧
      expressions q = ss.map (Prod.mk .select) ++
        filter.suppressedIds.map fun chunk => (.suppress, suppressionBody chunk) := by
  rw [buildQuery] at h
  rw [nodeIds, suppressedIds]
  by_cases hun : filter.isUnfiltered = true
  · rw [if_pos hun] at h
    cases h
    obtain ⟨hbody, hids⟩ := selectBody_unfiltered hun
    have hover : ¬ filter.overBudget = true := by
      rw [overBudget, hids]
      exact Bool.false_ne_true
    rw [if_neg hover, if_neg hover]
    exact ⟨[['*']], .cons hbody .nil, expressions_body hbody⟩
  · rw [if_neg hun] at h
    simp only at h
    split_ifs at h with hbig hsup hsplit
    · obtain ⟨hover, hmode⟩ := Bool.and_eq_true_iff.mp hsup
      rw [if_pos (show filter.overBudget = true from hover),
        if_pos (show filter.overBudget = true from hover), beq_iff_eq.mp hmode]
      obtain ⟨s, hs, hq⟩ := buildSuppressedQuery_expressions h
      exact ⟨[s], .cons hs .nil, hq⟩
    · obtain ⟨hover, hmode⟩ := Bool.and_eq_true_iff.mp hsplit
      rw [if_pos (show filter.overBudget = true from hover),
        if_pos (show filter.overBudget = true from hover), beq_iff_eq.mp hmode]
      obtain ⟨nodes, hnodes, h⟩ := bind_ok.mp h
      cases pure_ok.mp h
      obtain ⟨ms, ss, hms, hss, hbodies⟩ := marks_splitNodes hnodes
      exact ⟨ss, hss, (expressions_list hms).trans (hbodies _)⟩
    · have hover : ¬ filter.overBudget = true := by
        intro hover
        have hboth : (!filter.eventIds.isEmpty && decide (maxExpressionsPerSelect <
            filter.fixedExpressionCost + (filter.eventIds.map
              EventIdSelector.expressionCost).sum)) = true := hover
        cases hm : filter.eventIdMode with
        | inclusion => exact hsplit (by rw [hboth, hm]; rfl)
        | exclusion => exact hsup (by rw [hboth, hm]; rfl)
      rw [if_neg hover, if_neg hover]
      exact ⟨[q], .cons h .nil, expressions_body h⟩

theorem values_unfiltered {filter : EventQueryFilter} (h : filter.isUnfiltered = true) :
    filter.values = [] := by
  simp only [isUnfiltered, Bool.and_eq_true, Option.isNone_iff_eq_none, List.isEmpty_iff] at h
  obtain ⟨⟨⟨⟨ht, -⟩, -⟩, hp⟩, -⟩ := h
  have hnames : filter.distinctProviders = [] := distinct_eq_nil.mpr hp
  rw [values, ht, hnames]
  rfl

theorem buildQuery_refused {filter : EventQueryFilter}
    (hfits : filter.fixedExpressionCost + filter.largestSelectorCost ≤ maxExpressionsPerSelect) :
    RefusedFor filter.values filter.buildQuery := by
  rw [buildQuery]
  by_cases hun : filter.isUnfiltered = true
  · rw [if_pos hun, values_unfiltered hun]
    exact List.forall_mem_nil _
  · rw [if_neg hun]
    simp only
    rw [if_neg (Nat.not_lt.mpr hfits)]
    split_ifs with hsup hsplit
    · exact (filter.selectBody_refused []).map fun _ => ⟨_, rfl⟩
    · have hnodes : chunkByExpressionBudget filter.eventIds filter.fixedExpressionCost ≠ [] := by
        have hnode := filter.nodeIds_ne_nil
        obtain ⟨hover, hmode⟩ := Bool.and_eq_true_iff.mp hsplit
        rw [nodeIds, if_pos (show filter.overBudget = true from hover),
          beq_iff_eq.mp hmode] at hnode
        exact hnode
      exact (filter.splitNodes_refused hnodes).map fun _ => ⟨_, rfl⟩
    · exact filter.selectBody_refused filter.eventIds

namespace SameButValues

variable {filter other : EventQueryFilter}

theorem fixedExpressionCost_eq (hsame : SameButValues filter other)
    (htime : filter.timeCost = other.timeCost) :
    other.fixedExpressionCost = filter.fixedExpressionCost := by
  rw [fixedExpressionCost, fixedExpressionCost, distinctLevels, distinctLevels, hsame.levels,
    hsame.providers, hsame.keywords, htime]

theorem nodes_eq (hsame : SameButValues filter other)
    (hcost : other.fixedExpressionCost = filter.fixedExpressionCost) :
    other.nodeIds = filter.nodeIds ∧ other.suppressedIds = filter.suppressedIds := by
  have hover : other.overBudget = filter.overBudget := by
    rw [overBudget, overBudget, hcost, hsame.eventIds]
  rw [nodeIds, nodeIds, suppressedIds, suppressedIds, hover, hcost, hsame.eventIds,
    hsame.eventIdMode]
  exact ⟨rfl, rfl⟩

end SameButValues

def blanked (e : Tag × Text) : Tag × List Token := (e.1, (lex e.2).map Token.blank)

theorem blanked_bodies {filter other : EventQueryFilter} (hsame : SameButValues filter other)
    {nodes : List (List EventIdSelector)} {ss ss' : List Text}
    (h : List.Forall₂ (fun ids s => filter.selectBody ids = .ok s) nodes ss)
    (h' : List.Forall₂ (fun ids s => other.selectBody ids = .ok s) nodes ss') :
    (ss'.map (Prod.mk Tag.select)).map blanked = (ss.map (Prod.mk Tag.select)).map blanked := by
  induction h generalizing ss' with
  | nil =>
    cases h'
    rfl
  | @cons ids s nodes ss hs _ ih =>
    cases h' with
    | cons hs' hrest =>
      have hblank := (hsame.selectBody_alike hs hs').blank_eq
      rw [List.map_cons, List.map_cons, List.map_cons, List.map_cons, ih hrest, blanked, blanked,
        hblank]

theorem literals_expressions {filter : EventQueryFilter} {nodes : List (List EventIdSelector)}
    {ss : List Text} (h : List.Forall₂ (fun ids s => filter.selectBody ids = .ok s) nodes ss) :
    ∀ s ∈ ss, literals (lex s) = filter.values := by
  induction h with
  | nil => exact List.forall_mem_nil _
  | cons hs _ ih => exact List.forall_mem_cons.mpr ⟨selectBody_literals hs, ih⟩

/-- The selections of a built query hold the values of the filter and the suppressions hold
none; other values that can be written change nothing but the literals; and a filter that is
not too complex is refused when one of its values cannot be written. -/
theorem buildQuery_literals (filter : EventQueryFilter) :
    (∀ q, filter.buildQuery = .ok q →
      (expressions q).map Prod.fst = filter.nodeIds.map (fun _ => Tag.select) ++
        filter.suppressedIds.map (fun _ => Tag.suppress) ∧
      (∀ e ∈ expressions q, literals (lex e.2) = if e.1 = .select then filter.values else []) ∧
      ∀ other, SameButValues filter other → (∀ v ∈ other.values, quotable v = true) →
        ∃ q', other.buildQuery = .ok q' ∧
          (expressions q').map blanked = (expressions q).map blanked) ∧
    ((∃ v ∈ filter.values, quotable v = false) →
      (∀ needed, filter.buildQuery ≠
        .error (.filterTooComplex needed maxExpressionsPerSelect)) →
      ∃ v ∈ filter.values, quotable v = false ∧
        filter.buildQuery = .error (.unquotableValue v)) := by
  refine ⟨fun q h => ?_, fun hvalue hbuilt => ?_⟩
  · obtain ⟨ss, hss, hq⟩ := buildQuery_expressions h
    refine ⟨?_, fun e he => ?_, fun other hsame hother => ?_⟩
    · have hselects : (ss.map (Prod.mk Tag.select)).map Prod.fst =
          filter.nodeIds.map fun _ => Tag.select := by
        rw [List.map_map, List.map_const', hss.length_eq]
        exact List.map_const'
      rw [hq, List.map_append, hselects, List.map_map]
      rfl
    · rw [hq] at he
      rcases List.mem_append.mp he with he | he
      · obtain ⟨s, hs, rfl⟩ := List.mem_map.mp he
        exact literals_expressions hss s hs
      · obtain ⟨chunk, hchunk, rfl⟩ := List.mem_map.mp he
        exact suppressionBody_literals (suppressedIds_ne_nil hchunk)
    · obtain ⟨⟨time, htime⟩, hfits⟩ := buildQuery_fits h
      have htimes := other.timeClauses_refused
      cases htime' : other.timeClauses with
      | error e =>
        rw [htime'] at htimes
        obtain ⟨v, hv, hnot, -⟩ := htimes
        rw [hother v (List.mem_append_left _ hv)] at hnot
        cases hnot
      | ok time' =>
        have hcost := hsame.fixedExpressionCost_eq (hsame.timeClauses_alike htime htime').2
        have hlargest : other.largestSelectorCost = filter.largestSelectorCost := by
          rw [largestSelectorCost, largestSelectorCost, hsame.eventIds]
        rw [← hcost, ← hlargest] at hfits
        have hrefused := buildQuery_refused hfits
        cases h' : other.buildQuery with
        | error e =>
          rw [h'] at hrefused
          obtain ⟨v, hv, hnot, -⟩ := hrefused
          rw [hother v hv] at hnot
          cases hnot
        | ok q' =>
          obtain ⟨ss', hss', hq'⟩ := buildQuery_expressions h'
          obtain ⟨hnodes, hsuppressed⟩ := hsame.nodes_eq hcost
          rw [hnodes] at hss'
          refine ⟨q', rfl, ?_⟩
          rw [hq, hq', hsuppressed, List.map_append, List.map_append,
            blanked_bodies hsame hss hss']
  · have hfits := Nat.not_lt.mp fun hbig =>
      (buildQuery_tooComplex filter).mpr hbig |>.elim fun needed hn => hbuilt needed hn
    have hrefused := buildQuery_refused hfits
    cases h : filter.buildQuery with
    | ok q =>
      rw [h] at hrefused
      obtain ⟨v, hv, hnot⟩ := hvalue
      rw [hrefused v hv] at hnot
      cases hnot
    | error e =>
      rw [h] at hrefused
      obtain ⟨v, hv, hnot, he⟩ := hrefused
      exact ⟨v, hv, hnot, congrArg Except.error he⟩

/-- A suppression holds no literal, whatever the filter's values are. -/
theorem buildQuery_suppression_literals :
    ¬ ∀ (filter : EventQueryFilter) (q : Text), filter.buildQuery = .ok q →
      ∀ e ∈ expressions q, ∀ v, v ∈ literals (lex e.2) ↔ v ∈ filter.values := by
  intro h
  have hbuilt : ((buildQuery
      { eventIds := (List.range 21).map .single, eventIdMode := .exclusion,
        providers := ["Agent".toList] }).toOption.map fun q =>
          (expressions q).map fun e => literals (lex e.2)) =
        some [["Agent".toList], [], []] := by
    decide +kernel
  obtain ⟨q, hq, hliterals⟩ := Option.map_eq_some_iff.mp hbuilt
  have hnone : [] ∈ (expressions q).map fun e => literals (lex e.2) := by
    rw [hliterals]
    exact List.mem_cons_of_mem _ (List.mem_cons_self ..)
  obtain ⟨e, he, hempty⟩ := List.mem_map.mp hnone
  cases hbuild : buildQuery
      { eventIds := (List.range 21).map .single, eventIdMode := .exclusion,
        providers := ["Agent".toList] } with
  | error e =>
    rw [hbuild] at hq
    cases hq
  | ok q' =>
    rw [hbuild] at hq
    cases hq
    have hagent := (h _ q hbuild e he "Agent".toList).mpr (by decide +kernel)
    rw [hempty] at hagent
    cases hagent

end EventQueryFilter

end EventQuery
end CmTrace
