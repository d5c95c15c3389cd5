import CmTrace.EventQuery.Build
import CmTrace.XPath.Semantics

/-!
# How a built query reads

Every text `buildQuery` returns is read back as the query it was meant to be:
`reading` says which, shape by shape.  What a query selects and how many
comparisons it has are then questions about `reading`, not about text.
-/

namespace CmTrace
namespace EventQuery

open Text XPath

def eventIdName : Text := "EventID".toList

/-- A comparison of the event id with a number. -/
def eventIdTest (r : Relation) (n : Nat) : Expr :=
  .test (.compare (.element eventIdName) r (.number n))

/-- The form a selector is written in: the bounds of a range in order, and a
range of one id as that id. -/
def EventIdSelector.written : EventIdSelector → EventIdSelector
  | .single id => .single id
  | .range low high => if low = high then .single low else .range (min low high) (max low high)

def EventIdSelector.writtenExpr (mode : SelectorMode) : EventIdSelector → Expr
  | .single id => eventIdTest (match mode with | .inclusion => .eq | .exclusion => .ne) id
  | .range low high =>
    match mode with
    | .inclusion => .group (.conj (eventIdTest .ge low) (eventIdTest .le high))
    | .exclusion => .group (.disj (eventIdTest .lt low) (eventIdTest .gt high))

def EventIdSelector.expr (mode : SelectorMode) (selector : EventIdSelector) : Expr :=
  selector.written.writtenExpr mode

theorem range_text (a b x y sep : Text) :
    '(' :: a ++ x ++ (sep ++ b) ++ y ++ [')'] = '(' :: join sep [a ++ x, b ++ y] ++ [')'] := by
  simp only [join, List.cons_append, List.append_assoc]

theorem spells_equality (mode : SelectorMode) (id : Nat) :
    Spells .primary (EventIdSelector.equality mode id)
      ((EventIdSelector.single id).writtenExpr mode) := by
  cases mode with
  | inclusion =>
    have ho : LexesOpen "EventID=".toList [.word eventIdName, .rel .eq] := fun _ => rfl
    exact spells_number ho id
  | exclusion =>
    have ho : LexesOpen "EventID!=".toList [.word eventIdName, .rel .ne] := fun _ => rfl
    exact spells_number ho id

theorem spells_range (low high : Nat) :
    Spells .primary ("(EventID >= ".toList ++ decimal low ++ " and EventID <= ".toList ++
      decimal high ++ [')']) (.group (.conj (eventIdTest .ge low) (eventIdTest .le high))) := by
  have hge : LexesOpen "EventID >= ".toList [.word eventIdName, .rel .ge] := fun _ => rfl
  have hle : LexesOpen "EventID <= ".toList [.word eventIdName, .rel .le] := fun _ => rfl
  have hboth := spells_group (spells_disj
    (spells_join_and (spells_number hge low) (.cons (spells_number hle high) .nil)))
  rw [← range_text] at hboth
  exact hboth

theorem spells_outside (low high : Nat) :
    Spells .primary ("(EventID < ".toList ++ decimal low ++ " or EventID > ".toList ++
      decimal high ++ [')']) (.group (.disj (eventIdTest .lt low) (eventIdTest .gt high))) := by
  have hlt : LexesOpen "EventID < ".toList [.word eventIdName, .rel .lt] := fun _ => rfl
  have hgt : LexesOpen "EventID > ".toList [.word eventIdName, .rel .gt] := fun _ => rfl
  have hboth := spells_group
    (spells_join_or (spells_number hlt low) (.cons (spells_number hgt high) .nil))
  rw [← range_text] at hboth
  exact hboth

theorem ordered_eq (low high : Nat) :
    EventIdSelector.ordered low high = (min low high, max low high) := by
  unfold EventIdSelector.ordered
  split <;> simp only [Prod.mk.injEq] <;> omega

theorem spells_span (mode : SelectorMode) (low high : Nat) :
    Spells .primary (EventIdSelector.span mode low high)
      ((EventIdSelector.range low high).writtenExpr mode) := by
  cases mode with
  | inclusion => exact spells_range low high
  | exclusion => exact spells_outside low high

theorem spells_predicate (mode : SelectorMode) (selector : EventIdSelector) :
    Spells .primary (selector.predicate mode) (selector.expr mode) := by
  cases selector with
  | single id => exact spells_equality mode id
  | range low high =>
    rw [EventIdSelector.predicate, EventIdSelector.expr, EventIdSelector.written, ordered_eq]
    by_cases heq : low = high
    · rw [if_pos heq, if_pos heq]
      exact spells_equality mode low
    · rw [if_neg heq, if_neg heq]
      exact spells_span mode (min low high) (max low high)

theorem lexesOpen_quoteLiteral {value q : Text} (h : quoteLiteral value = .ok q) :
    LexesOpen q [.literal value] := by
  rw [quoteLiteral] at h
  by_cases hs : value.contains '\'' = true
  · rw [if_neg (not_not_intro hs)] at h
    by_cases hd : value.contains '"' = true
    · rw [if_neg (not_not_intro hd)] at h
      cases h
    · rw [if_pos hd] at h
      cases h
      exact lexesOpen_literal (.inr rfl) (by simpa using hd)
  · rw [if_pos hs] at h
    cases h
    exact lexesOpen_literal (.inl rfl) (by simpa using hs)

/-- Nothing for no expressions, else one expression around all of them. -/
def around (wrap : Expr → Expr) (joined : Expr → List Expr → Expr) : List Expr → List Expr
  | [] => []
  | e :: es => [wrap (joined e es)]

theorem spells_around_or {ss : List Text} {es : List Expr}
    (h : List.Forall₂ (Spells .primary) ss es) :
    List.Forall₂ (Spells .primary) (if ss = [] then [] else [joinOr ss]) (around .group disjList es) := by
  cases h with
  | nil => exact .nil
  | cons h hs => exact .cons (spells_group (spells_join_or h hs)) .nil

theorem spells_around_and {ss : List Text} {es : List Expr}
    (h : List.Forall₂ (Spells .primary) ss es) :
    List.Forall₂ (Spells .primary) (if ss = [] then [] else [joinAnd ss])
      (around .group conjList es) := by
  cases h with
  | nil => exact .nil
  | cons h hs => exact .cons (spells_group (spells_disj (spells_join_and h hs))) .nil

def timeCreatedName : Text := "TimeCreated".toList
def systemTimeName : Text := "SystemTime".toList
def providerName : Text := "Provider".toList
def nameName : Text := "Name".toList

def boundExprs (r : Relation) : Option Text → List Expr
  | none => []
  | some value => [.test (.compare (.attribute systemTimeName) r (.literal value))]

def windowExprs : TimeWindow → List Expr
  | .last milliseconds =>
    [.child timeCreatedName (.test (.compare (.timediff systemTimeName) .le (.number milliseconds)))]
  | .between lower upper =>
    around (.child timeCreatedName) conjList (boundExprs .ge lower ++ boundExprs .le upper)

theorem spells_bound {opening : Text} {r : Relation}
    (ho : LexesOpen opening [.sym '@', .word systemTimeName, .rel r]) {value : Option Text}
    {ss : List Text} (h : bound opening value = .ok ss) :
    List.Forall₂ (Spells .primary) ss (boundExprs r value) := by
  cases value with
  | none => cases h; exact .nil
  | some value =>
    obtain ⟨q, hq, h⟩ := bind_ok.mp h
    cases pure_ok.mp h
    exact .cons (spells_literal ho (lexesOpen_quoteLiteral hq)) .nil

/-- A window that can be written is one clause or none, and its cost is the
comparisons it reads as. -/
theorem timePredicate_spells {window : TimeWindow} {p : Option Predicate}
    (h : timePredicate window = .ok p) :
    List.Forall₂ (Spells .primary) (p.toList.map Predicate.clause) (windowExprs window) ∧
      (p.toList.map Predicate.expressions).sum =
        ((windowExprs window).map Expr.comparisons).sum := by
  have hname : timeCreatedName.all isWordChar = true := by decide
  have hne : timeCreatedName ≠ [] := by decide
  cases window with
  | last milliseconds =>
    cases h
    have ho : LexesOpen "timediff(@SystemTime) <= ".toList
        [.word "timediff".toList, .sym '(', .sym '@', .word systemTimeName, .sym ')', .rel .le] :=
      fun _ => rfl
    exact ⟨.cons (spells_child hne hname
      (spells_disj (spells_conj (spells_timediff ho milliseconds)))) .nil, rfl⟩
  | between lower upper =>
    rw [timePredicate] at h
    obtain ⟨least, hl, h⟩ := bind_ok.mp h
    obtain ⟨greatest, hu, h⟩ := bind_ok.mp h
    have hge : LexesOpen "@SystemTime >= ".toList
        [.sym '@', .word systemTimeName, .rel .ge] := fun _ => rfl
    have hle : LexesOpen "@SystemTime <= ".toList
        [.sym '@', .word systemTimeName, .rel .le] := fun _ => rfl
    have hboth : List.Forall₂ (Spells .primary) (least ++ greatest)
        (boundExprs .ge lower ++ boundExprs .le upper) :=
      List.rel_append (spells_bound hge hl) (spells_bound hle hu)
    rw [windowExprs]
    have hones : (boundExprs .ge lower ++ boundExprs .le upper).map Expr.comparisons =
        (boundExprs .ge lower ++ boundExprs .le upper).map fun _ => 1 := by
      cases lower <;> cases upper <;> rfl
    generalize hes : boundExprs .ge lower ++ boundExprs .le upper = es at hboth hones ⊢
    generalize hss : least ++ greatest = ss at h hboth
    cases hboth with
    | nil =>
      cases h
      exact ⟨.nil, rfl⟩
    | @cons s e ss es hse hs =>
      rw [if_neg (by simp)] at h
      cases h
      refine ⟨.cons (spells_child hne hname (spells_disj (spells_join_and hse hs))) .nil, ?_⟩
      simp only [Option.toList_some, List.map_cons, List.map_nil, List.sum_cons, List.sum_nil,
        around, Expr.comparisons, comparisons_conjList]
      have hsum : ((e :: es).map Expr.comparisons).sum = (e :: es).length := by
        rw [hones, List.map_const', List.sum_replicate_nat, Nat.mul_one]
      simp only [List.map_cons, List.sum_cons, List.length_cons] at hsum
      rw [List.length_cons, hs.length_eq, hsum]

namespace EventQueryFilter

def timeExprs (filter : EventQueryFilter) : List Expr :=
  match filter.time with
  | none => []
  | some window => windowExprs window

def levelTest (level : Nat) : Expr :=
  .test (.compare (.element "Level".toList) .eq (.number level))

def levelExprs (filter : EventQueryFilter) : List Expr :=
  around .group disjList (filter.distinctLevels.map levelTest)

def eventIdExprs (filter : EventQueryFilter) (eventIds : List EventIdSelector) : List Expr :=
  around .group (match filter.eventIdMode with | .inclusion => disjList | .exclusion => conjList)
    (eventIds.map (EventIdSelector.expr filter.eventIdMode))

def providerTest (mode : SelectorMode) (name : Text) : Expr :=
  .test (.compare (.attribute nameName)
    (match mode with | .inclusion => .eq | .exclusion => .ne) (.literal name))

def providerExprs (filter : EventQueryFilter) : List Expr :=
  around (.child providerName)
    (match filter.providerMode with | .inclusion => disjList | .exclusion => conjList)
    (filter.distinctProviders.map (providerTest filter.providerMode))

def keywordExprs (filter : EventQueryFilter) : List Expr :=
  match filter.keywords with
  | some keywords => [.test (.band "Keywords".toList keywords)]
  | none => []

def systemExprs (filter : EventQueryFilter) (eventIds : List EventIdSelector) : List Expr :=
  filter.timeExprs ++ filter.levelExprs ++ filter.eventIdExprs eventIds ++ filter.providerExprs ++
    filter.keywordExprs

def bodySelection (filter : EventQueryFilter) (eventIds : List EventIdSelector) : Selection :=
  match filter.systemExprs eventIds with
  | [] => .all
  | e :: es => .where (.child ['*'] (.child "System".toList (conjList e es)))

theorem timeClauses_spells {filter : EventQueryFilter} {ss : List Text}
    (h : filter.timeClauses = .ok ss) :
    List.Forall₂ (Spells .primary) ss filter.timeExprs ∧
      filter.timeCost = (filter.timeExprs.map Expr.comparisons).sum := by
  rw [timeClauses] at h
  rw [timeExprs, timeCost]
  cases ht : filter.time with
  | none =>
    rw [ht] at h
    cases h
    exact ⟨.nil, rfl⟩
  | some window =>
    rw [ht] at h
    obtain ⟨p, hp, h⟩ := bind_ok.mp h
    cases pure_ok.mp h
    obtain ⟨hspells, hcost⟩ := timePredicate_spells hp
    refine ⟨hspells, ?_⟩
    simp only [hp]
    rw [← hcost]
    cases p <;> simp

theorem levelClauses_spells (filter : EventQueryFilter) :
    List.Forall₂ (Spells .primary) filter.levelClauses filter.levelExprs := by
  have hlevel : ∀ level : Nat, Spells .primary ("Level=".toList ++ decimal level)
      (levelTest level) := by
    intro level
    have ho : LexesOpen "Level=".toList [.word "Level".toList, .rel .eq] := fun _ => rfl
    exact spells_number ho level
  have hall := spells_around_or (List.forall₂_map_left_iff.mpr
    (List.forall₂_map_right_iff.mpr (List.forall₂_same.mpr
      fun level (_ : level ∈ filter.distinctLevels) => hlevel level)))
  simpa only [levelClauses, levelExprs, List.map_eq_nil_iff] using hall

theorem eventIdClauses_spells (filter : EventQueryFilter) (eventIds : List EventIdSelector) :
    List.Forall₂ (Spells .primary) (filter.eventIdClauses eventIds)
      (filter.eventIdExprs eventIds) := by
  have hids : List.Forall₂ (Spells .primary)
      (eventIds.map fun selector => selector.predicate filter.eventIdMode)
      (eventIds.map (EventIdSelector.expr filter.eventIdMode)) :=
    List.forall₂_map_left_iff.mpr (List.forall₂_map_right_iff.mpr (List.forall₂_same.mpr
      fun selector _ => spells_predicate filter.eventIdMode selector))
  rw [eventIdClauses, eventIdExprs]
  generalize filter.eventIdMode = mode at hids ⊢
  cases mode with
  | inclusion => simpa only [List.map_eq_nil_iff] using spells_around_or hids
  | exclusion => simpa only [List.map_eq_nil_iff] using spells_around_and hids

theorem keywordClauses_spells (filter : EventQueryFilter) :
    List.Forall₂ (Spells .primary) filter.keywordClauses filter.keywordExprs := by
  rw [keywordClauses, keywordExprs]
  cases filter.keywords with
  | none => exact .nil
  | some keywords =>
    have ho : LexesOpen "band(Keywords,".toList
        [.word "band".toList, .sym '(', .word "Keywords".toList, .sym ','] := fun _ => rfl
    exact .cons (spells_band ho keywords) .nil

theorem providerText_spells {mode : SelectorMode} {name s : Text}
    (h : providerText mode name = .ok s) : Spells .primary s (providerTest mode name) := by
  obtain ⟨q, hq, h⟩ := bind_ok.mp h
  cases pure_ok.mp h
  cases mode with
  | inclusion =>
    have ho : LexesOpen ("@Name".toList ++ "=".toList) [.sym '@', .word nameName, .rel .eq] :=
      fun _ => rfl
    exact spells_literal ho (lexesOpen_quoteLiteral hq)
  | exclusion =>
    have ho : LexesOpen ("@Name".toList ++ "!=".toList) [.sym '@', .word nameName, .rel .ne] :=
      fun _ => rfl
    exact spells_literal ho (lexesOpen_quoteLiteral hq)

theorem providerTexts_spells {mode : SelectorMode} : ∀ {names ss : List Text},
    names.mapM (providerText mode) = .ok ss →
      List.Forall₂ (Spells .primary) ss (names.map (providerTest mode))
  | [], ss, h => by
    cases pure_ok.mp h
    exact .nil
  | name :: names, ss, h => by
    rw [List.mapM_cons] at h
    obtain ⟨s, hs, h⟩ := bind_ok.mp h
    obtain ⟨rest, hrest, h⟩ := bind_ok.mp h
    cases pure_ok.mp h
    exact .cons (providerText_spells hs) (providerTexts_spells hrest)

theorem providerClauses_spells {filter : EventQueryFilter} {ss : List Text}
    (h : filter.providerClauses = .ok ss) :
    List.Forall₂ (Spells .primary) ss filter.providerExprs := by
  have hname : providerName.all isWordChar = true := by decide
  have hne : providerName ≠ [] := by decide
  rw [providerClauses] at h
  rw [providerExprs]
  by_cases hnames : filter.distinctProviders = []
  · rw [if_pos hnames] at h
    cases h
    rw [hnames]
    exact .nil
  · rw [if_neg hnames] at h
    obtain ⟨texts, htexts, h⟩ := bind_ok.mp h
    cases pure_ok.mp h
    have hall := providerTexts_spells htexts
    generalize hes : filter.distinctProviders.map (providerTest filter.providerMode) = es at hall ⊢
    cases hall with
    | nil => exact absurd (List.map_eq_nil_iff.mp hes) hnames
    | cons hs hrest =>
      cases filter.providerMode with
      | inclusion => exact .cons (spells_child hne hname (spells_join_or hs hrest)) .nil
      | exclusion =>
        exact .cons (spells_child hne hname (spells_disj (spells_join_and hs hrest))) .nil

theorem systemPredicates_spells {filter : EventQueryFilter} {eventIds : List EventIdSelector}
    {ss : List Text} (h : filter.systemPredicates eventIds = .ok ss) :
    List.Forall₂ (Spells .primary) ss (filter.systemExprs eventIds) := by
  obtain ⟨time, ht, h⟩ := bind_ok.mp h
  obtain ⟨providers, hp, h⟩ := bind_ok.mp h
  cases pure_ok.mp h
  exact List.rel_append (List.rel_append (List.rel_append (List.rel_append
    (timeClauses_spells ht).1 (levelClauses_spells filter)) (eventIdClauses_spells filter eventIds))
    (providerClauses_spells hp)) (keywordClauses_spells filter)

theorem body_text (s : Text) :
    "*[System[".toList ++ s ++ "]]".toList =
      ['*'] ++ '[' :: ("System".toList ++ '[' :: s ++ [']']) ++ [']'] := by
  have hopen : "*[System[".toList = ['*'] ++ '[' :: ("System".toList ++ ['[']) := rfl
  have hclose : "]]".toList = [']'] ++ [']'] := rfl
  rw [hopen, hclose]
  simp only [List.append_assoc, List.cons_append, List.nil_append]

theorem selectBody_reads {filter : EventQueryFilter} {eventIds : List EventIdSelector} {s : Text}
    (h : filter.selectBody eventIds = .ok s) :
    readSelection s = some (filter.bodySelection eventIds) ∧ s.head? = some '*' := by
  obtain ⟨ss, hss, h⟩ := bind_ok.mp h
  have hall := systemPredicates_spells hss
  rw [bodySelection]
  generalize filter.systemExprs eventIds = es at hall ⊢
  cases hall with
  | nil =>
    cases pure_ok.mp h
    exact ⟨rfl, rfl⟩
  | cons hs hrest =>
    rw [if_neg (by simp)] at h
    cases pure_ok.mp h
    refine ⟨?_, rfl⟩
    have hsystem := @spells_child "System".toList (by decide) (by decide) _ _
      (spells_disj (spells_join_and hs hrest))
    have hstar := @spells_child ['*'] (by decide) (by decide) _ _
      (spells_disj (spells_conj hsystem))
    have hread := readSelection_spells (spells_disj (spells_conj hstar))
    rw [← hread, body_text]

/-! ## Documents -/

theorem marks_named {name : Text} {m : Markup} (hname : '>' ∉ name) (hm : markupNamed name = m) :
    Marks ('<' :: name ++ ['>']) [m] := hm ▸ marks_tag hname

theorem marks_query (id : Nat) :
    Marks ("<Query Id=\"".toList ++ decimal id ++ "\">".toList) [.start .query] := by
  have hname : '>' ∉ "Query Id=\"".toList ++ decimal id ++ ['"'] := by
    have hdec : '>' ∉ decimal id := by
      intro h
      exact absurd (Nat.isDigit_of_mem_toDigits (by omega) (by omega) h) (by decide)
    simp [hdec]
  have hall := marks_named hname (m := .start .query) rfl
  have htext : "<Query Id=\"".toList ++ decimal id ++ "\">".toList =
      '<' :: ("Query Id=\"".toList ++ decimal id ++ ['"']) ++ ['>'] := by
    have hopen : "<Query Id=\"".toList = '<' :: "Query Id=\"".toList := rfl
    have hclose : "\">".toList = ['"'] ++ ['>'] := rfl
    rw [hopen, hclose]
    simp only [List.append_assoc, List.cons_append]
  rw [htext]
  exact hall

theorem marks_select {s : Text} (hs : s ≠ []) :
    Marks ("<Select>".toList ++ escapeForXml s ++ "</Select>".toList)
      [.start .select, .data s, .stop .select] :=
  @marks_element "Select".toList .select s hs (by decide) rfl rfl

theorem marks_suppress {s : Text} (hs : s ≠ []) :
    Marks ("<Suppress>".toList ++ escapeForXml s ++ "</Suppress>".toList)
      [.start .suppress, .data s, .stop .suppress] :=
  @marks_element "Suppress".toList .suppress s hs (by decide) rfl rfl

theorem selectBody_ne_nil {filter : EventQueryFilter} {eventIds : List EventIdSelector} {s : Text}
    (h : filter.selectBody eventIds = .ok s) : s ≠ [] := by
  intro hs
  have := (selectBody_reads h).2
  rw [hs] at this
  cases this

/-- A node that selects one body and suppresses nothing. -/
def selectNode (filter : EventQueryFilter) (chunk : List EventIdSelector) : Node :=
  { selects := [filter.bodySelection chunk] }

theorem splitNodes_reads {filter : EventQueryFilter} : ∀ {chunks : List (List EventIdSelector)}
    {id : Nat} {t : Text}, filter.splitNodes id chunks = .ok t →
      ∃ ms, Marks t ms ∧
        readNodes none (ms ++ [.stop .queryList]) = some (chunks.map filter.selectNode)
  | [], id, t, h => by
    cases h
    exact ⟨[], fun _ => rfl, rfl⟩
  | chunk :: chunks, id, t, h => by
    obtain ⟨body, hbody, h⟩ := bind_ok.mp h
    obtain ⟨nodes, hnodes, h⟩ := bind_ok.mp h
    cases pure_ok.mp h
    obtain ⟨ms, hms, hread⟩ := splitNodes_reads hnodes
    have hstop : Marks "</Query>".toList [.stop .query] :=
      @marks_named "/Query".toList _ (by decide) rfl
    have hall := (((marks_query id).append (marks_select (selectBody_ne_nil hbody))).append
      hstop).append hms
    refine ⟨[.start .query, .start .select, .data body, .stop .select, .stop .query] ++ ms, ?_, ?_⟩
    · have hopen : "\"><Select>".toList = "\">".toList ++ "<Select>".toList := rfl
      have hclose : "</Select></Query>".toList = "</Select>".toList ++ "</Query>".toList := rfl
      rw [hopen, hclose]
      simpa only [List.append_assoc, List.cons_append, List.nil_append] using hall
    · simp only [List.cons_append, List.nil_append, readNodes, (selectBody_reads hbody).1,
        Option.bind_some, hread, Option.map_some, List.map_cons, selectNode]

/-- What a suppression of a group of selectors reads as. -/
def suppressed (chunk : List EventIdSelector) : List Selection :=
  (around (fun e => .child ['*'] (.child "System".toList (.group (.group e)))) disjList
    (chunk.map (EventIdSelector.expr .inclusion))).map .where

theorem suppression_reads {chunk : List EventIdSelector} (hne : chunk ≠ []) :
    ∃ body e, Marks (suppression chunk) [.start .suppress, .data body, .stop .suppress] ∧
      readSelection body = some e ∧ suppressed chunk = [e] := by
  cases chunk with
  | nil => exact absurd rfl hne
  | cons selector rest =>
    have hrest : List.Forall₂ (Spells .primary)
        (rest.map fun selector => selector.predicate .inclusion)
        (rest.map (EventIdSelector.expr .inclusion)) :=
      List.forall₂_map_left_iff.mpr (List.forall₂_map_right_iff.mpr (List.forall₂_same.mpr
        fun selector _ => spells_predicate .inclusion selector))
    have hgroup := spells_group (spells_disj (spells_conj (spells_group
      (spells_join_or (spells_predicate .inclusion selector) hrest))))
    have hsystem := @spells_child "System".toList (by decide) (by decide) _ _
      (spells_disj (spells_conj hgroup))
    have hstar := @spells_child ['*'] (by decide) (by decide) _ _
      (spells_disj (spells_conj hsystem))
    have hread := readSelection_spells (spells_disj (spells_conj hstar))
    rw [← body_text] at hread
    refine ⟨_, _, ?_, hread, rfl⟩
    have htext : ∀ j : Text, "*[System[(".toList ++ j ++ ")]]".toList =
        "*[System[".toList ++ ('(' :: j ++ [')']) ++ "]]".toList := by
      intro j
      have hopen : "*[System[(".toList = "*[System[".toList ++ ['('] := rfl
      have hclose : ")]]".toList = [')'] ++ "]]".toList := rfl
      rw [hopen, hclose]
      simp only [List.append_assoc, List.cons_append, List.nil_append]
    have hmarks := marks_suppress (s := "*[System[".toList ++ ('(' :: joinOr
      ((selector :: rest).map fun selector => selector.predicate .inclusion) ++ [')']) ++
      "]]".toList) (by simp)
    rw [← htext] at hmarks
    rw [← htext]
    exact hmarks

theorem suppressions_read (node : Node) : ∀ {chunks : List (List EventIdSelector)},
    (∀ chunk ∈ chunks, chunk ≠ []) →
      ∃ ms, Marks (chunks.map suppression).flatten ms ∧ ∀ rest,
        readNodes (some node) (ms ++ rest) =
          readNodes (some { node with
            suppresses := node.suppresses ++ chunks.flatMap suppressed }) rest
  | [], _ => ⟨[], fun _ => rfl, fun rest => by simp⟩
  | chunk :: chunks, h => by
    obtain ⟨body, e, hm, hread, hs⟩ := suppression_reads (h chunk (by simp))
    obtain ⟨ms, hms, hnodes⟩ := suppressions_read
      { node with suppresses := node.suppresses ++ [e] } fun c hc => h c (List.mem_cons_of_mem _ hc)
    refine ⟨[.start .suppress, .data body, .stop .suppress] ++ ms, ?_, fun rest => ?_⟩
    · rw [List.map_cons, List.flatten_cons]
      exact hm.append hms
    · simp only [List.cons_append, List.nil_append, readNodes, hread, Option.bind_some, hnodes,
        List.flatMap_cons, hs, List.append_assoc]

end EventQueryFilter

end EventQuery
end CmTrace
