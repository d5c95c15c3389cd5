import CmTrace.Machine
import CmTrace.Text.Number
import CmTrace.XPath.Document

/-!
# Building event queries

A filter compiles to the text of a query: a bare expression when it fits one
node, a list of selections when many event ids are included, and a selection
with suppressions when many are excluded.  Predicates are built raw; an
expression is escaped where it becomes character data of a document.
-/

namespace CmTrace
namespace EventQuery

open Text

/-- Whether a set of values keeps what it lists or drops it. -/
inductive SelectorMode where
  | inclusion
  | exclusion
  deriving DecidableEq, Repr

inductive EventIdSelector where
  | single (id : Nat)
  | range (low high : Nat)
  deriving DecidableEq, Repr

inductive TimeWindow where
  | last (milliseconds : Nat)
  /-- Inclusive bounds; a missing one leaves its side open. -/
  | between (lower upper : Option Text)
  deriving DecidableEq, Repr

structure EventQueryFilter where
  time : Option TimeWindow := none
  levels : List Nat := []
  eventIds : List EventIdSelector := []
  eventIdMode : SelectorMode := .inclusion
  providers : List Text := []
  providerMode : SelectorMode := .inclusion
  keywords : Option Nat := none
  deriving DecidableEq, Repr

inductive QueryBuildError where
  | unquotableValue (value : Text)
  | filterTooComplex (needed limit : Nat)
  deriving DecidableEq, Repr

def maxExpressionsPerSelect : Nat := 20

namespace EventIdSelector

/-- What the service counts the selector as; a range is two comparisons. -/
def expressionCost : EventIdSelector → Nat
  | .single _ => 1
  | .range low high => if low = high then 1 else 2

def ordered (low high : Nat) : Nat × Nat := if low ≤ high then (low, high) else (high, low)

def equality (mode : SelectorMode) (id : Nat) : Text :=
  match mode with
  | .inclusion => "EventID=".toList ++ decimal id
  | .exclusion => "EventID!=".toList ++ decimal id

/-- The subset has no negation, so an excluded range is its complement. -/
def span (mode : SelectorMode) (low high : Nat) : Text :=
  match mode with
  | .inclusion =>
    "(EventID >= ".toList ++ decimal low ++ " and EventID <= ".toList ++ decimal high ++ [')']
  | .exclusion =>
    "(EventID < ".toList ++ decimal low ++ " or EventID > ".toList ++ decimal high ++ [')']

def predicate (mode : SelectorMode) : EventIdSelector → Text
  | .single id => equality mode id
  | .range low high =>
    if low = high then equality mode low
    else span mode (ordered low high).1 (ordered low high).2

end EventIdSelector

/-- An XPath literal, in whichever delimiter the value does not contain. -/
def quoteLiteral (value : Text) : Except QueryBuildError Text :=
  if ¬ value.contains '\'' then .ok ('\'' :: value ++ ['\''])
  else if ¬ value.contains '"' then .ok ('"' :: value ++ ['"'])
  else .error (.unquotableValue value)

/-- An expression as character data of a document. -/
def escapeForXml (expression : Text) : Text := XPath.escape expression

def joinOr (predicates : List Text) : Text := '(' :: join " or ".toList predicates ++ [')']

def joinAnd (predicates : List Text) : Text := '(' :: join " and ".toList predicates ++ [')']

/-- A predicate and what the service counts it as. -/
structure Predicate where
  clause : Text
  expressions : Nat
  deriving DecidableEq, Repr

/-- One end of a window, as the list of the comparisons it needs. -/
def bound (opening : Text) : Option Text → Except QueryBuildError (List Text)
  | none => .ok []
  | some value => do return [opening ++ (← quoteLiteral value)]

def timePredicate : TimeWindow → Except QueryBuildError (Option Predicate)
  | .last milliseconds =>
    .ok (some ⟨"TimeCreated[timediff(@SystemTime) <= ".toList ++ decimal milliseconds ++ [']'], 1⟩)
  | .between lower upper => do
    let least ← bound "@SystemTime >= ".toList lower
    let greatest ← bound "@SystemTime <= ".toList upper
    let bounds := least ++ greatest
    if bounds = [] then return none
    else return some ⟨"TimeCreated[".toList ++ join " and ".toList bounds ++ [']'], bounds.length⟩

/-- The values with repetitions removed, in the order they came. -/
def distinct {α : Type} (same : α → α → Bool) (values : List α) : List α :=
  values.foldl (fun seen value => if seen.any fun s => same s value then seen else seen ++ [value]) []

namespace EventQueryFilter

def isUnfiltered (filter : EventQueryFilter) : Bool :=
  filter.time.isNone && filter.levels.isEmpty && filter.eventIds.isEmpty &&
    filter.providers.isEmpty && filter.keywords.isNone

def distinctLevels (filter : EventQueryFilter) : List Nat :=
  distinct (fun a b => a == b) filter.levels

def distinctProviders (filter : EventQueryFilter) : List Text :=
  distinct eqIgnoreAsciiCase filter.providers

def largestSelectorCost (filter : EventQueryFilter) : Nat :=
  (filter.eventIds.map EventIdSelector.expressionCost).max?.getD 0

/-- What the window adds to a node.  A window that cannot be written adds
nothing here and fails later. -/
def timeCost (filter : EventQueryFilter) : Nat :=
  match filter.time with
  | none => 0
  | some window =>
    match timePredicate window with
    | .ok (some predicate) => predicate.expressions
    | .ok none | .error _ => 0

def fixedExpressionCost (filter : EventQueryFilter) : Nat :=
  filter.timeCost + filter.distinctLevels.length + filter.distinctProviders.length +
    (if filter.keywords.isSome then 1 else 0)

def timeClauses (filter : EventQueryFilter) : Except QueryBuildError (List Text) :=
  match filter.time with
  | none => .ok []
  | some window => do return (← timePredicate window).toList.map Predicate.clause

def levelClauses (filter : EventQueryFilter) : List Text :=
  let levels := filter.distinctLevels
  if levels = [] then []
  else [joinOr (levels.map fun level => "Level=".toList ++ decimal level)]

def eventIdClauses (filter : EventQueryFilter) (eventIds : List EventIdSelector) : List Text :=
  if eventIds = [] then []
  else
    let ids := eventIds.map fun selector => selector.predicate filter.eventIdMode
    -- an inclusion is a union; an exclusion holds for every id at once
    match filter.eventIdMode with
    | .inclusion => [joinOr ids]
    | .exclusion => [joinAnd ids]

/-- The comparison a provider name is written as. -/
def providerText (mode : SelectorMode) (provider : Text) : Except QueryBuildError Text := do
  let operator := match mode with
    | .inclusion => "=".toList
    | .exclusion => "!=".toList
  return "@Name".toList ++ operator ++ (← quoteLiteral provider)

def providerClauses (filter : EventQueryFilter) : Except QueryBuildError (List Text) :=
  let names := filter.distinctProviders
  if names = [] then .ok []
  else do
    let joiner := match filter.providerMode with
      | .inclusion => " or ".toList
      | .exclusion => " and ".toList
    let providers ← names.mapM (providerText filter.providerMode)
    return ["Provider[".toList ++ join joiner providers ++ [']']]

def keywordClauses (filter : EventQueryFilter) : List Text :=
  match filter.keywords with
  | some keywords => ["band(Keywords,".toList ++ decimal keywords ++ [')']]
  | none => []

def systemPredicates (filter : EventQueryFilter) (eventIds : List EventIdSelector) :
    Except QueryBuildError (List Text) := do
  let time ← filter.timeClauses
  let providers ← filter.providerClauses
  return time ++ filter.levelClauses ++ filter.eventIdClauses eventIds ++ providers ++
    filter.keywordClauses

def selectBody (filter : EventQueryFilter) (eventIds : List EventIdSelector) :
    Except QueryBuildError Text := do
  let predicates ← filter.systemPredicates eventIds
  if predicates = [] then return ['*']
  else return "*[System[".toList ++ join " and ".toList predicates ++ "]]".toList

end EventQueryFilter

/-- Greedy groups: `current` is closed when the next selector does not fit. -/
def chunkFrom (budget : Nat) : List EventIdSelector → Nat → List EventIdSelector →
    List (List EventIdSelector)
  | current, _, [] => if current = [] then [] else [current]
  | current, spent, selector :: rest =>
    let cost := selector.expressionCost
    if current ≠ [] ∧ budget < spent + cost then
      current :: chunkFrom budget [selector] cost rest
    else chunkFrom budget (current ++ [selector]) (spent + cost) rest

def chunkByExpressionBudget (selectors : List EventIdSelector) (fixedCost : Nat) :
    List (List EventIdSelector) :=
  chunkFrom (maxExpressionsPerSelect - fixedCost) [] 0 selectors

namespace EventQueryFilter

/-- The `Query` elements of a split inclusion, the first of them numbered `id`. -/
def splitNodes (filter : EventQueryFilter) : Nat → List (List EventIdSelector) →
    Except QueryBuildError Text
  | _, [] => .ok []
  | id, chunk :: rest => do
    let body ← filter.selectBody chunk
    let nodes ← filter.splitNodes (id + 1) rest
    return "<Query Id=\"".toList ++ decimal id ++ "\"><Select>".toList ++ escapeForXml body ++
      "</Select></Query>".toList ++ nodes

def suppression (chunk : List EventIdSelector) : Text :=
  let predicates := chunk.map fun selector => selector.predicate .inclusion
  let body := "*[System[(".toList ++ joinOr predicates ++ ")]]".toList
  "<Suppress>".toList ++ escapeForXml body ++ "</Suppress>".toList

def buildSuppressedQuery (filter : EventQueryFilter) : Except QueryBuildError Text := do
  let selection ← filter.selectBody []
  let suppressions := (chunkByExpressionBudget filter.eventIds 0).map suppression
  return "<QueryList><Query Id=\"0\"><Select>".toList ++ escapeForXml selection ++ "</Select>".toList ++
    suppressions.flatten ++ "</Query></QueryList>".toList

def buildQuery (filter : EventQueryFilter) : Except QueryBuildError Text :=
  if filter.isUnfiltered then .ok ['*']
  else
    let fixedCost := filter.fixedExpressionCost
    let eventIdCost := (filter.eventIds.map EventIdSelector.expressionCost).sum
    let indivisible := fixedCost + filter.largestSelectorCost
    if maxExpressionsPerSelect < indivisible then
      .error (.filterTooComplex indivisible maxExpressionsPerSelect)
    else
      let overBudget := !filter.eventIds.isEmpty &&
        decide (maxExpressionsPerSelect < fixedCost + eventIdCost)
      if overBudget && filter.eventIdMode == .exclusion then filter.buildSuppressedQuery
      else if overBudget && filter.eventIdMode == .inclusion then do
        let nodes ← filter.splitNodes 0 (chunkByExpressionBudget filter.eventIds fixedCost)
        return "<QueryList>".toList ++ nodes ++ "</QueryList>".toList
      else filter.selectBody filter.eventIds

end EventQueryFilter

example : EventQueryFilter.buildQuery
    { levels := [2, 3, 2], eventIds := [.range 9 5], providers := ["Bob's <Agent>".toList] } =
      .ok ("*[System[(Level=2 or Level=3) and ((EventID >= 5 and EventID <= 9)) and " ++
        "Provider[@Name=\"Bob's <Agent>\"]]]").toList := by
  decide +kernel

end EventQuery
end CmTrace
