import CmTrace.Timeline.Observation

/-!
# Correlation

Origins that carry the same exact key on one machine are related pairwise, group
by group in key order, within a bound on the members of a group and a budget of
relations; what is left out is reported as a gap.  A relation is ambiguous when
one of its origins is related to a third.  Secondary keys relate origins that
have no exact relation.  Sizes in bytes are natural numbers.
-/

namespace CmTrace
namespace Timeline

open Std Text Collections

def maxCorrelationGroupMembers : Nat := 256

def maxCorrelationRelations : Nat := 25000

def maxCorrelationGaps : Nat := 4096

def correlationGapTruncationSource : Text := "correlation".toList

def maxCorrelationCandidateBytes : Nat := 1048576

def correlationCandidateBudgetReason : Text :=
  "correlation candidate output budget reached; candidate IDs omitted".toList

def maxCorrelationEdgeBytes : Nat := 16 * 1024 * 1024

def correlationEdgeBudgetReason : Text :=
  "correlation edge output budget reached; additional edges omitted".toList

/-! ## Groups -/

/-- A machine, a kind and a value. -/
abbrev GroupKey := Text × TimelineCorrelationKeyKind × Text

abbrev groupOrder : GroupKey → GroupKey → Ordering :=
  pairOrder textOrder (pairOrder kindOrder textOrder)

abbrev Relation := Text × Text

abbrev relationOrder : Relation → Relation → Ordering := pairOrder textOrder textOrder

abbrev Gaps := TreeSet (Text × Text) relationOrder

namespace TimelineCorrelationObservation

def exactGroupKeys (o : TimelineCorrelationObservation) : List GroupKey :=
  match o.normalizedMachine with
  | none => []
  | some machine => o.exactKeys.map fun key => (machine, correlationKind key.kind, key.value)

def secondaryGroupKeys (o : TimelineCorrelationObservation) : List (Text × Text) :=
  match o.normalizedMachine with
  | none => []
  | some machine => o.secondaryKeys.map fun key => (machine, key.value)

end TimelineCorrelationObservation

def exactGroups (ordered : List TimelineCorrelationObservation) :
    Index GroupKey Text groupOrder textOrder :=
  .gather (ordered.flatMap fun o => o.exactGroupKeys.map fun key => (key, o.originId))

def secondaryGroups (ordered : List TimelineCorrelationObservation) :
    Index (Text × Text) Text relationOrder textOrder :=
  .gather (ordered.flatMap fun o => o.secondaryGroupKeys.map fun key => (key, o.originId))

def byId (ordered : List TimelineCorrelationObservation) (id : Text) :
    Option TimelineCorrelationObservation :=
  ordered.find? fun o => o.originId == id

/-! ## Relations -/

structure Expansion where
  exactCandidates : Index Text Text textOrder textOrder := ∅
  relationKeys : Index Relation TimelineCorrelationKey relationOrder keyOrder := ∅
  candidateRelations : Index Relation TimelineCorrelationKey relationOrder keyOrder := ∅
  fanoutGaps : Gaps := ∅
  relationBudget : Nat := maxCorrelationRelations

def relationBudgetReason : Text :=
  "correlation relation budget of ".toList ++ decimal maxCorrelationRelations ++
    " was reached".toList

def memberLimitReason (subject : Text) : Text :=
  subject ++ " identity group exceeds the ".toList ++ decimal maxCorrelationGroupMembers ++
    "-member correlation limit".toList

namespace Expansion

/-- Every member of a group that is left out has a gap. -/
def leaveOut (e : Expansion) (reason : Text) (ids : List Text) : Expansion :=
  { e with fanoutGaps := ids.foldl (fun gaps id => gaps.insert (id, reason)) e.fanoutGaps }

def relateExact (ordered : List TimelineCorrelationObservation) (key : GroupKey) (e : Expansion)
    (pair : Relation) : Expansion :=
  let keysOf := fun id => ((byId ordered id).map fun o => o.exactKeys.filter fun k =>
    correlationKind k.kind == key.2.1 && k.value == key.2.2).getD []
  { e with
    relationBudget  := e.relationBudget - 1
    exactCandidates := (e.exactCandidates.add pair.1 pair.2).add pair.2 pair.1
    relationKeys    := (keysOf pair.1 ++ keysOf pair.2).foldl
      (fun keys k => keys.add pair k) e.relationKeys }

/-- Relate pairs while the budget lasts; whether it did not. -/
def relateWhile (relate : Expansion → Relation → Expansion) :
    Expansion → List Relation → Expansion × Bool
  | e, [] => (e, false)
  | e, pair :: rest =>
    if e.relationBudget = 0 then (e, true) else relateWhile relate (relate e pair) rest

def exactGroup (ordered : List TimelineCorrelationObservation) (e : Expansion)
    (group : GroupKey × TreeSet Text textOrder) : Expansion :=
  let ids := group.2.toList
  if ids.length < 2 then e
  else if maxCorrelationGroupMembers < ids.length then
    e.leaveOut (memberLimitReason ("exact ".toList ++ group.1.2.1.debug)) ids
  else if e.relationBudget = 0 then e.leaveOut relationBudgetReason ids
  else if e.relationBudget < ids.length * (ids.length - 1) / 2 then
    { e.leaveOut relationBudgetReason ids with relationBudget := 0 }
  else
    let related := relateWhile (relateExact ordered group.1) e (pairs ids)
    if related.2 then related.1.leaveOut relationBudgetReason ids else related.1

def related (e : Expansion) (id : Text) : Bool := !(e.exactCandidates.values id).isEmpty

/-- Relate two members of a secondary group; origins with exact relations are
passed over. -/
def relateSecondary (key : Text × Text) : Expansion → List Relation → Expansion × Bool
  | e, [] => (e, false)
  | e, pair :: rest =>
    if e.related pair.1 then relateSecondary key e rest
    else if e.relationBudget = 0 then (e, true)
    else if e.related pair.2 then relateSecondary key e rest
    else relateSecondary key
      { e with
        relationBudget     := e.relationBudget - 1
        candidateRelations := e.candidateRelations.add pair
          { kind := .secondary, value := key.1 ++ '|' :: key.2 } } rest

def secondaryGroup (e : Expansion) (group : (Text × Text) × TreeSet Text textOrder) : Expansion :=
  let ids := group.2.toList
  if ids.length < 2 then e
  else if maxCorrelationGroupMembers < ids.length then
    e.leaveOut (memberLimitReason "secondary".toList) ids
  else if e.relationBudget = 0 then e.leaveOut relationBudgetReason ids
  else
    let related := relateSecondary group.1 e (pairs ids)
    if related.2 then related.1.leaveOut relationBudgetReason ids else related.1

end Expansion

/-- The relations of all groups of coalesced observations, which stand in the
order of their origins. -/
def expand (ordered : List TimelineCorrelationObservation) : Expansion :=
  (secondaryGroups ordered).toList.foldl Expansion.secondaryGroup
    ((exactGroups ordered).toList.foldl (Expansion.exactGroup ordered) {})

/-! ## Edges -/

inductive TimelineCorrelationStrength where
  | exact
  | candidate
  | ambiguous
  deriving DecidableEq, Repr

inductive TimelineCorrelationConfidence where
  | high
  | low
  | unknown
  deriving DecidableEq, Repr

def TimelineCorrelationStrength.confidence :
    TimelineCorrelationStrength → TimelineCorrelationConfidence
  | .exact => .high
  | .candidate => .low
  | .ambiguous => .unknown

structure TimelineCorrelationEvidence where
  originId : Text
  field : Text
  value : Text
  deriving DecidableEq, Repr

structure TimelineCorrelationEdge where
  id : Text
  fromId : Text
  toId : Option Text
  key : TimelineCorrelationKey
  strength : TimelineCorrelationStrength
  confidence : TimelineCorrelationConfidence
  candidateIds : List Text
  evidence : List TimelineCorrelationEvidence
  /-- The gap in what covers the edge, if there is one. -/
  coverage : Option TimelineCoverageGap
  deriving DecidableEq, Repr

/-- What a relation is to be turned into an edge with. -/
structure Related where
  left : Text
  right : Text
  keys : TreeSet TimelineCorrelationKey keyOrder
  exact : Bool

def Expansion.relations (e : Expansion) : List Related :=
  (e.relationKeys.toList.map fun r => ⟨r.1.1, r.1.2, r.2, true⟩) ++
    e.candidateRelations.toList.map fun r => ⟨r.1.1, r.1.2, r.2, false⟩

def bytesOf (texts : List Text) : Nat := (texts.map byteLen).sum

namespace TimelineCorrelationEdge

def estimatedBytes (edge : TimelineCorrelationEdge) (right : Text) : Nat :=
  let evidence := (edge.evidence.map fun entry =>
    byteLen entry.originId + byteLen entry.field + byteLen entry.value).sum
  let coverage := (edge.coverage.map fun gap => byteLen gap.source + byteLen gap.reason).getD 0
  (byteLen edge.id + byteLen edge.fromId + byteLen right + byteLen edge.key.kind.label +
    byteLen edge.key.value + bytesOf edge.candidateIds + evidence + coverage + 512) * 8

end TimelineCorrelationEdge

namespace Related

variable (ordered : List TimelineCorrelationObservation) (e : Expansion) (r : Related)

def candidates : TreeSet Text textOrder :=
  if r.exact then
    (e.exactCandidates.values r.right).toList.foldl (fun s id => s.insert id)
      ((e.exactCandidates.values r.left).toList.foldl (fun s id => s.insert id) ∅)
  else (∅ : TreeSet Text textOrder).insert r.right

def ambiguous : Bool :=
  r.exact && !((r.candidates e).toList.filter fun id => id != r.left && id != r.right).isEmpty

def strength : TimelineCorrelationStrength :=
  if r.ambiguous e then .ambiguous else if r.exact then .exact else .candidate

def candidateIds : List Text := (r.candidates e).toList.filter fun id => id != r.left

def candidateBytes : Nat := if r.ambiguous e then bytesOf (r.candidateIds e) else 0

def key : Option TimelineCorrelationKey := r.keys.toList.head?

def evidenceOf (key : TimelineCorrelationKey) (endpoint : Text) :
    Option TimelineCorrelationEvidence :=
  (byId ordered endpoint).map fun o =>
    let matching := ((o.exactKeys ++ o.secondaryKeys).find? fun k => keysMatch k key).getD key
    { originId := endpoint, field := matching.kind.label, value := matching.value }

def firstGap (endpoint : Text) : Option TimelineCoverageGap :=
  (byId ordered endpoint).bind fun o => o.coverageGaps.head?

/-- The edge, with the candidates left out when they do not fit. -/
def edge (key : TimelineCorrelationKey) (omitted : Bool) : TimelineCorrelationEdge :=
  let candidateIds := if r.ambiguous e && !omitted then r.candidateIds e else []
  { id           := "edge|".toList ++ keyPart r.left ++ '|' :: keyPart r.right ++ '|' ::
      key.kind.label ++ '|' :: keyPart key.value
    fromId       := r.left
    toId         := some r.right
    key          := key
    strength     := r.strength e
    confidence   := (r.strength e).confidence
    candidateIds := candidateIds
    evidence     := [r.left, r.right].filterMap (evidenceOf ordered key)
    coverage     :=
      if omitted then some { source := r.left, reason := correlationCandidateBudgetReason }
      else ((firstGap ordered r.left).or (firstGap ordered r.right)).or
        (if r.ambiguous e then
          some { source := r.left
                 reason := "multiple exact identity candidates remain: ".toList ++
                   join ", ".toList candidateIds }
        else none) }

end Related

structure Output where
  edges : List TimelineCorrelationEdge := []
  candidateOutputBudget : Nat := maxCorrelationCandidateBytes
  edgeOutputBudget : Nat := maxCorrelationEdgeBytes
  edgeOutputTruncated : Bool := false
  fanoutGaps : Gaps

/-- The edge of one relation; the first that does not fit is the last tried. -/
def Output.emit (ordered : List TimelineCorrelationObservation) (e : Expansion) (out : Output)
    (r : Related) : Output :=
  if out.edgeOutputTruncated then out
  else match r.key with
    | none => out
    | some key =>
      let omitted := r.ambiguous e && decide (out.candidateOutputBudget < r.candidateBytes e)
      let out := if omitted then
          { out with
            fanoutGaps := TreeSet.insert out.fanoutGaps
              (correlationGapTruncationSource, correlationCandidateBudgetReason) }
        else if r.ambiguous e then
          { out with candidateOutputBudget := out.candidateOutputBudget - r.candidateBytes e }
        else out
      let edge := r.edge ordered e key omitted
      let estimatedBytes := edge.estimatedBytes r.right
      if out.edgeOutputBudget < estimatedBytes then
        { out with
          edgeOutputTruncated := true
          fanoutGaps          := TreeSet.insert out.fanoutGaps
            (correlationGapTruncationSource, correlationEdgeBudgetReason) }
      else
        { out with
          edges            := out.edges ++ [edge]
          edgeOutputBudget := out.edgeOutputBudget - estimatedBytes }

/-! ## Gaps -/

def observationGaps (o : TimelineCorrelationObservation) : List (Text × Text) :=
  (o.coverageGaps.map fun gap => (gap.source, gap.reason)) ++
    (if o.normalizedMachine = none then
      [(o.originId, "machine identity unavailable; exact correlation is restricted".toList)]
    else if o.exactKeys.isEmpty && !o.secondaryKeys.isEmpty &&
        !(o.coverageGaps.any fun gap => gap.source == o.originId) then
      [(o.originId,
        "only secondary identity was present; correlation remains low confidence".toList)]
    else [])

/-- The gaps that are reported, with a last one for those that are not. -/
def reportedGaps (gapSet : Gaps) : List TimelineCoverageGap :=
  let truncated := decide (maxCorrelationGaps < gapSet.size)
  let retainedLimit := if truncated then maxCorrelationGaps - 1 else maxCorrelationGaps
  let omittedCount := gapSet.size - retainedLimit
  (gapSet.toList.take retainedLimit).map (fun gap => { source := gap.1, reason := gap.2 }) ++
    if truncated then
      [{ source := correlationGapTruncationSource
         reason := "coverage gap limit reached; ".toList ++ decimal omittedCount ++
          " additional ".toList ++ (if omittedCount = 1 then "gap".toList else "gaps".toList) ++
          " omitted".toList }]
    else []

def correlateObservations (observations : List TimelineCorrelationObservation) :
    List TimelineCorrelationEdge × List TimelineCoverageGap :=
  let ordered := disambiguateObservationIds observations
  let e := expand ordered
  let out := e.relations.foldl (Output.emit ordered e) { fanoutGaps := e.fanoutGaps }
  (out.edges, reportedGaps (ordered.foldl
    (fun gaps o => (observationGaps o).foldl (fun gaps gap => gaps.insert gap) gaps) out.fanoutGaps))

end Timeline
end CmTrace
