import CmTrace.Collections.DisjointSet
import CmTrace.Collections.Groups
import CmTrace.Js.Json
import CmTrace.Timeline.Correlate
import CmTrace.Timeline.Origin

/-!
# Correlation chains

The edges of a timeline as rows of a view.  Edges are observations of pairs and
are reduced to one relation for each pair, of the weakest label.  Relations that
link are joined to chains; those that do not are collapsed by their members.
-/

namespace CmTrace
namespace EventLog

open Std Collections Js
open Timeline (TimelineSeverity TimelineCorrelationKeyKind TimelineCorrelationStrength natOrder)

/-! ## Items -/

structure LogOrigin where
  file : JsString
  component : Option JsString
  line : Int
  source : JsString
  machine : Option JsString
  bundle : Option JsString
  recordId : Int
  deriving DecidableEq

/-- A Windows event; an outer `none` is a field that is not there. -/
structure EventOrigin where
  stableId : JsString
  source : JsString
  machine : Option JsString
  bundle : Option JsString
  channel : JsString
  provider : JsString
  processId : Option Int
  activityId : Option (Option JsString)
  relatedActivityId : Option (Option JsString)
  sessionId : Option (Option JsString)
  deviceId : Option (Option JsString)
  userId : Option (Option JsString)
  processStartTime : Option (Option JsString)
  identityConflicts : Option (List JsString)
  eventId : Int
  recordId : Int
  recordIdText : Option (Option JsString)
  deriving DecidableEq

inductive TimelineOrigin where
  | log (origin : LogOrigin)
  | event (origin : EventOrigin)
  deriving DecidableEq

structure TimelineItem where
  timestampMs : Int
  severity : TimelineSeverity
  message : JsString
  origin : TimelineOrigin
  deriving DecidableEq

def timelineOriginId : TimelineOrigin → JsString
  | .event origin => origin.stableId
  | .log origin =>
    js "log|" ++ keyPart origin.source ++ unit '|' :: keyPart origin.file ++
      unit '|' :: intDigits origin.line ++ unit '|' :: intDigits origin.recordId

def nullable (value : Option JsString) : JsonValue := (value.map JsonValue.text).getD .null

def shownFields (fields : List (JsString × Option JsonValue)) : List (JsString × JsonValue) :=
  fields.filterMap fun field => field.2.map fun value => (field.1, value)

def logFields (o : LogOrigin) : List (JsString × Option JsonValue) :=
  [ (js "kind",      some (.text (js "log")))
  , (js "file",      some (.text o.file))
  , (js "component", some (nullable o.component))
  , (js "line",      some (.number o.line))
  , (js "source",    some (.text o.source))
  , (js "machine",   some (nullable o.machine))
  , (js "bundle",    some (nullable o.bundle))
  , (js "recordId",  some (.number o.recordId)) ]

def eventFields (o : EventOrigin) : List (JsString × Option JsonValue) :=
  [ (js "kind",              some (.text (js "event")))
  , (js "stableId",          some (.text o.stableId))
  , (js "source",            some (.text o.source))
  , (js "machine",           some (nullable o.machine))
  , (js "bundle",            some (nullable o.bundle))
  , (js "channel",           some (.text o.channel))
  , (js "provider",          some (.text o.provider))
  , (js "processId",         some ((o.processId.map JsonValue.number).getD .null))
  , (js "activityId",        o.activityId.map nullable)
  , (js "relatedActivityId", o.relatedActivityId.map nullable)
  , (js "sessionId",         o.sessionId.map nullable)
  , (js "deviceId",          o.deviceId.map nullable)
  , (js "userId",            o.userId.map nullable)
  , (js "processStartTime",  o.processStartTime.map nullable)
  , (js "identityConflicts", o.identityConflicts.map JsonValue.texts)
  , (js "eventId",           some (.number o.eventId))
  , (js "recordId",          some (.number o.recordId))
  , (js "recordIdText",      o.recordIdText.map nullable) ]

/-- The fields of an origin in the order they are decoded in. -/
def originFields : TimelineOrigin → List (JsString × JsonValue)
  | .log origin => shownFields (logFields origin)
  | .event origin => shownFields (eventFields origin)

/-- The one of two items of an origin that is kept. -/
def preferItem (a b : TimelineItem) : TimelineItem :=
  if a.timestampMs ≠ b.timestampMs then
    if a.timestampMs < b.timestampMs then a else b
  else if a.severity.rank ≠ b.severity.rank then
    if b.severity.rank < a.severity.rank then a else b
  else if compareStrings a.message b.message ≠ .eq then
    if compareStrings a.message b.message = .lt then a else b
  else if (compareStrings (stringify (originFields a.origin))
      (stringify (originFields b.origin))).isLE then a
  else b

abbrev Items := JsString → Option TimelineItem

def keepItem (itemsById : Items) (item : TimelineItem) : Items :=
  let id := timelineOriginId item.origin
  Function.update itemsById id
    (some (match itemsById id with
      | none => item
      | some existing => preferItem existing item))

/-! ## Relations -/

structure TimelineCorrelationKey where
  kind : TimelineCorrelationKeyKind
  value : JsString
  deriving DecidableEq

structure TimelineCoverageGap where
  source : JsString
  reason : JsString
  deriving DecidableEq

structure CorrelationEvidenceRow where
  originId : JsString
  field : JsString
  value : JsString
  deriving DecidableEq

inductive CoverageState where
  | covered
  | gap
  deriving DecidableEq

structure TimelineCoverage where
  state : CoverageState
  gap : Option TimelineCoverageGap
  deriving DecidableEq

structure TimelineCorrelationEdge where
  fromId : JsString
  toId : Option JsString
  key : TimelineCorrelationKey
  strength : TimelineCorrelationStrength
  candidateIds : List JsString
  evidence : List CorrelationEvidenceRow
  coverage : TimelineCoverage
  deriving DecidableEq

/-- Labels, the strongest first. -/
inductive CorrelationChainStrength where
  | exact
  | candidate
  | ambiguous
  | coverageBlocked
  deriving DecidableEq, Repr

namespace CorrelationChainStrength

def strengthIndex : CorrelationChainStrength → Nat
  | exact           => 0
  | candidate       => 1
  | ambiguous       => 2
  | coverageBlocked => 3

def isLinking : CorrelationChainStrength → Bool
  | exact           => true
  | candidate       => true
  | ambiguous       => false
  | coverageBlocked => false

def text : CorrelationChainStrength → JsString
  | exact           => js "exact"
  | candidate       => js "candidate"
  | ambiguous       => js "ambiguous"
  | coverageBlocked => js "coverageBlocked"

def weaker (a b : CorrelationChainStrength) : CorrelationChainStrength :=
  if a.strengthIndex < b.strengthIndex then b else a

end CorrelationChainStrength

/-- Observations of a pair; without a second endpoint it has candidates only. -/
structure Relation where
  left : JsString
  right : Option JsString
  strength : CorrelationChainStrength
  candidateIds : List JsString
  keys : List TimelineCorrelationKey
  evidence : List CorrelationEvidenceRow
  gaps : List TimelineCoverageGap
  deriving DecidableEq

def orderEndpoints (left : JsString) : Option JsString → JsString × Option JsString
  | some right => if compareStrings right left = .lt then (right, some left) else (left, some right)
  | none => (left, none)

def classifyStrength (edge : TimelineCorrelationEdge) : CorrelationChainStrength :=
  match edge.strength with
  | .ambiguous => .ambiguous
  | strength =>
    if edge.coverage.state = .gap then .coverageBlocked
    -- a secondary key is never more than a candidate
    else if strength = .exact ∧ edge.key.kind = .secondary then .candidate
    else if strength = .exact then .exact
    else .candidate

def classifyTimelineEdge (edge : TimelineCorrelationEdge) : Relation :=
  let endpoints := orderEndpoints edge.fromId edge.toId
  { left         := endpoints.1
    right        := endpoints.2
    strength     := classifyStrength edge
    candidateIds := edge.candidateIds
    keys         := [edge.key]
    evidence     := edge.evidence
    gaps         := if edge.coverage.state = .gap then edge.coverage.gap.toList else [] }

def relationKeyId (key : TimelineCorrelationKey) : JsString :=
  keyOf [key.kind.label.map unit, key.value]

def evidenceId (row : CorrelationEvidenceRow) : JsString := keyOf [row.originId, row.field, row.value]

def gapId (gap : TimelineCoverageGap) : JsString := keyOf [gap.source, gap.reason]

/-- Values in the order of their ids, the last of each id. -/
def uniqueSorted {T : Type} (values : List T) (id : T → JsString) : List T :=
  (values.foldl (fun byId value => byId.insert (id value) value)
    (∅ : TreeMap JsString T compareStrings)).toList.map Prod.snd

def uniqueSortedStrings (values : List JsString) : List JsString :=
  (TreeSet.ofList values compareStrings).toList

def combine (first : Relation) (others : List Relation) : Relation :=
  let relations := first :: others
  { left         := first.left
    right        := first.right
    strength     := relations.foldl (fun strength r => strength.weaker r.strength) first.strength
    candidateIds := uniqueSortedStrings (relations.flatMap (·.candidateIds))
    keys         := uniqueSorted (relations.flatMap (·.keys)) relationKeyId
    evidence     := uniqueSorted (relations.flatMap (·.evidence)) evidenceId
    gaps         := uniqueSorted (relations.flatMap (·.gaps)) gapId }

def pairKey (observation : Relation) : JsString :=
  match observation.right with
  | none => keyOf [observation.left, js "-"]
  | some right => keyOf [observation.left, js "+", right]

def reduceByPair (observations : List Relation) : List Relation :=
  (sortBy (orderOn compareStrings Prod.fst) (groupBy pairKey observations)).filterMap fun group =>
    match group.2 with
    | [] => none
    | first :: others => some (combine first others)

def memberSet (relation : Relation) : List JsString :=
  uniqueSortedStrings (relation.left :: (relation.right.toList ++ relation.candidateIds))

/-! ## Titles -/

inductive DiagnosisFindingClass where
  | confirmedFailure
  | likelyContributor
  | symptom
  | recovered
  | contradictoryEvidence
  | coverageGap
  | unknown
  deriving DecidableEq

structure ChainFindingCoverage where
  findingId : JsString
  title : JsString
  originIds : List JsString
  findingClass : DiagnosisFindingClass
  deriving DecidableEq

def titleHeadLimit : Nat := 80

def isSpace (u : UInt16) : Bool :=
  let n := u.toNat
  decide (9 ≤ n ∧ n ≤ 13 ∨ n = 32 ∨ n = 0xA0 ∨ n = 0x1680 ∨ 0x2000 ≤ n ∧ n ≤ 0x200A ∨
    n = 0x2028 ∨ n = 0x2029 ∨ n = 0x202F ∨ n = 0x205F ∨ n = 0x3000 ∨ n = 0xFEFF)

def trimSpace (s : JsString) : JsString := (s.dropWhile isSpace).rdropWhile isSpace

/-- The lines of a text, whose line feeds may follow a carriage return. -/
def splitLines (s : JsString) : List JsString :=
  let pieces := s.splitOn 10
  pieces.dropLast.map (fun piece => if piece.getLast? = some 13 then piece.dropLast else piece) ++
    pieces.getLast?.toList

def codePoints : JsString → List JsString
  | [] => []
  | [u] => [[u]]
  | u :: v :: rest =>
    if isHigh u && isLow v then [u, v] :: codePoints rest else [u] :: codePoints (v :: rest)

def messageHead (message : JsString) : JsString :=
  let line := (((splitLines message).map trimSpace).find? fun part => part ≠ []).getD []
  let points := codePoints line
  if titleHeadLimit < points.length then (points.take (titleHeadLimit - 3)).flatten ++ js "..."
  else line

def itemLabel (item : TimelineItem) : JsString :=
  match item.origin with
  | .event origin => intDigits origin.eventId
  | .log origin => origin.source ++ js " · line " ++ intDigits origin.line

/-- The member of the highest severity, then the earliest, then by id. -/
def derivedTitle (memberIds : List JsString) (itemsById : Items) : Option JsString :=
  let best := memberIds.foldl (fun (best : Option (JsString × TimelineItem)) id =>
    match itemsById id with
    | none => best
    | some item => match best with
      | none => some (id, item)
      | some (bestId, held) =>
        if held.severity.rank < item.severity.rank ∨ held.severity.rank = item.severity.rank ∧
            (item.timestampMs < held.timestampMs ∨ item.timestampMs = held.timestampMs ∧
              compareStrings id bestId = .lt) then some (id, item)
        else best) none
  best.map fun chosen =>
    let head := messageHead chosen.2.message
    if head = [] then itemLabel chosen.2 else itemLabel chosen.2 ++ js " · " ++ head

def titleConclusionClasses : List DiagnosisFindingClass :=
  [.confirmedFailure, .likelyContributor, .symptom, .recovered]

def coveringFindingTitle (allMemberIds : List JsString) (findings : List ChainFindingCoverage) :
    Option JsString :=
  let coversChain := fun finding : ChainFindingCoverage =>
    allMemberIds.all fun id => finding.originIds.contains id
  let classRank := fun finding : ChainFindingCoverage =>
    if finding.findingClass = .confirmedFailure then 0 else 1
  if findings.any fun f => f.findingClass == .contradictoryEvidence && coversChain f then none
  else
    let covering := findings.filter fun f =>
      titleConclusionClasses.contains f.findingClass && coversChain f
    (sortBy (compareLex (orderOn natOrder classRank) (orderOn compareStrings (·.findingId)))
      covering).head?.map (·.title)

/-! ## Rows -/

structure CorrelationChainEdge where
  left : JsString
  right : Option JsString
  strength : CorrelationChainStrength
  keys : List TimelineCorrelationKey
  deriving DecidableEq

structure CorrelationChain where
  id : JsString
  strength : CorrelationChainStrength
  memberIds : List JsString
  unresolvedMemberIds : List JsString
  memberCount : Nat
  edges : List CorrelationChainEdge
  keys : List TimelineCorrelationKey
  evidence : List CorrelationEvidenceRow
  coverageGaps : List TimelineCoverageGap
  startMs : Option Int
  endMs : Option Int
  title : Option JsString
  deriving DecidableEq

/-- What a row is made of. -/
structure RowSource where
  id : JsString
  strength : CorrelationChainStrength
  relations : List Relation
  memberIds : List JsString
  deriving DecidableEq

abbrev intOrder : Int → Int → Ordering := compare

def compareNullableNumber : Option Int → Option Int → Ordering := someFirst intOrder

def Relation.edge (relation : Relation) : CorrelationChainEdge :=
  { left     := relation.left
    right    := relation.right
    strength := relation.strength
    keys     := relation.keys }

def toRow (itemsById : Items) (findings : List ChainFindingCoverage) (source : RowSource) :
    CorrelationChain :=
  let all := uniqueSortedStrings source.memberIds
  let timestamp := fun member => (itemsById member).map (·.timestampMs)
  let resolved := sortBy (compareLex (orderOn compareNullableNumber timestamp) compareStrings)
    (all.filter fun member => (itemsById member).isSome)
  let stamps := resolved.filterMap timestamp
  { id                  := source.id
    strength            := source.strength
    memberIds           := resolved
    unresolvedMemberIds := all.filter fun member => (itemsById member).isNone
    memberCount         := all.length
    edges               := source.relations.map (·.edge)
    keys                := uniqueSorted (source.relations.flatMap (·.keys)) relationKeyId
    evidence            := uniqueSorted (source.relations.flatMap (·.evidence)) evidenceId
    coverageGaps        := uniqueSorted (source.relations.flatMap (·.gaps)) gapId
    startMs             := stamps.min?
    endMs               := stamps.max?
    title               :=
      if resolved = [] then none
      else ((if source.strength.isLinking then coveringFindingTitle all findings else none).or
        (derivedTitle resolved itemsById)) }

/-! ## The model -/

/-- A number of the client; `other` is neither an integer nor finite. -/
inductive JsNumber where
  | int (n : Int)
  | other
  deriving DecidableEq

/-- The integer, when it is safe and not negative. -/
def JsNumber.safeCount : JsNumber → Option Nat
  | int n => if 0 ≤ n ∧ n ≤ 2 ^ 53 - 1 then some n.toNat else none
  | other => none

structure CorrelationChainInput where
  items : List TimelineItem
  timelineEdges : List TimelineCorrelationEdge
  totalTimelineEdges : JsNumber
  findings : List ChainFindingCoverage

structure StrengthCounts where
  exact : Nat
  candidate : Nat
  ambiguous : Nat
  coverageBlocked : Nat
  deriving DecidableEq

structure CorrelationChainModel where
  chains : List CorrelationChain
  totalCount : Nat
  omittedCount : Nat
  edgeInputComplete : Bool
  unloadedEdgeCount : Nat
  counts : StrengthCounts
  ignoredRelationCount : Nat
  deriving DecidableEq

def correlationChainRenderLimit : Nat := 100

def isIgnored (relation : Relation) : Bool :=
  let cannotLink := relation.strength.isLinking &&
    (relation.right == none || relation.right == some relation.left)
  decide ((memberSet relation).length < 2) || cannotLink

def linkEnds (relation : Relation) : JsString × JsString :=
  (relation.left, relation.right.getD relation.left)

/-- Relations that do not link are collapsed by label and members. -/
def collapseKey (relation : Relation) : JsString :=
  keyOf (relation.strength.text :: memberSet relation)

def chainLinks (reduced : List Relation) : List Relation :=
  reduced.filter fun r => !isIgnored r && r.strength.isLinking

def nonLinking (reduced : List Relation) : List Relation :=
  reduced.filter fun r => !isIgnored r && !r.strength.isLinking

/-- The relations of each root, in the order in which roots are found. -/
def componentsFrom (fuel : Nat) (sets : DisjointSet JsString) (links : List Relation) :
    DisjointSet JsString × List (JsString × List Relation) :=
  links.foldl (fun state relation =>
    let found := state.1.find fuel relation.left
    (found.2, push found.1 relation state.2)) (sets, [])

/-- No search passes more parents than there are links. -/
def components (links : List Relation) : List (JsString × List Relation) :=
  let fuel := links.length
  (componentsFrom fuel (DisjointSet.unions fuel .empty (links.map linkEnds)) links).2

def chainSource (relations : List Relation) : RowSource :=
  let members := relations.flatMap fun r => [(linkEnds r).1, (linkEnds r).2]
  { id        := keyOf [js "chain", (uniqueSortedStrings members).head?.getD []]
    strength  := relations.foldl (fun weakest r => if r.strength = .candidate then .candidate
      else weakest) .exact
    relations := relations
    memberIds := members }

def collapsedSource (group : JsString × List Relation) : Option RowSource :=
  group.2.head?.map fun first =>
    { id        := group.1
      strength  := first.strength
      relations := group.2
      memberIds := group.2.flatMap memberSet }

def rowSources (reduced : List Relation) : List RowSource :=
  (components (chainLinks reduced)).map (fun group => chainSource group.2) ++
    (groupBy collapseKey (nonLinking reduced)).filterMap collapsedSource

def rowOrder : CorrelationChain → CorrelationChain → Ordering :=
  compareLex (orderOn natOrder fun row => row.strength.strengthIndex) <|
  compareLex (fun a b => natOrder b.memberCount a.memberCount) <|
  compareLex (orderOn compareNullableNumber (·.startMs)) (orderOn compareStrings (·.id))

/-- The rows of the edges, in the order they are shown in. -/
def correlationRows (input : CorrelationChainInput) : List CorrelationChain :=
  let itemsById := input.items.foldl keepItem fun _ => none
  let reduced := reduceByPair (input.timelineEdges.map classifyTimelineEdge)
  sortBy rowOrder ((rowSources reduced).map (toRow itemsById input.findings))

def strengthCount (rows : List CorrelationChain) (strength : CorrelationChainStrength) : Nat :=
  rows.countP fun row => row.strength == strength

def buildCorrelationChains (input : CorrelationChainInput) : CorrelationChainModel :=
  let rows := correlationRows input
  let chains := rows.take correlationChainRenderLimit
  let total := input.totalTimelineEdges.safeCount
  let loaded := input.timelineEdges.length
  { chains               := chains
    totalCount           := rows.length
    omittedCount         := rows.length - chains.length
    edgeInputComplete    := total == some loaded
    unloadedEdgeCount    := (total.map fun n => n - loaded).getD 0
    counts               :=
      { exact           := strengthCount rows .exact
        candidate       := strengthCount rows .candidate
        ambiguous       := strengthCount rows .ambiguous
        coverageBlocked := strengthCount rows .coverageBlocked }
    ignoredRelationCount :=
      (reduceByPair (input.timelineEdges.map classifyTimelineEdge)).countP isIgnored }

end EventLog
end CmTrace
