import CmTrace.Collections.Index
import CmTrace.Text.Number

/-!
# Observations of timeline origins

The identity an origin carries: its machine, its exact keys and its weaker
secondary keys.  Observations of one origin are coalesced before correlation.
-/

namespace CmTrace
namespace Timeline

open Std Text Collections

def keyPart (value : Text) : Text := decimal (byteLen value) ++ ':' :: value

inductive TimelineCorrelationKeyKind where
  | activityId
  | relatedActivityId
  | providerChannelEventRecord
  | processStart
  | sessionId
  | deviceId
  | userId
  | secondary
  deriving DecidableEq, Repr

namespace TimelineCorrelationKeyKind

/-- The place in the declaration, which orders the kinds. -/
def rank : TimelineCorrelationKeyKind → Nat
  | activityId                 => 0
  | relatedActivityId          => 1
  | providerChannelEventRecord => 2
  | processStart               => 3
  | sessionId                  => 4
  | deviceId                   => 5
  | userId                     => 6
  | secondary                  => 7

theorem rank_injective : Function.Injective rank := by
  intro a b h
  cases a <;> cases b <;> first | rfl | cases h

def label : TimelineCorrelationKeyKind → Text
  | activityId                 => "activityId".toList
  | relatedActivityId          => "relatedActivityId".toList
  | providerChannelEventRecord => "providerChannelEventRecord".toList
  | processStart               => "processStart".toList
  | sessionId                  => "sessionId".toList
  | deviceId                   => "deviceId".toList
  | userId                     => "userId".toList
  | secondary                  => "secondary".toList

def debug : TimelineCorrelationKeyKind → Text
  | activityId                 => "ActivityId".toList
  | relatedActivityId          => "RelatedActivityId".toList
  | providerChannelEventRecord => "ProviderChannelEventRecord".toList
  | processStart               => "ProcessStart".toList
  | sessionId                  => "SessionId".toList
  | deviceId                   => "DeviceId".toList
  | userId                     => "UserId".toList
  | secondary                  => "Secondary".toList

end TimelineCorrelationKeyKind

/-- An activity and a related activity are one kind. -/
def correlationKind : TimelineCorrelationKeyKind → TimelineCorrelationKeyKind
  | .relatedActivityId => .activityId
  | kind => kind

structure TimelineCorrelationKey where
  kind : TimelineCorrelationKeyKind
  value : Text
  deriving DecidableEq, Repr

def keysMatch (left right : TimelineCorrelationKey) : Bool :=
  correlationKind left.kind == correlationKind right.kind && left.value == right.value

structure TimelineCoverageGap where
  source : Text
  reason : Text
  deriving DecidableEq, Repr

structure TimelineCorrelationObservation where
  originId : Text
  machine : Option Text
  exactKeys : List TimelineCorrelationKey
  secondaryKeys : List TimelineCorrelationKey
  coverageGaps : List TimelineCoverageGap
  deriving DecidableEq, Repr

/-! ## Orders -/

abbrev textOrder : Text → Text → Ordering := compare

abbrev kindOrder : TimelineCorrelationKeyKind → TimelineCorrelationKeyKind → Ordering :=
  orderOn compare TimelineCorrelationKeyKind.rank

instance : LawfulEqCmp kindOrder := orderOn_lawful _ TimelineCorrelationKeyKind.rank_injective

abbrev keyOrder : TimelineCorrelationKey → TimelineCorrelationKey → Ordering :=
  orderOn (pairOrder kindOrder textOrder) fun key => (key.kind, key.value)

abbrev gapOrder : TimelineCoverageGap → TimelineCoverageGap → Ordering :=
  orderOn (pairOrder textOrder textOrder) fun gap => (gap.source, gap.reason)

instance : LawfulEqCmp keyOrder :=
  orderOn_lawful _ fun a b h => by cases a; cases b; cases h; rfl

instance : LawfulEqCmp gapOrder :=
  orderOn_lawful _ fun a b h => by cases a; cases b; cases h; rfl

/-! ## Machines -/

def identitySentinels : List Text :=
  ["unknown".toList, "n/a".toList, "na".toList, "none".toList, "null".toList,
    "not available".toList, "not_applicable".toList]

def identityValue (value : Text) : Option Text :=
  let value := (trim value).rdropWhile (· = '.')
  if value = [] ∨ toAsciiLowercase value ∈ identitySentinels then none else some value

def normalizedIdentity (value : Text) : Option Text := (identityValue value).map toAsciiLowercase

def normalizeMachineIdentity (value : Option Text) : Option Text := value.bind normalizedIdentity

def TimelineCorrelationObservation.normalizedMachine (o : TimelineCorrelationObservation) :
    Option Text :=
  normalizeMachineIdentity o.machine

/-! ## Coalescing -/

/-- What the observations of one origin come to. -/
structure Accumulator where
  observation : TimelineCorrelationObservation
  machines : TreeSet Text textOrder := ∅
  count : Nat := 0

namespace Accumulator

def fresh (originId : Text) : Accumulator :=
  { observation :=
      { originId      := originId
        machine       := none
        exactKeys     := []
        secondaryKeys := []
        coverageGaps  := [] } }

def add (entry : Accumulator) (o : TimelineCorrelationObservation) : Accumulator :=
  { observation :=
      { entry.observation with
        exactKeys     := entry.observation.exactKeys ++ o.exactKeys
        secondaryKeys := entry.observation.secondaryKeys ++ o.secondaryKeys
        coverageGaps  := entry.observation.coverageGaps ++ o.coverageGaps }
    machines    := match o.normalizedMachine with
      | some machine => entry.machines.insert machine
      | none => entry.machines
    count       := entry.count + 1 }

/-- Sorted and without repetitions; the machine is kept when there is one only. -/
def coalesced (entry : Accumulator) : TimelineCorrelationObservation :=
  let duplicate : List TimelineCoverageGap := if 1 < entry.count then
      [{ source := entry.observation.originId
         reason := "duplicate origin identity coalesced from ".toList ++ decimal entry.count ++
          " observations".toList }]
    else []
  { originId      := entry.observation.originId
    machine       := if entry.machines.size = 1 then entry.machines.toList.head? else none
    exactKeys     := (TreeSet.ofList entry.observation.exactKeys keyOrder).toList
    secondaryKeys := (TreeSet.ofList entry.observation.secondaryKeys keyOrder).toList
    coverageGaps  :=
      (TreeSet.ofList (entry.observation.coverageGaps ++ duplicate) gapOrder).toList }

end Accumulator

def file (grouped : TreeMap Text Accumulator textOrder) (o : TimelineCorrelationObservation) :
    TreeMap Text Accumulator textOrder :=
  grouped.alter o.originId fun entry => some ((entry.getD (.fresh o.originId)).add o)

/-- The observations of every origin as one, in the order of their origins. -/
def disambiguateObservationIds (observations : List TimelineCorrelationObservation) :
    List TimelineCorrelationObservation :=
  (observations.foldl file ∅).toList.map fun entry => entry.2.coalesced

end Timeline
end CmTrace
