import CmTrace.Timeline.Correlate
import CmTrace.Timeline.Origin

/-!
# Merging a timeline

Items are sorted by their message and then, stably, by their time and origin;
what has no place is sorted by its origin.  Rows are appended to a timeline by
merging it again, so the order in which they come in leaves no trace.
-/

namespace CmTrace
namespace Timeline

open Std Text Collections
open Log (LogEntry)

structure UnifiedTimeline where
  items : List TimelineItem := []
  unplaced : List UnplacedItem := []
  edges : List TimelineCorrelationEdge := []
  coverageGaps : List TimelineCoverageGap := []
  deriving DecidableEq

abbrev severityOrder : TimelineSeverity → TimelineSeverity → Ordering :=
  orderOn natOrder TimelineSeverity.rank

abbrev timeOrder : Int → Int → Ordering := compare

/-- The order of messages, which the first sort is by. -/
def messageOrder : TimelineItem → TimelineItem → Ordering :=
  compareLex (orderOn textOrder (·.message)) (orderOn severityOrder (·.severity))

/-- The order of places, which the second sort is by. -/
def placeOrder : TimelineItem → TimelineItem → Ordering :=
  compareLex (orderOn timeOrder (·.timestampMs)) (orderOn originSortCmp (·.origin))

def unplacedOrder : UnplacedItem → UnplacedItem → Ordering := orderOn originSortCmp (·.origin)

def itemOrder : TimelineItem → TimelineItem → Ordering := compareLex placeOrder messageOrder

def merge (placed : List TimelineItem) (unplaced : List UnplacedItem) : UnifiedTimeline :=
  { items    := sortBy placeOrder (sortBy messageOrder placed)
    unplaced := sortBy unplacedOrder unplaced }

/-- File a row with the items or with what has no place. -/
def place (collected : List TimelineItem × List UnplacedItem) (entry : LogEntry) :
    List TimelineItem × List UnplacedItem :=
  match fromLogEntry entry with
  | .ok item    => (collected.1 ++ [item], collected.2)
  | .error item => (collected.1, collected.2 ++ [item])

def append (timeline : UnifiedTimeline) (entries : List LogEntry) : UnifiedTimeline :=
  let collected := entries.foldl place (timeline.items, timeline.unplaced)
  merge collected.1 collected.2

def fromLogEntries (entries : List LogEntry) : UnifiedTimeline := append {} entries

/-! ## The orders -/

instance : TransCmp messageOrder := inferInstanceAs (TransCmp (compareLex _ _))

instance : TransCmp placeOrder := inferInstanceAs (TransCmp (compareLex _ _))

instance : TransCmp itemOrder := inferInstanceAs (TransCmp (compareLex _ _))

instance : TransCmp unplacedOrder := inferInstanceAs (TransCmp (orderOn _ _))

instance : LawfulEqCmp severityOrder := orderOn_lawful _ TimelineSeverity.rank_injective

/-- Items that compare equal are equal, for every field of theirs is compared. -/
instance : LawfulEqCmp (compareLex placeOrder messageOrder) where
  compare_self := cmp_self (compareLex (compareLex _ _) (compareLex _ _)) _
  eq_of_compare {x y} h := by
    rw [compareLex_eq_iff, placeOrder, messageOrder, compareLex_eq_iff, compareLex_eq_iff] at h
    obtain ⟨⟨htime, horigin⟩, hmessage, hseverity⟩ := h
    have htime : x.timestampMs = y.timestampMs := eq_of_cmp timeOrder htime
    have horigin : x.origin = y.origin := eq_of_cmp originSortCmp horigin
    have hmessage : x.message = y.message := eq_of_cmp textOrder hmessage
    have hseverity : x.severity = y.severity :=
      eq_of_cmp severityOrder hseverity
    cases x
    cases y
    cases htime
    cases horigin
    cases hmessage
    cases hseverity
    rfl

/-- There is one reason for having no place, so an origin tells such items apart. -/
instance : LawfulEqCmp unplacedOrder := orderOn_lawful _ fun x y h => by
  cases x with
  | mk origin reason => cases y with
    | mk origin' reason' =>
      cases h
      cases reason
      cases reason'
      rfl

/-! ## Merging -/

theorem merge_items (placed : List TimelineItem) (unplaced : List UnplacedItem) :
    (merge placed unplaced).items = sortBy itemOrder placed :=
  sortBy_sortBy placed

theorem merge_congr {placed placed' : List TimelineItem} {unplaced unplaced' : List UnplacedItem}
    (hplaced : placed.Perm placed') (hunplaced : unplaced.Perm unplaced') :
    merge placed unplaced = merge placed' unplaced' := by
  have hitems : (merge placed unplaced).items = (merge placed' unplaced').items := by
    rw [merge_items, merge_items]
    exact sortBy_congr (c := compareLex placeOrder messageOrder) hplaced
  have hrest : (merge placed unplaced).unplaced = (merge placed' unplaced').unplaced :=
    sortBy_congr hunplaced
  rw [merge, merge, UnifiedTimeline.mk.injEq]
  exact ⟨hitems, hrest, rfl, rfl⟩

theorem merge_perm (placed : List TimelineItem) (unplaced : List UnplacedItem) :
    (merge placed unplaced).items.Perm placed ∧ (merge placed unplaced).unplaced.Perm unplaced :=
  ⟨(sortBy_perm _ _).trans (sortBy_perm _ placed), sortBy_perm _ unplaced⟩

/-! ## Appending -/

def placedItems (entries : List LogEntry) : List TimelineItem :=
  entries.filterMap fun entry => (fromLogEntry entry).toOption

def unplacedItems (entries : List LogEntry) : List UnplacedItem :=
  entries.filterMap fun entry => match fromLogEntry entry with
    | .ok _       => none
    | .error item => some item

theorem placedItems_append (xs ys : List LogEntry) :
    placedItems (xs ++ ys) = placedItems xs ++ placedItems ys := List.filterMap_append

theorem unplacedItems_append (xs ys : List LogEntry) :
    unplacedItems (xs ++ ys) = unplacedItems xs ++ unplacedItems ys := List.filterMap_append

theorem place_eq (collected : List TimelineItem × List UnplacedItem) (entry : LogEntry) :
    place collected entry =
      (collected.1 ++ placedItems [entry], collected.2 ++ unplacedItems [entry]) := by
  rw [place, placedItems, unplacedItems, List.filterMap_cons, List.filterMap_cons]
  cases fromLogEntry entry with
  | ok item => exact Prod.ext rfl (List.append_nil _).symm
  | error item => exact Prod.ext (List.append_nil _).symm rfl

theorem foldl_place (entries : List LogEntry) (collected : List TimelineItem × List UnplacedItem) :
    entries.foldl place collected =
      (collected.1 ++ placedItems entries, collected.2 ++ unplacedItems entries) := by
  induction entries generalizing collected with
  | nil => exact Prod.ext (List.append_nil _).symm (List.append_nil _).symm
  | cons entry entries ih =>
    rw [List.foldl_cons, ih, place_eq, List.append_assoc, List.append_assoc, ← placedItems_append,
      ← unplacedItems_append, List.singleton_append]

theorem append_merge (placed : List TimelineItem) (unplaced : List UnplacedItem)
    (entries : List LogEntry) :
    append (merge placed unplaced) entries =
      merge (placed ++ placedItems entries) (unplaced ++ unplacedItems entries) := by
  rw [append, foldl_place]
  exact merge_congr ((merge_perm placed unplaced).1.append_right _)
    ((merge_perm placed unplaced).2.append_right _)

theorem foldl_append (batches : List (List LogEntry)) (placed : List TimelineItem)
    (unplaced : List UnplacedItem) :
    batches.foldl append (merge placed unplaced) =
      merge (placed ++ placedItems batches.flatten) (unplaced ++ unplacedItems batches.flatten) := by
  induction batches generalizing placed unplaced with
  | nil =>
    rw [List.foldl_nil, List.flatten_nil, show placedItems [] = [] from rfl,
      show unplacedItems [] = [] from rfl, List.append_nil, List.append_nil]
  | cons entries batches ih =>
    rw [List.foldl_cons, append_merge, ih, List.append_assoc, List.append_assoc, List.flatten_cons,
      placedItems_append, unplacedItems_append]

theorem merge_nil : merge [] [] = {} := by
  rw [merge, sortBy, sortBy, sortBy, List.mergeSort_nil, List.mergeSort_nil, List.mergeSort_nil]

/-- A timeline does not tell in which order its items, or the batches of its rows,
came in; it has each of them as often as it came in, in the order of `itemOrder`. -/
theorem timeline_independent_of_arrival {placed placed' : List TimelineItem}
    {unplaced unplaced' : List UnplacedItem} {batches batches' : List (List LogEntry)}
    (hplaced : placed'.Perm placed) (hunplaced : unplaced'.Perm unplaced)
    (hbatches : batches'.Perm batches) :
    merge placed' unplaced' = merge placed unplaced ∧
      batches'.foldl append {} =
        merge (placedItems batches.flatten) (unplacedItems batches.flatten) ∧
      fromLogEntries batches.flatten =
        merge (placedItems batches.flatten) (unplacedItems batches.flatten) ∧
      Sorted itemOrder (merge placed unplaced).items ∧
      (merge placed unplaced).items.Perm placed ∧
      (merge placed unplaced).unplaced.Perm unplaced := by
  have hrows := foldl_append batches' [] []
  rw [merge_nil, List.nil_append, List.nil_append] at hrows
  have hone := append_merge [] [] batches.flatten
  rw [merge_nil, List.nil_append, List.nil_append] at hone
  refine ⟨merge_congr hplaced hunplaced, ?_, hone, ?_, merge_perm placed unplaced⟩
  · rw [hrows]
    exact merge_congr (hbatches.flatten.filterMap _) (hbatches.flatten.filterMap _)
  · rw [merge_items]
    exact sortBy_sorted itemOrder placed

/-- Two rows of one time that come in as two batches, the later line first. -/
theorem timeline_independent_of_two_batches :
    let early : LogEntry := { timestamp := some 5, message := "a".toList, lineNumber := 1 }
    let late : LogEntry := { timestamp := some 5, message := "b".toList, lineNumber := 2 }
    [[late], [early]].foldl append {} = merge (placedItems [early, late]) [] :=
  (timeline_independent_of_arrival (List.Perm.refl []) (List.Perm.refl [])
    (List.Perm.swap _ _ [])).2.1

end Timeline
end CmTrace
