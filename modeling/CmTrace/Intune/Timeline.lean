import CmTrace.Collections.FirstCopies
import CmTrace.Intune.Pairing
import CmTrace.Timeline.Origin

/-!
# The timeline of an analysis

Exact duplicates are removed by arrival, outcomes that look absorbed by a paired event
are dropped, and the rest is sorted by a key that does not tell all rows apart.  The
timeline loses no operation and does not depend on arrival under one condition on the
rows: no outcome is dropped for a pair that did not end with it, and the sort separates
the rows that are not duplicates.
-/

namespace CmTrace
namespace Intune

open Std Text Collections
open Timeline (textOrder rsplitOnce)

variable {D : Type}

/-! ## Rows -/

/-- The timestamp readers of the calendar library, in nanoseconds since 1970. -/
structure TimeReaders where
  parseFromStr : Text → Text → Option Int
  parseFromRfc3339 : Text → Option Int

def timestampFormats : List Text :=
  ["%m-%d-%Y %H:%M:%S%.f".toList, "%Y-%m-%d %H:%M:%S%.f".toList, "%Y/%m/%d %H:%M:%S%.f".toList]

def parseTimestamp (readers : TimeReaders) (value : Text) : Option Int :=
  (timestampFormats.findSome? (readers.parseFromStr value)).or (readers.parseFromRfc3339 value)

def timestampMillis (nanos : Int) : Int := nanos / 1000000

def isRotationSuffix (value : Text) : Bool :=
  let normalized := toAsciiLowercase (trim value)
  if normalized = [] then false
  else if normalized.all isAsciiDigit then true
  else if "lo_".toList.isPrefixOf normalized || normalized == "bak".toList ||
      normalized == "old".toList then true
  else byteLen normalized == 8 && normalized.all isAsciiDigit

/-- The file without its rotation; `fileStem` is the stem that the platform takes. -/
def normalizedSourceIdentity (fileStem : Text → Option Text) (sourceFile : Text) : Text :=
  let stem := (fileStem sourceFile).getD sourceFile
  let rotated := ['.', '-', '_'].findSome? fun separator =>
    match rsplitOnce separator stem with
    | some parts => if isRotationSuffix parts.2 then some parts.1 else none
    | none => none
  toAsciiLowercase (rotated.getD stem)

def parsedEventTime (readers : TimeReaders) (event : IntuneEvent D) : Option Int :=
  (event.startTime.bind (parseTimestamp readers)).or (event.endTime.bind (parseTimestamp readers))

structure TimelineEvent (D : Type) where
  event : IntuneEvent D
  parsedTime : Option Int
  sourceIdentity : Text

structure PairedEventKey where
  guid : Option Text
  eventType : IntuneEventType
  sourceIdentity : Text
  deriving DecidableEq

structure ExactEventKey where
  sourceIdentity : Text
  eventType : IntuneEventType
  status : IntuneStatus
  startTime : Option Text
  endTime : Option Text
  guid : Option Text
  name : Text
  detail : Text
  deriving DecidableEq

namespace TimelineEvent

def pairedKey (prepared : TimelineEvent D) : PairedEventKey :=
  { guid           := prepared.event.guid
    eventType      := prepared.event.eventType
    sourceIdentity := prepared.sourceIdentity }

def exactKey (prepared : TimelineEvent D) : ExactEventKey :=
  { sourceIdentity := prepared.sourceIdentity
    eventType      := prepared.event.eventType
    status         := prepared.event.status
    startTime      := prepared.event.startTime
    endTime        := prepared.event.endTime
    guid           := prepared.event.guid
    name           := prepared.event.name
    detail         := prepared.event.detail }

end TimelineEvent

/-! ## Duplicates and order -/

section

variable (readers : TimeReaders) (fileStem : Text → Option Text)

def prepare (event : IntuneEvent D) : TimelineEvent D :=
  { event          := event
    parsedTime     := parsedEventTime readers event
    sourceIdentity := normalizedSourceIdentity fileStem event.sourceFile }

def pairedKeys (prepared : List (TimelineEvent D)) : List PairedEventKey :=
  (prepared.filter fun row => row.event.endTime.isSome).map TimelineEvent.pairedKey

def isConsumedEnd (paired : List PairedEventKey) (prepared : TimelineEvent D) : Bool :=
  prepared.event.status.isTerminal && paired.contains prepared.pairedKey

/-- The rows that are kept after those whose exact keys are in `seen`. -/
def deduplicateFrom (paired : List PairedEventKey) :
    List ExactEventKey → List (TimelineEvent D) → List (TimelineEvent D)
  | _, [] => []
  | seen, prepared :: rest =>
    if prepared.exactKey ∈ seen then deduplicateFrom paired seen rest
    else
      let later := deduplicateFrom paired (prepared.exactKey :: seen) rest
      if prepared.event.endTime.isSome then prepared :: later
      else if prepared.event.guid.isNone then prepared :: later
      else if !isConsumedEnd paired prepared then prepared :: later
      else later

def deduplicateEvents (events : List (IntuneEvent D)) : List (TimelineEvent D) :=
  let prepared := events.map (prepare readers fileStem)
  deduplicateFrom (pairedKeys prepared) [] prepared

abbrev timeOrder : Int → Int → Ordering := compare

abbrev lineOrder : Nat → Nat → Ordering := compare

def timelineOrder : TimelineEvent D → TimelineEvent D → Ordering :=
  compareLex (orderOn (noneFirst timeOrder) (·.parsedTime)) <|
  compareLex (orderOn textOrder (·.event.sourceFile)) <|
  compareLex (orderOn lineOrder (·.event.lineNumber)) (orderOn textOrder (·.event.name))

instance : TransCmp (timelineOrder (D := D)) :=
  inferInstanceAs (TransCmp (compareLex _ (compareLex _ (compareLex _ _))))

/-- A row of the timeline with its number and its epochs. -/
def stamp (i : Nat) (event : IntuneEvent D) : IntuneEvent D :=
  { event with
    id             := i
    startTimeEpoch := (event.startTime.bind (parseTimestamp readers)).map timestampMillis
    endTimeEpoch   := (event.endTime.bind (parseTimestamp readers)).map timestampMillis }

def buildTimeline (events : List (IntuneEvent D)) : List (IntuneEvent D) :=
  (sortBy timelineOrder (deduplicateEvents readers fileStem events)).mapIdx fun i entry =>
    stamp readers i entry.event

/-! ## What is expected -/

def keyOf (event : IntuneEvent D) : ExactEventKey := (prepare readers fileStem event).exactKey

/-- No arrangement of the rows gives another timeline, but for what the keys ignore. -/
def ArrivalFree (events : List (IntuneEvent D)) : Prop :=
  ∀ arranged, arranged.Perm events →
    (buildTimeline readers fileStem arranged).map (keyOf readers fileStem) =
      (buildTimeline readers fileStem events).map (keyOf readers fileStem)

/-- Numbered from zero and in the order of the times. -/
structure Ordered (rows : List (IntuneEvent D)) : Prop where
  ids : rows.map IntuneEvent.id = List.range rows.length
  times : rows.Pairwise fun a b =>
    (noneFirst timeOrder (parsedEventTime readers a) (parsedEventTime readers b)).isLE

/-- An outcome without an end time that a paired event ended with. -/
def Absorbed (events : List (IntuneEvent D)) (event : IntuneEvent D) : Prop :=
  event.status.isTerminal = true ∧ event.endTime = none ∧ event.guid.isSome = true ∧
    ∃ paired ∈ events, paired.endTime.isSome = true ∧ paired.endTime = event.startTime ∧
      (prepare readers fileStem paired).pairedKey = (prepare readers fileStem event).pairedKey

/-- A row is in the timeline, a later copy or an absorbed outcome. -/
def LosesNothing (events : List (IntuneEvent D)) : Prop :=
  ∀ before event after, events = before ++ event :: after →
    (∃ i, (buildTimeline readers fileStem events)[i]? = some (stamp readers i event)) ∨
    (∃ earlier ∈ before, keyOf readers fileStem earlier = keyOf readers fileStem event) ∨
    Absorbed readers fileStem events event

/-! ## The rows that are dropped -/

/-- An outcome without an end time whose operation has some paired event. -/
def looksConsumed (paired : List PairedEventKey) (prepared : TimelineEvent D) : Bool :=
  prepared.event.endTime.isNone && prepared.event.guid.isSome && isConsumedEnd paired prepared

/-- The rows that do not look consumed, with their copies. -/
def surviving (events : List (IntuneEvent D)) : List (TimelineEvent D) :=
  let prepared := events.map (prepare readers fileStem)
  prepared.filter fun row => !looksConsumed (pairedKeys prepared) row

end

theorem deduplicateFrom_eq (paired : List PairedEventKey) (prepared : List (TimelineEvent D)) :
    ∀ seen, deduplicateFrom paired seen prepared =
      (firstCopiesFrom TimelineEvent.exactKey seen prepared).filter
        fun row => !looksConsumed paired row := by
  induction prepared with
  | nil => exact fun _ => rfl
  | cons row rest ih =>
    intro seen
    rw [deduplicateFrom, firstCopiesFrom]
    split_ifs with hseen hend hguid hconsumed
    · exact ih seen
    · rw [List.filter_cons_of_pos, ih]
      rw [looksConsumed, Option.isNone_eq_false_iff.mpr hend]
      rfl
    · rw [List.filter_cons_of_pos, ih]
      rw [looksConsumed, Option.isSome_eq_false_iff.mpr hguid, Bool.and_false]
      rfl
    · rw [List.filter_cons_of_pos, ih]
      rw [Bool.not_eq_true'] at hconsumed
      rw [looksConsumed, hconsumed, Bool.and_false]
      rfl
    · rw [List.filter_cons_of_neg, ih]
      rw [Option.not_isSome_iff_eq_none] at hend
      rw [Bool.not_eq_true', Bool.not_eq_false] at hconsumed
      rw [Option.isNone_iff_eq_none, ← ne_eq, ← Option.isSome_iff_ne_none] at hguid
      rw [looksConsumed, hend, hguid, hconsumed]
      decide

theorem looksConsumed_of_key {paired : List PairedEventKey} {a b : TimelineEvent D}
    (h : a.exactKey = b.exactKey) : looksConsumed paired a = looksConsumed paired b := by
  have hend := congrArg ExactEventKey.endTime h
  have hguid := congrArg ExactEventKey.guid h
  have hstatus := congrArg ExactEventKey.status h
  have htype := congrArg ExactEventKey.eventType h
  have hsource := congrArg ExactEventKey.sourceIdentity h
  simp only [TimelineEvent.exactKey] at hend hguid hstatus htype hsource
  rw [looksConsumed, looksConsumed, isConsumedEnd, isConsumedEnd, TimelineEvent.pairedKey,
    TimelineEvent.pairedKey, hend, hguid, hstatus, htype, hsource]

variable {readers : TimeReaders} {fileStem : Text → Option Text}

theorem deduplicateEvents_eq (events : List (IntuneEvent D)) :
    deduplicateEvents readers fileStem events =
      firstCopies TimelineEvent.exactKey (surviving readers fileStem events) := by
  rw [deduplicateEvents, deduplicateFrom_eq, surviving, firstCopies]
  exact filter_firstCopiesFrom
    (fun a b h => congrArg (!·) (looksConsumed_of_key h)) _ fun a _ => Iff.rfl

theorem keyOf_stamp (i : Nat) (event : IntuneEvent D) :
    keyOf readers fileStem (stamp readers i event) = keyOf readers fileStem event := rfl

theorem pairedKey_prepare_of_key {a b : IntuneEvent D}
    (h : keyOf readers fileStem a = keyOf readers fileStem b) :
    (prepare readers fileStem a).pairedKey = (prepare readers fileStem b).pairedKey := by
  have hguid := congrArg ExactEventKey.guid h
  have htype := congrArg ExactEventKey.eventType h
  have hsource := congrArg ExactEventKey.sourceIdentity h
  simp only [keyOf, TimelineEvent.exactKey] at hguid htype hsource
  rw [TimelineEvent.pairedKey, TimelineEvent.pairedKey, hguid, htype, hsource]

theorem mem_deduplicateEvents {events : List (IntuneEvent D)} {row : TimelineEvent D}
    (h : row ∈ deduplicateEvents readers fileStem events) :
    ∃ event ∈ events, prepare readers fileStem event = row := by
  rw [deduplicateEvents_eq] at h
  have hmem := (mem_of_mem_firstCopiesFrom h).1
  exact List.mem_map.mp (List.mem_filter.mp hmem).1

theorem prepare_event {events : List (IntuneEvent D)} {row : TimelineEvent D}
    (h : row ∈ sortBy timelineOrder (deduplicateEvents readers fileStem events)) :
    prepare readers fileStem row.event = row := by
  obtain ⟨event, _, rfl⟩ := mem_deduplicateEvents (mem_sortBy.mp h)
  rfl

theorem getElem?_buildTimeline (events : List (IntuneEvent D)) (i : Nat) :
    (buildTimeline readers fileStem events)[i]? =
      (sortBy timelineOrder (deduplicateEvents readers fileStem events))[i]?.map
        fun entry => stamp readers i entry.event := List.getElem?_mapIdx

theorem buildTimeline_keys (events : List (IntuneEvent D)) :
    (buildTimeline readers fileStem events).map (keyOf readers fileStem) =
      sortedKeys timelineOrder TimelineEvent.exactKey (surviving readers fileStem events) := by
  rw [sortedKeys, ← deduplicateEvents_eq]
  refine List.ext_getElem? fun i => ?_
  rw [List.getElem?_map, List.getElem?_map, getElem?_buildTimeline, Option.map_map]
  refine Option.map_congr fun row hrow => ?_
  have hprepare := prepare_event (List.mem_of_getElem? hrow)
  rw [Function.comp_apply, keyOf_stamp, keyOf, hprepare]

/-! ## Numbers and times -/

theorem isLE_time_of_timelineOrder {a b : TimelineEvent D} (h : (timelineOrder a b).isLE) :
    (noneFirst timeOrder a.parsedTime b.parsedTime).isLE := by
  rw [timelineOrder, compareLex, orderOn] at h
  cases hc : noneFirst timeOrder a.parsedTime b.parsedTime with
  | lt => rfl
  | eq => rfl
  | gt =>
    rw [hc] at h
    cases h

theorem buildTimeline_ordered (events : List (IntuneEvent D)) :
    Ordered readers (buildTimeline readers fileStem events) := by
  refine ⟨?_, ?_⟩
  · refine List.ext_getElem (by rw [List.length_map, List.length_range]) fun i h _ => ?_
    rw [List.getElem_map, List.getElem_range]
    simp only [buildTimeline, List.getElem_mapIdx]
    rfl
  · refine List.pairwise_iff_getElem.mpr fun i j hi hj hij => ?_
    have hsorted := sortBy_sorted timelineOrder (deduplicateEvents readers fileStem events)
    simp only [buildTimeline, List.length_mapIdx] at hi hj
    have hle := isLE_time_of_timelineOrder (List.pairwise_iff_getElem.mp hsorted i j hi hj hij)
    have htime : ∀ {k : Nat} (hk : k < (sortBy timelineOrder
        (deduplicateEvents readers fileStem events)).length), parsedEventTime readers
          (sortBy timelineOrder (deduplicateEvents readers fileStem events))[k].event =
        (sortBy timelineOrder (deduplicateEvents readers fileStem events))[k].parsedTime :=
      fun hk => congrArg TimelineEvent.parsedTime (prepare_event (List.getElem_mem hk))
    simp only [buildTimeline, List.getElem_mapIdx]
    rw [← htime hi, ← htime hj] at hle
    exact hle

/-! ## Arrival -/

theorem mem_surviving {events : List (IntuneEvent D)} {row : TimelineEvent D} :
    row ∈ surviving readers fileStem events ↔
      row ∈ events.map (prepare readers fileStem) ∧
        looksConsumed (pairedKeys (events.map (prepare readers fileStem))) row = false := by
  rw [surviving, List.mem_filter, Bool.not_eq_true']

theorem looksConsumed_congr {paired paired' : List PairedEventKey}
    (h : ∀ key, key ∈ paired ↔ key ∈ paired') (row : TimelineEvent D) :
    looksConsumed paired row = looksConsumed paired' row := by
  have hcontains : paired.contains row.pairedKey = paired'.contains row.pairedKey := by
    rw [Bool.eq_iff_iff, List.contains_iff_mem, List.contains_iff_mem, h]
  rw [looksConsumed, looksConsumed, isConsumedEnd, isConsumedEnd, hcontains]

theorem looksConsumed_perm {prepared prepared' : List (TimelineEvent D)}
    (h : prepared.Perm prepared') (row : TimelineEvent D) :
    looksConsumed (pairedKeys prepared) row = looksConsumed (pairedKeys prepared') row :=
  looksConsumed_congr (fun _ => ((h.filter _).map _).mem_iff) row

theorem surviving_perm {events arranged : List (IntuneEvent D)} (h : arranged.Perm events) :
    (surviving readers fileStem arranged).Perm (surviving readers fileStem events) := by
  have hprepared := h.map (prepare readers fileStem)
  rw [surviving, surviving,
    List.filter_congr fun row _ => congrArg (!·) (looksConsumed_perm hprepared row)]
  exact hprepared.filter _

theorem exists_arrangement {events : List (IntuneEvent D)} {rows : List (TimelineEvent D)}
    (h : rows.Perm (surviving readers fileStem events)) :
    ∃ arranged, arranged.Perm events ∧ surviving readers fileStem arranged = rows := by
  obtain ⟨all, hall, hrows⟩ := exists_perm_filter h
  have hprepared : (all.map TimelineEvent.event).map (prepare readers fileStem) = all := by
    rw [List.map_map]
    refine (List.map_congr_left fun row hrow => ?_).trans (List.map_id all)
    obtain ⟨event, _, rfl⟩ := List.mem_map.mp (hall.subset hrow)
    rfl
  refine ⟨all.map TimelineEvent.event, ?_, ?_⟩
  · have hevents : (events.map (prepare readers fileStem)).map TimelineEvent.event = events := by
      rw [List.map_map]
      exact List.map_id events
    have hback := hall.map TimelineEvent.event
    rwa [hevents] at hback
  · rw [surviving, hprepared,
      List.filter_congr fun row _ => congrArg (!·) (looksConsumed_perm hall row)]
    exact hrows

theorem arrivalFree_iff (events : List (IntuneEvent D)) :
    ArrivalFree readers fileStem events ↔
      Separated timelineOrder TimelineEvent.exactKey (surviving readers fileStem events) := by
  rw [← sortedKeys_perm_iff]
  constructor
  · intro h rows hrows
    obtain ⟨arranged, harranged, rfl⟩ := exists_arrangement hrows
    rw [← buildTimeline_keys, ← buildTimeline_keys]
    exact h arranged harranged
  · intro h arranged harranged
    rw [buildTimeline_keys, buildTimeline_keys]
    exact h _ (surviving_perm harranged)

/-! ## What is lost -/

theorem absorbed_of_key {events : List (IntuneEvent D)} {a b : IntuneEvent D}
    (h : keyOf readers fileStem a = keyOf readers fileStem b) :
    Absorbed readers fileStem events a ↔ Absorbed readers fileStem events b := by
  have hend := congrArg ExactEventKey.endTime h
  have hstart := congrArg ExactEventKey.startTime h
  have hguid := congrArg ExactEventKey.guid h
  have hstatus := congrArg ExactEventKey.status h
  simp only [keyOf, TimelineEvent.exactKey, prepare] at hend hstart hguid hstatus
  rw [Absorbed, Absorbed, hend, hstart, hguid, hstatus, pairedKey_prepare_of_key h]

theorem exists_first_of_key (readers : TimeReaders) (fileStem : Text → Option Text)
    {events : List (IntuneEvent D)} {event : IntuneEvent D} (h : event ∈ events) :
    ∃ before first after, events = before ++ first :: after ∧
      keyOf readers fileStem first = keyOf readers fileStem event ∧
      ¬ ∃ earlier ∈ before, keyOf readers fileStem earlier = keyOf readers fileStem first := by
  have hfind : (events.find? fun row =>
      keyOf readers fileStem row == keyOf readers fileStem event).isSome = true :=
    List.find?_isSome.mpr ⟨event, h, beq_self_eq_true _⟩
  obtain ⟨first, hfirst⟩ := Option.isSome_iff_exists.mp hfind
  obtain ⟨hkey, before, after, rfl, hbefore⟩ := List.find?_eq_some_iff_append.mp hfirst
  refine ⟨before, first, after, rfl, eq_of_beq hkey, ?_⟩
  rintro ⟨earlier, hmem, hearlier⟩
  have hnot := hbefore earlier hmem
  rw [hearlier, hkey] at hnot
  cases hnot

theorem looksConsumed_of_getElem? {events : List (IntuneEvent D)} {i : Nat}
    {event : IntuneEvent D}
    (h : (buildTimeline readers fileStem events)[i]? = some (stamp readers i event)) :
    looksConsumed (pairedKeys (events.map (prepare readers fileStem)))
      (prepare readers fileStem event) = false := by
  rw [getElem?_buildTimeline] at h
  obtain ⟨row, hrow, hstamp⟩ := Option.map_eq_some_iff.mp h
  have hmem := List.mem_of_getElem? hrow
  have hkey : row.exactKey = (prepare readers fileStem event).exactKey := by
    have hboth := congrArg (keyOf readers fileStem) hstamp
    rwa [keyOf_stamp, keyOf_stamp, keyOf, prepare_event hmem] at hboth
  rw [mem_sortBy, deduplicateEvents_eq] at hmem
  rw [← looksConsumed_of_key hkey]
  exact (mem_surviving.mp (mem_of_mem_firstCopiesFrom hmem).1).2

theorem exists_getElem?_buildTimeline {before after : List (IntuneEvent D)}
    {event : IntuneEvent D}
    (hfirst : ¬ ∃ earlier ∈ before, keyOf readers fileStem earlier = keyOf readers fileStem event)
    (hconsumed : looksConsumed
      (pairedKeys ((before ++ event :: after).map (prepare readers fileStem)))
      (prepare readers fileStem event) = false) :
    ∃ i, (buildTimeline readers fileStem (before ++ event :: after))[i]? =
      some (stamp readers i event) := by
  have hrow : prepare readers fileStem event ∈
      deduplicateEvents readers fileStem (before ++ event :: after) := by
    rw [← Bool.not_eq_true'] at hconsumed
    rw [deduplicateEvents_eq, surviving]
    rw [List.map_append, List.map_cons] at hconsumed ⊢
    rw [List.filter_append, List.filter_cons_of_pos]
    · refine mem_firstCopiesFrom (fun row hrow heq => hfirst ?_) List.not_mem_nil
      obtain ⟨earlier, hearlier, rfl⟩ := List.mem_map.mp (List.mem_filter.mp hrow).1
      exact ⟨earlier, hearlier, heq⟩
    · exact hconsumed
  obtain ⟨i, hi⟩ := List.getElem?_of_mem (mem_sortBy.mpr hrow)
  exact ⟨i, by rw [getElem?_buildTimeline, hi, Option.map_some]; rfl⟩

theorem losesNothing_iff (events : List (IntuneEvent D)) :
    LosesNothing readers fileStem events ↔ ∀ event ∈ events,
      looksConsumed (pairedKeys (events.map (prepare readers fileStem)))
        (prepare readers fileStem event) = true → Absorbed readers fileStem events event := by
  constructor
  · intro h event hevent hconsumed
    obtain ⟨before, first, after, hsplit, hkey, hfirst⟩ :=
      exists_first_of_key readers fileStem hevent
    rcases h before first after hsplit with ⟨i, hi⟩ | hearlier | habsorbed
    · have hnot := looksConsumed_of_getElem? hi
      rw [looksConsumed_of_key hkey, hconsumed] at hnot
      cases hnot
    · exact absurd hearlier hfirst
    · exact (absorbed_of_key hkey).mp habsorbed
  · rintro h before event after rfl
    by_cases hearlier : ∃ earlier ∈ before,
        keyOf readers fileStem earlier = keyOf readers fileStem event
    · exact Or.inr (Or.inl hearlier)
    · cases hconsumed : looksConsumed
          (pairedKeys ((before ++ event :: after).map (prepare readers fileStem)))
          (prepare readers fileStem event) with
      | false => exact Or.inl (exists_getElem?_buildTimeline hearlier hconsumed)
      | true =>
        have hevent := List.mem_append_right before (List.mem_cons_self (a := event) (l := after))
        exact Or.inr (Or.inr (h event hevent hconsumed))

/-- The timeline loses no operation and does not depend on arrival exactly when every
outcome that looks consumed is absorbed and the sort separates the other rows. -/
theorem buildTimeline_lossless_iff (readers : TimeReaders) (fileStem : Text → Option Text)
    (events : List (IntuneEvent D)) :
    (ArrivalFree readers fileStem events ∧
      Ordered readers (buildTimeline readers fileStem events) ∧
      LosesNothing readers fileStem events) ↔
    (Separated timelineOrder TimelineEvent.exactKey (surviving readers fileStem events) ∧
      ∀ event ∈ events, looksConsumed (pairedKeys (events.map (prepare readers fileStem)))
        (prepare readers fileStem event) = true → Absorbed readers fileStem events event) := by
  rw [arrivalFree_iff, losesNothing_iff]
  exact and_congr_right fun _ => and_iff_right (buildTimeline_ordered events)

/-- Two attempts at one app: the first is paired, of the second only the outcome was
seen. -/
def twoAttempts : List (IntuneEvent Nat) :=
  [{ id := 0, eventType := .win32App, name := "AppWorkload Install (a)".toList,
     guid := some "a".toList, status := .success,
     startTime := some "01-15-2024 10:00:00".toList, endTime := some "01-15-2024 10:05:00".toList,
     durationSecs := some 300, errorCode := none, detail := "Installing".toList,
     sourceFile := "AppWorkload.log".toList, lineNumber := 1, startTimeEpoch := none,
     endTimeEpoch := none, scriptBody := none, parentAppGuid := none },
   { id := 1, eventType := .win32App, name := "AppWorkload Install (a)".toList,
     guid := some "a".toList, status := .failed,
     startTime := some "01-15-2024 11:00:00".toList, endTime := none,
     durationSecs := none, errorCode := none, detail := "Install failed".toList,
     sourceFile := "AppWorkload.log".toList, lineNumber := 9, startTimeEpoch := none,
     endTimeEpoch := none, scriptBody := none, parentAppGuid := none }]

def someReaders : TimeReaders where
  parseFromStr format value :=
    if format = "%m-%d-%Y %H:%M:%S%.f".toList then
      [("01-15-2024 10:00:00".toList, 1705312800000000000),
       ("01-15-2024 10:05:00".toList, 1705313100000000000),
       ("01-15-2024 11:00:00".toList, 1705316400000000000)].lookup value
    else none
  parseFromRfc3339 _ := none

def stemOf (path : Text) : Option Text := (rsplitOnce '.' path).map Prod.fst

theorem buildTimeline_loses_attempt :
    ¬ (ArrivalFree someReaders stemOf twoAttempts ∧
      Ordered someReaders (buildTimeline someReaders stemOf twoAttempts) ∧
      LosesNothing someReaders stemOf twoAttempts) := by
  rintro ⟨-, -, hloses⟩
  have hconsumed : looksConsumed (pairedKeys (twoAttempts.map (prepare someReaders stemOf)))
      (prepare someReaders stemOf twoAttempts[1]) = true := by decide +kernel
  obtain ⟨-, -, -, paired, hmem, hsome, htime, -⟩ :=
    (losesNothing_iff twoAttempts).mp hloses twoAttempts[1] (List.getElem_mem _) hconsumed
  have hnone : ∀ row ∈ twoAttempts, row.endTime.isSome = true →
      row.endTime ≠ twoAttempts[1].startTime := by decide
  exact hnone paired hmem hsome htime

end Intune
end CmTrace
