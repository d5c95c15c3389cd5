import CmTrace.Collections.Paging
import CmTrace.EventLog.Wire

/-!
# Pages of a finalized analysis session

A response holds as many rows as fit its budget.  While the rows are selected, the
fields that are known only afterwards are taken to be as wide as they can be.  The
size of a response is one of its fields, so it is settled by writing the response
until the size does not change.
-/

namespace CmTrace
namespace EventLog

open Text Timeline Collections

def maxAnalysisTimelinePageItems : Nat := 1000

def maxAnalysisTimelinePageBytes : Nat := 8 * 1024 * 1024

def maxAnalysisTimelinePreviewBytes : Nat := 512 * 1024

def maxAnalysisTimelinePreviewItems : Nat := 100

def maxAnalysisSessionIdBytes : Nat := 128

def maxSerializedTimelineItemBytes : Nat := 128 * 1024

/-- The largest number of 64 bits, which is the widest one written. -/
def u64Max : Nat := 2 ^ 64 - 1

def validateSessionId (sessionId : Text) : Bool :=
  !sessionId.isEmpty && decide (byteLen sessionId ≤ maxAnalysisSessionIdBytes) &&
    !sessionId.any isControl

structure EventLogAnalysisSessionStatus where
  sessionId : Text
  revision : UInt64
  totalItems : UInt64
  eventItems : UInt64
  logItems : UInt64
  totalUnplaced : UInt64
  totalEdges : UInt64
  totalCoverageGaps : UInt64
  finalized : Bool
  deriving DecidableEq

/-- A session, as far as its pages need it. -/
structure EventLogAnalysisSession where
  id : Text
  revision : UInt64
  timeline : Option UnifiedTimeline
  finalizedTimelineCounts : UInt64 × UInt64 × UInt64

def u64Size (n : Nat) : UInt64 := UInt64.ofNat (min n u64Max)

def EventLogAnalysisSession.status (session : EventLogAnalysisSession) (timeline : UnifiedTimeline) :
    EventLogAnalysisSessionStatus where
  sessionId := session.id
  revision := session.revision
  totalItems := u64Size (session.finalizedTimelineCounts.1.toNat +
    session.finalizedTimelineCounts.2.1.toNat)
  eventItems := session.finalizedTimelineCounts.1
  logItems := session.finalizedTimelineCounts.2.1
  totalUnplaced := session.finalizedTimelineCounts.2.2
  totalEdges := u64Size timeline.edges.length
  totalCoverageGaps := u64Size timeline.coverageGaps.length
  finalized := true

def EventLogAnalysisSession.finalizedTimeline (session : EventLogAnalysisSession) :
    Except Text UnifiedTimeline :=
  match session.timeline with
  | some timeline => .ok timeline
  | none => .error "event-log analysis session is not finalized".toList

def validatedTimelineLimit (limit : Nat) (resource : Text) : Except Text Nat :=
  if limit = 0 ∨ maxAnalysisTimelinePageItems < limit then
    .error (resource ++ " limit must be between 1 and ".toList ++
      decimal maxAnalysisTimelinePageItems)
  else .ok limit

/-! ## Selecting rows -/

section

variable {Row : Type} (write : Row → Text)

/-- Rows from a place on, behind those selected before and their bytes. -/
def selectFrom (emptyEnvelopeBytes maxRowBytes : Nat) (rowLabel : Text) :
    List Row → Nat → Nat → Except Text Nat
  | [], _, selected => .ok selected
  | row :: rows, serializedRowBytes, selected =>
    let rowBytes := byteLen (write row)
    let separatorBytes := if 0 < selected then 1 else 0
    if maxRowBytes < rowBytes then
      .error ("stored ".toList ++ rowLabel ++ " exceeds the ".toList ++ decimal maxRowBytes ++
        "-byte projection invariant".toList)
    else if 0 < selected ∧ maxAnalysisTimelinePageBytes <
        emptyEnvelopeBytes + serializedRowBytes + separatorBytes + rowBytes then
      .ok selected
    else
      selectFrom emptyEnvelopeBytes maxRowBytes rowLabel rows
        (serializedRowBytes + separatorBytes + rowBytes) (selected + 1)

def selectBoundedPrefix (rows : List Row) (emptyEnvelopeBytes maxRowBytes : Nat) (rowLabel : Text) :
    Except Text Nat :=
  selectFrom write emptyEnvelopeBytes maxRowBytes rowLabel rows 0 0

/-- Rows at the front that the remaining bytes are enough for, and what then remains. -/
def previewFrom : List Row → Nat → List Row × Nat
  | [], remaining => ([], remaining)
  | row :: rows, remaining =>
    if remaining < byteLen (write row) + 1 then ([], remaining)
    else
      let rest := previewFrom rows (remaining - (byteLen (write row) + 1))
      (row :: rest.1, rest.2)

def boundedPreview (rows : List Row) (remaining : Nat) : List Row × Nat :=
  previewFrom write (rows.take maxAnalysisTimelinePreviewItems) remaining

end

/-- Write a response until its size is the size it says; so many times at most. -/
def convergeSerializedBytes (write : Nat → Text) : Nat → Nat → Except Text Nat
  | 0, _ => .error "analysis response serialized byte size did not converge".toList
  | rounds + 1, current =>
    let serializedBytes := byteLen (write current)
    if current = serializedBytes then .ok current
    else convergeSerializedBytes write rounds serializedBytes

/-- Settle the size of a response, and refuse it if it is over the budget. -/
def settleSerializedBytes (write : Nat → Text) (resource : Text) : Except Text Nat :=
  match convergeSerializedBytes write 4 u64Max with
  | .error e => .error e
  | .ok serializedBytes =>
    if maxAnalysisTimelinePageBytes < serializedBytes then
      .error (resource ++ " projection exceeded its serialized byte budget".toList)
    else .ok serializedBytes

/-- The response of as many rows as fit, given the response of so many rows and of a
size. -/
def fillResponse {Row Response : Type} (write : Row → Text) (json : Response → Text)
    (candidates : List Row) (emptyEnvelopeBytes maxRowBytes : Nat) (rowLabel resource : Text)
    (response : Nat → Nat → Response) : Except Text Response :=
  match selectBoundedPrefix write candidates emptyEnvelopeBytes maxRowBytes rowLabel with
  | .error e => .error e
  | .ok selected =>
    match settleSerializedBytes (fun n => json (response selected n)) resource with
    | .error e => .error e
    | .ok serializedBytes => .ok (response selected serializedBytes)

/-! ## Timeline pages -/

structure EventLogAnalysisTimelinePage where
  sessionId : Text
  revision : UInt64
  offset : Nat
  nextOffset : Option Nat
  totalItems : UInt64
  eventItems : UInt64
  logItems : UInt64
  totalUnplaced : UInt64
  totalEdges : UInt64
  totalCoverageGaps : UInt64
  items : List Timeline.TimelineItem
  unplacedPreview : List UnplacedItem
  edgesPreview : List Timeline.TimelineCorrelationEdge
  coverageGapsPreview : List Timeline.TimelineCoverageGap
  serializedBytes : Nat

def EventLogAnalysisTimelinePage.json (page : EventLogAnalysisTimelinePage) : Text :=
  jsonObject [("sessionId", jsonString page.sessionId), ("revision", decimal page.revision.toNat),
    ("offset", decimal page.offset), ("nextOffset", jsonOption decimal page.nextOffset),
    ("totalItems", decimal page.totalItems.toNat), ("eventItems", decimal page.eventItems.toNat),
    ("logItems", decimal page.logItems.toNat),
    ("totalUnplaced", decimal page.totalUnplaced.toNat),
    ("totalEdges", decimal page.totalEdges.toNat),
    ("totalCoverageGaps", decimal page.totalCoverageGaps.toNat),
    ("items", jsonArray (page.items.map Wire.item)),
    ("unplacedPreview", jsonArray (page.unplacedPreview.map Wire.unplaced)),
    ("edgesPreview", jsonArray (page.edgesPreview.map Wire.edge)),
    ("coverageGapsPreview", jsonArray (page.coverageGapsPreview.map Wire.coverageGap)),
    ("serializedBytes", decimal page.serializedBytes)]

namespace EventLogAnalysisSession

/-- A page with no rows yet, its last fields as wide as they can be. -/
def reservedPage (session : EventLogAnalysisSession) (timeline : UnifiedTimeline) (offset start : Nat) :
    EventLogAnalysisTimelinePage :=
  let status := session.status timeline
  let includePreviews := offset = 0
  let previewBytes := maxAnalysisTimelinePreviewBytes - 4096
  let unplaced := if includePreviews then boundedPreview Wire.unplaced timeline.unplaced previewBytes
    else ([], previewBytes)
  let edges := if includePreviews then boundedPreview Wire.edge timeline.edges unplaced.2
    else ([], unplaced.2)
  let coverageGaps := if includePreviews then
      boundedPreview Wire.coverageGap timeline.coverageGaps edges.2
    else ([], edges.2)
  { sessionId := status.sessionId
    revision := status.revision
    offset := start
    nextOffset := some u64Max
    totalItems := status.totalItems
    eventItems := status.eventItems
    logItems := status.logItems
    totalUnplaced := status.totalUnplaced
    totalEdges := status.totalEdges
    totalCoverageGaps := status.totalCoverageGaps
    items := []
    unplacedPreview := unplaced.1
    edgesPreview := edges.1
    coverageGapsPreview := coverageGaps.1
    serializedBytes := u64Max }

def page (session : EventLogAnalysisSession) (offset limit : Nat) :
    Except Text EventLogAnalysisTimelinePage :=
  match session.finalizedTimeline with
  | .error e => .error e
  | .ok timeline =>
    match validatedTimelineLimit limit "timeline page".toList with
    | .error e => .error e
    | .ok limit =>
      let start := min offset timeline.items.length
      let requestedEnd := min (start + limit) timeline.items.length
      let reserved := session.reservedPage timeline offset start
      let candidates := (timeline.items.drop start).take (requestedEnd - start)
      fillResponse Wire.item EventLogAnalysisTimelinePage.json candidates (byteLen reserved.json)
        maxSerializedTimelineItemBytes "timeline item".toList "timeline page".toList
        fun selected serializedBytes =>
          let stop := start + selected
          { reserved with
            items := candidates.take selected
            nextOffset := if stop < timeline.items.length then some stop else none
            serializedBytes := serializedBytes }

end EventLogAnalysisSession

/-! ## Windows -/

structure EventLogAnalysisTimelineWindow where
  sessionId : Text
  revision : UInt64
  startMs : Int64
  endMs : Int64
  offset : Nat
  nextOffset : Option Nat
  totalItems : UInt64
  windowItems : Nat
  omittedItems : Nat
  items : List Timeline.TimelineItem
  serializedBytes : Nat

def EventLogAnalysisTimelineWindow.json (window : EventLogAnalysisTimelineWindow) : Text :=
  jsonObject [("sessionId", jsonString window.sessionId),
    ("revision", decimal window.revision.toNat), ("startMs", jsonInt window.startMs.toInt),
    ("endMs", jsonInt window.endMs.toInt), ("offset", decimal window.offset),
    ("nextOffset", jsonOption decimal window.nextOffset),
    ("totalItems", decimal window.totalItems.toNat), ("windowItems", decimal window.windowItems),
    ("omittedItems", decimal window.omittedItems),
    ("items", jsonArray (window.items.map Wire.item)),
    ("serializedBytes", decimal window.serializedBytes)]

/-- The first place where a condition that holds up to there does not. -/
def partitionPoint {A : Type} (p : A → Bool) (xs : List A) : Nat := (xs.takeWhile p).length

/-- The place of the first item at a time or after it. -/
def firstAt (timeline : UnifiedTimeline) (startMs : Int64) : Nat :=
  partitionPoint (fun item => decide (item.timestampMs < startMs.toInt)) timeline.items

/-- The place behind the last item at a time or before it. -/
def afterLastAt (timeline : UnifiedTimeline) (endMs : Int64) : Nat :=
  partitionPoint (fun item => decide (item.timestampMs ≤ endMs.toInt)) timeline.items

namespace EventLogAnalysisSession

/-- A window with no rows yet, its last fields as wide as they can be. -/
def reservedWindow (session : EventLogAnalysisSession) (timeline : UnifiedTimeline)
    (startMs endMs : Int64) (first afterLast : Nat) : EventLogAnalysisTimelineWindow :=
  let status := session.status timeline
  { sessionId := status.sessionId
    revision := status.revision
    startMs := startMs
    endMs := endMs
    offset := first
    nextOffset := some u64Max
    totalItems := status.totalItems
    windowItems := afterLast - first
    omittedItems := u64Max
    items := []
    serializedBytes := u64Max }

def window (session : EventLogAnalysisSession) (startMs endMs : Int64) (limit : Nat) :
    Except Text EventLogAnalysisTimelineWindow :=
  match session.finalizedTimeline with
  | .error e => .error e
  | .ok timeline =>
    match validatedTimelineLimit limit "timeline window".toList with
    | .error e => .error e
    | .ok limit =>
      if endMs < startMs then
        .error "timeline window start must not be after its end".toList
      else
        let first := firstAt timeline startMs
        let afterLast := afterLastAt timeline endMs
        let requestedEnd := min (first + limit) afterLast
        let reserved := session.reservedWindow timeline startMs endMs first afterLast
        let candidates := (timeline.items.drop first).take (requestedEnd - first)
        fillResponse Wire.item EventLogAnalysisTimelineWindow.json candidates
          (byteLen reserved.json) maxSerializedTimelineItemBytes "timeline item".toList
          "timeline window".toList
          fun selected serializedBytes =>
            let stop := first + selected
            { reserved with
              items := candidates.take selected
              nextOffset := if stop < afterLast then some stop else none
              omittedItems := afterLast - stop
              serializedBytes := serializedBytes }

end EventLogAnalysisSession

/-! ## Pages of edges -/

structure EventLogAnalysisEdgePage where
  sessionId : Text
  revision : UInt64
  offset : Nat
  nextOffset : Option Nat
  totalEdges : UInt64
  edges : List Timeline.TimelineCorrelationEdge
  serializedBytes : Nat

def EventLogAnalysisEdgePage.json (page : EventLogAnalysisEdgePage) : Text :=
  jsonObject [("sessionId", jsonString page.sessionId), ("revision", decimal page.revision.toNat),
    ("offset", decimal page.offset), ("nextOffset", jsonOption decimal page.nextOffset),
    ("totalEdges", decimal page.totalEdges.toNat),
    ("edges", jsonArray (page.edges.map Wire.edge)),
    ("serializedBytes", decimal page.serializedBytes)]

namespace EventLogAnalysisSession

/-- A page with no edges yet, its last fields as wide as they can be. -/
def reservedEdgePage (session : EventLogAnalysisSession) (timeline : UnifiedTimeline) (start : Nat) :
    EventLogAnalysisEdgePage :=
  let status := session.status timeline
  { sessionId := status.sessionId
    revision := status.revision
    offset := start
    nextOffset := some u64Max
    totalEdges := status.totalEdges
    edges := []
    serializedBytes := u64Max }

def edgePage (session : EventLogAnalysisSession) (offset limit : Nat) :
    Except Text EventLogAnalysisEdgePage :=
  match session.finalizedTimeline with
  | .error e => .error e
  | .ok timeline =>
    match validatedTimelineLimit limit "edge page".toList with
    | .error e => .error e
    | .ok limit =>
      let start := min offset timeline.edges.length
      let requestedEnd := min (start + limit) timeline.edges.length
      let reserved := session.reservedEdgePage timeline start
      let candidates := (timeline.edges.drop start).take (requestedEnd - start)
      fillResponse Wire.edge EventLogAnalysisEdgePage.json candidates (byteLen reserved.json)
        maxAnalysisTimelinePageBytes "correlation edge".toList "edge page".toList
        fun selected serializedBytes =>
          let stop := start + selected
          { reserved with
            edges := candidates.take selected
            nextOffset := if stop < timeline.edges.length then some stop else none
            serializedBytes := serializedBytes }

end EventLogAnalysisSession

end EventLog
end CmTrace
