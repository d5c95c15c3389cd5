import CmTrace.EventLog.PageBudget

/-!
# Every offset has a page

The late fields of a response take no more bytes than were reserved for them, and
what comes before its rows leaves room for a row.
-/

namespace CmTrace
namespace EventLog

open Text Timeline Collections

/-! ## How wide the fields are -/

theorem digits_u64 (n : UInt64) : digits n.toNat ≤ 20 := by
  have hlt := n.toNat_lt
  exact (digits_le_iff (by decide)).mpr (Nat.lt_trans hlt (by decide))

theorem digits_length {n : Nat} (h : n < 2 ^ 63) : digits n ≤ 20 :=
  (digits_le_iff (by decide)).mpr (Nat.lt_trans h (by decide))

theorem byteLen_jsonInt_le (n : Int64) : byteLen (jsonInt n.toInt) ≤ 20 := by
  have hlow := n.le_toInt
  have hhigh := n.toInt_lt
  cases hn : n.toInt with
  | ofNat k =>
    rw [hn, Int.ofNat_eq_natCast] at hhigh
    rw [jsonInt, byteLen_decimal]
    exact (digits_le_iff (by decide)).mpr (by omega)
  | negSucc k =>
    rw [hn] at hlow
    have hminus : ('-' : Char).utf8Size = 1 := rfl
    have hdigits : digits (k + 1) ≤ 19 := (digits_le_iff (by decide)).mpr (by omega)
    rw [jsonInt, byteLen_cons, byteLen_decimal, hminus]
    omega

theorem byteLen_next_le {total : Nat} (h : total < 2 ^ 63) (n : Nat) :
    byteLen (jsonOption decimal (if n < total then some n else none)) ≤ 20 := by
  split_ifs with hlt
  · rw [jsonOption, byteLen_decimal]
    exact digits_length (Nat.lt_trans hlt h)
  · decide

theorem byteLen_next_max : byteLen (jsonOption decimal (some u64Max)) = 20 := by
  rw [jsonOption, byteLen_decimal, digits_u64Max]

theorem byteLen_sessionId {id : Text} (h : validateSessionId id = true) :
    byteLen (jsonString id) ≤ 258 := by
  simp only [validateSessionId, Bool.and_eq_true, Bool.not_eq_true', decide_eq_true_eq] at h
  obtain ⟨⟨-, hlen⟩, hcontrol⟩ := h
  have hplain : ∀ c ∈ id, 0x20 ≤ c.toNat := by
    intro c hc
    by_contra hlow
    have hyes : id.any isControl = true :=
      List.any_eq_true.mpr ⟨c, hc, by simp [isControl]; omega⟩
    rw [hcontrol] at hyes
    cases hyes
  have := byteLen_jsonString_le hplain
  have hmax : maxAnalysisSessionIdBytes = 128 := rfl
  omega

theorem previewFrom_weight {Row : Type} (write : Row → Text) : ∀ (rows : List Row) (remaining : Nat),
    weight write (previewFrom write rows remaining).1 + (previewFrom write rows remaining).2 =
      remaining := by
  intro rows
  induction rows with
  | nil =>
    intro remaining
    exact Nat.zero_add _
  | cons row rows ih =>
    intro remaining
    rw [previewFrom]
    split_ifs with hover
    · exact Nat.zero_add _
    · have := ih (remaining - (byteLen (write row) + 1))
      simp only [weight_cons]
      omega

theorem boundedPreview_weight {Row : Type} (write : Row → Text) (rows : List Row) (remaining : Nat) :
    weight write (boundedPreview write rows remaining).1 + (boundedPreview write rows remaining).2 =
      remaining := previewFrom_weight write _ remaining

/-! ## Sizes of the responses -/

/-- The bytes of a page besides its rows, its next offset and its size. -/
def EventLogAnalysisTimelinePage.fixedBytes (page : EventLogAnalysisTimelinePage) : Nat :=
  236 + byteLen (jsonString page.sessionId) + digits page.revision.toNat + digits page.offset +
    digits page.totalItems.toNat + digits page.eventItems.toNat + digits page.logItems.toNat +
    digits page.totalUnplaced.toNat + digits page.totalEdges.toNat +
    digits page.totalCoverageGaps.toNat + (weight Wire.unplaced page.unplacedPreview - 1) +
    (weight Wire.edge page.edgesPreview - 1) + (weight Wire.coverageGap page.coverageGapsPreview - 1)

theorem byteLen_page (page : EventLogAnalysisTimelinePage) : byteLen page.json =
    page.fixedBytes + (weight Wire.item page.items - 1) +
      byteLen (jsonOption decimal page.nextOffset) + digits page.serializedBytes := by
  have hnames : (["sessionId", "revision", "offset", "nextOffset", "totalItems", "eventItems",
      "logItems", "totalUnplaced", "totalEdges", "totalCoverageGaps", "items", "unplacedPreview",
      "edgesPreview", "coverageGapsPreview", "serializedBytes"].map fun name =>
      byteLen name.toList).sum = 167 := by decide
  rw [EventLogAnalysisTimelinePage.json, EventLogAnalysisTimelinePage.fixedBytes]
  refine (byteLen_jsonObject_of_names (List.cons_ne_nil _ _) (by rfl) hnames).trans ?_
  simp only [List.map_cons, List.map_nil, List.sum_cons, List.sum_nil, byteLen_decimal, byteLen_rows]
  generalize weight Wire.item page.items - 1 = items
  generalize weight Wire.unplaced page.unplacedPreview - 1 = unplaced
  generalize weight Wire.edge page.edgesPreview - 1 = edges
  generalize weight Wire.coverageGap page.coverageGapsPreview - 1 = gaps
  omega

/-- The bytes of a window besides its rows, its next offset, what it leaves out and its
size. -/
def EventLogAnalysisTimelineWindow.fixedBytes (window : EventLogAnalysisTimelineWindow) : Nat :=
  145 + byteLen (jsonString window.sessionId) + digits window.revision.toNat +
    byteLen (jsonInt window.startMs.toInt) + byteLen (jsonInt window.endMs.toInt) +
    digits window.offset + digits window.totalItems.toNat + digits window.windowItems

theorem byteLen_window (window : EventLogAnalysisTimelineWindow) : byteLen window.json =
    window.fixedBytes + (weight Wire.item window.items - 1) +
      (byteLen (jsonOption decimal window.nextOffset) + digits window.omittedItems) +
      digits window.serializedBytes := by
  have hnames : (["sessionId", "revision", "startMs", "endMs", "offset", "nextOffset", "totalItems",
      "windowItems", "omittedItems", "items", "serializedBytes"].map fun name =>
      byteLen name.toList).sum = 98 := by decide
  rw [EventLogAnalysisTimelineWindow.json, EventLogAnalysisTimelineWindow.fixedBytes]
  refine (byteLen_jsonObject_of_names (List.cons_ne_nil _ _) (by rfl) hnames).trans ?_
  simp only [List.map_cons, List.map_nil, List.sum_cons, List.sum_nil, byteLen_decimal, byteLen_rows]
  omega

/-- The bytes of a page of edges besides its rows, its next offset and its size. -/
def EventLogAnalysisEdgePage.fixedBytes (page : EventLogAnalysisEdgePage) : Nat :=
  94 + byteLen (jsonString page.sessionId) + digits page.revision.toNat + digits page.offset +
    digits page.totalEdges.toNat

theorem byteLen_edgePage (page : EventLogAnalysisEdgePage) : byteLen page.json =
    page.fixedBytes + (weight Wire.edge page.edges - 1) +
      byteLen (jsonOption decimal page.nextOffset) + digits page.serializedBytes := by
  have hnames : (["sessionId", "revision", "offset", "nextOffset", "totalEdges", "edges",
      "serializedBytes"].map fun name =>
      byteLen name.toList).sum = 63 := by decide
  rw [EventLogAnalysisEdgePage.json, EventLogAnalysisEdgePage.fixedBytes]
  refine (byteLen_jsonObject_of_names (List.cons_ne_nil _ _) (by rfl) hnames).trans ?_
  simp only [List.map_cons, List.map_nil, List.sum_cons, List.sum_nil, byteLen_decimal, byteLen_rows]
  omega

/-! ## Sessions -/

/-- A session whose timeline its builder has merged. -/
structure Finalized (session : EventLogAnalysisSession) (timeline : UnifiedTimeline) : Prop where
  finalized : session.timeline = some timeline
  validId : validateSessionId session.id = true
  merged : ∃ placed unplaced, timeline.items = (merge placed unplaced).items ∧
    timeline.unplaced = (merge placed unplaced).unplaced
  itemsLength : timeline.items.length < 2 ^ 63
  edgesLength : timeline.edges.length < 2 ^ 63

/-- Items are projected until they are of this size. -/
def ItemsFit (timeline : UnifiedTimeline) : Prop :=
  ∀ item ∈ timeline.items, byteLen (Wire.item item) ≤ maxSerializedTimelineItemBytes

/-- A response says its size, which is within the budget. -/
def Exact (json : Text) (serializedBytes : Nat) : Prop :=
  serializedBytes = byteLen json ∧ serializedBytes ≤ maxAnalysisTimelinePageBytes

def EventLogAnalysisSession.loneEdgePage (session : EventLogAnalysisSession)
    (timeline : UnifiedTimeline) (offset serializedBytes : Nat) : EventLogAnalysisEdgePage :=
  { session.reservedEdgePage timeline offset with
    edges := (timeline.edges.drop offset).take 1
    nextOffset := if offset + 1 < timeline.edges.length then some (offset + 1) else none
    serializedBytes := serializedBytes }

def EdgesFit (session : EventLogAnalysisSession) (timeline : UnifiedTimeline) : Prop :=
  ∀ offset < timeline.edges.length, ∃ n, Exact (session.loneEdgePage timeline offset n).json n

def ValidLimit (limit : Nat) : Prop := 1 ≤ limit ∧ limit ≤ maxAnalysisTimelinePageItems

theorem validatedTimelineLimit_of_valid {limit : Nat} (h : ValidLimit limit) (resource : Text) :
    validatedTimelineLimit limit resource = .ok limit := by
  have hnot : ¬ (limit = 0 ∨ maxAnalysisTimelinePageItems < limit) := by
    obtain ⟨hlow, hhigh⟩ := h
    omega
  rw [validatedTimelineLimit, if_neg hnot]

theorem validLimit_min {limit : Nat} (h : ValidLimit limit) (n : Nat) (hn : 0 < n) :
    ValidLimit (min limit n) := by
  obtain ⟨hlow, hhigh⟩ := h
  exact ⟨by omega, by omega⟩

def pageView : PageView Timeline.TimelineItem EventLogAnalysisTimelinePage := ⟨(·.items), (·.nextOffset)⟩

def edgeView : PageView Timeline.TimelineCorrelationEdge EventLogAnalysisEdgePage := ⟨(·.edges), (·.nextOffset)⟩

section

variable {session : EventLogAnalysisSession} {timeline : UnifiedTimeline}

theorem finalizedTimeline_eq (h : Finalized session timeline) :
    session.finalizedTimeline = .ok timeline := by
  rw [EventLogAnalysisSession.finalizedTimeline, h.finalized]

theorem requested_eq {A : Type} {rows : List A} {offset : Nat} (h : offset ≤ rows.length)
    (limit : Nat) : (rows.drop offset).take (min (offset + limit) rows.length - offset) =
      (rows.drop offset).take limit := by
  refine List.take_eq_take_iff.mpr ?_
  rw [List.length_drop]
  omega

theorem weight_previews (session : EventLogAnalysisSession) (timeline : UnifiedTimeline)
    (offset start : Nat) :
    (weight Wire.unplaced (session.reservedPage timeline offset start).unplacedPreview - 1) +
      (weight Wire.edge (session.reservedPage timeline offset start).edgesPreview - 1) +
      (weight Wire.coverageGap (session.reservedPage timeline offset start).coverageGapsPreview - 1) ≤
        520192 := by
  rw [EventLogAnalysisSession.reservedPage]
  split_ifs
  · have hfirst := boundedPreview_weight Wire.unplaced timeline.unplaced
      (maxAnalysisTimelinePreviewBytes - 4096)
    have hsecond := boundedPreview_weight Wire.edge timeline.edges
      (boundedPreview Wire.unplaced timeline.unplaced (maxAnalysisTimelinePreviewBytes - 4096)).2
    have hthird := boundedPreview_weight Wire.coverageGap timeline.coverageGaps
      (boundedPreview Wire.edge timeline.edges (boundedPreview Wire.unplaced timeline.unplaced
        (maxAnalysisTimelinePreviewBytes - 4096)).2).2
    have hmax : maxAnalysisTimelinePreviewBytes - 4096 = 520192 := rfl
    simp only [hmax] at hfirst hsecond hthird ⊢
    omega
  · exact Nat.zero_le _

theorem fixedBytes_reservedPage (h : Finalized session timeline) {start : Nat}
    (hstart : start < 2 ^ 63) (offset : Nat) :
    (session.reservedPage timeline offset start).fixedBytes ≤ 520846 := by
  have hid := byteLen_sessionId h.validId
  have hoffset := digits_length hstart
  have hrevision := digits_u64 session.revision
  have htotal := digits_u64 (session.status timeline).totalItems
  have hevents := digits_u64 (session.status timeline).eventItems
  have hlogs := digits_u64 (session.status timeline).logItems
  have hunplaced := digits_u64 (session.status timeline).totalUnplaced
  have hedges := digits_u64 (session.status timeline).totalEdges
  have hgaps := digits_u64 (session.status timeline).totalCoverageGaps
  have hpreviews := weight_previews session timeline offset start
  rw [EventLogAnalysisTimelinePage.fixedBytes]
  simp only [EventLogAnalysisSession.reservedPage] at hpreviews ⊢
  simp only [EventLogAnalysisSession.status] at *
  generalize weight Wire.unplaced _ - 1 = unplaced at hpreviews ⊢
  generalize weight Wire.edge _ - 1 = edges at hpreviews ⊢
  generalize weight Wire.coverageGap _ - 1 = gaps at hpreviews ⊢
  omega

theorem page_spec (h : Finalized session timeline) (hitems : ItemsFit timeline) :
    ServesPages pageView session.page timeline.items
      (fun page => Exact page.json page.serializedBytes) ValidLimit := by
  intro offset limit hoffset hlimit
  have hstart : offset < 2 ^ 63 := Nat.lt_of_le_of_lt hoffset h.itemsLength
  rw [EventLogAnalysisSession.page, finalizedTimeline_eq h]
  simp only [validatedTimelineLimit_of_valid hlimit]
  rw [Nat.min_eq_left hoffset, requested_eq hoffset]
  generalize hreserved : session.reservedPage timeline offset offset = reserved
  have hfixed : reserved.fixedBytes ≤ 520846 := by
    rw [← hreserved]
    exact fixedBytes_reservedPage h hstart offset
  have hempty : byteLen reserved.json = reserved.fixedBytes + 20 + 20 := by
    rw [byteLen_page, ← hreserved]
    simp only [EventLogAnalysisSession.reservedPage, weight_nil, byteLen_next_max, digits_u64Max]
  have hbudget : maxAnalysisTimelinePageBytes = 8388608 := rfl
  have hitem : maxSerializedTimelineItemBytes = 131072 := rfl
  have hwide : 99 ≤ reserved.fixedBytes := by
    rw [EventLogAnalysisTimelinePage.fixedBytes]
    omega
  obtain ⟨k, n, hfill, hle, hpos, hn, hnle, -, -⟩ := @fillResponse_small _ _ Wire.item
    EventLogAnalysisTimelinePage.json ((timeline.items.drop offset).take limit)
    reserved.fixedBytes 20 maxSerializedTimelineItemBytes
    (fun k => byteLen (jsonOption decimal
      (if offset + k < timeline.items.length then some (offset + k) else none)))
    (fun selected serializedBytes =>
      { reserved with
        items := ((timeline.items.drop offset).take limit).take selected
        nextOffset := if offset + selected < timeline.items.length then some (offset + selected)
          else none
        serializedBytes := serializedBytes })
    (fun item hmem => hitems item (List.mem_of_mem_drop (List.mem_of_mem_take hmem)))
    (fun k n => byteLen_page _) (fun k => byteLen_next_le h.itemsLength _) hwide (by omega)
    "timeline item".toList "timeline page".toList
  rw [hempty, hfill]
  have hlength : (((timeline.items.drop offset).take limit).take k).length = k := by
    rw [List.length_take]
    omega
  refine ⟨_, rfl, ⟨?_, ?_, ?_, ?_⟩, hn, hnle⟩
  · exact (List.take_prefix _ _).trans (List.take_prefix _ _)
  · show (((timeline.items.drop offset).take limit).take k).length ≤ limit
    rw [List.length_take] at hle
    omega
  · intro hlt
    have hsome : (timeline.items.drop offset).take limit ≠ [] := by
      rw [← List.length_pos_iff, List.length_take, List.length_drop]
      have := hlimit.1
      omega
    have := hpos hsome
    show ((timeline.items.drop offset).take limit).take k ≠ []
    rw [← List.length_pos_iff]
    omega
  · show _ = if offset + (((timeline.items.drop offset).take limit).take k).length < _ then
      some (offset + (((timeline.items.drop offset).take limit).take k).length) else none
    rw [hlength]
    rfl

theorem fixedBytes_reservedEdgePage (h : Finalized session timeline) {start : Nat}
    (hstart : start < 2 ^ 63) : (session.reservedEdgePage timeline start).fixedBytes ≤ 412 := by
  have hid := byteLen_sessionId h.validId
  have hoffset := digits_length hstart
  have hrevision := digits_u64 session.revision
  have hedges := digits_u64 (session.status timeline).totalEdges
  rw [EventLogAnalysisEdgePage.fixedBytes]
  simp only [EventLogAnalysisSession.reservedEdgePage, EventLogAnalysisSession.status] at *
  omega

theorem edgePage_spec (h : Finalized session timeline) (hedges : EdgesFit session timeline) :
    ServesPages edgeView session.edgePage timeline.edges
      (fun page => Exact page.json page.serializedBytes) ValidLimit := by
  intro offset limit hoffset hlimit
  have hstart : offset < 2 ^ 63 := Nat.lt_of_le_of_lt hoffset h.edgesLength
  have hbudget : maxAnalysisTimelinePageBytes = 8388608 := rfl
  have hrows : ∀ edge ∈ (timeline.edges.drop offset).take limit,
      byteLen (Wire.edge edge) ≤ maxAnalysisTimelinePageBytes := by
    intro edge hedge
    obtain ⟨i, hi, rfl⟩ := List.mem_iff_getElem.mp (List.mem_of_mem_drop (List.mem_of_mem_take hedge))
    obtain ⟨n, hn, hnle⟩ := hedges i hi
    rw [byteLen_edgePage] at hn
    simp only [EventLogAnalysisSession.loneEdgePage, List.drop_eq_getElem_cons hi,
      List.take_succ_cons, List.take_zero, weight_cons, weight_nil] at hn
    omega
  rw [EventLogAnalysisSession.edgePage, finalizedTimeline_eq h]
  simp only [validatedTimelineLimit_of_valid hlimit]
  rw [Nat.min_eq_left hoffset, requested_eq hoffset]
  have hlone := hedges offset
  simp only [EventLogAnalysisSession.loneEdgePage] at hlone
  generalize hreserved : session.reservedEdgePage timeline offset = reserved at hlone ⊢
  have hfixed : reserved.fixedBytes ≤ 412 := by
    rw [← hreserved]
    exact fixedBytes_reservedEdgePage h hstart
  have hempty : byteLen reserved.json = reserved.fixedBytes + 20 + 20 := by
    rw [byteLen_edgePage, ← hreserved]
    simp only [EventLogAnalysisSession.reservedEdgePage, weight_nil, byteLen_next_max, digits_u64Max]
  have hwide : 99 ≤ reserved.fixedBytes := by
    have hid : 2 ≤ byteLen (jsonString reserved.sessionId) := by
      have hquote : ('"' : Char).utf8Size = 1 := rfl
      rw [jsonString, byteLen_cons, byteLen_append, byteLen_cons, hquote]
      omega
    have hrevision := digits_pos reserved.revision.toNat
    have hoffset := digits_pos reserved.offset
    have htotal := digits_pos reserved.totalEdges.toNat
    rw [EventLogAnalysisEdgePage.fixedBytes]
    omega
  have hone : (timeline.edges.drop offset).take limit ≠ [] → ∃ n, n = byteLen
      ({ reserved with
        edges := ((timeline.edges.drop offset).take limit).take 1
        nextOffset := if offset + 1 < timeline.edges.length then some (offset + 1) else none
        serializedBytes := n } : EventLogAnalysisEdgePage).json ∧
      n ≤ maxAnalysisTimelinePageBytes := by
    intro hsome
    rw [← List.length_pos_iff, List.length_take, List.length_drop] at hsome
    obtain ⟨n, hn, hnle⟩ := hlone (by omega)
    refine ⟨n, ?_, hnle⟩
    rw [List.take_take, Nat.min_eq_left hlimit.1]
    exact hn
  obtain ⟨k, n, hfill, hle, hpos, hn, hnle, -, -⟩ := @fillResponse_spec _ _ Wire.edge
    EventLogAnalysisEdgePage.json ((timeline.edges.drop offset).take limit)
    reserved.fixedBytes 20 maxAnalysisTimelinePageBytes
    (fun k => byteLen (jsonOption decimal
      (if offset + k < timeline.edges.length then some (offset + k) else none)))
    (fun selected serializedBytes =>
      { reserved with
        edges := ((timeline.edges.drop offset).take limit).take selected
        nextOffset := if offset + selected < timeline.edges.length then some (offset + selected)
          else none
        serializedBytes := serializedBytes })
    hrows (fun k n => byteLen_edgePage _) (fun k => byteLen_next_le h.edgesLength _) hwide
    (by rw [FitsReserved]; omega) hone "correlation edge".toList "edge page".toList
  rw [hempty, hfill]
  have hlength : (((timeline.edges.drop offset).take limit).take k).length = k := by
    rw [List.length_take]
    omega
  refine ⟨_, rfl, ⟨?_, ?_, ?_, ?_⟩, hn, hnle⟩
  · exact (List.take_prefix _ _).trans (List.take_prefix _ _)
  · show (((timeline.edges.drop offset).take limit).take k).length ≤ limit
    rw [List.length_take] at hle
    omega
  · intro hlt
    have hsome : (timeline.edges.drop offset).take limit ≠ [] := by
      rw [← List.length_pos_iff, List.length_take, List.length_drop]
      have := hlimit.1
      omega
    have := hpos hsome
    show ((timeline.edges.drop offset).take limit).take k ≠ []
    rw [← List.length_pos_iff]
    omega
  · show _ = if offset + (((timeline.edges.drop offset).take limit).take k).length < _ then
      some (offset + (((timeline.edges.drop offset).take limit).take k).length) else none
    rw [hlength]
    rfl

end

end EventLog
end CmTrace
